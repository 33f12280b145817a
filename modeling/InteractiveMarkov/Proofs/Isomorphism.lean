import InteractiveMarkov.Proofs.Classes
import InteractiveMarkov.Proofs.Renaming

set_option autoImplicit false

namespace InteractiveMarkov

def Transition.map (f : Nat → Nat) (transition : Transition) : Transition :=
  ⟨f transition.source, transition.label, f transition.target⟩

/-- The map is a bijection of states that keeps everything but their numbers. -/
structure Chain.Isomorphism (f : Nat → Nat) (x y : Chain) : Prop where
  states : Set.BijOn f (Set.Icc 1 x.stateCount) (Set.Icc 1 y.stateCount)
  initial : f x.initial = y.initial
  status : ∀ n ∈ Set.Icc 1 x.stateCount, y.status? (f n) = x.status? n
  transitions : (x.transitions.map (Transition.map f)).Perm y.transitions

theorem perm_map_of_mem {l m : List StateId} {g : StateId → StateId} (hl : l.Nodup) (hm : m.Nodup)
    (hinj : ∀ s ∈ l, ∀ t ∈ l, g s = g t → s = t) (hmem : ∀ t, t ∈ m ↔ ∃ s ∈ l, g s = t) :
    m.Perm (l.map g) := by
  apply (List.perm_ext_iff_of_nodup hm (List.Nodup.map_on hinj hl)).2
  intro t
  rw [hmem, List.mem_map]

theorem perm_map_of_injective {l m : List StateId} {g : StateId → StateId}
    (hg : Function.Injective g) (hl : l.Nodup) (hm : m.Nodup) (hmem : ∀ t, t ∈ m ↔ ∃ s ∈ l, g s = t) :
    m.Perm (l.map g) :=
  perm_map_of_mem hl hm (fun _ _ _ _ heq => hg heq) hmem

namespace Chain.Isomorphism

variable {f : Nat → Nat} {x y : Chain}

theorem perm_states (h : Isomorphism f x y) : y.states.Perm (x.states.map f) := by
  have hmem : ∀ (chain : Chain) (n : Nat), n ∈ chain.states ↔ n ∈ Set.Icc 1 chain.stateCount := by
    intro chain n
    rw [Chain.states, List.mem_range'_1, Set.mem_Icc]
    omega
  apply perm_map_of_mem List.nodup_range' List.nodup_range'
  · intro n hn m hm heq
    exact h.states.injOn ((hmem x n).1 hn) ((hmem x m).1 hm) heq
  · intro m
    constructor
    · intro hm
      obtain ⟨n, hn, heq⟩ := h.states.surjOn ((hmem y m).1 hm)
      exact ⟨n, (hmem x n).2 hn, heq⟩
    · rintro ⟨n, hn, rfl⟩
      exact (hmem y _).2 (h.states.mapsTo ((hmem x n).1 hn))

theorem length_failedStates (h : Isomorphism f x y) :
    y.failedStates.length = x.failedStates.length := by
  have hcount : y.states.countP y.isFailed = x.states.countP x.isFailed := by
    rw [h.perm_states.countP_eq, List.countP_map]
    apply List.countP_congr
    intro n hn
    rw [Chain.states, List.mem_range'_1] at hn
    have hstatus := h.status n ⟨hn.1, by omega⟩
    rw [Function.comp_apply, Chain.isFailed, Chain.isFailed, hstatus]
  rw [Chain.failedStates, Chain.failedStates, ← List.countP_eq_length_filter, hcount,
    List.countP_eq_length_filter]

end Chain.Isomorphism

theorem perm_flatMap_filter {α : Type} (key : α → StateId) {keys : List StateId}
    (hkeys : keys.Nodup) {l : List α} (h : ∀ x ∈ l, key x ∈ keys) :
    l.Perm (keys.flatMap fun k => l.filter (key · = k)) := by
  induction l with
  | nil => simp
  | cons x rest ih =>
    have hsplit : (keys.flatMap fun k => (x :: rest).filter (key · = k)) =
        keys.flatMap fun k => (if k = key x then [x] else []) ++ rest.filter (key · = k) := by
      apply List.flatMap_congr
      intro k _
      by_cases hk : key x = k
      · simp [hk]
      · simp [hk, Ne.symm hk]
    have hfirst := Automaton.flatMap_ite_eq hkeys (h x List.mem_cons_self) [x]
    rw [hsplit]
    refine List.Perm.trans ?_ (List.flatMap_append_perm keys _ _)
    rw [hfirst]
    exact (ih fun y hy => h y (List.mem_cons_of_mem x hy)).cons x

namespace Automaton

variable {a b : Automaton} {names : Vocabulary} {p : StateId → StateId} {x y : Prepared}
  {s t : StateId} {identical : Bool}

theorem Prepares.transitions_perm (h : a.Prepares names x) (identical : Bool) :
    (x.chain a.initial identical).transitions.Perm
      ((x.merge identical).live.toList.flatMap fun s => (a.delays names s).map fun edge =>
        ⟨rank (x.merge identical).live s, delayLabel edge.label,
          rank (x.merge identical).live (x.target identical edge.target)⟩) := by
  have hkeys : ((x.merge identical).live.toList.map (rank (x.merge identical).live)).Nodup := by
    apply List.Nodup.map_on _ (nodup_toList _)
    intro s hs t ht heq
    exact (rank_inj (Std.ExtTreeSet.mem_toList.1 hs) (Std.ExtTreeSet.mem_toList.1 ht)).1 heq
  have hsource : ∀ transition ∈ (x.chain a.initial identical).transitions, transition.source ∈
      (x.merge identical).live.toList.map (rank (x.merge identical).live) := by
    intro transition hmem
    obtain ⟨kept, hkept, rfl⟩ := List.mem_map.1 hmem
    refine List.mem_map.2 ⟨kept.source, ?_, rfl⟩
    exact Std.ExtTreeSet.mem_toList.2 (of_decide_eq_true (List.mem_filter.1 hkept).2)
  refine (perm_flatMap_filter Transition.source hkeys hsource).trans (List.Perm.of_eq ?_)
  rw [List.flatMap_map]
  apply List.flatMap_congr
  intro s hs
  exact h.transitions_eq a.initial identical (Std.ExtTreeSet.mem_toList.1 hs)

/-- Merged states are told apart by no map under which equal statuses and equal delays give equal
    values. -/
theorem Prepares.merged_least (h : a.Prepares names x) {c : StateId → Nat}
    (hc : ∀ s t, a.Live names s → a.Live names t →
      x.statuses.resolved s = x.statuses.resolved t →
      ((a.delays names s).map fun edge => (delayLabel edge.label, c (x.resolve edge.target))).Perm
        ((a.delays names t).map fun edge => (delayLabel edge.label, c (x.resolve edge.target))) →
      c s = c t)
    (hs : a.Live names s) (ht : a.Live names t)
    (heq : (x.merge true).representative s = (x.merge true).representative t) : c s = c t := by
  have hget := getElem?_ofList_map x.found.live c
  generalize (Std.ExtTreeMap.ofList (x.found.live.toList.map fun s => (s, c s)) : StateMap Nat) =
    coarse at hget
  have hcovers : ∀ s, s ∈ coarse ↔ s ∈ x.found.live := by
    intro s
    rw [Std.ExtTreeMap.mem_iff_isSome_getElem?, hget]
    by_cases hs : s ∈ x.found.live <;> simp [hs]
  have hkey : ∀ s, a.Live names s → mergeKey x.found.live x.found.edges.toList x.resolve x.statuses
      coarse s = StateKey.of (x.statuses.resolved s) ((a.delays names s).map fun edge =>
        (delayLabel edge.label, c (x.resolve edge.target))) := by
    intro s hs
    rw [mergeKey, h.getD_liveEdges hs, keyOver, List.filterMap_map, ← List.filterMap_eq_map]
    apply congrArg
    apply List.filterMap_congr
    intro edge hedge
    simp only [Function.comp_apply, hget, if_pos (h.live_resolve (hs.reached_target hedge))]
    rfl
  have hlive := fun s => h.explored.mem_live (s := s)
  have hclass := mergeIdentical_least _ _ _ hcovers (fun s hs t ht hsame => ?_)
    ((hlive s).2 hs) ((hlive t).2 ht) heq
  · rw [hget, hget, if_pos ((hlive s).2 hs), if_pos ((hlive t).2 ht)] at hclass
    exact Option.some.inj hclass
  · rw [hlive] at hs ht
    rw [hkey s hs, hkey t ht, StateKey.of_eq_iff] at hsame
    rw [hget, hget, if_pos ((hlive s).2 hs), if_pos ((hlive t).2 ht),
      hc s t hs ht hsame.1 hsame.2]

namespace Renames

section Classes

variable (h : Renames names p a b) (hx : a.Prepares names x) (hy : b.Prepares names y)

include h hx

theorem live_map (hs : a.Live names s) : b.Live names (p s) :=
  (h.live_iff hx.explored.uniform).2 ⟨s, hs, rfl⟩

include hy

theorem delays_perm {α : Type} (g : StateId → α) (hs : a.Live names s) :
    ((a.delays names s).map fun edge => (delayLabel edge.label, g (p (x.resolve edge.target)))).Perm
      ((b.delays names (p s)).map fun edge => (delayLabel edge.label, g (y.resolve edge.target))) := by
  have hperm := (h.delays s hs.2).map fun entry => (entry.1, g (y.resolve entry.2))
  rw [List.map_map, List.map_map] at hperm
  refine (List.Perm.of_eq (List.map_congr_left fun edge hedge => ?_)).trans hperm
  simp only [Function.comp_apply, h.resolve_eq hx hy (hs.reached_target hedge)]

theorem merged_map (hs : a.Live names s) (ht : a.Live names t)
    (heq : (x.merge identical).representative s = (x.merge identical).representative t) :
    (y.merge identical).representative (p s) = (y.merge identical).representative (p t) := by
  cases identical with
  | false =>
    have hself : ∀ s, (x.merge false).representative s = s := (represents_trivial _).2
    rw [hself, hself] at heq
    rw [heq]
  | true =>
    refine hx.merged_least (c := fun s => (y.merge true).representative (p s))
      (fun s t hs ht hstatus hperm => ?_) hs ht heq
    apply (hy.merged_iff (h.live_map hx hs) (h.live_map hx ht)).2
    rw [h.resolved_eq hx hy hs, h.resolved_eq hx hy ht]
    have hdelays := fun {s} (hs : a.Live names s) =>
      h.delays_perm hx hy (y.merge true).representative hs
    exact ⟨hstatus, (hdelays hs).symm.trans (hperm.trans (hdelays ht))⟩

theorem merged_back (hs : a.Live names s) (ht : a.Live names t)
    (heq : (y.merge identical).representative (p s) = (y.merge identical).representative (p t)) :
    (x.merge identical).representative s = (x.merge identical).representative t := by
  cases identical with
  | false =>
    have hself : ∀ s, (y.merge false).representative s = s := (represents_trivial _).2
    rw [hself, hself] at heq
    rw [h.injective heq]
  | true =>
    -- the classes of the first automaton, read along the inverse, tell no two states apart that
    -- the merged states of the second one join
    have hinv : ∀ s, Function.invFun p (p s) = s := Function.leftInverse_invFun h.injective
    have hclass := hy.merged_least
      (c := fun t => (x.merge true).representative (Function.invFun p t))
      (fun t t' ht ht' hstatus hperm => ?_) (h.live_map hx hs) (h.live_map hx ht) heq
    · simpa only [hinv] using hclass
    · obtain ⟨s, hs, rfl⟩ := (h.live_iff hx.explored.uniform).1 ht
      obtain ⟨s', hs', rfl⟩ := (h.live_iff hx.explored.uniform).1 ht'
      rw [h.resolved_eq hx hy hs, h.resolved_eq hx hy hs'] at hstatus
      have hdelays := fun {s} (hs : a.Live names s) =>
        h.delays_perm hx hy (fun t => (x.merge true).representative (Function.invFun p t)) hs
      have hboth := (hdelays hs).trans (hperm.trans (hdelays hs').symm)
      simp only [hinv] at hboth ⊢
      exact (hx.merged_iff hs hs').2 ⟨hstatus, hboth⟩

def image (p : StateId → StateId) (y : Prepared) (identical : Bool) (s : StateId) : StateId :=
  (y.merge identical).representative (p s)

theorem image_mem (identical : Bool) (hs : a.Live names s) :
    image p y identical s ∈ (y.merge identical).live :=
  (represents_merge y identical).mem_live (hy.explored.mem_live.2 (h.live_map hx hs))

theorem image_representative (identical : Bool) (hs : a.Live names s) :
    image p y identical ((x.merge identical).representative s) = image p y identical s := by
  have hrep := represents_merge x identical
  have hlive := hx.explored.mem_live.2 hs
  exact h.merged_map hx hy (hx.explored.mem_live.1 (hrep.mem s hlive)) hs (hrep.idem s hlive)

theorem image_inj (hs : s ∈ (x.merge identical).live) (ht : t ∈ (x.merge identical).live)
    (heq : image p y identical s = image p y identical t) : s = t := by
  obtain ⟨hlive, hself⟩ := (represents_merge x identical).fixed hs
  obtain ⟨hlive', hself'⟩ := (represents_merge x identical).fixed ht
  have hclass := h.merged_back hx hy (hx.explored.mem_live.1 hlive)
    (hx.explored.mem_live.1 hlive') heq
  rwa [hself, hself'] at hclass

theorem mem_image : t ∈ (y.merge identical).live ↔
    ∃ s ∈ (x.merge identical).live, image p y identical s = t := by
  have hrep := represents_merge x identical
  constructor
  · intro ht
    obtain ⟨hlive, hself⟩ := (represents_merge y identical).fixed ht
    obtain ⟨s, hs, rfl⟩ := (h.mem_live hx hy).1 hlive
    refine ⟨(x.merge identical).representative s, hrep.mem_live hs, ?_⟩
    rw [h.image_representative hx hy identical (hx.explored.mem_live.1 hs)]
    exact hself
  · rintro ⟨s, hs, rfl⟩
    exact h.image_mem hx hy identical (hx.explored.mem_live.1 (hrep.fixed hs).1)

theorem image_target (identical : Bool) (hs : a.Reached names s) :
    image p y identical (x.target identical s) = y.target identical (p s) := by
  rw [Prepared.target, h.image_representative hx hy identical (hs.live (hx.settles s hs)), image,
    Prepared.target, h.resolve_eq hx hy hs]

theorem perm_live (identical : Bool) : (y.merge identical).live.toList.Perm
    ((x.merge identical).live.toList.map (image p y identical)) := by
  apply perm_map_of_mem (nodup_toList _) (nodup_toList _)
  · intro s hs t ht
    rw [Std.ExtTreeSet.mem_toList] at hs ht
    exact h.image_inj hx hy hs ht
  · intro t
    simp only [Std.ExtTreeSet.mem_toList]
    exact h.mem_image hx hy

/-- If the map keeps the order of the live states, classes keep their smallest states. -/
theorem image_eq (hp : StrictMonoOn p {s | a.Live names s}) (hs : s ∈ (x.merge identical).live) :
    image p y identical s = p s := by
  obtain ⟨hlive, hself⟩ := (represents_merge x identical).fixed hs
  have hlive' := hx.explored.mem_live.1 hlive
  have himage := hy.explored.mem_live.2 (h.live_map hx hlive')
  have hle := (represents_merge y identical).le _ himage
  -- the representative of the image is itself an image, of a state merged with this one
  obtain ⟨r, hr, hfirst⟩ := (h.mem_live hx hy).1 ((represents_merge y identical).mem _ himage)
  have hclass : (x.merge identical).representative r = (x.merge identical).representative s := by
    apply h.merged_back hx hy (hx.explored.mem_live.1 hr) hlive'
    rw [hfirst]
    exact (represents_merge y identical).idem _ himage
  have hsmall : s ≤ r := by
    rw [← hself, ← hclass]
    exact (represents_merge x identical).le r hr
  have hge := hp.monotoneOn hlive' (hx.explored.mem_live.1 hr) hsmall
  rw [hfirst] at hge
  exact Nat.le_antisymm hle hge

theorem rank_image (hp : StrictMonoOn p {s | a.Live names s})
    (hs : s ∈ (x.merge identical).live) :
    rank (y.merge identical).live (image p y identical s) = rank (x.merge identical).live s := by
  have hlive : ∀ {t}, t ∈ (x.merge identical).live → a.Live names t :=
    fun ht => hx.explored.mem_live.1 ((represents_merge x identical).fixed ht).1
  rw [rank, rank, (h.perm_live hx hy identical).countP_eq, List.countP_map]
  congr 1
  apply List.countP_congr
  intro t ht
  rw [Std.ExtTreeSet.mem_toList] at ht
  rw [Function.comp_apply, h.image_eq hx hy hp ht, h.image_eq hx hy hp hs, decide_eq_true_eq,
    decide_eq_true_eq]
  exact hp.lt_iff_lt (hlive ht) (hlive hs)

end Classes

end Renames

theorem Prepares.representative_same (h : a.Prepares names x) (identical : Bool)
    (hs : a.Live names s) :
    x.statuses.resolved s = x.statuses.resolved ((x.merge identical).representative s) ∧
    ((a.delays names s).map fun edge =>
      (delayLabel edge.label, x.target identical edge.target)).Perm
    ((a.delays names ((x.merge identical).representative s)).map fun edge =>
      (delayLabel edge.label, x.target identical edge.target)) := by
  cases identical with
  | false =>
    have hself : (x.merge false).representative s = s := (represents_trivial _).2 s
    rw [hself]
    exact ⟨rfl, .refl _⟩
  | true => exact h.same_as_representative hs

namespace Renames

section Chains

variable (h : Renames names p a b) (hx : a.Prepares names x) (hy : b.Prepares names y)

include h hx hy

theorem outgoing_perm {f : Nat → Nat}
    (hf : ∀ s ∈ (x.merge identical).live, f (rank (x.merge identical).live s) =
      rank (y.merge identical).live (image p y identical s))
    (hs : s ∈ (x.merge identical).live) :
    (((a.delays names s).map fun edge => (⟨rank (x.merge identical).live s, delayLabel edge.label,
        rank (x.merge identical).live (x.target identical edge.target)⟩ : Transition)).map
          (Transition.map f)).Perm
      ((b.delays names (image p y identical s)).map fun edge =>
        ⟨rank (y.merge identical).live (image p y identical s), delayLabel edge.label,
          rank (y.merge identical).live (y.target identical edge.target)⟩) := by
  have hlive := hx.explored.mem_live.1 ((represents_merge x identical).fixed hs).1
  have hfirst := h.delays_perm hx hy (y.merge identical).representative hlive
  have hboth := (hfirst.trans (hy.representative_same identical (h.live_map hx hlive)).2).map
    fun entry => (⟨rank (y.merge identical).live (image p y identical s), entry.1,
      rank (y.merge identical).live entry.2⟩ : Transition)
  rw [List.map_map, List.map_map] at hboth
  refine (List.Perm.of_eq ?_).trans hboth
  rw [List.map_map]
  apply List.map_congr_left
  intro edge hedge
  have hreached := hlive.reached_target hedge
  have htarget : (y.merge identical).representative (p (x.resolve edge.target)) =
      y.target identical (p edge.target) := by
    rw [Prepared.target, h.resolve_eq hx hy hreached]
  simp only [Function.comp_apply, Transition.map, hf s hs, hf _ (hx.target_mem identical hreached),
    h.image_target hx hy identical hreached, htarget]

theorem isomorphism {f : Nat → Nat}
    (hf : ∀ s ∈ (x.merge identical).live, f (rank (x.merge identical).live s) =
      rank (y.merge identical).live (image p y identical s)) :
    Chain.Isomorphism f (x.chain a.initial identical) (y.chain b.initial identical) := by
  have hplace : ∀ n ∈ Set.Icc 1 (x.chain a.initial identical).stateCount,
      ∃ s ∈ (x.merge identical).live, rank (x.merge identical).live s = n :=
    fun n hn => exists_rank hn.1 hn.2
  have hmem : ∀ s ∈ (x.merge identical).live,
      image p y identical s ∈ (y.merge identical).live := fun s hs => (h.mem_image hx hy).2 ⟨s, hs, rfl⟩
  -- every number is that of a remaining state, so the map of numbers is the one of these states
  refine ⟨⟨fun n hn => ?_, fun n hn m hm heq => ?_, fun n hn => ?_⟩, ?_, fun n hn => ?_, ?_⟩
  · obtain ⟨s, hs, rfl⟩ := hplace n hn
    rw [hf s hs]
    exact rank_mem (hmem s hs)
  · obtain ⟨s, hs, rfl⟩ := hplace n hn
    obtain ⟨t, ht, rfl⟩ := hplace m hm
    rw [hf s hs, hf t ht, rank_inj (hmem s hs) (hmem t ht)] at heq
    rw [h.image_inj hx hy hs ht heq]
  · obtain ⟨t, ht, rfl⟩ := exists_rank hn.1 hn.2
    obtain ⟨s, hs, rfl⟩ := (h.mem_image hx hy).1 ht
    exact ⟨rank (x.merge identical).live s, rank_mem hs, hf s hs⟩
  · have hinitial := h.image_target hx hy identical .initial
    rw [← h.initial] at hinitial
    rw [Prepared.chain, Prepared.chain, hf _ (hx.target_mem identical .initial), hinitial]
  · obtain ⟨s, hs, rfl⟩ := hplace n hn
    have hlive := hx.explored.mem_live.1 ((represents_merge x identical).fixed hs).1
    have hfine : (x.chain a.initial identical).status? (rank (x.merge identical).live s) =
        some (x.statuses.resolved s) := status?_rank rfl hs
    have hcoarse : (y.chain b.initial identical).status?
        (rank (y.merge identical).live (image p y identical s)) =
        some (y.statuses.resolved (image p y identical s)) := status?_rank rfl (hmem s hs)
    rw [hf s hs, hfine, hcoarse, ← h.resolved_eq hx hy hlive]
    exact congrArg some (hy.representative_same identical (h.live_map hx hlive)).1.symm
  · have hx' := (hx.transitions_perm identical).map (Transition.map f)
    have hy' := hy.transitions_perm identical
    refine hx'.trans (List.Perm.trans ?_ ((h.perm_live hx hy identical).flatMap_right _).symm) |>.trans
      hy'.symm
    rw [List.map_flatMap, List.flatMap_map]
    apply List.Perm.flatMap_left
    intro s hs
    exact h.outgoing_perm hx hy hf (Std.ExtTreeSet.mem_toList.1 hs)

end Chains

end Renames

end Automaton

end InteractiveMarkov
