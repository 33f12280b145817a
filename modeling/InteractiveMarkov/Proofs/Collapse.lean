import InteractiveMarkov.Proofs.Redirect

/-!
# What collapsing leaves and what it blames

Collapsing rewrites the redirects while it follows them. Its result is said here in terms of the
redirects and statuses it started from alone: `Straightened` for what it leaves if it succeeds, and
`Blames` for what its error means. Collapsing a second time changes nothing. A chain that never
ends keeps its redirects, so a cycle that is found in the midst of the rewriting was there from the
start. No walk follows more redirects than there are.
-/

set_option autoImplicit false

namespace InteractiveMarkov.RedirectMap

section Outcomes

variable (m : RedirectMap) (table : StatusTable)

def IsEnd (c : StateId) : Prop := ∃ s ∈ m, Ends m s c

/-- The redirects and statuses that are left where every redirect points at the end of its chain,
    and the end has the status of its basin. -/
structure Straightened (after : RedirectMap) (statuses : StatusTable) : Prop where
  sources : ∀ s, s ∈ after ↔ s ∈ m
  labels : ∀ s : StateId, after[s]?.map Redirect.label = m[s]?.map Redirect.label
  resolve : ∀ s c, after.resolve s = c ↔ Ends m s c
  collapsed : after.isCollapsed = true
  ends : ∀ c, IsEnd m c → ∀ x, statuses[c]? = some x ↔ Basin m table c x
  others : ∀ s : StateId, ¬ IsEnd m s → statuses[s]? = table[s]?
  again : ∀ initial, after.collapse initial statuses = ⟨after, statuses, none⟩

/-- What an error of collapsing means. No other errors arise. -/
def Blames (initial : StateId) : Error → Prop
  | .initialCycle s => s = initial ∧ ∀ c, ¬ Ends m initial c
  | .redirectCycle s => (∃ c, Ends m initial c) ∧ Relation.TransGen (Points m) s s
  | .conflict c existing incoming _ => existing ≠ incoming ∧ IsEnd m c ∧
      Basin m table c existing ∧ Basin m table c incoming
  | _ => False

/-- A walk that is cut off after a number of states. -/
def walkWithin : Nat → Search → StateId → Option Walk
  | 0, _, _ => none
  | steps + 1, passed, s =>
    match m[s]? with
    | none => some (.settles passed.order.toList s)
    | some redirect =>
      if s ∈ passed.seen then some (.returns s)
      else walkWithin steps (passed.meet s) redirect.target

end Outcomes

variable {m after : RedirectMap} {table statuses : StatusTable} {s t c : StateId} {x y : Status}

theorem basin_of_none (hs : m[s]? = none) (hx : table[s]? = some x) : Basin m table s x :=
  ⟨s, .stop hs, hx⟩

theorem IsEnd.none (h : IsEnd m c) : m[c]? = none := by
  obtain ⟨s, -, hend⟩ := h
  exact ends_final hend

theorem known_of_basin (hc : ¬ IsEnd m c) (h : Basin m table c x) : table[c]? = some x := by
  obtain ⟨s, hend, hx⟩ := h
  cases hs : m[s]? with
  | none =>
    obtain rfl := (ends_of_none hs).1 hend
    exact hx
  | some redirect => exact absurd ⟨s, StateMap.mem_of_getElem? hs, hend⟩ hc

theorem isEnd_of_basin (hx : Basin m table c x) (hy : Basin m table c y) (hne : x ≠ y) :
    IsEnd m c := by
  by_contra hc
  exact hne (Option.some.inj ((known_of_basin hc hx).symm.trans (known_of_basin hc hy)))

theorem ends_resolve_iff (h : ∀ s, after[after.resolve s]? = none) :
    Ends after s c ↔ after.resolve s = c := by
  have hend : Ends after s (after.resolve s) := by
    have hfinal := h s
    unfold resolve at hfinal ⊢
    split
    · rename_i redirect hsome
      rw [hsome] at hfinal
      exact .step hsome (.stop hfinal)
    · rename_i hnone
      exact .stop hnone
  exact ⟨fun hc => ends_unique hend hc, fun hc => hc ▸ hend⟩

theorem eq_of_labels_of_resolve {last : RedirectMap}
    (hlabels : ∀ s : StateId, last[s]?.map Redirect.label = after[s]?.map Redirect.label)
    (hresolve : ∀ s, last.resolve s = after.resolve s) : last = after := by
  refine Std.ExtTreeMap.ext_getElem? fun s => ?_
  have hlabel := hlabels s
  have htarget := hresolve s
  unfold resolve at htarget
  cases hl : last[s]? with
  | none =>
    rw [hl, Option.map_none, eq_comm, Option.map_eq_none_iff] at hlabel
    exact hlabel.symm
  | some redirect =>
    cases ha : after[s]? with
    | none =>
      rw [hl, ha] at hlabel
      cases hlabel
    | some old =>
      simp only [hl, ha] at hlabel htarget
      obtain ⟨target, label⟩ := redirect
      obtain ⟨oldTarget, oldLabel⟩ := old
      obtain rfl := Option.some.inj hlabel
      obtain rfl := htarget
      rfl

/-- Where redirects point at ends and each end has the statuses of its basin, collapsing changes
    nothing. -/
theorem collapse_unchanged (initial : StateId) (hfinal : ∀ s, after[after.resolve s]? = none)
    (hbasin : ∀ c x, Basin after statuses c x → statuses[c]? = some x) :
    after.collapse initial statuses = ⟨after, statuses, none⟩ := by
  have hfault : (after.collapse initial statuses).fault = none := by
    refine (collapse_none_iff after initial statuses).2 ⟨fun s => ⟨after.resolve s, ?_⟩,
      fun c x y hx hy => ?_⟩
    · exact (ends_resolve_iff hfinal).2 rfl
    · exact Option.some.inj ((hbasin c x hx).symm.trans (hbasin c y hy))
  rcases hrun : after.collapse initial statuses with ⟨last, next, fault⟩
  rw [hrun] at hfault
  obtain rfl : fault = none := hfault
  obtain ⟨hends, hlabels, hget⟩ := collapse_none hrun
  have hsame : last = after := eq_of_labels_of_resolve hlabels fun s =>
    ((ends_resolve_iff hfinal).1 (hends s)).symm
  have hnext : next = statuses := by
    refine Std.ExtTreeMap.ext_getElem? fun s => Option.ext fun x => ?_
    exact (hget s x).trans ⟨fun h => h.elim id (hbasin s x), .inl⟩
  rw [hsame, hnext]

theorem straightened_of_none {initial : StateId}
    (h : m.collapse initial table = ⟨after, statuses, none⟩) :
    Straightened m table after statuses := by
  obtain ⟨hends, hlabels, hget⟩ := collapse_none h
  have hsources : ∀ s, s ∈ after ↔ s ∈ m := by
    intro s
    rw [Std.ExtTreeMap.mem_iff_isSome_getElem?, Std.ExtTreeMap.mem_iff_isSome_getElem?,
      ← Option.isSome_map (f := Redirect.label), hlabels s, Option.isSome_map]
  have hfinal : ∀ s, after[after.resolve s]? = none := by
    intro s
    rw [StateMap.getElem?_eq_none_iff, hsources, ← StateMap.getElem?_eq_none_iff]
    exact ends_final (hends s)
  have hsame : ∀ s c, Ends after s c ↔ Ends m s c := fun s c =>
    (ends_resolve_iff hfinal).trans
      ⟨fun hc => hc ▸ hends s, fun hc => ends_unique (hends s) hc⟩
  refine ⟨hsources, hlabels, fun s c => ?_, ?_, fun c hc x => ?_, fun s hs => ?_,
    fun initial => collapse_unchanged initial hfinal fun c x hx => ?_⟩
  · exact (ends_resolve_iff hfinal).symm.trans (hsame s c)
  · refine List.all_eq_true.2 fun entry hentry => ?_
    have hsome : after[entry.1]? = some entry.2 :=
      Std.ExtTreeMap.mem_toList_iff_getElem?_eq_some.1 hentry
    have htarget : after.resolve entry.1 = entry.2.target := by simp only [resolve, hsome]
    rw [StateMap.not_contains, ← htarget, ← StateMap.getElem?_eq_none_iff]
    exact hfinal entry.1
  · rw [hget c x]
    exact ⟨fun hx => hx.elim (basin_of_none hc.none) id, .inr⟩
  · refine Option.ext fun x => (hget s x).trans ⟨fun hx => ?_, .inl⟩
    exact hx.elim id (known_of_basin hs)
  · -- a member of the basin has a status of its own, or the one of the end that it is
    obtain ⟨u, hend, hu⟩ := hx
    rw [hsame] at hend
    rcases (hget u x).1 hu with hu | hu
    · exact (hget c x).2 (.inr ⟨u, hend, hu⟩)
    · obtain ⟨v, hv, -⟩ := hu
      obtain rfl := (ends_of_none (ends_final hv)).1 hend
      assumption

/-- Collapsing succeeds exactly if the chain of every redirected state ends and no end has members
    with different statuses in its basin. Then it leaves what is straightened. -/
theorem collapse_exact (m : RedirectMap) (initial : StateId) (table : StatusTable) :
    ((m.collapse initial table).fault = none ↔ (∀ s ∈ m, ∃ c, Ends m s c) ∧
      ∀ c, IsEnd m c → ∀ x y, Basin m table c x → Basin m table c y → x = y) ∧
    ((m.collapse initial table).fault = none → Straightened m table
      (m.collapse initial table).redirects (m.collapse initial table).statuses) := by
  refine ⟨(collapse_none_iff m initial table).trans (and_congr ?_ ?_), fun h => ?_⟩
  · refine ⟨fun h s _ => h s, fun h s => ?_⟩
    by_cases hs : s ∈ m
    · exact h s hs
    · exact ⟨s, .stop (Std.ExtTreeMap.getElem?_eq_none hs)⟩
  · refine ⟨fun h c _ => h c, fun h c x y hx hy => ?_⟩
    by_contra hne
    exact hne (h c (isEnd_of_basin hx hy hne) x y hx hy)
  · have hrun : m.collapse initial table =
        ⟨(m.collapse initial table).redirects, (m.collapse initial table).statuses, none⟩ := by
      rw [← h]
    exact straightened_of_none hrun

def rivers : RedirectMap :=
  Std.ExtTreeMap.ofList ([(0, ⟨1, "FAIL"⟩), (1, ⟨2, "i"⟩), (4, ⟨1, "i"⟩), (7, ⟨8, "REPAIR"⟩)] :
    List (StateId × Redirect))

def riverStatuses : StatusTable :=
  Std.ExtTreeMap.ofList ([(1, .failed), (8, .operational)] : List (StateId × Status))

theorem rivers_straightened : (rivers.collapse 0 riverStatuses).fault = none ∧
    Straightened rivers riverStatuses (rivers.collapse 0 riverStatuses).redirects
      (rivers.collapse 0 riverStatuses).statuses ∧
    Ends rivers 4 2 ∧ Basin rivers riverStatuses 2 .failed := by
  have hfault : (rivers.collapse 0 riverStatuses).fault = none := by decide +kernel
  have hresolve : (rivers.collapse 0 riverStatuses).redirects.resolve 4 = 2 := by decide +kernel
  have hstatus : (rivers.collapse 0 riverStatuses).statuses[2]? = some .failed := by
    decide +kernel
  have hafter := (collapse_exact rivers 0 riverStatuses).2 hfault
  have hend := (hafter.resolve 4 2).1 hresolve
  exact ⟨hfault, hafter, hend, (hafter.ends 2 ⟨4, by decide +kernel, hend⟩ .failed).1 hstatus⟩

/-- A chain that never ends keeps its redirects. -/
theorem getElem?_collapseFrom {initial : StateId} {sources : List StateId}
    (hs : ∀ c, ¬ Ends m s c) :
    (collapseFrom initial sources m table).redirects[s]? = m[s]? := by
  -- on the sources; the states of a path that settles are none of those that never end
  induction sources generalizing m table with
  | nil => rfl
  | cons source rest ih =>
    unfold collapseFrom
    split
    · rfl
    · rename_i path final hwalk
      obtain ⟨-, -, hpath⟩ := walkFrom_settles hwalk
      split
      · rfl
      · rename_i next hrun
        have hout : s ∉ path := fun hmem => hs final (hpath s hmem).2
        rw [ih fun c hc => hs c ((ends_retarget hpath).1 hc), getElem?_retarget]
        simp only [if_neg hout, Option.map_id']

theorem path_of_path {last : RedirectMap} (hlast : ∀ s, (∀ c, ¬ Ends m s c) → last[s]? = m[s]?)
    (hs : ∀ c, ¬ Ends m s c) (hpath : Relation.TransGen (Points last) s t) :
    Relation.TransGen (Points m) s t ∧ ∀ c, ¬ Ends m t c := by
  have hstep : ∀ u v, (∀ c, ¬ Ends m u c) → Points last u v →
      Points m u v ∧ ∀ c, ¬ Ends m v c := by
    rintro u v hu ⟨redirect, hsome, rfl⟩
    rw [hlast u hu] at hsome
    exact ⟨⟨redirect, hsome, rfl⟩, fun c hc => hu c (.step hsome hc)⟩
  induction hpath with
  | single hfirst =>
    obtain ⟨hpoint, hend⟩ := hstep _ _ hs hfirst
    exact ⟨.single hpoint, hend⟩
  | tail _ hnext ih =>
    obtain ⟨hpoint, hend⟩ := hstep _ _ ih.2 hnext
    exact ⟨ih.1.tail hpoint, hend⟩

theorem blames_of_some {initial : StateId} {e : Error}
    (h : m.collapse initial table = ⟨after, statuses, some e⟩) : Blames m table initial e := by
  have hlast : ∀ s, (∀ c, ¬ Ends m s c) → after[s]? = m[s]? := by
    intro s hs
    have hkeep : (m.collapse initial table).redirects[s]? = m[s]? := getElem?_collapseFrom hs
    rwa [h] at hkeep
  rcases collapseFrom_some collapseTo_start (fun s hs => Std.ExtTreeMap.mem_of_mem_keys hs) h with
    ⟨s, -, t, found, known, hto, hwalk, rfl⟩ | ⟨c, x, y, cause, hne, hx, hy, rfl⟩
  · obtain ⟨-, hcycle⟩ := walkFrom_returns hwalk
    have hnever : ∀ c, ¬ Ends m t c := fun c hc => not_ends_of_cycle hcycle ((hto.ends t c).2 hc)
    unfold cycleError
    cases hinitial : after.walkFrom initial with
    | returns u => exact ⟨rfl, fun c hc => not_ends_of_returns hinitial ((hto.ends _ c).2 hc)⟩
    | settles path final =>
      exact ⟨⟨final, (hto.ends _ _).1 (walkFrom_settles hinitial).1⟩,
        (path_of_path hlast hnever hcycle).1⟩
  · exact ⟨hne, isEnd_of_basin hx hy hne, hx, hy⟩

theorem walkWithin_eq {passed : Search} {steps : Nat} (h : missing m.keys passed.seen < steps) :
    m.walkWithin steps passed s = some (m.walk passed s) := by
  fun_induction walk m passed s generalizing steps with
  | case1 passed s hnone =>
    obtain ⟨steps, rfl⟩ := Nat.exists_eq_succ_of_ne_zero (Nat.ne_zero_of_lt h)
    simp only [walkWithin, hnone]
  | case2 passed s redirect hsome hseen =>
    obtain ⟨steps, rfl⟩ := Nat.exists_eq_succ_of_ne_zero (Nat.ne_zero_of_lt h)
    simp only [walkWithin, hsome, if_pos hseen]
  | case3 passed s redirect hsome hseen ih =>
    obtain ⟨steps, rfl⟩ := Nat.exists_eq_succ_of_ne_zero (Nat.ne_zero_of_lt h)
    -- a state that is passed for the first time is one redirected state fewer to come
    have hkey : s ∈ m.keys := Std.ExtTreeMap.mem_keys.2 (StateMap.mem_of_getElem? hsome)
    have hmet : (passed.meet s).seen = passed.seen.insert s := by simp [Search.meet, hseen]
    have hless := missing_insert_lt hkey hseen
    simp only [walkWithin, hsome, if_neg hseen]
    refine ih ?_
    rw [hmet]
    omega

theorem walkWithin_size (m : RedirectMap) (s : StateId) :
    m.walkWithin (m.size + 1) Search.start s = some (m.walkFrom s) := by
  refine walkWithin_eq (Nat.lt_succ_of_le ?_)
  rw [← Std.ExtTreeMap.length_keys]
  exact List.countP_le_length

/-- An error of collapsing is about the redirects and statuses at the start, and every walk along
    redirects ends within one state more than there are redirects. -/
theorem collapse_blames (m : RedirectMap) (initial : StateId) (table : StatusTable) :
    (∀ e, (m.collapse initial table).fault = some e → Blames m table initial e) ∧
    ∀ (m : RedirectMap) (s : StateId),
      m.walkWithin (m.size + 1) Search.start s = some (m.walkFrom s) := by
  refine ⟨fun e h => ?_, walkWithin_size⟩
  have hrun : m.collapse initial table =
      ⟨(m.collapse initial table).redirects, (m.collapse initial table).statuses, some e⟩ := by
    rw [← h]
  exact blames_of_some hrun

/-- The chain of state 0 ends and is rewritten before that of state 3 is found to lead into a
    cycle. -/
def whirl : RedirectMap :=
  Std.ExtTreeMap.ofList ([(0, ⟨1, "i"⟩), (1, ⟨2, "i"⟩), (3, ⟨4, "i"⟩), (4, ⟨5, "i"⟩),
    (5, ⟨4, "i"⟩)] : List (StateId × Redirect))

theorem whirl_blames : (whirl.collapse 0 ∅).fault = some (.redirectCycle 4) ∧
    (∃ c, Ends whirl 0 c) ∧ Relation.TransGen (Points whirl) 4 4 := by
  have hfault : (whirl.collapse 0 ∅).fault = some (.redirectCycle 4) := by decide +kernel
  exact ⟨hfault, (collapse_blames whirl 0 ∅).1 _ hfault⟩

end InteractiveMarkov.RedirectMap
