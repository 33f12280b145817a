import InteractiveMarkov.Proofs.Reachability
import InteractiveMarkov.Proofs.Statuses
import Mathlib.Algebra.GroupWithZero.Nat

set_option autoImplicit false

namespace InteractiveMarkov

namespace Step

def Uniform (steps : List Step) : Prop := ∀ step ∈ steps, ∀ other ∈ steps,
  step.isImmediate = true → other.isImmediate = true →
  step.label = other.label ∧ step.target = other.target

/-- The first immediate step gives the state the status. -/
def Demands (steps : List Step) (t : StateId) (x : Status) : Prop :=
  ∃ step, steps.find? isImmediate = some step ∧ step.target = t ∧ step.status? = some x

def redirect? (steps : List Step) : Option Redirect :=
  (steps.find? isImmediate).map fun step => ⟨step.target, step.label⟩

def kept (s : StateId) (steps : List Step) : List KeptEdge :=
  match steps.find? isImmediate with
  | none => steps.filterMap (keptEdge? s)
  | some _ => []

def warned (s : StateId) (steps : List Step) : List Warning :=
  ((steps.find? isImmediate).bind fun step => step.kind.unknownAction?).toList.map
    fun label => ⟨s, label⟩

def lost (steps : List Step) : Nat :=
  match steps.find? isImmediate with
  | none => 0
  | some _ => steps.countP isDelay

theorem filter_isImmediate {steps : List Step} {first : Step} {others : List Step}
    (h : steps.filter isImmediate = first :: others) :
    steps.find? isImmediate = some first := by
  rw [← List.head?_filter, h]
  rfl

theorem differs_iff (first other : Step) :
    first.differs other = true ↔ ¬ (first.label = other.label ∧ first.target = other.target) := by
  unfold differs
  rw [Bool.or_eq_true, bne_iff_ne, bne_iff_ne, not_and_or, ne_comm, ne_comm (a := other.target)]

theorem uniform_iff {steps : List Step} {first : Step} {others : List Step}
    (h : steps.filter isImmediate = first :: others) :
    Uniform steps ↔ others.find? first.differs = none := by
  have hmem : ∀ step, step ∈ first :: others ↔ step ∈ steps ∧ step.isImmediate = true := by
    intro step
    rw [← h, List.mem_filter]
  rw [List.find?_eq_none]
  constructor
  · intro huniform other hother
    obtain ⟨hfirst, hkind⟩ := (hmem first).1 List.mem_cons_self
    obtain ⟨hin, himm⟩ := (hmem other).1 (List.mem_cons_of_mem first hother)
    rw [differs_iff, not_not]
    exact huniform first hfirst other hin hkind himm
  · intro hnone
    have hcopy : ∀ step ∈ first :: others, first.label = step.label ∧
        first.target = step.target := by
      intro step hstep
      rcases List.mem_cons.1 hstep with rfl | hstep
      · exact ⟨rfl, rfl⟩
      · have hsame := hnone step hstep
        rwa [differs_iff, not_not] at hsame
    intro step hstep other hother hkind himm
    have hs := hcopy step ((hmem step).2 ⟨hstep, hkind⟩)
    have ho := hcopy other ((hmem other).2 ⟨hother, himm⟩)
    exact ⟨hs.1.symm.trans ho.1, hs.2.symm.trans ho.2⟩

structure Torn (steps : List Step) (first second : Step) : Prop where
  first_mem : first ∈ steps ∧ first.isImmediate = true
  second_mem : second ∈ steps ∧ second.isImmediate = true
  differ : ¬ (first.label = second.label ∧ first.target = second.target)

theorem Torn.not_uniform {steps : List Step} {first second : Step} (h : Torn steps first second) :
    ¬ Uniform steps := fun huniform =>
  h.differ (huniform first h.first_mem.1 second h.second_mem.1 h.first_mem.2 h.second_mem.2)

end Step

namespace Exploration

variable {x y : Exploration} {s : StateId} {step : Step} {steps : List Step}

theorem redirect_ok (h : x.redirect s step = .ok y) :
    (∀ (t : StateId) (z : Status), y.statuses[t]? = some z ↔
      x.statuses[t]? = some z ∨ step.target = t ∧ step.status? = some z) ∧
    y.visited = x.visited ∧ y.redirects = x.redirects.insert s ⟨step.target, step.label⟩ ∧
    y.edges = x.edges ∧ y.preempted = x.preempted ∧
    y.warnings.toList = x.warnings.toList ++
      step.kind.unknownAction?.toList.map fun label => ⟨s, label⟩ := by
  unfold redirect at h
  cases hstatus : step.status? with
  | none =>
    rw [hstatus] at h
    cases h
    refine ⟨by simp, rfl, rfl, rfl, rfl, ?_⟩
    cases step.kind.unknownAction? <;> simp
  | some status =>
    rw [hstatus] at h
    cases hassign : x.statuses.assign ⟨step.target, status, .action step.label s⟩ with
    | error e =>
      simp only [hassign] at h
      cases h
    | ok found =>
      simp only [hassign] at h
      cases h
      refine ⟨fun t z => ?_, rfl, rfl, rfl, rfl, ?_⟩
      · rw [Option.some_inj]
        exact StatusTable.assign_ok hassign t z
      · cases step.kind.unknownAction? <;> simp

theorem redirect_error {e : Error} (h : x.redirect s step = .error e) :
    ∃ status existing, existing ≠ status ∧ step.status? = some status ∧
      x.statuses[step.target]? = some existing ∧
      e = .conflict step.target existing status (.action step.label s) := by
  unfold redirect at h
  cases hstatus : step.status? with
  | none =>
    rw [hstatus] at h
    cases h
  | some status =>
    rw [hstatus] at h
    cases hassign : x.statuses.assign ⟨step.target, status, .action step.label s⟩ with
    | error fault =>
      simp only [hassign] at h
      cases h
      obtain ⟨existing, hne, hsome, rfl⟩ := StatusTable.assign_error hassign
      exact ⟨status, existing, hne, rfl, hsome, rfl⟩
    | ok found =>
      simp only [hassign] at h
      cases h

theorem visit_ok (h : x.visit s steps = .ok y) :
    Step.Uniform steps ∧
    (∀ (t : StateId) (z : Status), y.statuses[t]? = some z ↔
      x.statuses[t]? = some z ∨ Step.Demands steps t z) ∧
    y.visited = x.visited ∧
    (∀ t : StateId, y.redirects[t]? =
      if s = t then (Step.redirect? steps).or x.redirects[t]? else x.redirects[t]?) ∧
    y.edges.toList = x.edges.toList ++ Step.kept s steps ∧
    y.preempted = x.preempted + Step.lost steps ∧
    y.warnings.toList = x.warnings.toList ++ Step.warned s steps := by
  unfold visit at h
  split at h
  · rename_i hnone
    have hfind : steps.find? Step.isImmediate = none := by
      rw [← List.head?_filter, hnone]
      rfl
    have hstep : ∀ step ∈ steps, ¬ step.isImmediate = true := List.find?_eq_none.1 hfind
    cases h
    refine ⟨fun step hmem _ _ himm _ => absurd himm (hstep step hmem), ?_, rfl, ?_, ?_, ?_, ?_⟩
    · simp [Step.Demands, hfind]
    · simp [Step.redirect?, hfind]
    · simp [Step.kept, hfind]
    · simp [Step.lost, hfind]
    · simp [Step.warned, hfind]
  · rename_i first others hfilter
    have hfind := Step.filter_isImmediate hfilter
    split at h
    · cases h
    · rename_i hsame
      cases hrun : x.redirect s first with
      | error e =>
        rw [hrun] at h
        cases h
      | ok z =>
        rw [hrun] at h
        cases h
        obtain ⟨hstatuses, hvisited, hredirects, hedges, hpreempted, hwarnings⟩ :=
          redirect_ok hrun
        refine ⟨(Step.uniform_iff hfilter).2 hsame, ?_, hvisited, ?_, ?_, ?_, ?_⟩
        · intro t z
          rw [hstatuses t z]
          simp [Step.Demands, hfind]
        · intro t
          simp only [hredirects, Std.ExtTreeMap.getElem?_insert, Step.redirect?, hfind,
            Std.LawfulEqCmp.compare_eq_iff_eq]
          rfl
        · simp [hedges, Step.kept, hfind]
        · simp [hpreempted, Step.lost, hfind]
        · rw [hwarnings]
          simp [Step.warned, hfind]

theorem visit_error {e : Error} (h : x.visit s steps = .error e) :
    (∃ first second, Step.Torn steps first second ∧
      e = .nondeterminism s first.label second.label) ∨
    ∃ t z existing cause, existing ≠ z ∧ Step.Demands steps t z ∧
      x.statuses[t]? = some existing ∧ e = .conflict t existing z cause := by
  unfold visit at h
  split at h
  · cases h
  · rename_i first others hfilter
    split at h
    · rename_i second hsecond
      cases h
      have hmem : ∀ step ∈ first :: others, step ∈ steps ∧ step.isImmediate = true := by
        rw [← hfilter]
        exact fun step => List.mem_filter.1
      exact .inl ⟨first, second, ⟨hmem first List.mem_cons_self,
        hmem second (List.mem_cons_of_mem _ (List.mem_of_find?_eq_some hsecond)),
        (Step.differs_iff _ _).1 (List.find?_some hsecond)⟩, rfl⟩
    · cases hrun : x.redirect s first with
      | ok z =>
        rw [hrun] at h
        cases h
      | error fault =>
        rw [hrun] at h
        cases h
        obtain ⟨status, existing, hne, hstatus, hsome, rfl⟩ := redirect_error hrun
        exact .inr ⟨_, status, existing, _, hne,
          ⟨first, Step.filter_isImmediate hfilter, rfl, hstatus⟩, hsome, rfl⟩

/-- What was learned from the states of a list, in their order. -/
structure LearnedFrom (steps : StateId → List Step) (order : List StateId) (x : Exploration) :
    Prop where
  statuses : ∀ (t : StateId) (z : Status), x.statuses[t]? = some z ↔
    ∃ s ∈ order, Step.Demands (steps s) t z
  redirects : ∀ (t : StateId) (redirect : Redirect), x.redirects[t]? = some redirect ↔
    t ∈ order ∧ Step.redirect? (steps t) = some redirect
  edges : x.edges.toList = order.flatMap fun s => Step.kept s (steps s)
  preempted : x.preempted = (order.map fun s => Step.lost (steps s)).sum
  warnings : x.warnings.toList = order.flatMap fun s => Step.warned s (steps s)

theorem learnedFrom_start (steps : StateId → List Step) (visited : StateSet) :
    LearnedFrom steps [] (start visited) where
  statuses t z := by simp [start]
  redirects t redirect := by simp [start]
  edges := rfl
  preempted := rfl
  warnings := rfl

variable {behaviour : StateId → List Step} {order rest : List StateId}

theorem LearnedFrom.visit (h : LearnedFrom behaviour order x)
    (hrun : x.visit s (behaviour s) = .ok y) : LearnedFrom behaviour (order ++ [s]) y := by
  obtain ⟨-, hstatuses, -, hredirects, hedges, hpreempted, hwarnings⟩ := visit_ok hrun
  refine ⟨?_, ?_, ?_, ?_, ?_⟩
  · intro t z
    rw [hstatuses, h.statuses]
    simp [or_and_right, exists_or]
  · intro t redirect
    rw [hredirects t, List.mem_append, List.mem_singleton]
    by_cases hs : s = t
    · subst hs
      have hold := h.redirects s redirect
      cases hr : Step.redirect? (behaviour s) with
      | none => simp [hold, hr]
      | some found => simp
    · have hne : ¬ t = s := fun heq => hs heq.symm
      simp [hs, hne, h.redirects t redirect]
  · rw [hedges, h.edges]
    simp
  · rw [hpreempted, h.preempted]
    simp
  · rw [hwarnings, h.warnings]
    simp

theorem foldlM_visit_ok (h : LearnedFrom behaviour order x)
    (hrun : rest.foldlM (fun x s => x.visit s (behaviour s)) x = .ok y) :
    LearnedFrom behaviour (order ++ rest) y ∧ y.visited = x.visited ∧
    ∀ s ∈ rest, Step.Uniform (behaviour s) := by
  -- on the states left to explore; `order` is what was explored before them
  induction rest generalizing order x with
  | nil =>
    cases hrun
    exact ⟨by simpa using h, rfl, by simp⟩
  | cons s rest ih =>
    rw [List.foldlM_cons] at hrun
    cases hvisit : x.visit s (behaviour s) with
    | error e =>
      rw [hvisit] at hrun
      cases hrun
    | ok z =>
      rw [hvisit] at hrun
      obtain ⟨hall, hvisited, huniform⟩ := ih (h.visit hvisit) hrun
      obtain ⟨hsame, -, hstay, -⟩ := visit_ok hvisit
      refine ⟨by simpa using hall, hvisited.trans hstay, fun t ht => ?_⟩
      rcases List.mem_cons.1 ht with rfl | ht
      · exact hsame
      · exact huniform t ht

theorem foldlM_visit_error {e : Error} (h : LearnedFrom behaviour order x)
    (hrun : rest.foldlM (fun x s => x.visit s (behaviour s)) x = .error e) :
    (∃ s ∈ rest, ¬ Step.Uniform (behaviour s) ∧ ∃ first second,
      e = .nondeterminism s first second) ∨
    ∃ s ∈ order ++ rest, ∃ r ∈ rest, ∃ t z existing cause, existing ≠ z ∧
      Step.Demands (behaviour r) t z ∧ Step.Demands (behaviour s) t existing ∧
      e = .conflict t existing z cause := by
  induction rest generalizing order x with
  | nil => cases hrun
  | cons s rest ih =>
    rw [List.foldlM_cons] at hrun
    cases hvisit : x.visit s (behaviour s) with
    | error fault =>
      rw [hvisit] at hrun
      cases hrun
      rcases visit_error hvisit with ⟨first, second, htorn, rfl⟩ |
        ⟨t, z, existing, cause, hne, hz, hold, rfl⟩
      · exact .inl ⟨s, List.mem_cons_self, htorn.not_uniform, _, _, rfl⟩
      · obtain ⟨r, hr, hdemand⟩ := (h.statuses t existing).1 hold
        exact .inr ⟨r, List.mem_append_left _ hr, s, List.mem_cons_self, t, z, existing, cause,
          hne, hz, hdemand, rfl⟩
    | ok z =>
      rw [hvisit] at hrun
      rcases ih (h.visit hvisit) hrun with ⟨r, hr, hcase⟩ | ⟨r, hr, u, hu, hcase⟩
      · exact .inl ⟨r, List.mem_cons_of_mem s hr, hcase⟩
      · exact .inr ⟨r, by simpa using hr, u, List.mem_cons_of_mem s hu, hcase⟩

end Exploration

namespace Automaton

variable {a : Automaton} {names : Vocabulary} {s t : StateId} {z : Status}

def keptDelay (edge : Edge) : KeptEdge := ⟨edge.source, delayLabel edge.label, edge.target⟩

theorem keptEdge?_of_isDelay {edge : Edge}
    (h : (names.classify edge.label).isDelay = true) :
    Step.keptEdge? edge.source (Step.ofEdge names edge) = some (keptDelay edge) := by
  unfold Step.keptEdge? Step.keep?
  rw [show (Step.ofEdge names edge).kind = names.classify edge.label from rfl,
    show (Step.ofEdge names edge).label = edge.label from rfl, keep?_of_isDelay h]
  rfl

theorem status?_ofEdge {edge : Edge} : (Step.ofEdge names edge).status? = some z ↔
    names.classify edge.label = .interactive z.action := by
  unfold Step.status? Step.ofEdge
  rcases names.classify edge.label with _ | _ | _ | ⟨_ | _ | _ | _⟩ <;>
    cases z <;> simp [Status.action]

theorem kept_steps (s : StateId) : Step.kept s ((a.steps names).getD s []) =
    if a.urgentEdge? names s = none then (a.delays names s).map keptDelay else [] := by
  unfold Step.kept
  rw [find?_steps]
  cases hfirst : a.urgentEdge? names s with
  | some edge => rfl
  | none =>
    rw [if_pos rfl, getD_steps, ← delays_of_stable hfirst, Option.map_none]
    dsimp only
    rw [List.filterMap_map, ← List.filterMap_eq_map]
    refine List.filterMap_congr fun edge hedge => ?_
    obtain ⟨hout, hdelay⟩ := List.mem_filter.1 hedge
    obtain rfl := source_of_mem_outgoing hout
    exact keptEdge?_of_isDelay hdelay

theorem lost_steps (s : StateId) : Step.lost ((a.steps names).getD s []) =
    if a.urgentEdge? names s = none then 0 else (a.delays names s).length := by
  unfold Step.lost
  rw [find?_steps]
  cases a.urgentEdge? names s with
  | none => rfl
  | some edge =>
    rw [getD_steps, Option.map_some, List.countP_map, List.countP_eq_length_filter, delays]
    rfl

theorem redirect?_steps (s : StateId) (redirect : Redirect) :
    Step.redirect? ((a.steps names).getD s []) = some redirect ↔
      ∃ edge, a.urgentEdge? names s = some edge ∧ redirect = ⟨edge.target, edge.label⟩ := by
  rw [Step.redirect?, find?_steps, Option.map_map, Option.map_eq_some_iff]
  simp only [Function.comp_apply, eq_comm (a := redirect)]
  rfl

theorem uniform_steps (s : StateId) :
    Step.Uniform ((a.steps names).getD s []) ↔ a.Uniform names s := by
  unfold Step.Uniform Uniform
  rw [getD_steps]
  simp only [List.forall_mem_map]
  rfl

theorem demands_steps (s : StateId) : Step.Demands ((a.steps names).getD s []) t z ↔
    ∃ edge, a.urgentEdge? names s = some edge ∧ edge.target = t ∧
      names.classify edge.label = .interactive z.action := by
  unfold Step.Demands
  rw [find?_steps]
  simp only [Option.map_eq_some_iff]
  constructor
  · rintro ⟨_, ⟨edge, hedge, rfl⟩, rfl, hstatus⟩
    exact ⟨edge, hedge, rfl, status?_ofEdge.1 hstatus⟩
  · rintro ⟨edge, hedge, rfl, hkind⟩
    exact ⟨_, ⟨edge, hedge, rfl⟩, rfl, status?_ofEdge.2 hkind⟩

theorem entered_of_demands (hs : a.Reached names s)
    (h : Step.Demands ((a.steps names).getD s []) t z) : a.Entered names z t := by
  obtain ⟨edge, hedge, htarget, hkind⟩ := (demands_steps s).1 h
  exact ⟨s, edge, hs, (urgentEdge?_some hedge).1, hkind, htarget⟩

theorem demands_of_entered (huniform : ∀ s, a.Reached names s → a.Uniform names s)
    (h : a.Entered names z t) :
    ∃ s, a.Reached names s ∧ Step.Demands ((a.steps names).getD s []) t z := by
  obtain ⟨s, edge, hs, hedge, hkind, rfl⟩ := h
  obtain ⟨first, hfirst, hlabel, htarget⟩ :=
    (huniform s hs).eq_first hedge (by rw [hkind]; rfl)
  exact ⟨s, hs, (demands_steps s).2 ⟨first, hfirst, htarget.symm, hlabel ▸ hkind⟩⟩

structure Explored (a : Automaton) (names : Vocabulary) (x : Exploration) : Prop where
  visited : ∀ s, s ∈ x.visited ↔ a.Reached names s
  uniform : ∀ s, a.Reached names s → a.Uniform names s
  redirects : ∀ (s : StateId) (redirect : Redirect), x.redirects[s]? = some redirect ↔
    a.Reached names s ∧ ∃ edge, a.urgentEdge? names s = some edge ∧
      redirect = ⟨edge.target, edge.label⟩
  statuses : ∀ (t : StateId) (z : Status), x.statuses[t]? = some z ↔ a.Entered names z t
  edges : x.edges.toList = (a.reached names).flatMap fun s =>
    if a.urgentEdge? names s = none then (a.delays names s).map keptDelay else []

theorem explore_eq (a : Automaton) (names : Vocabulary) : a.explore names =
    (a.reached names).foldlM (fun x s => x.visit s ((a.steps names).getD s []))
      (Exploration.start (Std.ExtTreeSet.ofList (a.reached names))) := rfl

theorem explore_learned {x : Exploration} (h : a.explore names = .ok x) :
    Exploration.LearnedFrom (fun s => (a.steps names).getD s []) (a.reached names) x ∧
    x.visited = Std.ExtTreeSet.ofList (a.reached names) ∧
    ∀ s ∈ a.reached names, Step.Uniform ((a.steps names).getD s []) := by
  rw [explore_eq] at h
  obtain ⟨hlearned, hvisited, huniform⟩ :=
    Exploration.foldlM_visit_ok (Exploration.learnedFrom_start _ _) h
  rw [List.nil_append] at hlearned
  exact ⟨hlearned, hvisited, huniform⟩

theorem explore_ok {x : Exploration} (h : a.explore names = .ok x) : a.Explored names x := by
  obtain ⟨hlearned, hvisited, huniform⟩ := explore_learned h
  have hsame : ∀ s, a.Reached names s → a.Uniform names s :=
    fun s hs => (uniform_steps s).1 (huniform s (mem_reached.2 hs))
  refine ⟨fun s => ?_, hsame, fun s redirect => ?_, fun t z => ?_, ?_⟩
  · rw [hvisited, ← mem_reached]
    simp [Std.ExtTreeSet.mem_ofList]
  · rw [hlearned.redirects, mem_reached, redirect?_steps]
  · rw [hlearned.statuses]
    constructor
    · rintro ⟨s, hs, hdemand⟩
      exact entered_of_demands (mem_reached.1 hs) hdemand
    · intro hentered
      obtain ⟨s, hs, hdemand⟩ := demands_of_entered hsame hentered
      exact ⟨s, mem_reached.2 hs, hdemand⟩
  · simp only [hlearned.edges, kept_steps]

theorem explore_error {e : Error} (h : a.explore names = .error e) :
    (∃ s, a.Reached names s ∧ ¬ a.Uniform names s ∧ ∃ first second,
      e = .nondeterminism s first second) ∨
    ∃ t x y cause, x ≠ y ∧ a.Entered names x t ∧ a.Entered names y t ∧
      e = .conflict t x y cause := by
  rw [explore_eq] at h
  rcases Exploration.foldlM_visit_error (Exploration.learnedFrom_start _ _) h with
    ⟨s, hs, hnot, hform⟩ | ⟨s, hs, r, hr, t, y, x, cause, hne, hy, hx, rfl⟩
  · exact .inl ⟨s, mem_reached.1 hs, fun hu => hnot ((uniform_steps s).2 hu), hform⟩
  · exact .inr ⟨t, x, y, cause, hne, entered_of_demands (mem_reached.1 hs) hx,
      entered_of_demands (mem_reached.1 hr) hy, rfl⟩

theorem flatMap_ite_eq {α : Type} {order : List StateId} (hnodup : order.Nodup) (hs : s ∈ order)
    (values : List α) : (order.flatMap fun r => if r = s then values else []) = values := by
  induction order with
  | nil => cases hs
  | cons r rest ih =>
    obtain ⟨hr, hrest⟩ := List.nodup_cons.1 hnodup
    rw [List.flatMap_cons]
    by_cases heq : r = s
    · subst heq
      have hnone : (rest.flatMap fun u => if u = r then values else []) = [] := by
        refine List.flatMap_eq_nil_iff.2 fun u hu => if_neg ?_
        rintro rfl
        exact hr hu
      rw [hnone, if_pos rfl, List.append_nil]
    · have hmem : s ∈ rest := (List.mem_cons.1 hs).resolve_left fun h => heq h.symm
      rw [if_neg heq, List.nil_append, ih hrest hmem]

theorem filter_flatMap_eq {α β : Type} [DecidableEq β] {key : α → β} {g : StateId → β}
    {part : StateId → List α} {order : List StateId} (hnodup : order.Nodup) (hs : s ∈ order)
    (hkey : ∀ r ∈ order, ∀ x ∈ part r, key x = g r)
    (hinj : ∀ r ∈ order, g r = g s → r = s) :
    ((order.flatMap part).filter fun x => key x = g s) = part s := by
  rw [List.filter_flatMap]
  refine Eq.trans (List.flatMap_congr fun r hr => ?_) (flatMap_ite_eq hnodup hs (part s))
  by_cases heq : r = s
  · subst heq
    rw [if_pos rfl, List.filter_eq_self]
    intro x hx
    exact decide_eq_true (hkey r hr x hx)
  · rw [if_neg heq, List.filter_eq_nil_iff]
    intro x hx hsame
    rw [decide_eq_true_eq, hkey r hr x hx] at hsame
    exact heq (hinj r hr hsame)

theorem Explored.edges_of_live {x : Exploration} (h : a.Explored names x)
    (hs : a.Live names s) :
    (x.edges.toList.filter fun edge => edge.source = s) = (a.delays names s).map keptDelay := by
  have hsource : ∀ r, ∀ edge ∈ (a.delays names r).map keptDelay, edge.source = r := by
    intro r edge hedge
    obtain ⟨delay, hdelay, rfl⟩ := List.mem_map.1 hedge
    exact source_of_mem_outgoing (List.mem_filter.1 hdelay).1
  have hpart : ∀ r ∈ a.reached names, ∀ edge ∈
      (if a.urgentEdge? names r = none then (a.delays names r).map keptDelay else []),
      edge.source = r := by
    intro r _ edge hedge
    split at hedge
    · exact hsource r edge hedge
    · cases hedge
  have hfilter := filter_flatMap_eq (g := id) (nodup_breadthFirst _ _) (mem_reached.2 hs.1)
    hpart fun _ _ heq => heq
  rw [if_pos hs.2] at hfilter
  rw [h.edges]
  exact hfilter

theorem Explored.mem_edges {x : Exploration} (h : a.Explored names x) (kept : KeptEdge) :
    kept ∈ x.edges.toList ↔
      ∃ s, a.Live names s ∧ ∃ edge ∈ a.delays names s, keptDelay edge = kept := by
  rw [h.edges, List.mem_flatMap]
  constructor
  · rintro ⟨s, hs, hkept⟩
    split at hkept
    · rename_i hnone
      obtain ⟨edge, hedge, rfl⟩ := List.mem_map.1 hkept
      exact ⟨s, ⟨mem_reached.1 hs, hnone⟩, edge, hedge, rfl⟩
    · cases hkept
  · rintro ⟨s, hs, edge, hedge, rfl⟩
    refine ⟨s, mem_reached.2 hs.1, ?_⟩
    rw [if_pos hs.2]
    exact List.mem_map_of_mem hedge

theorem Explored.mem_redirects {x : Exploration} (h : a.Explored names x) :
    s ∈ x.redirects ↔ a.Reached names s ∧ ∃ edge, a.urgentEdge? names s = some edge := by
  rw [StateMap.mem_iff_exists]
  simp only [h.redirects]
  constructor
  · rintro ⟨_, hs, edge, hedge, -⟩
    exact ⟨hs, edge, hedge⟩
  · rintro ⟨hs, edge, hedge⟩
    exact ⟨_, hs, edge, hedge, rfl⟩

theorem Explored.mem_live {x : Exploration} (h : a.Explored names x) :
    s ∈ x.live ↔ a.Live names s := by
  have hmem : s ∈ x.live ↔ s ∈ x.visited ∧ s ∉ x.redirects := by
    rw [← Std.ExtTreeSet.mem_toList, Exploration.live, Std.ExtTreeSet.toList_filter,
      List.mem_filter, Std.ExtTreeSet.mem_toList, StateMap.not_contains]
  rw [hmem, h.visited, h.mem_redirects, Live]
  refine and_congr_right fun hs => ?_
  rw [not_and]
  constructor
  · intro hnone
    exact Option.eq_none_iff_forall_ne_some.2 fun edge hedge => hnone hs ⟨edge, hedge⟩
  · rintro hnone - ⟨edge, hedge⟩
    rw [hnone] at hedge
    cases hedge

end Automaton

end InteractiveMarkov
