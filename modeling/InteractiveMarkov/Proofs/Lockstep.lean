import InteractiveMarkov.Proofs.Exploration
import InteractiveMarkov.Proofs.Redirect

set_option autoImplicit false

namespace InteractiveMarkov

/-- Both succeed, with related values, or both fail with the same kind of error. -/
def Agrees {α β : Type} (R : α → β → Prop) : Except Error α → Except Error β → Prop
  | .ok x, .ok y => R x y
  | .error e, .error f => f.ctorIdx = e.ctorIdx
  | _, _ => False

theorem Agrees.cases {α β : Type} {R : α → β → Prop} {x : Except Error α} {y : Except Error β}
    (h : Agrees R x y) : (∃ a b, x = .ok a ∧ y = .ok b ∧ R a b) ∨
      ∃ e f, x = .error e ∧ y = .error f ∧ f.ctorIdx = e.ctorIdx := by
  cases x with
  | ok a =>
    cases y with
    | ok b => exact .inl ⟨a, b, rfl, rfl, h⟩
    | error f => exact h.elim
  | error e =>
    cases y with
    | ok b => exact h.elim
    | error f => exact .inr ⟨e, f, rfl, rfl, h⟩

variable {p : StateId → StateId} {s : StateId}

theorem agrees_foldlM {α β : Type} {R : α → β → Prop} {f : α → StateId → Except Error α}
    {g : β → StateId → Except Error β} (hstep : ∀ s x y, R x y → Agrees R (f x s) (g y (p s)))
    (order : List StateId) {x : α} {y : β} (h : R x y) :
    Agrees R (order.foldlM f x) ((order.map p).foldlM g y) := by
  induction order generalizing x y with
  | nil => exact h
  | cons s rest ih =>
    rw [List.map_cons, List.foldlM_cons, List.foldlM_cons]
    rcases (hstep s x y h).cases with ⟨x', y', hx, hy, hnext⟩ | ⟨e, e', hx, hy, hsame⟩
    · rw [hx, hy]
      exact ih hnext
    · rw [hx, hy]
      exact hsame

namespace Search

/-- The second search has met the images of the states that the first one has met. -/
structure Follows (p : StateId → StateId) (search later : Search) : Prop where
  order : later.order.toList = search.order.toList.map p
  seen : ∀ s, p s ∈ later.seen ↔ s ∈ search.seen

variable {search later : Search} {moves moves' : Moves}

theorem follows_start (p : StateId → StateId) : Follows p start start :=
  ⟨rfl, fun s => by simp [start]⟩

theorem Follows.meet (hp : Function.Injective p) (h : Follows p search later) (s : StateId) :
    Follows p (search.meet s) (later.meet (p s)) := by
  refine ⟨?_, fun t => ?_⟩
  · unfold Search.meet
    by_cases hs : s ∈ search.seen
    · rw [if_pos hs, if_pos ((h.seen s).2 hs), h.order]
    · rw [if_neg hs, if_neg (fun hs' => hs ((h.seen s).1 hs')), Array.toList_push,
        Array.toList_push, h.order, List.map_append]
      rfl
  · rw [mem_seen_meet, mem_seen_meet, hp.eq_iff, h.seen]

theorem Follows.meetAll (hp : Function.Injective p) (h : Follows p search later)
    (states : List StateId) : Follows p (search.meetAll states) (later.meetAll (states.map p)) := by
  induction states generalizing search later with
  | nil => exact h
  | cons s rest ih => exact ih (h.meet hp s)

theorem Follows.run (hp : Function.Injective p)
    (hmoves : ∀ s, moves'.after (p s) = (moves.after s).map p) (h : Follows p search later)
    (place : Nat) : Follows p (search.run moves place) (later.run moves' place) := by
  have hsize : ∀ {search later : Search}, Follows p search later →
      later.order.size = search.order.size := by
    intro search later h
    rw [← Array.length_toList, h.order, List.length_map, Array.length_toList]
  fun_induction Search.run moves search place generalizing later with
  | case1 search place hplace ih =>
    have hlater : place < later.order.size := by rwa [hsize h]
    have hget : later.order[place] = p search.order[place] := by
      simp only [← Array.getElem_toList, h.order, List.getElem_map]
    have hrun : later.run moves' place = (later.meetAll
        ((moves.after search.order[place]).map p)).run moves' (place + 1) := by
      rw [Search.run, dif_pos hlater, hget, hmoves]
    rw [hrun]
    exact ih (h.meetAll hp _)
  | case2 search place hplace =>
    have hrun : later.run moves' place = later := by
      rw [Search.run, dif_neg (by rwa [hsize h])]
    rwa [hrun]

end Search

theorem breadthFirst_map (hp : Function.Injective p) {moves moves' : Moves}
    (hmoves : ∀ s, moves'.after (p s) = (moves.after s).map p) (seeds : List StateId) :
    breadthFirst moves' (seeds.map p) = (breadthFirst moves seeds).map p :=
  (((Search.follows_start p).meetAll hp seeds).run hp hmoves 0).order

namespace StatusTable

def Mirrors (p : StateId → StateId) (table later : StatusTable) : Prop :=
  ∀ s : StateId, later[p s]? = table[s]?

variable {table later : StatusTable} {demand demand' : Demand} {demands demands' : List Demand}

theorem Mirrors.assign (hp : Function.Injective p) (h : Mirrors p table later)
    (hstate : demand'.state = p demand.state) (hstatus : demand'.status = demand.status) :
    Agrees (fun x y => Mirrors p x.1 y.1) (table.assign demand) (later.assign demand') := by
  unfold StatusTable.assign
  rw [hstate, hstatus, h]
  cases table[demand.state]? with
  | none =>
    intro s
    rw [Std.ExtTreeMap.getElem?_insert, Std.ExtTreeMap.getElem?_insert]
    simp only [Std.LawfulEqCmp.compare_eq_iff_eq, hp.eq_iff, h s]
  | some existing =>
    by_cases hsame : existing = demand.status
    · simp only [if_pos hsame]
      exact h
    · simp only [if_neg hsame]
      rfl

theorem Mirrors.assignAll (hp : Function.Injective p) (h : Mirrors p table later)
    (hdemands : (demands'.map fun demand => (demand.state, demand.status)) =
      demands.map fun demand => (p demand.state, demand.status)) :
    (later.assignAll demands').2.map Error.ctorIdx = (table.assignAll demands).2.map Error.ctorIdx ∧
      ((table.assignAll demands).2 = none →
        Mirrors p (table.assignAll demands).1 (later.assignAll demands').1) := by
  induction demands generalizing table later demands' with
  | nil =>
    obtain rfl := List.map_eq_nil_iff.1 hdemands
    exact ⟨rfl, fun _ => h⟩
  | cons demand rest ih =>
    cases demands' with
    | nil => cases hdemands
    | cons demand' rest' =>
      rw [List.map_cons, List.map_cons, List.cons.injEq, Prod.mk.injEq] at hdemands
      obtain ⟨⟨hstate, hstatus⟩, hrest⟩ := hdemands
      rw [StatusTable.assignAll, StatusTable.assignAll]
      rcases (h.assign hp hstate hstatus).cases with ⟨x, y, hx, hy, hnext⟩ | ⟨e, f, hx, hy, hsame⟩
      · rw [hx, hy]
        exact ih hnext hrest
      · rw [hx, hy]
        exact ⟨congrArg some hsame, fun hnone => by cases hnone⟩

end StatusTable

def Redirect.rename (p : StateId → StateId) (redirect : Redirect) : Redirect :=
  ⟨p redirect.target, redirect.label⟩

def Walk.rename (p : StateId → StateId) : Walk → Walk
  | .settles path final => .settles (path.map p) (p final)
  | .returns s => .returns (p s)

namespace RedirectMap

def Mirrors (p : StateId → StateId) (m later : RedirectMap) : Prop :=
  ∀ s : StateId, later[p s]? = m[s]?.map (Redirect.rename p)

variable {m later : RedirectMap} {table table' : StatusTable} {path : List StateId}
  {final initial : StateId}

theorem Mirrors.walk (hp : Function.Injective p) (h : Mirrors p m later) {passed passed' : Search}
    (hpassed : Search.Follows p passed passed') (s : StateId) :
    later.walk passed' (p s) = (m.walk passed s).rename p := by
  fun_induction RedirectMap.walk m passed s generalizing passed' with
  | case1 passed s hnone =>
    have hlater : later[p s]? = none := by rw [h, hnone]; rfl
    rw [RedirectMap.walk]
    split
    · rw [hpassed.order]
      rfl
    · rename_i redirect hsome
      rw [hlater] at hsome
      cases hsome
  | case2 passed s redirect hsome hseen =>
    have hlater : later[p s]? = some (redirect.rename p) := by rw [h, hsome]; rfl
    rw [RedirectMap.walk]
    split
    · rename_i hnone
      rw [hlater] at hnone
      cases hnone
    · rw [if_pos ((hpassed.seen s).2 hseen)]
      rfl
  | case3 passed s redirect hsome hseen ih =>
    have hlater : later[p s]? = some (redirect.rename p) := by rw [h, hsome]; rfl
    rw [RedirectMap.walk]
    split
    · rename_i hnone
      rw [hlater] at hnone
      cases hnone
    · rename_i image himage
      rw [hlater] at himage
      cases himage
      rw [if_neg fun hmem => hseen ((hpassed.seen s).1 hmem)]
      exact ih (hpassed.meet hp s)

theorem Mirrors.walkFrom (hp : Function.Injective p) (h : Mirrors p m later) (s : StateId) :
    later.walkFrom (p s) = (m.walkFrom s).rename p :=
  h.walk hp (Search.follows_start p) s

theorem Mirrors.cycleError (hp : Function.Injective p) (h : Mirrors p m later)
    (initial state : StateId) : (later.cycleError (p initial) (p state)).ctorIdx =
      (m.cycleError initial state).ctorIdx := by
  unfold RedirectMap.cycleError
  rw [h.walkFrom hp]
  cases m.walkFrom initial <;> rfl

theorem Mirrors.retarget (hp : Function.Injective p) (h : Mirrors p m later)
    (path : List StateId) (final : StateId) :
    Mirrors p (m.retarget path final) (later.retarget (path.map p) (p final)) := by
  intro s
  rw [getElem?_retarget, getElem?_retarget, h s, Option.map_map, Option.map_map]
  congr 1
  funext redirect
  have hmem : p s ∈ path.map p ↔ s ∈ path := List.mem_map_of_injective hp
  simp only [Function.comp_apply, hmem]
  split <;> rfl

theorem carried_map (h : table.Mirrors p table') (path : List StateId) (final : StateId) :
    ((carried table' (path.map p) (p final)).map fun demand => (demand.state, demand.status)) =
      (carried table path final).map fun demand => (p demand.state, demand.status) := by
  unfold carried
  rw [List.filterMap_map, List.map_filterMap, List.map_filterMap]
  apply List.filterMap_congr
  intro s _
  rw [Function.comp_apply, h s, Option.map_map, Option.map_map]
  rfl

theorem Mirrors.collapseFrom (hp : Function.Injective p) (h : Mirrors p m later)
    (htable : table.Mirrors p table') (sources : List StateId) :
    (collapseFrom (p initial) (sources.map p) later table').fault.map Error.ctorIdx =
      (collapseFrom initial sources m table).fault.map Error.ctorIdx := by
  induction sources generalizing m later table table' with
  | nil => rfl
  | cons s rest ih =>
    rw [List.map_cons, RedirectMap.collapseFrom, RedirectMap.collapseFrom, h.walkFrom hp]
    cases m.walkFrom s with
    | returns state => exact congrArg some (h.cycleError hp initial state)
    | settles path final =>
      obtain ⟨hfault, hmirrors⟩ := htable.assignAll hp (carried_map htable path final)
      simp only [Walk.rename]
      rcases hx : table.assignAll (carried table path final) with ⟨after, _ | e⟩
      · rcases hy : table'.assignAll (carried table' (path.map p) (p final)) with ⟨after', _ | f⟩
        · rw [hx, hy] at hmirrors
          exact ih (h.retarget hp path final) (hmirrors rfl)
        · rw [hx, hy] at hfault
          cases hfault
      · rcases hy : table'.assignAll (carried table' (path.map p) (p final)) with ⟨after', _ | f⟩
        · rw [hx, hy] at hfault
          cases hfault
        · rw [hx, hy] at hfault
          exact hfault

end RedirectMap

def Step.rename (p : StateId → StateId) (step : Step) : Step :=
  ⟨step.label, step.kind, p step.target⟩

namespace Exploration

variable {x y : Exploration} {steps steps' : List Step}

theorem redirect_agrees (hp : Function.Injective p) (h : x.statuses.Mirrors p y.statuses)
    (s : StateId) (step : Step) :
    Agrees (fun x y => x.statuses.Mirrors p y.statuses) (x.redirect s step)
      (y.redirect (p s) (step.rename p)) := by
  have hstatus : (step.rename p).status? = step.status? := rfl
  unfold redirect
  rw [hstatus]
  cases step.status? with
  | none => exact h
  | some status =>
    have hassign := @StatusTable.Mirrors.assign _ _ _ ⟨step.target, status, .action step.label s⟩
      ⟨p step.target, status, .action step.label (p s)⟩ hp h rfl rfl
    simp only [Step.rename]
    rcases hassign.cases with ⟨found, found', hx, hy, hnext⟩ | ⟨e, f, hx, hy, hsame⟩
    · rw [hx, hy]
      exact hnext
    · rw [hx, hy]
      exact hsame

/-- What a visit does to the statuses depends on the immediate steps alone. -/
theorem visit_agrees (hp : Function.Injective p) (h : x.statuses.Mirrors p y.statuses)
    (hsteps : steps'.filter Step.isImmediate = (steps.filter Step.isImmediate).map (Step.rename p)) :
    Agrees (fun x y => x.statuses.Mirrors p y.statuses) (x.visit s steps)
      (y.visit (p s) steps') := by
  unfold visit
  rw [hsteps]
  cases steps.filter Step.isImmediate with
  | nil => exact h
  | cons first others =>
    have hdiffers : (others.map (Step.rename p)).find? (Step.differs (first.rename p)) =
        (others.find? first.differs).map (Step.rename p) := by
      rw [List.find?_map]
      congr 2
      funext other
      simp only [Function.comp_apply, Step.differs, Step.rename, bne, hp.beq_eq]
    rw [List.map_cons]
    simp only [hdiffers]
    cases others.find? first.differs with
    | some second => rfl
    | none =>
      simp only [Option.map_none]
      rcases (redirect_agrees hp h s first).cases with
        ⟨found, found', hx, hy, hnext⟩ | ⟨e, f, hx, hy, hsame⟩
      · rw [hx, hy]
        exact hnext
      · rw [hx, hy]
        exact hsame

end Exploration

end InteractiveMarkov
