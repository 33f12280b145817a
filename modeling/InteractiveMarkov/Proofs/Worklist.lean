import InteractiveMarkov.Proofs.Exploration
import InteractiveMarkov.Proofs.Merging
import Mathlib.Order.Bounds.Defs

/-!
# Exploring with one worklist

Exploring orders the reached states first and then learns from each of them. One loop does both: it
takes the first state of a queue, learns from it, and puts the states entered next at the end of the
queue unless they have been there before. This loop has the same outcome. Its invariant ties the
queue, the visited states and what was learned to the states expanded so far, so that at the end the
visited states are the least closed set, and each of them was expanded once.
-/

set_option autoImplicit false

namespace InteractiveMarkov

/-- The states that wait in the queue, and what was learned so far. The visited states are those
    that ever were in the queue. -/
structure Worklist where
  queue : List StateId
  found : Exploration

namespace Worklist

def meet (w : Worklist) (t : StateId) : Worklist :=
  if t ∈ w.found.visited then w
  else ⟨w.queue ++ [t], { w.found with visited := w.found.visited.insert t }⟩

def meetAll (w : Worklist) (targets : List StateId) : Worklist := targets.foldl meet w

def start (initial : StateId) : Worklist := meetAll ⟨[], .start ∅⟩ [initial]

inductive Runs (behaviour : StateId → List Step) :
    Worklist → List StateId → Except Error Exploration → Prop
  | done {x : Exploration} : Runs behaviour ⟨[], x⟩ [] (.ok x)
  | fails {s : StateId} {rest : List StateId} {x : Exploration} {e : Error} :
      x.visit s (behaviour s) = .error e → Runs behaviour ⟨s :: rest, x⟩ [s] (.error e)
  | turn {s : StateId} {rest log : List StateId} {x y : Exploration}
      {result : Except Error Exploration} : x.visit s (behaviour s) = .ok y →
      Runs behaviour (meetAll ⟨rest, y⟩ (Step.successors (behaviour s))) log result →
      Runs behaviour ⟨s :: rest, x⟩ (s :: log) result

variable {behaviour : StateId → List Step} {w : Worklist} {log log' : List StateId}
  {result result' : Except Error Exploration} {s t : StateId}

theorem Runs.unique (h : Runs behaviour w log result) (h' : Runs behaviour w log' result') :
    log = log' ∧ result = result' := by
  induction h generalizing log' with
  | done =>
    cases h'
    exact ⟨rfl, rfl⟩
  | fails hvisit =>
    cases h' with
    | fails hother =>
      cases hvisit.symm.trans hother
      exact ⟨rfl, rfl⟩
    | turn hother _ => cases hvisit.symm.trans hother
  | turn hvisit _ ih =>
    cases h' with
    | fails hother => cases hvisit.symm.trans hother
    | turn hother hrest =>
      cases hvisit.symm.trans hother
      obtain ⟨rfl, rfl⟩ := ih hrest
      exact ⟨rfl, rfl⟩

/-! ## Searches as worklists -/

def ofSearch (search : Search) (place : Nat) (x : Exploration) : Worklist :=
  ⟨search.order.toList.drop place, { x with visited := search.seen }⟩

theorem eq_ofSearch (w : Worklist) :
    w = ofSearch ⟨w.queue.toArray, w.found.visited⟩ 0 w.found := rfl

theorem meet_ofSearch {search : Search} {place : Nat} (h : place ≤ search.order.size)
    (x : Exploration) (t : StateId) :
    (ofSearch search place x).meet t = ofSearch (search.meet t) place x := by
  have hplace : place ≤ search.order.toList.length := by simpa using h
  unfold meet Search.meet ofSearch
  dsimp only
  split
  · rfl
  · simp only [Array.toList_push, List.drop_append_of_le_length hplace]

theorem meetAll_ofSearch {search : Search} {place : Nat} (h : place ≤ search.order.size)
    (x : Exploration) (targets : List StateId) :
    (ofSearch search place x).meetAll targets = ofSearch (search.meetAll targets) place x := by
  induction targets generalizing search with
  | nil => rfl
  | cons t rest ih =>
    have hnext := ih (Nat.le_trans h (search.size_meetAll [t]))
    rw [Search.meetAll, List.foldl_cons] at hnext ⊢
    rw [meetAll, List.foldl_cons, meet_ofSearch h]
    exact hnext

theorem mem_visited_meetAll (w : Worklist) (targets : List StateId) (t : StateId) :
    t ∈ (w.meetAll targets).found.visited ↔ t ∈ targets ∨ t ∈ w.found.visited := by
  rw [w.eq_ofSearch, meetAll_ofSearch (Nat.zero_le _)]
  exact Search.mem_seen_meetAll _ targets t

theorem found_meetAll (w : Worklist) (targets : List StateId) :
    (w.meetAll targets).found =
      { w.found with visited := (w.meetAll targets).found.visited } := by
  rw [w.eq_ofSearch, meetAll_ofSearch (Nat.zero_le _)]
  rfl

/-- A state is visited exactly if it is expanded or waits, and no state does so twice. -/
structure Tracks (log : List StateId) (w : Worklist) : Prop where
  once : (log ++ w.queue).Nodup
  visited : ∀ s, s ∈ w.found.visited ↔ s ∈ log ++ w.queue

theorem Tracks.meet (h : Tracks log w) (t : StateId) : Tracks log (w.meet t) := by
  unfold Worklist.meet
  split
  · exact h
  · rename_i hnew
    rw [h.visited] at hnew
    refine ⟨?_, fun s => ?_⟩
    · rw [← List.append_assoc]
      exact List.nodup_append.2 ⟨h.once, List.nodup_singleton t, fun a ha b hb heq => hnew
        (List.mem_singleton.1 hb ▸ heq ▸ ha)⟩
    · rw [Std.ExtTreeSet.mem_insert, Std.LawfulEqCmp.compare_eq_iff_eq, h.visited,
        ← List.append_assoc, List.mem_append (t := [t]), List.mem_singleton, or_comm, eq_comm]

theorem Tracks.meetAll (h : Tracks log w) (targets : List StateId) :
    Tracks log (w.meetAll targets) := by
  induction targets generalizing w with
  | nil => exact h
  | cons t rest ih => exact ih (h.meet t)

/-! ## The loop and the two passes -/

theorem redirect_visited (x : Exploration) (visited : StateSet) (s : StateId) (step : Step) :
    Exploration.redirect { x with visited := visited } s step =
      (x.redirect s step).map fun y => { y with visited := visited } := by
  unfold Exploration.redirect
  cases step.status? with
  | none => rfl
  | some status =>
    dsimp only
    cases x.statuses.assign ⟨step.target, status, .action step.label s⟩ <;> rfl

theorem visit_visited (x : Exploration) (visited : StateSet) (s : StateId) (steps : List Step) :
    Exploration.visit { x with visited := visited } s steps =
      (x.visit s steps).map fun y => { y with visited := visited } := by
  unfold Exploration.visit
  split
  · rfl
  · rename_i first others _
    split
    · rfl
    · rw [redirect_visited]
      cases x.redirect s first <;> rfl

/-- The loop does in one what a search and a pass over the states that it met do. -/
theorem runs_ofSearch {moves : Moves}
    (hmoves : ∀ s, moves.after s = Step.successors (behaviour s)) (search : Search) (place : Nat)
    (x : Exploration) : ∃ log, Runs behaviour (ofSearch search place x) log
      (((search.run moves place).order.toList.drop place).foldlM
        (fun x s => x.visit s (behaviour s))
        { x with visited := (search.run moves place).seen }) := by
  -- along the search; what it met from the place on is the queue
  fun_induction Search.run moves search place generalizing x with
  | case1 search place hplace ih =>
    have hlen : place < search.order.toList.length := by simpa using hplace
    have hmet := search.meetAll_prefix (moves.after search.order[place])
    have hlast := hmet.trans (Search.order_prefix_run moves _ (place + 1))
    have hqueue : ofSearch search place x = ⟨search.order[place] :: search.order.toList.drop
        (place + 1), { x with visited := search.seen }⟩ := by
      rw [ofSearch, drop_prefix_eq List.prefix_rfl hlen]
      rfl
    rw [hqueue, drop_prefix_eq hlast hlen, List.foldlM_cons, visit_visited, Array.getElem_toList]
    cases hvisit : x.visit search.order[place] (behaviour search.order[place]) with
    | error e =>
      refine ⟨_, .fails ?_⟩
      rw [visit_visited, hvisit]
      rfl
    | ok y =>
      obtain ⟨log, hruns⟩ := ih y
      rw [← meetAll_ofSearch hplace] at hruns
      refine ⟨search.order[place] :: log, .turn (y := { y with visited := search.seen }) ?_ ?_⟩
      · rw [visit_visited, hvisit]
        rfl
      · rw [← hmoves]
        exact hruns
  | case2 search place hplace =>
    have hnone : search.order.toList.drop place = [] :=
      List.drop_of_length_le (by simpa using hplace)
    refine ⟨[], ?_⟩
    rw [ofSearch, hnone]
    exact .done

theorem runs_breadthFirst {moves : Moves}
    (hmoves : ∀ s, moves.after s = Step.successors (behaviour s)) (seeds : List StateId) :
    ∃ log, Runs behaviour (meetAll ⟨[], .start ∅⟩ seeds) log
      ((breadthFirst moves seeds).foldlM (fun x s => x.visit s (behaviour s))
        (Exploration.start (.ofList (breadthFirst moves seeds)))) := by
  obtain ⟨log, hruns⟩ := runs_ofSearch hmoves (Search.start.meetAll seeds) 0 (Exploration.start ∅)
  rw [← meetAll_ofSearch (Nat.zero_le _), seen_breadthFirst] at hruns
  exact ⟨log, hruns⟩

end Worklist

namespace Automaton

/-! ## Closed sets of states -/

section Behaviour

variable (a : Automaton) (names : Vocabulary)

/-- What a state leads to under maximal progress: the target of its immediate edges, if these are
    copies of one, or, if it has none, the targets of all its delays. -/
inductive Next : StateId → StateId → Prop
  | urgent {s : StateId} {edge : Edge} : a.Uniform names s → edge ∈ a.outgoing s →
      (names.classify edge.label).isImmediate = true → Next s edge.target
  | patient {s : StateId} {edge : Edge} : a.urgentEdge? names s = none → edge ∈ a.delays names s →
      Next s edge.target

structure Closed (seen : Set StateId) : Prop where
  initial : a.initial ∈ seen
  next : ∀ s ∈ seen, ∀ t, a.Next names s t → t ∈ seen

def behaviour (s : StateId) : List Step := (a.steps names).getD s []

end Behaviour

variable {a : Automaton} {names : Vocabulary} {log before : List StateId} {w : Worklist}
  {x y : Exploration} {s t : StateId} {rest : List StateId} {result : Except Error Exploration}

theorem next_iff (h : a.Uniform names s) :
    a.Next names s t ↔ t ∈ Step.successors (a.behaviour names s) := by
  rw [behaviour, mem_successors]
  constructor
  · rintro (⟨-, hedge, himm⟩ | ⟨hnone, hedge⟩)
    · obtain ⟨first, hfirst, -, htarget⟩ := h.eq_first hedge himm
      exact .inl ⟨first, hfirst, htarget.symm⟩
    · exact .inr ⟨hnone, _, hedge, rfl⟩
  · rintro (⟨edge, hedge, rfl⟩ | ⟨hnone, edge, hedge, rfl⟩)
    · obtain ⟨hmem, himm⟩ := urgentEdge?_some hedge
      exact .urgent h hmem himm
    · exact .patient hnone hedge

/-! ## The invariant of the loop -/

structure Expanded (a : Automaton) (names : Vocabulary) (log : List StateId) (w : Worklist) : Prop
    extends Worklist.Tracks log w where
  initial : a.initial ∈ w.found.visited
  uniform : ∀ s ∈ log, a.Uniform names s
  next : ∀ s ∈ log, ∀ t, a.Next names s t → t ∈ w.found.visited
  needed : ∀ seen, a.Closed names seen → ∀ s ∈ w.found.visited, s ∈ seen
  learned : Exploration.LearnedFrom (a.behaviour names) log w.found

theorem expanded_start (a : Automaton) (names : Vocabulary) :
    a.Expanded names [] (Worklist.start a.initial) := by
  have htracks : Worklist.Tracks [] ⟨[], Exploration.start ∅⟩ :=
    ⟨List.nodup_nil, by simp [Exploration.start]⟩
  have hvisited : ∀ t, t ∈ (Worklist.start a.initial).found.visited ↔ t = a.initial := by
    intro t
    rw [Worklist.start, Worklist.mem_visited_meetAll]
    simp [Exploration.start]
  refine ⟨htracks.meetAll [a.initial], (hvisited _).2 rfl, by simp, by simp,
    fun seen hseen t ht => ?_, ?_⟩
  · rw [(hvisited t).1 ht]
    exact hseen.initial
  · rw [Worklist.start, Worklist.found_meetAll]
    exact Exploration.learnedFrom_start _ _

theorem learnedFrom_visited (h : Exploration.LearnedFrom (a.behaviour names) log x)
    (visited : StateSet) :
    Exploration.LearnedFrom (a.behaviour names) log { x with visited := visited } :=
  ⟨h.statuses, h.redirects, h.edges, h.preempted, h.warnings⟩

theorem Expanded.turn (h : a.Expanded names log ⟨s :: rest, x⟩)
    (hvisit : x.visit s (a.behaviour names s) = .ok y) :
    a.Expanded names (log ++ [s])
      (Worklist.meetAll ⟨rest, y⟩ (Step.successors (a.behaviour names s))) := by
  obtain ⟨hsame, -, hstay, -⟩ := Exploration.visit_ok hvisit
  have huniform : a.Uniform names s := (uniform_steps s).1 hsame
  have hs : s ∈ x.visited := (h.visited s).2 (by simp)
  have htracks : Worklist.Tracks (log ++ [s]) ⟨rest, y⟩ :=
    ⟨by simpa using h.once, by simpa [hstay] using h.visited⟩
  have hmem := Worklist.mem_visited_meetAll ⟨rest, y⟩ (Step.successors (a.behaviour names s))
  rw [hstay] at hmem
  -- the visited states are those from before the turn and the states entered from its state
  refine ⟨htracks.meetAll _, (hmem _).2 (.inr h.initial), ?_, ?_, fun seen hseen t ht => ?_, ?_⟩
  · intro r hr
    rcases List.mem_append.1 hr with hr | hr
    · exact h.uniform r hr
    · exact List.mem_singleton.1 hr ▸ huniform
  · intro r hr t ht
    rw [hmem]
    rcases List.mem_append.1 hr with hr | hr
    · exact .inr (h.next r hr t ht)
    · obtain rfl := List.mem_singleton.1 hr
      exact .inl ((next_iff huniform).1 ht)
  · rcases (hmem t).1 ht with ht | ht
    · exact hseen.next s (h.needed seen hseen s hs) t ((next_iff huniform).2 ht)
    · exact h.needed seen hseen t ht
  · rw [Worklist.found_meetAll]
    exact learnedFrom_visited (h.learned.visit hvisit) _

theorem Expanded.run (h : a.Expanded names before w)
    (hruns : Worklist.Runs (a.behaviour names) w log result) :
    (∃ x, result = .ok x ∧ a.Expanded names (before ++ log) ⟨[], x⟩) ∨
    ∃ done s rest x e, result = .error e ∧ before ++ log = done ++ [s] ∧
      a.Expanded names done ⟨s :: rest, x⟩ ∧ x.visit s (a.behaviour names s) = .error e := by
  -- along the run; `before` is what was expanded until its part that is left
  induction hruns generalizing before with
  | done => exact .inl ⟨_, rfl, by simpa using h⟩
  | fails hvisit => exact .inr ⟨before, _, _, _, _, rfl, rfl, h, hvisit⟩
  | turn hvisit _ ih => simpa using ih (h.turn hvisit)

/-! ## The outcome -/

theorem explore_runs (a : Automaton) (names : Vocabulary) : ∃ log,
    Worklist.Runs (a.behaviour names) (Worklist.start a.initial) log (a.explore names) :=
  Worklist.runs_breadthFirst (fun s => StateMap.getD_map rfl _ s) [a.initial]

/-- What exploring learned, told from the visited states. -/
structure Surveyed (a : Automaton) (names : Vocabulary) (x : Exploration) : Prop where
  uniform : ∀ s ∈ x.visited, a.Uniform names s
  visited : IsLeast {seen : Set StateId | a.Closed names seen} {s | s ∈ x.visited}
  redirects : ∀ (s : StateId) (redirect : Redirect), x.redirects[s]? = some redirect ↔
    s ∈ x.visited ∧ ∃ edge ∈ a.outgoing s, (names.classify edge.label).isImmediate = true ∧
      redirect = ⟨edge.target, edge.label⟩
  edges : ∃ order : List StateId, order.Nodup ∧
    (∀ s, s ∈ order ↔ s ∈ x.visited ∧ a.urgentEdge? names s = none) ∧
    x.edges.toList = order.flatMap fun s => (a.delays names s).map keptDelay
  preempted : x.preempted = (x.redirects.keys.flatMap fun s => a.delays names s).length
  statuses : ∀ (t : StateId) (status : Status), x.statuses[t]? = some status ↔
    ∃ s edge, s ∈ x.visited ∧ edge ∈ a.outgoing s ∧
      names.classify edge.label = .interactive status.action ∧ edge.target = t

theorem flatMap_ite_nil {α : Type} (p : StateId → Prop) [DecidablePred p] (part : StateId → List α)
    (order : List StateId) : (order.flatMap fun s => if p s then part s else []) =
      (order.filter fun s => p s).flatMap part := by
  induction order with
  | nil => rfl
  | cons s rest ih =>
    rw [List.flatMap_cons, ih]
    by_cases hs : p s <;> simp [hs]

theorem Expanded.surveyed (h : a.Expanded names log ⟨[], x⟩) : a.Surveyed names x := by
  have hlog : ∀ s, s ∈ x.visited ↔ s ∈ log := by simpa using h.visited
  have hnodup : log.Nodup := by simpa using h.once
  have hredirect : ∀ (s : StateId) (redirect : Redirect), x.redirects[s]? = some redirect ↔
      s ∈ log ∧ ∃ edge, a.urgentEdge? names s = some edge ∧
        redirect = ⟨edge.target, edge.label⟩ := by
    intro s redirect
    rw [h.learned.redirects, behaviour, redirect?_steps]
  refine ⟨fun s hs => h.uniform s ((hlog s).1 hs), ⟨⟨h.initial, fun s hs => h.next s
    ((hlog s).1 hs)⟩, fun seen hseen => h.needed seen hseen⟩, fun s redirect => ?_, ?_, ?_,
    fun t status => ?_⟩
  · rw [hredirect, hlog]
    refine and_congr_right fun hs => ⟨?_, ?_⟩
    · rintro ⟨edge, hedge, rfl⟩
      obtain ⟨hmem, himm⟩ := urgentEdge?_some hedge
      exact ⟨edge, hmem, himm, rfl⟩
    · rintro ⟨edge, hmem, himm, rfl⟩
      obtain ⟨first, hfirst, hlabel, htarget⟩ := (h.uniform s hs).eq_first hmem himm
      exact ⟨first, hfirst, by rw [hlabel, htarget]⟩
  · refine ⟨log.filter fun s => a.urgentEdge? names s = none, hnodup.filter _, fun s => ?_, ?_⟩
    · rw [List.mem_filter, hlog, decide_eq_true_eq]
    · rw [h.learned.edges, ← flatMap_ite_nil]
      exact List.flatMap_congr fun s _ => kept_steps s
  · have hkeys : x.redirects.keys.Perm (log.filter fun s => ¬ a.urgentEdge? names s = none) := by
      apply (List.perm_ext_iff_of_nodup Std.ExtTreeMap.nodup_keys (hnodup.filter _)).2
      intro s
      rw [Std.ExtTreeMap.mem_keys, StateMap.mem_iff_exists, List.mem_filter, decide_eq_true_eq,
        ← ne_eq, Option.ne_none_iff_exists']
      simp only [hredirect]
      exact ⟨fun ⟨_, hs, edge, hedge, _⟩ => ⟨hs, edge, hedge⟩,
        fun ⟨hs, edge, hedge⟩ => ⟨_, hs, edge, hedge, rfl⟩⟩
    rw [(hkeys.flatMap_right _).length_eq, ← flatMap_ite_nil, List.length_flatMap,
      h.learned.preempted]
    refine congrArg List.sum (List.map_congr_left fun s _ => ?_)
    rw [behaviour, lost_steps]
    by_cases hs : a.urgentEdge? names s = none <;> simp [hs]
  · rw [h.learned.statuses]
    simp only [behaviour, demands_steps]
    constructor
    · rintro ⟨s, hs, edge, hedge, htarget, hkind⟩
      exact ⟨s, edge, (hlog s).2 hs, (urgentEdge?_some hedge).1, hkind, htarget⟩
    · rintro ⟨s, edge, hs, hedge, hkind, rfl⟩
      obtain ⟨first, hfirst, hlabel, htarget⟩ := (h.uniform s ((hlog s).1 hs)).eq_first hedge
        (by rw [hkind]; rfl)
      exact ⟨s, (hlog s).1 hs, first, hfirst, htarget.symm, hlabel ▸ hkind⟩

/-- A reached state from which two immediate edges lead that are no copies of each other. -/
def Undecided (a : Automaton) (names : Vocabulary) (s : StateId) (first second : String) : Prop :=
  (∀ seen, a.Closed names seen → s ∈ seen) ∧
  ∃ edge ∈ a.outgoing s, ∃ other ∈ a.outgoing s,
    (names.classify edge.label).isImmediate = true ∧
    (names.classify other.label).isImmediate = true ∧ edge.label = first ∧ other.label = second ∧
    (edge.label ≠ other.label ∨ edge.target ≠ other.target)

theorem Expanded.undecided {first second : String} (h : a.Expanded names log ⟨s :: rest, x⟩)
    (hvisit : x.visit s (a.behaviour names s) = .error (.nondeterminism t first second)) :
    s = t ∧ a.Undecided names s first second := by
  rcases Exploration.visit_error hvisit with ⟨left, right, htorn, hform⟩ |
    ⟨_, _, _, _, _, _, _, hform⟩
  · cases hform
    obtain ⟨⟨hleft, hleftImmediate⟩, ⟨hright, hrightImmediate⟩, hdiffer⟩ := htorn
    rw [behaviour, getD_steps, List.mem_map] at hleft hright
    obtain ⟨edge, hedge, rfl⟩ := hleft
    obtain ⟨other, hother, rfl⟩ := hright
    refine ⟨rfl, fun seen hseen => h.needed seen hseen s ((h.visited s).2 (by simp)), edge, hedge,
      other, hother, hleftImmediate, hrightImmediate, rfl, rfl, ?_⟩
    exact not_and_or.1 hdiffer
  · cases hform

/-- Exploring is one run of the loop over the worklist, which ends, goes only this way, and expands
    no state twice. If it succeeds, it has expanded the visited states, which are the least closed
    set, and what it learned is told by them. If it meets a choice, it is one of a state that every
    closed set has. -/
theorem explore_surveys (a : Automaton) (names : Vocabulary) :
    (∃ log, Worklist.Runs (a.behaviour names) (Worklist.start a.initial) log (a.explore names) ∧
      log.Nodup ∧ (∀ x, a.explore names = .ok x → ∀ s, s ∈ log ↔ s ∈ x.visited) ∧
      ∀ log' result, Worklist.Runs (a.behaviour names) (Worklist.start a.initial) log' result →
        log' = log ∧ result = a.explore names) ∧
    (∀ x, a.explore names = .ok x → a.Surveyed names x) ∧
    ∀ s first second, a.explore names = .error (.nondeterminism s first second) →
      a.Undecided names s first second := by
  obtain ⟨log, hruns⟩ := a.explore_runs names
  have hunique : ∀ log' result, Worklist.Runs (a.behaviour names) (Worklist.start a.initial) log'
      result → log' = log ∧ result = a.explore names := fun _ _ hother => hother.unique hruns
  rcases (a.expanded_start names).run hruns with ⟨x, hx, hexpanded⟩ |
    ⟨done, s, rest, x, e, he, hlog, hexpanded, hvisit⟩
  · rw [List.nil_append] at hexpanded
    refine ⟨⟨log, hruns, by simpa using hexpanded.once, fun y hy s => ?_, hunique⟩,
      fun y hy => ?_, fun s first second he => ?_⟩
    · cases hx.symm.trans hy
      simpa using (hexpanded.visited s).symm
    · cases hx.symm.trans hy
      exact hexpanded.surveyed
    · cases hx.symm.trans he
  · rw [List.nil_append] at hlog
    have honce : (done ++ s :: rest).Nodup := hexpanded.once
    refine ⟨⟨log, hruns, ?_, fun y hy => ?_, hunique⟩, fun y hy => ?_, fun t first second ht => ?_⟩
    · rw [hlog]
      refine honce.sublist (List.Sublist.append_left ?_ done)
      simp
    · cases he.symm.trans hy
    · cases he.symm.trans hy
    · cases he.symm.trans ht
      obtain ⟨rfl, hundecided⟩ := hexpanded.undecided hvisit
      exact hundecided

/-- State 1 is redirected to state 2 and its delay is preempted; nothing leads to state 4. -/
def sluice : Automaton := .ofEdges 0
  [⟨0, "rate 1", 1⟩, ⟨1, "FAIL", 2⟩, ⟨1, "time 2", 3⟩, ⟨2, "rate 3", 0⟩, ⟨4, "rate 1", 0⟩]

def dilemma : Automaton := .ofEdges 0 [⟨0, "rate 1", 1⟩, ⟨1, "FAIL", 2⟩, ⟨1, "i", 3⟩]

theorem sluice_surveyed :
    (∃ x, sluice.explore {} = .ok x ∧ sluice.Surveyed {} x ∧ x.visited.toList = [0, 1, 2] ∧
      x.preempted = 1) ∧
    dilemma.explore {} = .error (.nondeterminism 1 "FAIL" "i") ∧
      dilemma.Undecided {} 1 "FAIL" "i" := by
  have hfound : (sluice.explore {}).toOption.map (fun x => (x.visited.toList, x.preempted)) =
      some ([0, 1, 2], 1) := by
    decide +kernel
  obtain ⟨x, hx, hparts⟩ := exists_ok_of_map hfound
  obtain ⟨hvisited, hpreempted⟩ := Prod.mk.inj hparts
  have hchoice : dilemma.explore {} = .error (.nondeterminism 1 "FAIL" "i") := by
    have hrun : (dilemma.explore {}).map (fun _ => ()) =
        .error (.nondeterminism 1 "FAIL" "i") := by
      decide +kernel
    cases hresult : dilemma.explore {} with
    | ok found =>
      rw [hresult] at hrun
      cases hrun
    | error e =>
      rw [hresult] at hrun
      cases hrun
      rfl
  exact ⟨⟨x, hx, (explore_surveys sluice {}).2.1 x hx, hvisited, hpreempted⟩, hchoice,
    (explore_surveys dilemma {}).2.2 1 "FAIL" "i" hchoice⟩

end Automaton

end InteractiveMarkov
