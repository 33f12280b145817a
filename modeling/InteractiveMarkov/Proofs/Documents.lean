import InteractiveMarkov.Jani
import InteractiveMarkov.Proofs.Lines
import InteractiveMarkov.Proofs.Records
import Mathlib.Data.List.Forall2
import Mathlib.Data.List.Nodup
import Mathlib.Order.Interval.Set.Defs

set_option autoImplicit false

namespace InteractiveMarkov

/-- The numbers of a chain are those of its states. -/
structure Chain.InRange (chain : Chain) : Prop where
  initial : chain.initial ∈ Set.Icc 1 chain.stateCount
  ends : ∀ transition ∈ chain.transitions, transition.source ∈ Set.Icc 1 chain.stateCount ∧
    transition.target ∈ Set.Icc 1 chain.stateCount

/-! ## Reading documents -/

namespace Json

def field? (name : String) : Json → Option Json
  | object fields => fields.lookup name
  | _ => none

def text? : Json → Option String
  | text value => some value
  | _ => none

def items? : Json → Option (List Json)
  | array items => some items
  | _ => none

def textAt? (name : String) (value : Json) : Option String := (value.field? name).bind text?

def itemsAt? (name : String) (value : Json) : Option (List Json) :=
  (value.field? name).bind items?

def listAt? {α : Type} (name : String) (read : Json → Option α) (value : Json) :
    Option (List α) :=
  (value.itemsAt? name).bind fun items => items.mapM read

end Json

namespace Jani

def readRate? : Json → Option RateExpression
  | .float value => some (.number value)
  | .text name => some (.constant name)
  | _ => none

def readTrigger? (edge : Json) : Option Trigger :=
  match edge.field? "rate", edge.field? "action" with
  | some rate, none => ((rate.field? "exp").bind readRate?).map .rate
  | none, some action => action.text?.map .action
  | _, _ => none

def readEdge? (edge : Json) : Option Edge := do
  let location ← edge.textAt? "location"
  let trigger ← readTrigger? edge
  let [destination] ← edge.listAt? "destinations" (Json.textAt? "location") | none
  some ⟨location, trigger, destination⟩

def readAssignment? (assignment : Json) : Option String :=
  match assignment.field? "value" with
  | some (.bool true) => assignment.textAt? "ref"
  | _ => none

def readLocation? (location : Json) : Option Location := do
  let name ← location.textAt? "name"
  let transient ← if (location.field? "transient-values").isNone then some []
    else location.listAt? "transient-values" readAssignment?
  some ⟨name, transient⟩

def readType? : String → Option ModelType
  | "ctmc" => some .ctmc
  | "ma" => some .ma
  | _ => none

def readConstant? (constant : Json) : Option String :=
  if constant.textAt? "type" = some "real" then constant.textAt? "name" else none

def readBoolean? (boolean : Json) : Option String :=
  match boolean.textAt? "type", boolean.field? "initial-value", boolean.field? "transient" with
  | some "bool", some (.bool false), some (.bool true) => boolean.textAt? "name"
  | _, _, _ => none

/-- A document has one automaton, and that has one initial location. -/
def readModel? (document : Json) : Option Model := do
  let name ← document.textAt? "name"
  let type ← (document.textAt? "type").bind readType?
  let actions ← document.listAt? "actions" (Json.textAt? "name")
  let constants ← document.listAt? "constants" readConstant?
  let booleans ← document.listAt? "variables" readBoolean?
  let [automaton] ← document.itemsAt? "automata" | none
  let locations ← automaton.listAt? "locations" readLocation?
  let [initial] ← automaton.listAt? "initial-locations" Json.text? | none
  let edges ← automaton.listAt? "edges" readEdge?
  some { name, type, actions, constants, booleans, locations, initial, edges }

theorem readEdge?_json (edge : Edge) : readEdge? edge.json = some edge := by
  obtain ⟨location, trigger, destination⟩ := edge
  cases trigger with
  | action name => rfl
  | rate expression => cases expression <;> rfl

def actionJson (name : String) : Json := .object [("name", .text name)]

def assignmentJson (name : String) : Json := .object [("ref", .text name), ("value", .bool true)]

theorem readLocation?_json (location : Location) :
    readLocation? location.json = some location := by
  obtain ⟨name, transient⟩ := location
  cases transient with
  | nil => rfl
  | cons first rest =>
    have hname : (Location.json ⟨name, first :: rest⟩).textAt? "name" = some name := rfl
    have hsome : ((Location.json ⟨name, first :: rest⟩).field? "transient-values").isNone =
        false := rfl
    have hread : (Location.json ⟨name, first :: rest⟩).listAt? "transient-values"
        readAssignment? = some (first :: rest) :=
      Text.mapM_map_some (f := assignmentJson) fun _ _ => rfl
    rw [readLocation?, hname, hsome, hread]
    rfl

theorem readModel?_json (model : Model) : readModel? model.json = some model := by
  -- each field is found by evaluation; the lists are then read item by item
  have hname : model.json.textAt? "name" = some model.name := rfl
  have htype : (model.json.textAt? "type").bind readType? = some model.type := by
    obtain ⟨_, type, _⟩ := model
    cases type <;> rfl
  have hactions : model.json.listAt? "actions" (Json.textAt? "name") = some model.actions :=
    Text.mapM_map_some (f := actionJson) fun _ _ => rfl
  have hconstants : model.json.listAt? "constants" readConstant? = some model.constants :=
    Text.mapM_map_some (f := constantJson) fun _ _ => rfl
  have hbooleans : model.json.listAt? "variables" readBoolean? = some model.booleans :=
    Text.mapM_map_some (f := variableJson) fun _ _ => rfl
  obtain ⟨automaton, hautomata, hlocations, hinitial, hedges⟩ : ∃ automaton,
      model.json.itemsAt? "automata" = some [automaton] ∧
      automaton.listAt? "locations" readLocation? = some model.locations ∧
      automaton.listAt? "initial-locations" Json.text? = some [model.initial] ∧
      automaton.listAt? "edges" readEdge? = some model.edges :=
    ⟨_, rfl, Text.mapM_map_some fun location _ => readLocation?_json location, rfl,
      Text.mapM_map_some fun edge _ => readEdge?_json edge⟩
  rw [readModel?, hname, htype, hactions, hconstants, hbooleans, hautomata]
  simp only [Option.bind_eq_bind, Option.bind_some, hlocations, hinitial, hedges]

/-! ## Labels with a counterpart -/

def Letter (c : Char) : Prop := 'A' ≤ c ∧ c ≤ 'Z' ∨ 'a' ≤ c ∧ c ≤ 'z' ∨ c = '_'

/-- A letter or underscore, then letters, underscores and digits. -/
def Identifier (cs : List Char) : Prop :=
  ∃ c rest, cs = c :: rest ∧ Letter c ∧ ∀ d ∈ rest, Letter d ∨ '0' ≤ d ∧ d ≤ '9'

/-- What the label of a transition lets an edge be taken by. -/
inductive Triggers : KeptLabel → Trigger → Prop
  | action (name : String) : Triggers (.action name) (.action name)
  | number {expr : String} {value : Decimal.Binary64}
      (hvalue : Decimal.Binary64.parse? expr.toList = some value) :
      Triggers (.rate expr) (.rate (.number value))
  | constant {expr : String} (hnone : Decimal.Binary64.parse? expr.toList = none)
      (hname : Identifier expr.toList) : Triggers (.rate expr) (.rate (.constant expr))

/-- Actions have a counterpart, timed delays have none, and a rate has one if it is a finite number
    or an identifier. -/
def Representable : KeptLabel → Prop
  | .action _ => True
  | .timed _ => False
  | .rate expr => (∃ value, Decimal.Binary64.parse? expr.toList = some value) ∨
    Identifier expr.toList

variable {label : KeptLabel} {trigger : Trigger} {c : Char} {cs : List Char}

theorem isLetter_iff : isLetter c = true ↔ Letter c := by
  have hupper : c.isUpper = decide (c.val ≥ 'A'.val ∧ c.val ≤ 'Z'.val) := rfl
  have hlower : c.isLower = (decide (c.val ≥ 'a'.val) && decide (c.val ≤ 'z'.val)) := rfl
  have halpha : c.isAlpha = (c.isUpper || c.isLower) := rfl
  simp [isLetter, Letter, halpha, hupper, hlower, Char.le_def, or_assoc]

theorem isDigit_iff : c.isDigit = true ↔ '0' ≤ c ∧ c ≤ '9' := by
  simp [Char.isDigit, Char.le_def]

theorem isIdentifier_iff : isIdentifier cs = true ↔ Identifier cs := by
  unfold Identifier
  cases cs with
  | nil => simp [isIdentifier]
  | cons c rest =>
    simp only [isIdentifier, Bool.and_eq_true, List.all_eq_true, Bool.or_eq_true, isLetter_iff,
      isDigit_iff]
    constructor
    · rintro ⟨hc, hrest⟩
      exact ⟨c, rest, rfl, hc, hrest⟩
    · rintro ⟨_, _, heq, hc, hrest⟩
      obtain ⟨rfl, rfl⟩ := List.cons.inj heq
      exact ⟨hc, hrest⟩

theorem trigger_ok_iff : Jani.trigger label = .ok trigger ↔ Triggers label trigger := by
  constructor
  · intro h
    cases label with
    | action name =>
      cases h
      exact .action name
    | timed text => cases h
    | rate expr =>
      rw [Jani.trigger, rateExpression] at h
      split at h
      · rename_i value hvalue
        cases h
        exact .number hvalue
      · rename_i hnone
        split at h
        · rename_i hname
          cases h
          exact .constant hnone (isIdentifier_iff.1 hname)
        · cases h
  · intro h
    cases h with
    | action name => rfl
    | number hvalue =>
      rw [Jani.trigger, rateExpression, hvalue]
      rfl
    | constant hnone hname =>
      rw [Jani.trigger, rateExpression, hnone]
      simp only [if_pos (isIdentifier_iff.2 hname)]
      rfl

theorem exists_triggers : (∃ trigger, Triggers label trigger) ↔ Representable label := by
  constructor
  · rintro ⟨trigger, h⟩
    cases h with
    | action name => trivial
    | number hvalue => exact .inl ⟨_, hvalue⟩
    | constant _ hname => exact .inr hname
  · intro h
    cases label with
    | action name => exact ⟨_, .action name⟩
    | timed text => exact h.elim
    | rate expr =>
      cases hvalue : Decimal.Binary64.parse? expr.toList with
      | some value => exact ⟨_, .number hvalue⟩
      | none =>
        rcases h with ⟨value, hsome⟩ | hname
        · rw [hvalue] at hsome
          cases hsome
        · exact ⟨_, .constant hvalue hname⟩

/-! ## Edges and locations -/

structure Edge.Shows (edge : Edge) (transition : Transition) : Prop where
  location : edge.location = locationName transition.source
  trigger : Triggers transition.label edge.trigger
  destination : edge.destination = locationName transition.target

/-- The location is that of the state; the variable is true in it exactly if the state failed. -/
structure Location.Shows (location : Location) (chain : Chain) (n : Nat) : Prop where
  name : location.name = locationName n
  failed : failedVariable ∈ location.transient ↔ chain.status? n = some .failed
  others : ∀ name ∈ location.transient, name = failedVariable

variable {transition : Transition} {edge : Edge} {chain : Chain} {n m : Nat} {name : String}

theorem edge_ok_iff : Jani.edge transition = .ok edge ↔ edge.Shows transition := by
  rw [Jani.edge]
  constructor
  · intro h
    cases htrigger : Jani.trigger transition.label with
    | error e =>
      rw [htrigger] at h
      cases h
    | ok trigger =>
      rw [htrigger] at h
      cases h
      exact ⟨rfl, trigger_ok_iff.1 htrigger, rfl⟩
  · rintro ⟨hlocation, htrigger, hdestination⟩
    rw [trigger_ok_iff.2 htrigger, ← hlocation, ← hdestination]
    rfl

theorem exists_shows :
    (∃ edge : Edge, edge.Shows transition) ↔ Representable transition.label := by
  rw [← exists_triggers]
  constructor
  · rintro ⟨edge, h⟩
    exact ⟨edge.trigger, h.trigger⟩
  · rintro ⟨trigger, h⟩
    exact ⟨⟨_, trigger, _⟩, rfl, h, rfl⟩

theorem location_shows (chain : Chain) (n : Nat) : (location chain n).Shows chain n := by
  refine ⟨rfl, ?_, ?_⟩
  · rw [← Chain.isFailed_iff, location]
    cases chain.isFailed n <;> simp
  · intro name hname
    rw [location] at hname
    cases hfailed : chain.isFailed n with
    | true =>
      rw [hfailed] at hname
      exact List.mem_singleton.1 hname
    | false =>
      rw [hfailed] at hname
      cases hname

theorem locationName_inj (h : locationName n = locationName m) : n = m := by
  have hrepr : n.repr = m.repr := (String.append_right_inj "s").1 h
  have hdigits : Nat.toDigits 10 n = Nat.toDigits 10 m := by
    rw [← Nat.toList_repr, hrepr, Nat.toList_repr]
  calc
    n = Nat.ofDigitChars 10 (Nat.toDigits 10 n) 0 := Nat.ofDigitChars_ten_toDigits.symm
    _ = Nat.ofDigitChars 10 (Nat.toDigits 10 m) 0 := by rw [hdigits]
    _ = m := Nat.ofDigitChars_ten_toDigits

/-! ## Names in use -/

theorem mem_distinct {names : List String} : name ∈ distinct names ↔ name ∈ names := by
  rw [distinct, Std.ExtTreeSet.mem_toList, Std.ExtTreeSet.mem_ofList, List.contains_iff_mem]

theorem pairwise_distinct (names : List String) : (distinct names).Pairwise (· < ·) := by
  have hordered : (distinct names).Pairwise fun first second => compare first second = .lt :=
    Std.ExtTreeSet.ordered_toList
  exact hordered.imp fun hlt => compareOfLessAndEq_eq_lt.1 hlt

theorem Edge.Shows.action?_iff (h : edge.Shows transition) :
    transition.label = .action name ↔ edge.action? = some name := by
  obtain ⟨-, htrigger, -⟩ := h
  obtain ⟨source, label, target⟩ := transition
  obtain ⟨location, trigger, destination⟩ := edge
  cases htrigger <;> simp [Edge.action?]

theorem Edge.Shows.constant?_iff (h : edge.Shows transition) :
    transition.label = .rate name ∧ Decimal.Binary64.parse? name.toList = none ↔
      edge.constant? = some name := by
  obtain ⟨-, htrigger, -⟩ := h
  obtain ⟨source, label, target⟩ := transition
  obtain ⟨location, trigger, destination⟩ := edge
  cases htrigger with
  | action action => simp [Edge.constant?]
  | @number expr value hvalue =>
    simp only [Edge.constant?, KeptLabel.rate.injEq, reduceCtorEq, iff_false, not_and]
    rintro rfl hnone
    rw [hvalue] at hnone
    cases hnone
  | @constant expr hnone _ =>
    simp only [Edge.constant?, KeptLabel.rate.injEq, Option.some.injEq, and_iff_left_iff_imp]
    rintro rfl
    exact hnone

section Lists

variable {α β : Type} {R : α → β → Prop} {l : List α} {k : List β}

theorem mapM_ok_iff {ε : Type} {f : α → Except ε β} :
    l.mapM f = .ok k ↔ List.Forall₂ (fun x y => f x = .ok y) l k := by
  induction l generalizing k with
  | nil =>
    rw [List.forall₂_nil_left_iff]
    exact ⟨fun h => (Except.ok.inj h).symm, fun h => h ▸ rfl⟩
  | cons x rest ih =>
    rw [List.mapM_cons, List.forall₂_cons_left_iff]
    constructor
    · intro h
      obtain ⟨y, hy, h⟩ := bind_ok h
      obtain ⟨ys, hys, h⟩ := bind_ok h
      cases h
      exact ⟨y, ys, hy, ih.1 hys, rfl⟩
    · rintro ⟨y, ys, hy, hys, rfl⟩
      rw [hy, ih.2 hys]
      rfl

theorem exists_forall₂ : (∃ k, List.Forall₂ R l k) ↔ ∀ x ∈ l, ∃ y, R x y := by
  induction l with
  | nil => exact ⟨fun _ x hx => absurd hx List.not_mem_nil, fun _ => ⟨[], .nil⟩⟩
  | cons x rest ih =>
    rw [List.forall_mem_cons, ← ih]
    constructor
    · rintro ⟨_, _ | ⟨hx, hrest⟩⟩
      exact ⟨⟨_, hx⟩, _, hrest⟩
    · rintro ⟨⟨y, hy⟩, ys, hys⟩
      exact ⟨y :: ys, .cons hy hys⟩

theorem exists_mem_iff {P : α → Prop} {Q : β → Prop} (h : List.Forall₂ R l k)
    (hiff : ∀ x y, R x y → (P x ↔ Q y)) : (∃ x ∈ l, P x) ↔ ∃ y ∈ k, Q y := by
  induction h with
  | nil => simp
  | cons hxy _ ih => rw [List.exists_mem_cons_iff, List.exists_mem_cons_iff, hiff _ _ hxy, ih]

theorem forall_mem_right {Q : β → Prop} (h : List.Forall₂ R l k)
    (hall : ∀ x ∈ l, ∀ y, R x y → Q y) : ∀ y ∈ k, Q y := by
  induction h with
  | nil => exact fun y hy => absurd hy List.not_mem_nil
  | cons hxy _ ih =>
    rw [List.forall_mem_cons] at hall ⊢
    exact ⟨hall.1 _ hxy, ih hall.2⟩

end Lists

/-! ## The model of a chain -/

/-- The model is an image of the chain. Its actions and constants are those that transitions use,
    in ascending order, each once; edges lead between locations that it has. -/
structure Depicts (chain : Chain) (name : String) (m : Model) : Prop where
  name : m.name = name
  locations : List.Forall₂ (fun n (location : Location) => location.Shows chain n)
    chain.states m.locations
  nodup : (m.locations.map Location.name).Nodup
  booleans : m.booleans = [failedVariable]
  initial : m.initial = locationName chain.initial
  initial_mem : m.initial ∈ m.locations.map Location.name
  edges : List.Forall₂ (fun transition (edge : Edge) => edge.Shows transition)
    chain.transitions m.edges
  ends_mem : ∀ edge ∈ m.edges, edge.location ∈ m.locations.map Location.name ∧
    edge.destination ∈ m.locations.map Location.name
  actions : m.actions.Pairwise (· < ·)
  mem_actions : ∀ action, action ∈ m.actions ↔
    ∃ transition ∈ chain.transitions, transition.label = .action action
  constants : m.constants.Pairwise (· < ·)
  mem_constants : ∀ constant, constant ∈ m.constants ↔
    ∃ transition ∈ chain.transitions, transition.label = .rate constant ∧
      Decimal.Binary64.parse? constant.toList = none
  type : m.type = .ctmc ↔
    ∀ transition ∈ chain.transitions, ∀ action, transition.label ≠ .action action

def image (chain : Chain) (name : String) (edges : List Edge) : Model where
  name := name
  type := if (distinct (edges.filterMap Edge.action?)).isEmpty then .ctmc else .ma
  actions := distinct (edges.filterMap Edge.action?)
  constants := distinct (edges.filterMap Edge.constant?)
  booleans := [failedVariable]
  locations := chain.states.map (location chain)
  initial := locationName chain.initial
  edges := edges

theorem model_ok_iff {m : Model} : model chain name = .ok m ↔ ∃ edges,
    List.Forall₂ (fun transition (edge : Edge) => edge.Shows transition) chain.transitions edges ∧
      m = image chain name edges := by
  simp only [← edge_ok_iff, ← mapM_ok_iff]
  constructor
  · intro h
    obtain ⟨edges, hedges, h⟩ := bind_ok h
    cases h
    exact ⟨edges, hedges, rfl⟩
  · rintro ⟨edges, hedges, rfl⟩
    rw [model, hedges]
    rfl

theorem names_image (chain : Chain) (name : String) (edges : List Edge) :
    (image chain name edges).locations.map Location.name = chain.states.map locationName := by
  rw [image, List.map_map]
  rfl

theorem mem_names_image {edges : List Edge} (h : n ∈ Set.Icc 1 chain.stateCount) :
    locationName n ∈ (image chain name edges).locations.map Location.name := by
  have hlow : 1 ≤ n := h.1
  have hhigh : n ≤ chain.stateCount := h.2
  rw [names_image]
  apply List.mem_map_of_mem
  rw [Chain.states, List.mem_range'_1]
  omega

theorem mem_actions_image {edges : List Edge} {action : String}
    (hedges : List.Forall₂ (fun transition (edge : Edge) => edge.Shows transition)
      chain.transitions edges) : action ∈ (image chain name edges).actions ↔
    ∃ transition ∈ chain.transitions, transition.label = .action action := by
  rw [image, mem_distinct, List.mem_filterMap]
  exact (exists_mem_iff hedges fun _ _ hshows => hshows.action?_iff).symm

theorem mem_constants_image {edges : List Edge} {constant : String}
    (hedges : List.Forall₂ (fun transition (edge : Edge) => edge.Shows transition)
      chain.transitions edges) : constant ∈ (image chain name edges).constants ↔
    ∃ transition ∈ chain.transitions, transition.label = .rate constant ∧
      Decimal.Binary64.parse? constant.toList = none := by
  rw [image, mem_distinct, List.mem_filterMap]
  exact (exists_mem_iff hedges fun _ _ hshows => hshows.constant?_iff).symm

theorem type_image (chain : Chain) (name : String) (edges : List Edge) :
    (image chain name edges).type = .ctmc ↔ (image chain name edges).actions = [] := by
  rw [image]
  cases distinct (edges.filterMap Edge.action?) <;> simp

theorem depicts_image (h : chain.InRange) (name : String) {edges : List Edge}
    (hedges : List.Forall₂ (fun transition (edge : Edge) => edge.Shows transition)
      chain.transitions edges) : Depicts chain name (image chain name edges) := by
  have hends : ∀ edge ∈ edges,
      edge.location ∈ (image chain name edges).locations.map Location.name ∧
        edge.destination ∈ (image chain name edges).locations.map Location.name := by
    refine forall_mem_right hedges fun transition hmem edge hshows => ?_
    obtain ⟨hsource, htarget⟩ := h.ends transition hmem
    rw [hshows.location, hshows.destination]
    exact ⟨mem_names_image hsource, mem_names_image htarget⟩
  refine ⟨rfl, ?_, ?_, rfl, rfl, mem_names_image h.initial, hedges, hends, pairwise_distinct _,
    fun _ => mem_actions_image hedges, pairwise_distinct _, fun _ => mem_constants_image hedges, ?_⟩
  · rw [image, List.forall₂_map_right_iff, List.forall₂_same]
    exact fun n _ => location_shows chain n
  · rw [names_image]
    exact List.Nodup.map (fun _ _ => locationName_inj) List.nodup_range'
  · rw [type_image, List.eq_nil_iff_forall_not_mem]
    simp only [mem_actions_image hedges, not_exists, not_and]
    exact ⟨fun hnone transition hmem action => hnone action transition hmem,
      fun hnone action transition hmem => hnone transition hmem action⟩

theorem exists_model {document : Json} (h : (model chain name).map Model.json = .ok document) :
    ∃ m, model chain name = .ok m ∧ readModel? document = some m := by
  cases hmodel : model chain name with
  | error e =>
    rw [hmodel] at h
    cases h
  | ok m =>
    rw [hmodel] at h
    cases h
    exact ⟨m, rfl, readModel?_json m⟩

/-- A chain has a document exactly if all its labels have a counterpart, and what is read from the
    document is an image of the chain. -/
theorem document_depicts (chain : Chain) (name : String) (h : chain.InRange) :
    ((∃ document, (model chain name).map Model.json = .ok document) ↔
      ∀ transition ∈ chain.transitions, Representable transition.label) ∧
    ∀ document, (model chain name).map Model.json = .ok document →
      ∃ m, readModel? document = some m ∧ Depicts chain name m := by
  have hsome : (∃ document, (model chain name).map Model.json = .ok document) ↔
      ∃ m, model chain name = .ok m := by
    cases model chain name with
    | error e => simp [Except.map]
    | ok m => simp [Except.map]
  refine ⟨?_, fun document hdocument => ?_⟩
  · simp only [hsome, model_ok_iff, ← exists_shows, ← exists_forall₂]
    constructor
    · rintro ⟨m, edges, hedges, rfl⟩
      exact ⟨edges, hedges⟩
    · rintro ⟨edges, hedges⟩
      exact ⟨_, edges, hedges, rfl⟩
  · cases hmodel : model chain name with
    | error e =>
      rw [hmodel] at hdocument
      cases hdocument
    | ok m =>
      rw [hmodel] at hdocument
      cases hdocument
      obtain ⟨edges, hedges, rfl⟩ := model_ok_iff.1 hmodel
      exact ⟨_, readModel?_json _, depicts_image h name hedges⟩

/-- Actions, numbers and symbols in one chain; `inf` is no finite number and so a symbol. -/
def mixed : Chain :=
  ⟨2, 3, [⟨1, .rate "3.0", 2⟩, ⟨2, .action "b", 3⟩, ⟨3, .rate "lambda", 1⟩, ⟨2, .action "a", 1⟩,
    ⟨3, .rate "inf", 3⟩, ⟨2, .action "b", 2⟩], [.operational, .failed, .operational]⟩

theorem mixed_depicts : mixed.InRange ∧
    (∀ transition ∈ mixed.transitions, Representable transition.label) ∧ ∃ document m,
    (model mixed "mixed").map Model.json = .ok document ∧ readModel? document = some m ∧
      Depicts mixed "mixed" m ∧ m.actions = ["a", "b"] ∧ m.constants = ["inf", "lambda"] ∧
      m.type = .ma := by
  have hends : ∀ transition ∈ mixed.transitions,
      (1 ≤ transition.source ∧ transition.source ≤ 3) ∧
        1 ≤ transition.target ∧ transition.target ≤ 3 := by decide
  have hrange : mixed.InRange := ⟨⟨by decide, by decide⟩, hends⟩
  have hnames : (model mixed "mixed").toOption.map
      (fun m => (m.actions, m.constants, m.type)) = some (["a", "b"], ["inf", "lambda"], .ma) := by
    decide +kernel
  obtain ⟨hexists, hread⟩ := document_depicts mixed "mixed" hrange
  cases hmodel : model mixed "mixed" with
  | error e =>
    rw [hmodel] at hnames
    cases hnames
  | ok found =>
    have hdocument : (model mixed "mixed").map Model.json = .ok found.json := by
      rw [hmodel]
      rfl
    obtain ⟨m, hm, hdepicts⟩ := hread _ hdocument
    obtain rfl : found = m := Option.some.inj ((readModel?_json found).symm.trans hm)
    rw [hmodel] at hnames
    simp only [Except.toOption, Option.map_some, Option.some.injEq, Prod.mk.injEq] at hnames
    exact ⟨hrange, hexists.1 ⟨_, hdocument⟩, _, found, rfl, hm, hdepicts, hnames⟩

end Jani

end InteractiveMarkov
