import InteractiveMarkov.Proofs.RoundTrip
import InteractiveMarkov.Proofs.Tables

/-!
# Two formats of one reduced chain

The matrix trims the text of a rate and prints it, the document turns the text as it is into a
number. A reduction leaves delays only and no blanks around a rate, so the two read the same number
from it. A chain that has a matrix therefore has a document without symbols, with the numbers that
the rows denote; and a document without symbols whose numbers are all above zero has a matrix.
-/

set_option autoImplicit false

namespace InteractiveMarkov

open Text RateMatrix

/-- A delay; if it is a rate, its text is trimmed. -/
inductive KeptLabel.Tidy : KeptLabel → Prop
  | rate {expr : String} (h : trim expr.toList = expr.toList) : Tidy (.rate expr)
  | timed (text : String) : Tidy (.timed text)

/-- Each transition of the chain is a rate without blanks around it, of the given value. -/
def Chain.Rated (chain : Chain) (value : Transition → Decimal.Binary64) : Prop :=
  ∀ u ∈ chain.transitions, ∃ expr, u.label = .rate expr ∧ trim expr.toList = expr.toList ∧
    Decimal.Binary64.parse? expr.toList = some (value u)

variable {chain : Chain} {value : Transition → Decimal.Binary64} {label : KeptLabel}
  {u : Transition}

theorem tidy_delayLabel (label : String) : (delayLabel label).Tidy := by
  unfold delayLabel
  split
  · refine .rate ?_
    rw [String.toList_ofList, trim_trim]
  · exact .timed label

theorem Automaton.reduce_tidy {a : Automaton} {options : ReductionOptions} {r : Reduction}
    (h : a.reduce options = .ok r) : ∀ u ∈ r.chain.transitions, u.label.Tidy := by
  intro u hu
  obtain ⟨p, hp, -, rfl⟩ := Automaton.reduce_ok h
  obtain ⟨_, -, -, edge, -, rfl⟩ := hp.transition_of_delay options.merge hu
  exact tidy_delayLabel edge.label

theorem exists_rated (htidy : ∀ u ∈ chain.transitions, u.label.Tidy)
    (hrates : ∀ u ∈ chain.transitions, PositiveRate u.label) : ∃ value, chain.Rated value := by
  have hvalue : ∀ u ∈ chain.transitions, ∃ value expr, u.label = .rate expr ∧
      trim expr.toList = expr.toList ∧ Decimal.Binary64.parse? expr.toList = some value := by
    intro u hu
    have htrim := htidy u hu
    obtain ⟨expr, value, hlabel, hvalue, -⟩ := hrates u hu
    rw [hlabel] at htrim
    cases htrim with
    | rate h =>
      rw [h] at hvalue
      exact ⟨value, expr, hlabel, h, hvalue⟩
  have : Nonempty Decimal.Binary64 := ⟨⟨false, 0, 0⟩⟩
  choose! value hvalue using hvalue
  exact ⟨value, hvalue⟩

def numericEdge (value : Transition → Decimal.Binary64) (u : Transition) : Jani.Edge :=
  ⟨Jani.locationName u.source, .rate (.number (value u)), Jani.locationName u.target⟩

theorem Chain.Rated.shows (h : chain.Rated value) :
    List.Forall₂ (fun u (edge : Jani.Edge) => edge.Shows u) chain.transitions
      (chain.transitions.map (numericEdge value)) := by
  rw [List.forall₂_map_right_iff, List.forall₂_same]
  intro u hu
  obtain ⟨expr, hlabel, -, hvalue⟩ := h u hu
  exact ⟨rfl, hlabel ▸ .number hvalue, rfl⟩

theorem Chain.Rated.model_ok (h : chain.Rated value) (name : String) :
    ∃ m, Jani.model chain name = .ok m ∧ m.type = .ctmc ∧ m.actions = [] ∧ m.constants = [] ∧
      m.edges = chain.transitions.map (numericEdge value) := by
  have hactions : (Jani.image chain name (chain.transitions.map (numericEdge value))).actions =
      [] := by
    refine List.eq_nil_iff_forall_not_mem.2 fun action haction => ?_
    obtain ⟨u, hu, hlabel⟩ := (Jani.mem_actions_image h.shows).1 haction
    obtain ⟨_, hrate, -⟩ := h u hu
    cases hlabel.symm.trans hrate
  have hconstants : (Jani.image chain name
      (chain.transitions.map (numericEdge value))).constants = [] := by
    refine List.eq_nil_iff_forall_not_mem.2 fun constant hconstant => ?_
    obtain ⟨u, hu, hlabel, hnone⟩ := (Jani.mem_constants_image h.shows).1 hconstant
    obtain ⟨_, hrate, -, hvalue⟩ := h u hu
    cases hlabel.symm.trans hrate
    cases hnone.symm.trans hvalue
  exact ⟨_, Jani.model_ok_iff.2 ⟨_, h.shows, rfl⟩, (Jani.type_image _ _ _).2 hactions, hactions,
    hconstants, rfl⟩

theorem positive_of_shows {edge : Jani.Edge} (htidy : u.label.Tidy) (hshows : edge.Shows u)
    (hconstant : edge.constant? = none)
    (hpositive : ∀ value, edge.trigger = .rate (.number value) → value.isPositive = true) :
    PositiveRate u.label := by
  obtain ⟨-, htrigger, -⟩ := hshows
  obtain ⟨source, label, target⟩ := u
  obtain ⟨location, trigger, destination⟩ := edge
  cases htrigger with
  | action name => cases htidy
  | constant hnone hname => cases hconstant
  | @number expr value hvalue =>
    cases htidy with
    | rate htrim =>
      rw [← htrim] at hvalue
      exact ⟨expr, value, rfl, hvalue, hpositive value rfl⟩

theorem positive_of_model {name : String} {m : Jani.Model}
    (htidy : ∀ u ∈ chain.transitions, u.label.Tidy) (h : Jani.model chain name = .ok m)
    (hconstants : m.constants = []) (hpositive : ∀ edge ∈ m.edges, ∀ value,
      edge.trigger = .rate (.number value) → value.isPositive = true) :
    ∀ u ∈ chain.transitions, PositiveRate u.label := by
  obtain ⟨edges, hedges, rfl⟩ := Jani.model_ok_iff.1 h
  have hnone : ∀ edge ∈ edges, edge.constant? = none := by
    intro edge hedge
    refine Option.eq_none_iff_forall_ne_some.2 fun constant hconstant => ?_
    exact List.eq_nil_iff_forall_not_mem.1 hconstants constant
      (Jani.mem_distinct.2 (List.mem_filterMap.2 ⟨edge, hedge, hconstant⟩))
  have hrates : ∀ u ∈ chain.transitions, u.label.Tidy → PositiveRate u.label :=
    Jani.forall_mem_right hedges.flip fun edge hedge u hshows htidy =>
      positive_of_shows htidy hshows (hnone edge hedge) (hpositive edge hedge)
  exact fun u hu => hrates u hu (htidy u hu)

/-- The row of a transition. Its third word denotes the value. -/
def RowOf (value : Transition → Decimal.Binary64) (u : Transition) (line : String) : Prop :=
  ∃ rate, words line = [u.source.repr, u.target.repr, rate] ∧
    Decimal.Binary64.parse? rate.toList = some (value u)

theorem Chain.Rated.rowOf (h : chain.Rated value) (hu : u ∈ chain.transitions) {line : String}
    (hline : words line = cells (tidy u)) : RowOf value u line := by
  obtain ⟨expr, hlabel, htrim, hvalue⟩ := h u hu
  refine ⟨expr, ?_, hvalue⟩
  rw [hline, cells, tidy, rateText, hlabel, KeptLabel.body, trimmed, htrim, String.ofList_toList]
  rfl

theorem Chain.Rated.forall₂_rows (h : chain.Rated value) {table : List String}
    (htable : table.map words = (tabled chain).map cells) :
    List.Forall₂ (RowOf value) (rows chain) table := by
  have hwords : List.Forall₂ (fun line u => words line = cells (tidy u)) table (rows chain) := by
    rw [tabled, List.map_map, ← List.forall₂_eq_eq_eq, List.forall₂_map_left_iff,
      List.forall₂_map_right_iff] at htable
    exact htable
  have hmem : ∀ u ∈ rows chain, u ∈ chain.transitions := fun u => mem_rows.1
  exact ((List.forall₂_and_left _ _).2 ⟨hmem, hwords.flip⟩).imp fun u line hrow =>
    h.rowOf hrow.1 hrow.2

theorem Chain.Rated.matrix (h : chain.Rated value) {start after : Stream} {count : Nat}
    (hcount : chain.transitions.length < countBound) (hstart : start.capacity = none)
    (hwrite : write chain start = .ok (after, count)) :
    ∃ matrix sorted, start.Written matrix after ∧ StablySorted chain.transitions sorted ∧
      List.Forall₂ (RowOf value) sorted ((lines matrix).drop 2) := by
  obtain ⟨-, hwritten, _, table, hlines, -, htable⟩ := tabulates_of_write hcount hstart hwrite
  refine ⟨_, _, hwritten, stablySorted_rows chain, ?_⟩
  rw [hlines]
  exact h.forall₂_rows htable

/-- What a reduction leaves has a matrix only if it has documents; these are of a continuous-time
    chain without actions and symbols. Each transition then has one value, the number of its edge
    and the number that its row denotes, provided that the number of rows fits its field. A document
    without symbols and with positive numbers only shows that there is a matrix. -/
theorem formats_agree {a : Automaton} {options : ReductionOptions} {r : Reduction} {start : Stream}
    (h : a.reduce options = .ok r) (hstart : start.capacity = none) :
    (∀ after count, write r.chain start = .ok (after, count) → ∃ value,
      (∀ name, ∃ document m, (Jani.model r.chain name).map Jani.Model.json = .ok document ∧
        Jani.readModel? document = some m ∧ m.type = .ctmc ∧ m.actions = [] ∧ m.constants = [] ∧
        m.edges = r.chain.transitions.map (numericEdge value)) ∧
      (r.chain.transitions.length < countBound → ∃ matrix sorted, start.Written matrix after ∧
        StablySorted r.chain.transitions sorted ∧
        List.Forall₂ (RowOf value) sorted ((lines matrix).drop 2))) ∧
    ∀ name document m, (Jani.model r.chain name).map Jani.Model.json = .ok document →
      Jani.readModel? document = some m → m.constants = [] →
      (∀ edge ∈ m.edges, ∀ value, edge.trigger = .rate (.number value) →
        value.isPositive = true) → ∃ result, write r.chain start = .ok result := by
  have htidy := Automaton.reduce_tidy h
  constructor
  · intro after count hwrite
    obtain ⟨value, hrated⟩ := exists_rated htidy (positive_of_write hstart hwrite)
    refine ⟨value, fun name => ?_, fun hcount => hrated.matrix hcount hstart hwrite⟩
    obtain ⟨m, hmodel, hm⟩ := hrated.model_ok name
    exact ⟨m.json, m, by rw [hmodel]; rfl, Jani.readModel?_json m, hm⟩
  · intro name document m hdocument hread hconstants hpositive
    obtain ⟨found, hmodel, hfound⟩ := Jani.exists_model hdocument
    obtain rfl : found = m := Option.some.inj (hfound.symm.trans hread)
    exact (exists_write_ok_iff hstart).2 (positive_of_model htidy hmodel hconstants hpositive)

/-- A boiler breaks down from state 5 by way of state 7 to state 2. Blanks stand around some rates,
    two rates lead the same way, and the rows are not in the order of the edges. -/
def boiler : Automaton := .ofEdges 5
  [⟨5, "rate  0.5 ", 7⟩, ⟨5, "rate 1e1", 5⟩, ⟨5, "rate .50", 7⟩, ⟨7, "FAIL", 2⟩,
    ⟨2, "rate 3\t", 5⟩, ⟨2, "rate 7", 2⟩]

def boilerChain : Chain :=
  ⟨2, 2, [⟨2, .rate "0.5", 1⟩, ⟨2, .rate "1e1", 2⟩, ⟨2, .rate ".50", 1⟩, ⟨1, .rate "3", 2⟩,
    ⟨1, .rate "7", 1⟩], [.failed, .failed]⟩

def half : Decimal.Binary64 := ⟨false, 2 ^ 52, -53⟩

def boilerEdges : List Jani.Edge :=
  [⟨"s2", .rate (.number half), "s1"⟩, ⟨"s2", .rate (.number ⟨false, 5 * 2 ^ 50, -49⟩), "s2"⟩,
    ⟨"s2", .rate (.number half), "s1"⟩, ⟨"s1", .rate (.number ⟨false, 3 * 2 ^ 51, -51⟩), "s2"⟩,
    ⟨"s1", .rate (.number ⟨false, 7 * 2 ^ 50, -50⟩), "s1"⟩]

theorem boiler_reduced : ∃ r, boiler.reduce {} = .ok r ∧ r.chain = boilerChain := by
  have hrun : (boiler.reduce {}).toOption.map (·.chain) = some boilerChain := by decide +kernel
  exact exists_ok_of_map hrun

theorem boiler_model : ∃ m, Jani.model boilerChain "boiler" = .ok m ∧
    (m.constants, m.edges) = ([], boilerEdges) := by
  have hrun : (Jani.model boilerChain "boiler").toOption.map (fun m => (m.constants, m.edges)) =
      some ([], boilerEdges) := by
    decide +kernel
  exact exists_ok_of_map hrun

theorem boiler_agrees : Stream.empty.capacity = none ∧ ∃ r document m value after count matrix
    sorted, boiler.reduce {} = .ok r ∧ r.chain = boilerChain ∧
      (Jani.model boilerChain "boiler").map Jani.Model.json = .ok document ∧
      Jani.readModel? document = some m ∧ m.type = .ctmc ∧ m.edges = boilerEdges ∧
      boilerEdges = boilerChain.transitions.map (numericEdge value) ∧
      write boilerChain Stream.empty = .ok (after, count) ∧ Stream.empty.Written matrix after ∧
      StablySorted boilerChain.transitions sorted ∧
      List.Forall₂ (RowOf value) sorted ((lines matrix).drop 2) := by
  obtain ⟨r, hr, hchain⟩ := boiler_reduced
  obtain ⟨found, hmodel, hfound⟩ := boiler_model
  obtain ⟨hconstants, hedges⟩ := Prod.mk.inj hfound
  obtain ⟨hforth, hback⟩ := formats_agree hr (rfl : Stream.empty.capacity = none)
  rw [hchain] at hforth hback
  have hdocument : (Jani.model boilerChain "boiler").map Jani.Model.json = .ok found.json := by
    rw [hmodel]
    rfl
  have hpositive : ∀ edge ∈ found.edges, ∀ value, edge.trigger = .rate (.number value) →
      value.isPositive = true := by
    rw [hedges]
    simp [boilerEdges, half, Decimal.Binary64.isPositive]
  obtain ⟨⟨after, count⟩, hwrite⟩ :=
    hback "boiler" found.json found hdocument (Jani.readModel?_json found) hconstants hpositive
  obtain ⟨value, hdocuments, hmatrix⟩ := hforth after count hwrite
  obtain ⟨document, m, hjson, hread, htype, -, -, hnumbers⟩ := hdocuments "boiler"
  obtain ⟨matrix, sorted, hwritten, hsorted, hrows⟩ := hmatrix (by decide)
  obtain rfl := Except.ok.inj (hjson.symm.trans hdocument)
  obtain rfl := Option.some.inj (hread.symm.trans (Jani.readModel?_json found))
  exact ⟨rfl, r, _, m, value, after, count, matrix, sorted, hr, hchain, hjson, hread, htype,
    hedges, hedges ▸ hnumbers, hwrite, hwritten, hsorted, hrows⟩

end InteractiveMarkov
