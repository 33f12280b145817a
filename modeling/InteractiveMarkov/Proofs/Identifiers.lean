import InteractiveMarkov.Proofs.Documents

set_option autoImplicit false

namespace InteractiveMarkov.Jani

inductive ValueType where
  | real
  | boolean
  deriving DecidableEq, Repr

/-- A name with the type that it is declared with or that is expected of it. -/
structure Symbol where
  name : String
  type : ValueType
  deriving DecidableEq, Repr

def Model.declarations (m : Model) : List Symbol :=
  m.constants.map (⟨·, .real⟩) ++ m.booleans.map (⟨·, .boolean⟩)

/-- The names that stand in edges and locations, with the types they should have. -/
def Model.references (m : Model) : List Symbol :=
  (m.edges.filterMap Edge.constant?).map (⟨·, .real⟩) ++
    (m.locations.flatMap Location.transient).map (⟨·, .boolean⟩)

def Model.Resolves (m : Model) (symbol : Symbol) : Prop :=
  (m.declarations.filter fun other => other.name = symbol.name) = [symbol]

structure Model.Unambiguous (m : Model) : Prop where
  nodup : (m.declarations.map Symbol.name).Nodup
  resolves : ∀ symbol ∈ m.references, m.Resolves symbol

variable {chain : Chain} {name : String} {symbol other : Symbol} {m : Model}

theorem mem_declarations : symbol ∈ m.declarations ↔
    (symbol.name ∈ m.constants ∧ symbol.type = .real) ∨
      symbol.name ∈ m.booleans ∧ symbol.type = .boolean := by
  obtain ⟨name, type⟩ := symbol
  cases type <;> simp [Model.declarations]

section Declared

variable (hconstants : m.constants.Nodup) (hbooleans : m.booleans = [failedVariable])

include hconstants hbooleans

theorem nodup_declarations : m.declarations.Nodup := by
  have hreal : (m.constants.map fun name => (⟨name, .real⟩ : Symbol)).Nodup :=
    hconstants.map fun _ _ h => (Symbol.mk.inj h).1
  have hboolean : (m.booleans.map fun name => (⟨name, .boolean⟩ : Symbol)).Nodup := by
    rw [hbooleans]
    exact List.nodup_singleton _
  refine hreal.append hboolean fun symbol hfirst hsecond => ?_
  obtain ⟨_, -, rfl⟩ := List.mem_map.1 hfirst
  obtain ⟨_, -, hsame⟩ := List.mem_map.1 hsecond
  cases hsame

theorem nodup_names_iff :
    (m.declarations.map Symbol.name).Nodup ↔ failedVariable ∉ m.constants := by
  have hnames : m.declarations.map Symbol.name = m.constants ++ [failedVariable] := by
    simp [Model.declarations, Function.comp_def, hbooleans]
  rw [hnames, List.nodup_append]
  constructor
  · rintro ⟨-, -, hapart⟩ hmem
    exact hapart _ hmem _ (List.mem_singleton_self _) rfl
  · intro hnot
    refine ⟨hconstants, List.nodup_singleton _, fun first hfirst second hsecond hsame => hnot ?_⟩
    rwa [← List.mem_singleton.1 hsecond, ← hsame]

theorem resolves_of_mem (hsymbol : symbol ∈ m.declarations)
    (hclear : symbol.name = failedVariable → failedVariable ∉ m.constants) :
    m.Resolves symbol := by
  have honly : ∀ other ∈ m.declarations, other.name = symbol.name ↔ other = symbol := by
    intro other hother
    refine ⟨fun hname => ?_, fun hsame => hsame ▸ rfl⟩
    rw [mem_declarations, hbooleans, List.mem_singleton] at hsymbol hother
    obtain ⟨first, type⟩ := symbol
    obtain ⟨second, type'⟩ := other
    -- two symbols of one name differ in their types only, and then one of them is the variable
    grind
  have hfilter : (m.declarations.filter fun other => other.name = symbol.name) =
      m.declarations.filter (· = symbol) :=
    List.filter_congr fun other hother => decide_eq_decide.2 (honly other hother)
  rw [Model.Resolves, hfilter, List.filter_eq,
    List.count_eq_one_of_mem (nodup_declarations hconstants hbooleans) hsymbol]
  rfl

end Declared

section Image

variable {edges : List Edge} (hedges : List.Forall₂ (fun transition (edge : Edge) =>
  edge.Shows transition) chain.transitions edges)

theorem nodup_constants_image (chain : Chain) (name : String) (edges : List Edge) :
    (image chain name edges).constants.Nodup := by
  refine (pairwise_distinct _).imp fun hlt heq => ?_
  rw [heq] at hlt
  exact String.lt_irrefl _ hlt

theorem name_of_boolean (hsymbol : symbol ∈ (image chain name edges).references)
    (htype : symbol.type = .boolean) : symbol.name = failedVariable := by
  rcases List.mem_append.1 hsymbol with hreal | hboolean
  · obtain ⟨_, -, rfl⟩ := List.mem_map.1 hreal
    cases htype
  · obtain ⟨name, hname, rfl⟩ := List.mem_map.1 hboolean
    obtain ⟨location, hlocation, htransient⟩ := List.mem_flatMap.1 hname
    obtain ⟨n, -, rfl⟩ := List.mem_map.1 hlocation
    exact (location_shows chain n).others name htransient

theorem declared_of_mem (hsymbol : symbol ∈ (image chain name edges).references) :
    symbol ∈ (image chain name edges).declarations := by
  rw [mem_declarations]
  cases htype : symbol.type with
  | boolean =>
    refine .inr ⟨?_, rfl⟩
    rw [name_of_boolean hsymbol htype]
    exact List.mem_singleton_self _
  | real =>
    refine .inl ⟨?_, rfl⟩
    rcases List.mem_append.1 hsymbol with hreal | hboolean
    · obtain ⟨_, hname, rfl⟩ := List.mem_map.1 hreal
      exact mem_distinct.2 hname
    · obtain ⟨_, -, rfl⟩ := List.mem_map.1 hboolean
      cases htype

include hedges

/-- The only constant that can take the name of the variable comes from a rate of that name. -/
theorem failedVariable_mem_constants : failedVariable ∈ (image chain name edges).constants ↔
    ∃ transition ∈ chain.transitions, transition.label = .rate failedVariable := by
  have hnone : Decimal.Binary64.parse? failedVariable.toList = none := by decide
  simp only [mem_constants_image hedges, hnone, and_true]

theorem unambiguous_image : (image chain name edges).Unambiguous ↔
    ∀ transition ∈ chain.transitions, transition.label ≠ .rate failedVariable := by
  have hconstants := nodup_constants_image chain name edges
  have hfree : (∀ transition ∈ chain.transitions, transition.label ≠ .rate failedVariable) ↔
      failedVariable ∉ (image chain name edges).constants := by
    rw [failedVariable_mem_constants hedges]
    simp only [not_exists, not_and, ne_eq]
  rw [hfree]
  constructor
  · intro h
    exact (nodup_names_iff hconstants rfl).1 h.nodup
  · intro hnot
    exact ⟨(nodup_names_iff hconstants rfl).2 hnot, fun symbol hsymbol =>
      resolves_of_mem hconstants rfl (declared_of_mem hsymbol) fun _ => hnot⟩

end Image

/-- In the document of a chain no symbol is declared twice, and whatever is referred to is declared:
    a symbolic rate as a real constant, a transient value as the boolean variable of failure.
    Constants are distinct, so a name other than that of the variable has one declaration. All names
    have one exactly if no rate has the name of the variable. -/
theorem document_identifiers {document : Json}
    (h : (model chain name).map Model.json = .ok document) :
    ∃ m, readModel? document = some m ∧ m.declarations.Nodup ∧
      (∀ symbol ∈ m.references, symbol ∈ m.declarations ∧
        (symbol.type = .boolean → symbol.name = failedVariable) ∧
        (symbol.name ≠ failedVariable → m.Resolves symbol)) ∧
      (m.Unambiguous ↔
        ∀ transition ∈ chain.transitions, transition.label ≠ .rate failedVariable) := by
  obtain ⟨m, hmodel, hread⟩ := exists_model h
  obtain ⟨edges, hedges, rfl⟩ := model_ok_iff.1 hmodel
  have hconstants := nodup_constants_image chain name edges
  refine ⟨_, hread, nodup_declarations hconstants rfl, fun symbol hsymbol => ?_,
    unambiguous_image hedges⟩
  refine ⟨declared_of_mem hsymbol, name_of_boolean hsymbol, fun hname => ?_⟩
  exact resolves_of_mem hconstants rfl (declared_of_mem hsymbol) fun heq => absurd heq hname

def namesake : Chain :=
  ⟨1, 1, [⟨1, .rate "failed", 1⟩, ⟨1, .rate "lambda", 1⟩], [.failed]⟩

theorem model_namesake : ∃ m, model namesake "m" = .ok m ∧
    m.references = [⟨"failed", .real⟩, ⟨"lambda", .real⟩, ⟨"failed", .boolean⟩] := by
  have hreferences : (model namesake "m").toOption.map Model.references =
      some [⟨"failed", .real⟩, ⟨"lambda", .real⟩, ⟨"failed", .boolean⟩] := by
    decide +kernel
  exact exists_ok_of_map hreferences

theorem namesake_identifiers : ∃ document m,
    (model namesake "m").map Model.json = .ok document ∧ readModel? document = some m ∧
      m.declarations.Nodup ∧ m.Resolves ⟨"lambda", .real⟩ ∧ ¬ m.Unambiguous := by
  obtain ⟨found, hmodel, hsymbols⟩ := model_namesake
  have hdocument : (model namesake "m").map Model.json = .ok found.json := by
    rw [hmodel]
    rfl
  obtain ⟨m, hm, hnodup, hreferences, hclear⟩ := document_identifiers hdocument
  obtain rfl : found = m := Option.some.inj ((readModel?_json found).symm.trans hm)
  have hlambda : (⟨"lambda", .real⟩ : Symbol) ∈ found.references := by
    rw [hsymbols]
    decide
  refine ⟨_, found, hdocument, hm, hnodup, (hreferences _ hlambda).2.2 (by decide), fun h => ?_⟩
  exact hclear.1 h ⟨1, .rate "failed", 1⟩ List.mem_cons_self rfl

theorem namesake_ambiguous :
    ¬ ∀ (chain : Chain) (name : String) (document : Json),
      (model chain name).map Model.json = .ok document →
        ∃ m, readModel? document = some m ∧ m.Unambiguous := by
  intro h
  obtain ⟨found, hmodel, -⟩ := model_namesake
  obtain ⟨m, hm, hclear⟩ := h namesake "m" found.json (by rw [hmodel]; rfl)
  obtain rfl : found = m := Option.some.inj ((readModel?_json found).symm.trans hm)
  obtain ⟨edges, hedges, rfl⟩ := model_ok_iff.1 hmodel
  exact (unambiguous_image hedges).1 hclear ⟨1, .rate "failed", 1⟩ List.mem_cons_self rfl

end InteractiveMarkov.Jani
