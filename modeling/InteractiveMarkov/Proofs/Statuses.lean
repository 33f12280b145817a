import InteractiveMarkov.Proofs.Traversal
import InteractiveMarkov.Statuses

set_option autoImplicit false

namespace InteractiveMarkov.StatusTable

/-- The state has the status in the table, or a demand gives it to the state. -/
def Holds (table : StatusTable) (demands : List Demand) (s : StateId) (status : Status) : Prop :=
  table[s]? = some status ∨ ∃ demand ∈ demands, demand.state = s ∧ demand.status = status

def Agree (holds : StateId → Status → Prop) : Prop := ∀ s x y, holds s x → holds s y → x = y

theorem assign_ok {table after : StatusTable} {demand : Demand} {fresh : Bool}
    (h : table.assign demand = .ok (after, fresh)) (s : StateId) (status : Status) :
    after[s]? = some status ↔
      table[s]? = some status ∨ demand.state = s ∧ demand.status = status := by
  unfold assign at h
  split at h
  · rename_i hnone
    cases h
    rw [Std.ExtTreeMap.getElem?_insert]
    by_cases hs : demand.state = s
    · subst hs
      simp [hnone]
    · simp [hs]
  · rename_i existing hsome
    split at h
    · rename_i heq
      cases h
      refine ⟨Or.inl, ?_⟩
      rintro (hs | ⟨rfl, rfl⟩)
      · exact hs
      · rw [hsome, heq]
    · cases h

theorem assign_error {table : StatusTable} {demand : Demand} {e : Error}
    (h : table.assign demand = .error e) :
    ∃ existing, existing ≠ demand.status ∧ table[demand.state]? = some existing ∧
      e = .conflict demand.state existing demand.status demand.cause := by
  unfold assign at h
  split at h
  · cases h
  · rename_i existing hsome
    split at h
    · cases h
    · rename_i hne
      cases h
      exact ⟨existing, hne, hsome, rfl⟩

theorem holds_cons {table after : StatusTable} {demand : Demand} {rest : List Demand}
    {fresh : Bool} (h : table.assign demand = .ok (after, fresh)) (s : StateId)
    (status : Status) :
    after.Holds rest s status ↔ table.Holds (demand :: rest) s status := by
  unfold Holds
  rw [assign_ok h]
  simp only [List.mem_cons, exists_eq_or_imp, or_assoc]

theorem assignAll_none {table after : StatusTable} {demands : List Demand}
    (h : table.assignAll demands = (after, none)) (s : StateId) (status : Status) :
    after[s]? = some status ↔ table.Holds demands s status := by
  induction demands generalizing table with
  | nil =>
    cases h
    simp [Holds]
  | cons demand rest ih =>
    unfold assignAll at h
    split at h
    · rename_i next fresh hstep
      rw [ih h, holds_cons hstep]
    · cases h

theorem assignAll_some {table after : StatusTable} {demands : List Demand} {e : Error}
    (h : table.assignAll demands = (after, some e)) :
    ∃ demand ∈ demands, ∃ existing, existing ≠ demand.status ∧
      table.Holds demands demand.state existing ∧
      e = .conflict demand.state existing demand.status demand.cause := by
  induction demands generalizing table with
  | nil => cases h
  | cons demand rest ih =>
    unfold assignAll at h
    split at h
    · rename_i next fresh hstep
      obtain ⟨found, hmem, existing, hne, hold, heq⟩ := ih h
      exact ⟨found, List.mem_cons_of_mem demand hmem, existing, hne,
        (holds_cons hstep _ _).1 hold, heq⟩
    · rename_i fault hfault
      obtain ⟨existing, hne, hsome, heq⟩ := assign_error hfault
      cases h
      exact ⟨demand, List.mem_cons_self, existing, hne, .inl hsome, heq⟩

def Along (channels : StateMap (List (KeptLabel × StateId))) (s t : StateId) : Prop :=
  ∃ label, (label, t) ∈ channels.getD s []

def Receives (explicit : StatusTable) (channels : StateMap (List (KeptLabel × StateId)))
    (status : Status) (t : StateId) : Prop :=
  ∃ s, explicit[s]? = some status ∧ Relation.TransGen (Along channels) s t

variable {explicit table after : StatusTable}
  {channels : StateMap (List (KeptLabel × StateId))}

theorem holds_passedOn {s t : StateId} {x y : Status} :
    table.Holds (passedOn channels s x) t y ↔
      table[t]? = some y ∨ Along channels s t ∧ x = y := by
  refine or_congr_right ?_
  unfold passedOn Along
  constructor
  · rintro ⟨demand, hmem, rfl, rfl⟩
    obtain ⟨⟨label, target⟩, hpair, rfl⟩ := List.mem_map.1 hmem
    exact ⟨⟨label, hpair⟩, rfl⟩
  · rintro ⟨⟨label, hpair⟩, rfl⟩
    exact ⟨_, List.mem_map.2 ⟨_, hpair, rfl⟩, rfl, rfl⟩

/-- What holds while the states that have passed on their statuses are those of a list. -/
structure SpreadTo (explicit : StatusTable)
    (channels : StateMap (List (KeptLabel × StateId))) (passed : List StateId)
    (table : StatusTable) : Prop where
  keeps : ∀ (s : StateId) (x : Status), explicit[s]? = some x → table[s]? = some x
  sound : ∀ (s : StateId) (x : Status), table[s]? = some x →
    explicit[s]? = some x ∨ Receives explicit channels x s
  passed : ∀ s ∈ passed, ∀ t, Along channels s t →
    ∃ x : Status, table[s]? = some x ∧ table[t]? = some x

theorem receives_of_along {s t : StateId} {x : Status}
    (hs : explicit[s]? = some x ∨ Receives explicit channels x s) (ht : Along channels s t) :
    Receives explicit channels x t := by
  rcases hs with hs | ⟨r, hr, hpath⟩
  · exact ⟨s, hs, .single ht⟩
  · exact ⟨r, hr, hpath.tail ht⟩

theorem SpreadTo.advance {passed : List StateId} {s : StateId} {x : Status}
    (h : SpreadTo explicit channels passed table) (hs : table[s]? = some x)
    (hrun : table.assignAll (passedOn channels s x) = (after, none)) :
    SpreadTo explicit channels (passed ++ [s]) after := by
  have hget : ∀ t y, after[t]? = some y ↔ table[t]? = some y ∨ Along channels s t ∧ x = y :=
    fun t y => (assignAll_none hrun t y).trans holds_passedOn
  refine ⟨?_, ?_, ?_⟩
  · intro t y ht
    exact (hget t y).2 (.inl (h.keeps t y ht))
  · intro t y ht
    rcases (hget t y).1 ht with ht | ⟨halong, rfl⟩
    · exact h.sound t y ht
    · exact .inr (receives_of_along (h.sound s x hs) halong)
  · intro r hr t halong
    rcases List.mem_append.1 hr with hr | hr
    · obtain ⟨y, hy, ht⟩ := h.passed r hr t halong
      exact ⟨y, (hget r y).2 (.inl hy), (hget t y).2 (.inl ht)⟩
    · obtain rfl : r = s := by simpa using hr
      exact ⟨x, (hget r x).2 (.inl hs), (hget t x).2 (.inr ⟨halong, rfl⟩)⟩

/-- Each state that is to pass on a status has one when its turn comes. -/
def Fed (explicit : StatusTable) (channels : StateMap (List (KeptLabel × StateId)))
    (order : List StateId) : Prop :=
  ∀ before s behind, order = before ++ s :: behind →
    s ∈ explicit ∨ ∃ r ∈ before, Along channels r s

theorem SpreadTo.known {passed : List StateId} {s : StateId}
    (h : SpreadTo explicit channels passed table)
    (hs : s ∈ explicit ∨ ∃ r ∈ passed, Along channels r s) :
    ∃ x : Status, table[s]? = some x := by
  rcases hs with hs | ⟨r, hr, halong⟩
  · obtain ⟨x, hx⟩ := StateMap.mem_iff_exists.1 hs
    exact ⟨x, h.keeps s x hx⟩
  · obtain ⟨x, -, hx⟩ := h.passed r hr s halong
    exact ⟨x, hx⟩

theorem spread_none {passed rest : List StateId} (h : SpreadTo explicit channels passed table)
    (hfed : Fed explicit channels (passed ++ rest))
    (hrun : spread channels rest table = (after, none)) :
    SpreadTo explicit channels (passed ++ rest) after := by
  -- on the states still to pass on their statuses; each has one when its turn comes
  induction rest generalizing passed table with
  | nil =>
    cases hrun
    simpa using h
  | cons s rest ih =>
    obtain ⟨x, hx⟩ := h.known (hfed passed s rest rfl)
    simp only [spread, hx] at hrun
    split at hrun
    · rename_i next hnext
      have hsplit : passed ++ s :: rest = (passed ++ [s]) ++ rest := by simp
      rw [hsplit] at hfed ⊢
      exact ih (h.advance hx hnext) hfed hrun
    · cases hrun

theorem spread_some {passed rest : List StateId} {e : Error}
    (h : SpreadTo explicit channels passed table)
    (hfed : Fed explicit channels (passed ++ rest))
    (hrun : spread channels rest table = (after, some e)) :
    ∃ s t x y label, x ≠ y ∧ Along channels s t ∧ Receives explicit channels y t ∧
      (explicit[t]? = some x ∨ Receives explicit channels x t) ∧
      e = .conflict t x y (.delay label y s) := by
  induction rest generalizing passed table with
  | nil => cases hrun
  | cons s rest ih =>
    obtain ⟨y, hy⟩ := h.known (hfed passed s rest rfl)
    simp only [spread, hy] at hrun
    split at hrun
    · rename_i next hnext
      have hsplit : passed ++ s :: rest = (passed ++ [s]) ++ rest := by simp
      rw [hsplit] at hfed
      exact ih (h.advance hy hnext) hfed hrun
    · rename_i next fault hfault
      cases hrun
      obtain ⟨demand, hmem, x, hne, hold, rfl⟩ := assignAll_some hfault
      obtain ⟨⟨label, t⟩, hpair, rfl⟩ := List.mem_map.1 hmem
      have halong : Along channels s t := ⟨label, hpair⟩
      have hreceive := receives_of_along (h.sound s y hy) halong
      have hexisting := (holds_passedOn.1 hold).resolve_right fun hx => hne hx.2.symm
      exact ⟨s, t, x, y, label, hne, halong, hreceive, h.sound t x hexisting, rfl⟩

/-- A delay of a live state leads to the state, which had no status. -/
def Passes (table : StatusTable) (live : StateSet) (edges : List KeptEdge)
    (resolve : StateId → StateId) (s t : StateId) : Prop :=
  s ∈ live ∧ t ∉ table ∧
    ∃ edge ∈ edges, edge.source = s ∧ edge.label.isDelay = true ∧ resolve edge.target = t

def Spreads (table : StatusTable) (live : StateSet) (edges : List KeptEdge)
    (resolve : StateId → StateId) (status : Status) (t : StateId) : Prop :=
  ∃ s, table[s]? = some status ∧ Relation.TransGen (table.Passes live edges resolve) s t

variable {live : StateSet} {edges : List KeptEdge} {resolve : StateId → StateId}

theorem along_channels (s t : StateId) :
    Along (table.channels live edges resolve) s t ↔ table.Passes live edges resolve s t := by
  unfold Along Passes channels
  rw [StateMap.getD_group]
  constructor
  · rintro ⟨label, h⟩
    obtain ⟨⟨u, kept⟩, hu, rfl⟩ := List.mem_map.1 h
    obtain ⟨hedge, hsource⟩ := List.mem_filter.1 hu
    obtain ⟨edge, hmem, heq⟩ := List.mem_map.1 hedge
    obtain ⟨hin, hcond⟩ := List.mem_filter.1 hmem
    obtain rfl : edge.source = u := congrArg Prod.fst heq
    obtain rfl : edge.source = s := by simpa using hsource
    cases heq
    simp only [Bool.and_eq_true, StateMap.not_contains] at hcond
    exact ⟨hcond.1.2, hcond.2, edge, hin, rfl, hcond.1.1, rfl⟩
  · rintro ⟨hlive, hnew, edge, hin, rfl, hdelay, rfl⟩
    refine ⟨edge.label, List.mem_map.2 ⟨(edge.source, edge.label, resolve edge.target), ?_, rfl⟩⟩
    refine List.mem_filter.2 ⟨List.mem_map.2 ⟨edge, List.mem_filter.2 ⟨hin, ?_⟩, rfl⟩, by simp⟩
    simp only [Bool.and_eq_true, StateMap.not_contains]
    exact ⟨⟨hdelay, hlive⟩, hnew⟩

theorem receives_channels (status : Status) (t : StateId) :
    Receives table (table.channels live edges resolve) status t ↔
      table.Spreads live edges resolve status t := by
  unfold Receives Spreads
  rw [show Along (table.channels live edges resolve) = table.Passes live edges resolve from
    funext fun s => funext fun t => propext (along_channels s t)]

def spreadOrder (table : StatusTable) (live : StateSet)
    (channels : StateMap (List (KeptLabel × StateId))) : List StateId :=
  breadthFirst (channels.map fun _ delays => delays.map (·.2))
    (live.toList.filter table.contains)

theorem mem_after_channels {s t : StateId} :
    t ∈ Moves.after (channels.map fun _ delays => delays.map (·.2)) s ↔ Along channels s t := by
  unfold Moves.after Along
  rw [StateMap.getD_map rfl]
  simp

theorem fed_spreadOrder : Fed table channels (table.spreadOrder live channels) := by
  intro before s behind h
  rcases grounded_breadthFirst _ _ before s behind h with hseed | ⟨r, hr, hmove⟩
  · exact .inl (List.mem_filter.1 hseed).2
  · exact .inr ⟨r, hr, mem_after_channels.1 hmove⟩

theorem spreadTo_start : SpreadTo table channels [] table where
  keeps _ _ h := h
  sound _ _ h := .inl h
  passed s hs := by simp at hs

theorem spread_complete
    (h : SpreadTo table channels (table.spreadOrder live channels) after)
    (hlive : ∀ s t, Along channels s t → s ∈ live) {x : Status} {t : StateId}
    (ht : Receives table channels x t) : after[t]? = some x := by
  obtain ⟨s, hs, hpath⟩ := ht
  -- along the path: its states stand in the order, so each had its turn
  suffices t ∈ table.spreadOrder live channels ∧ after[t]? = some x from this.2
  induction hpath with
  | single halong =>
    have hseed : s ∈ table.spreadOrder live channels := by
      refine mem_breadthFirst_of_seed (List.mem_filter.2 ⟨?_, ?_⟩)
      · exact Std.ExtTreeSet.mem_toList.2 (hlive s _ halong)
      · simp [Std.ExtTreeMap.contains_eq_isSome_getElem?, hs]
    refine ⟨mem_breadthFirst_of_move hseed (mem_after_channels.2 halong), ?_⟩
    obtain ⟨y, hy, hget⟩ := h.passed s hseed _ halong
    rwa [← Option.some.inj ((h.keeps s x hs).symm.trans hy)] at hget
  | tail _ halong ih =>
    refine ⟨mem_breadthFirst_of_move ih.1 (mem_after_channels.2 halong), ?_⟩
    obtain ⟨y, hy, hget⟩ := h.passed _ ih.1 _ halong
    rwa [← Option.some.inj (ih.2.symm.trans hy)] at hget

theorem propagate_eq (table : StatusTable) (live : StateSet) (edges : List KeptEdge)
    (resolve : StateId → StateId) :
    table.propagate live edges resolve =
      match spread (table.channels live edges resolve)
          (table.spreadOrder live (table.channels live edges resolve)) table with
      | (after, none) => (after, .ok (live.toList.countP fun s => !after.contains s))
      | (after, some e) => (after, .error e) := rfl

theorem propagate_ok {n : Nat} (h : table.propagate live edges resolve = (after, .ok n)) :
    (∀ (t : StateId) (x : Status),
      after[t]? = some x ↔ table[t]? = some x ∨ table.Spreads live edges resolve x t) ∧
    n = live.toList.countP fun s => !after.contains s := by
  rw [propagate_eq] at h
  split at h
  · rename_i found hrun
    cases h
    have hspread := spread_none spreadTo_start fed_spreadOrder hrun
    refine ⟨fun t x => ⟨fun ht => ?_, ?_⟩, rfl⟩
    · exact (hspread.sound t x ht).imp_right (receives_channels x t).1
    · rintro (ht | ht)
      · exact hspread.keeps t x ht
      · exact spread_complete hspread (fun s t halong => ((along_channels s t).1 halong).1)
          ((receives_channels x t).2 ht)
  · cases h

theorem propagate_error {e : Error} (h : table.propagate live edges resolve = (after, .error e)) :
    ∃ t x y cause, x ≠ y ∧ t ∉ table ∧ table.Spreads live edges resolve x t ∧
      table.Spreads live edges resolve y t ∧ e = .conflict t x y cause := by
  rw [propagate_eq] at h
  split at h
  · cases h
  · rename_i found fault hrun
    cases h
    obtain ⟨s, t, x, y, label, hne, halong, hy, hx, rfl⟩ :=
      spread_some spreadTo_start fed_spreadOrder hrun
    have hnew : t ∉ table := ((along_channels s t).1 halong).2.1
    have hnone : table[t]? ≠ some x := by
      intro ht
      exact hnew (StateMap.mem_of_getElem? ht)
    exact ⟨t, x, y, _, hne, hnew, (receives_channels x t).1 (hx.resolve_left hnone),
      (receives_channels y t).1 hy, rfl⟩

/-- Spreading fails exactly if some state can receive both statuses. -/
theorem propagate_ok_iff (table : StatusTable) (live : StateSet) (edges : List KeptEdge)
    (resolve : StateId → StateId) :
    (∃ after n, table.propagate live edges resolve = (after, .ok n)) ↔
      Agree fun t x => table.Spreads live edges resolve x t := by
  constructor
  · rintro ⟨after, n, h⟩ t x y hx hy
    have hget := (propagate_ok h).1
    exact Option.some.inj (((hget t x).2 (.inr hx)).symm.trans ((hget t y).2 (.inr hy)))
  · intro hagree
    rcases hrun : table.propagate live edges resolve with ⟨after, e | n⟩
    · obtain ⟨t, x, y, -, hne, -, hx, hy, -⟩ := propagate_error hrun
      exact absurd (hagree t x y hx hy) hne
    · exact ⟨after, n, rfl⟩

end InteractiveMarkov.StatusTable
