import InteractiveMarkov.Decimal.Binary64
import InteractiveMarkov.Proofs.Lines
import InteractiveMarkov.Proofs.Records

set_option autoImplicit false

namespace InteractiveMarkov.Decimal

variable {c : Char} {cs : List Char} {negative : Bool}

theorem isWord_repr (n : Nat) : Text.IsWord n.repr := by
  have hchars : n.repr.toList = Nat.toDigits 10 n := Nat.toList_repr
  refine ⟨by rw [hchars]; exact Nat.toDigits_ne_nil, fun c hc => ?_⟩
  rw [hchars] at hc
  exact Aldebaran.isBlank_of_isDigit (Aldebaran.isDigit_of_mem hc)

/-- The characters of the literals that denote finite numbers. -/
def IsNumeral (c : Char) : Prop := c.isDigit = true ∨ c ∈ ['+', '-', '.', 'e', 'E']

theorem IsNumeral.solid (h : IsNumeral c) : Text.isBlank c = false := by
  rcases h with h | h
  · exact Aldebaran.isBlank_of_isDigit h
  · have hmarks : ['+', '-', '.', 'e', 'E'].all (! Text.isBlank ·) = true := by decide
    simpa using List.all_eq_true.1 hmarks c h

theorem sign_numeral (h : c ∈ cs) : IsNumeral c ∨ c ∈ (sign cs).2 := by
  unfold sign
  split
  · exact (List.mem_cons.1 h).imp_left fun hc => .inr (by simp [hc])
  · exact (List.mem_cons.1 h).imp_left fun hc => .inr (by simp [hc])
  · exact .inr h

theorem exponent?_numeral {e : Int} (h : exponent? cs = some e) (hc : c ∈ cs) : IsNumeral c := by
  unfold exponent? at h
  split at h
  · cases hc
  · rename_i mark rest
    dsimp only at h
    split at h
    · rename_i hform
      obtain ⟨hmark, -, hdigits⟩ := hform
      rcases List.mem_cons.1 hc with rfl | hc
      · exact .inr (by rcases hmark with rfl | rfl <;> simp)
      · exact (sign_numeral hc).elim id fun hc => .inl (List.all_eq_true.1 hdigits c hc)
    · cases h

theorem mem_drop_digits (hc : c ∈ cs) :
    c.isDigit = true ∨ c ∈ cs.drop (cs.takeWhile Char.isDigit).length := by
  have htake := List.prefix_iff_eq_take.1 (List.takeWhile_prefix Char.isDigit (l := cs))
  rw [← List.take_append_drop (cs.takeWhile Char.isDigit).length cs, ← htake] at hc
  exact (List.mem_append.1 hc).imp_left List.mem_takeWhile_imp

theorem digits?_numeral {literal : Literal} (h : digits? negative cs = some literal)
    (hc : c ∈ cs) : IsNumeral c := by
  have hbehind := mem_drop_digits hc
  unfold digits? at h
  dsimp only at h
  generalize cs.drop (cs.takeWhile Char.isDigit).length = behind at h hbehind
  refine hbehind.elim .inl fun hc => ?_
  split at h
  · rename_i behind
    dsimp only at h
    split at h
    · cases h
    · obtain ⟨e, he, -⟩ := Option.map_eq_some_iff.1 h
      rcases List.mem_cons.1 hc with rfl | hc
      · exact .inr (by decide)
      · exact (mem_drop_digits hc).elim .inl (exponent?_numeral he)
  · dsimp only at h
    split at h
    · cases h
    · obtain ⟨e, he, -⟩ := Option.map_eq_some_iff.1 h
      exact exponent?_numeral he hc

theorem parse?_finite {digits : Nat} {e : Int} (h : parse? cs = some (.finite negative digits e)) :
    cs ≠ [] ∧ ∀ c ∈ cs, IsNumeral c := by
  unfold parse? at h
  dsimp only at h
  split at h
  · cases h
  · split at h
    · cases h
    · refine ⟨?_, fun c hc => (sign_numeral hc).elim id (digits?_numeral h)⟩
      rintro rfl
      cases h

theorem Binary64.isWord_of_parse? {value : Binary64} (h : Binary64.parse? cs = some value) :
    Text.IsWord (String.ofList cs) := by
  unfold Binary64.parse? at h
  split at h
  · rename_i hfinite
    obtain ⟨hne, hall⟩ := parse?_finite hfinite
    refine ⟨by rwa [String.toList_ofList], fun c hc => ?_⟩
    rw [String.toList_ofList] at hc
    exact (hall c hc).solid
  · cases h

end InteractiveMarkov.Decimal
