import InteractiveMarkov.Aldebaran.Writer
import InteractiveMarkov.Proofs.Blanks

set_option autoImplicit false

namespace InteractiveMarkov.Aldebaran

open Text

variable {c : Char} {cs rest digits : List Char} {n bound line : Nat}

theorem digit_bounds (h : c.isDigit = true) : 48 ≤ c.toNat ∧ c.toNat ≤ 57 := by
  simpa [Char.isDigit, UInt32.le_iff_toNat_le] using h

theorem isDecimal_of_isDigit (h : c.isDigit = true) : isDecimal c = true := by
  obtain ⟨hlow, hhigh⟩ := digit_bounds h
  simp [isDecimal, CodeRanges.contains, decimalRanges, hlow, hhigh]

theorem isBlank_of_isDigit (h : c.isDigit = true) : isBlank c = false :=
  not_isBlank_of_isDecimal (isDecimal_of_isDigit h)

theorem isDigit_of_mem (h : c ∈ Nat.toDigits 10 n) : c.isDigit = true :=
  Nat.isDigit_of_mem_toDigits (by decide) (by decide) h

theorem numeral_eq_some_iff : numeral cs = some (digits, rest) ↔
    digits ≠ [] ∧ (∀ c ∈ digits, isDecimal c = true) ∧ (∀ c ∈ rest.head?, isDecimal c = false) ∧
      ∃ blanks, allBlank blanks = true ∧ cs = blanks ++ (digits ++ rest) := by
  have hread : numeral cs = some (digits, rest) ↔ digits ≠ [] ∧
      (skipBlanks cs).takeWhile isDecimal = digits ∧
      (skipBlanks cs).drop ((skipBlanks cs).takeWhile isDecimal).length = rest := by
    unfold numeral
    dsimp only
    rw [ite_eq_iff]
    simp only [reduceCtorEq, and_false, false_or, Option.some_inj, Prod.mk.injEq,
      List.isEmpty_iff]
    constructor
    · rintro ⟨hne, rfl, rfl⟩
      exact ⟨hne, rfl, rfl⟩
    · rintro ⟨hne, rfl, rfl⟩
      exact ⟨hne, rfl, rfl⟩
  rw [hread, longest_iff]
  refine and_congr_right fun hne => ?_
  constructor
  · rintro ⟨hcs, hdigits, hrest⟩
    obtain ⟨blanks, hblanks, hall⟩ := exists_blanks cs
    rw [hcs] at hall
    exact ⟨hdigits, hrest, blanks, hblanks, hall⟩
  · rintro ⟨hdigits, hrest, blanks, hblanks, rfl⟩
    refine ⟨?_, hdigits, hrest⟩
    rw [skipBlanks_append hblanks, skipBlanks_of_head]
    intro c hc
    obtain ⟨d, ds, rfl⟩ := List.exists_cons_of_ne_nil hne
    cases hc
    exact not_isBlank_of_isDecimal (hdigits c List.mem_cons_self)

theorem numeral_toDigits (hrest : ∀ c ∈ rest.head?, isDecimal c = false) :
    numeral (Nat.toDigits 10 n ++ rest) = some (Nat.toDigits 10 n, rest) :=
  numeral_eq_some_iff.2 ⟨Nat.toDigits_ne_nil, fun _ hc => isDecimal_of_isDigit (isDigit_of_mem hc),
    hrest, [], rfl, rfl⟩

theorem numeral_blank (k : Nat) (cs : List Char) :
    numeral (List.replicate k ' ' ++ cs) = numeral cs := by
  have hblank : allBlank (List.replicate k ' ') = true :=
    List.all_eq_true.2 fun c hc => by rw [List.eq_of_mem_replicate hc]; decide
  unfold numeral
  rw [skipBlanks_append hblank]

theorem value?_eq_some_iff : value? digits = some n ↔
    (∀ c ∈ digits, c.isDigit = true) ∧ Nat.ofDigitChars 10 digits 0 = n := by
  rw [value?, ← Nat.ofDigitChars_eq_foldl, ite_eq_iff, List.all_eq_true]
  simp

theorem value?_toDigits (n : Nat) : value? (Nat.toDigits 10 n) = some n :=
  value?_eq_some_iff.2 ⟨fun _ => isDigit_of_mem, Nat.ofDigitChars_ten_toDigits⟩

theorem number_ok_iff : number bound line digits = .ok n ↔
    (∀ c ∈ digits, c.isDigit = true) ∧ Nat.ofDigitChars 10 digits 0 = n ∧ n < bound := by
  unfold number
  rw [← and_assoc, ← value?_eq_some_iff]
  cases hfound : (value? digits).filter (· < bound) with
  | none =>
    rw [Option.filter_eq_none_iff] at hfound
    simp only [reduceCtorEq, false_iff]
    rintro ⟨hn, hlt⟩
    exact absurd hlt (by simpa using hfound n hn)
  | some m =>
    obtain ⟨hm, hlt⟩ := Option.filter_eq_some_iff.1 hfound
    simp only [Except.ok.injEq, hm, Option.some_inj, iff_self_and]
    rintro rfl
    exact of_decide_eq_true hlt

theorem number_toDigits (h : n < bound) : number bound line (Nat.toDigits 10 n) = .ok n :=
  number_ok_iff.2 ⟨fun _ => isDigit_of_mem, Nat.ofDigitChars_ten_toDigits, h⟩

def escaped (label : List Char) : List Char :=
  label.flatMap fun c => if c = '"' ∨ c = '\\' then ['\\', c] else [c]

theorem quotedBody_escaped (label rest : List Char) :
    quotedBody (escaped label ++ '"' :: rest) = some (label, rest) := by
  induction label with
  | nil => rfl
  | cons c label ih =>
    unfold escaped at ih ⊢
    rw [List.flatMap_cons, List.append_assoc]
    by_cases hquote : c = '"'
    · subst hquote
      simp [quotedBody, ih]
    · by_cases hslash : c = '\\'
      · subst hslash
        simp [quotedBody, ih]
      · simp [quotedBody, ih, hquote, hslash]

theorem symbol_cons (hc : isBlank c = false) : symbol c (c :: cs) = some cs := by
  simp [symbol, skipBlanks, hc]

theorem numeral_space (cs : List Char) : numeral (' ' :: cs) = numeral cs := numeral_blank 1 cs

theorem not_decimal_comma (cs : List Char) : ∀ c ∈ (',' :: cs).head?, isDecimal c = false := by
  rintro c ⟨⟩
  decide

theorem not_decimal_close : ∀ c ∈ [')'].head?, isDecimal c = false := by
  rintro c ⟨⟩
  decide

theorem label_quoted (text rest : List Char) :
    label (' ' :: '"' :: (escaped text ++ '"' :: rest)) = some (text, rest) :=
  quotedBody_escaped text rest

def record (s : StateId) (text : String) (t : StateId) : String :=
  "(" ++ s.repr ++ ", " ++ quoteLabel text ++ ", " ++ t.repr ++ ")"

theorem toList_record (s t : StateId) (text : String) : (record s text t).toList =
    '(' :: (Nat.toDigits 10 s ++ ',' :: ' ' :: '"' :: (escaped text.toList ++
      '"' :: ',' :: ' ' :: (Nat.toDigits 10 t ++ [')']))) := by
  simp [record, quoteLabel, escaped]

theorem transitionParts_record (s t : StateId) (text : String) :
    transitionParts (record s text t).toList =
      some (Nat.toDigits 10 s, text.toList, Nat.toDigits 10 t) := by
  rw [toList_record, transitionParts, symbol_cons (by decide)]
  simp only [Option.bind_some, Option.bind_eq_bind, numeral_toDigits (not_decimal_comma _),
    symbol_cons (show isBlank ',' = false by decide), label_quoted, numeral_space,
    numeral_toDigits not_decimal_close, symbol_cons (show isBlank ')' = false by decide)]
  rfl

theorem parseTransition_record {s t : StateId} (text : String) (hs : s < stateBound)
    (ht : t < stateBound) : parseTransition (record s text t) line = .ok ⟨s, text, t⟩ := by
  simp only [parseTransition, transitionParts_record, number_toDigits hs, number_toDigits ht, bind,
    Except.bind, String.ofList_toList]

def heading (initial transitions states : Nat) : String :=
  "des (" ++ initial.repr ++ ", " ++ Stream.countField transitions ++ ", " ++ states.repr ++ ")"

theorem toList_heading (initial transitions states : Nat) :
    (heading initial transitions states).toList = 'd' :: 'e' :: 's' :: ' ' :: '(' ::
      (Nat.toDigits 10 initial ++ ',' :: ' ' ::
        (List.replicate (Stream.countWidth - (Nat.toDigits 10 transitions).length) ' ' ++
          (Nat.toDigits 10 transitions ++ ',' :: ' ' :: (Nat.toDigits 10 states ++ [')'])))) := by
  simp [heading, Stream.countField]

theorem headerParts_heading (initial transitions states : Nat) :
    headerParts (heading initial transitions states).toList =
      some (Nat.toDigits 10 initial, Nat.toDigits 10 transitions, Nat.toDigits 10 states) := by
  have hword : ∀ cs, word ['d', 'e', 's'] ('d' :: 'e' :: 's' :: cs) = some cs := fun _ => rfl
  have hopen : ∀ cs, symbol '(' (' ' :: '(' :: cs) = some cs := fun _ => rfl
  rw [toList_heading, headerParts, hword]
  simp only [Option.bind_some, Option.bind_eq_bind, hopen, numeral_toDigits (not_decimal_comma _),
    symbol_cons (show isBlank ',' = false by decide), numeral_space, numeral_blank,
    numeral_toDigits not_decimal_close, symbol_cons (show isBlank ')' = false by decide)]
  rfl

theorem parseHeader_heading {initial transitions states : Nat} (hinitial : initial < states)
    (hcount : transitions < countBound) (hstates : states < stateBound) :
    parseHeader (heading initial transitions states) line =
      .ok ⟨initial, transitions, states⟩ := by
  simp only [parseHeader, headerParts_heading, number_toDigits (Nat.lt_trans hinitial hstates),
    number_toDigits hcount, number_toDigits hstates, bind, Except.bind, if_pos hinitial]

variable {text : List Char}

theorem quotedBody_subset (h : quotedBody cs = some (text, rest)) : text ⊆ cs := by
  fun_induction quotedBody cs generalizing text rest with
  | case1 => cases h
  | case2 tail =>
    cases h
    exact List.nil_subset _
  | case3 tail => cases h
  | case4 c tail hc ih =>
    obtain ⟨⟨label, more⟩, hlabel, heq⟩ := Option.map_eq_some_iff.1 h
    cases heq
    exact List.cons_subset.2 ⟨by simp, fun d hd =>
      List.mem_cons_of_mem _ (List.mem_cons_of_mem _ (ih hlabel hd))⟩
  | case5 tail => cases h
  | case6 c tail _ _ hc ih =>
    obtain ⟨⟨label, more⟩, hlabel, heq⟩ := Option.map_eq_some_iff.1 h
    cases heq
    exact List.cons_subset.2 ⟨by simp, fun d hd => List.mem_cons_of_mem _ (ih hlabel hd)⟩

theorem skipBlanks_subset (cs : List Char) : skipBlanks cs ⊆ cs := (List.dropWhile_sublist _).subset

theorem trim_subset (cs : List Char) : trim cs ⊆ cs := by
  intro c hc
  have hback := skipBlanks_subset _ (List.mem_reverse.1 hc)
  exact skipBlanks_subset cs (List.mem_reverse.1 hback)

theorem label_subset (h : label cs = some (text, rest)) : text ⊆ cs := by
  unfold label at h
  split at h
  · rename_i body hbody
    have hin : body ⊆ cs := fun c hc => skipBlanks_subset cs (by rw [hbody]; exact .tail _ hc)
    exact fun c hc => hin (quotedBody_subset h hc)
  · cases h
    intro c hc
    exact skipBlanks_subset cs (List.takeWhile_subset _ (trim_subset _ hc))

theorem symbol_subset (h : symbol c cs = some rest) : rest ⊆ cs := by
  unfold symbol at h
  split at h
  · rename_i d tail hcs
    split at h
    · cases h
      intro e he
      refine skipBlanks_subset cs ?_
      rw [hcs]
      exact .tail _ he
    · cases h
  · cases h

theorem numeral_subset (h : numeral cs = some (digits, rest)) : rest ⊆ cs := by
  unfold numeral at h
  dsimp only at h
  split at h
  · cases h
  · cases h
    exact fun c hc => skipBlanks_subset cs (List.mem_of_mem_drop hc)

theorem transitionParts_subset {source target : List Char}
    (h : transitionParts cs = some (source, text, target)) : text ⊆ cs := by
  unfold transitionParts at h
  simp only [Option.bind_eq_bind, Option.bind_eq_some_iff] at h
  obtain ⟨⟨first, more⟩, ⟨opened, hopen, hfirst⟩, ⟨found, tail⟩, ⟨comma, hcomma, hlabel⟩, h⟩ := h
  obtain ⟨⟨last, tail⟩, -, closed, -, h⟩ := h
  split at h
  · cases h
    intro c hc
    have hbehind := symbol_subset hcomma (label_subset hlabel hc)
    exact symbol_subset hopen (numeral_subset hfirst hbehind)
  · cases h

theorem number_lt (h : number bound line digits = .ok n) : n < bound := (number_ok_iff.1 h).2.2

theorem parseTransition_ok {text : String} {edge : Edge}
    (h : parseTransition text line = .ok edge) : edge.label.toList ⊆ text.toList := by
  unfold parseTransition at h
  split at h
  · cases h
  · rename_i source label target hparts
    obtain ⟨s, -, h⟩ := bind_ok h
    obtain ⟨t, -, h⟩ := bind_ok h
    cases h
    rw [String.toList_ofList]
    exact transitionParts_subset hparts

theorem parseHeader_ok {text : String} {header : Header} (h : parseHeader text line = .ok header) :
    header.initial < header.states ∧ header.states < stateBound ∧
      header.transitions < countBound := by
  unfold parseHeader at h
  split at h
  · cases h
  · obtain ⟨initial, -, h⟩ := bind_ok h
    obtain ⟨transitions, htransitions, h⟩ := bind_ok h
    obtain ⟨states, hstates, h⟩ := bind_ok h
    dsimp only at h
    split at h
    · rename_i hlt
      cases h
      exact ⟨hlt, number_lt hstates, number_lt htransitions⟩
    · cases h

end InteractiveMarkov.Aldebaran
