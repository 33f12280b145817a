import InteractiveMarkov.Proofs.Records

set_option autoImplicit false

namespace InteractiveMarkov.Aldebaran

open Text

structure Denotes (digits : List Char) (n : Nat) : Prop where
  nonempty : digits ≠ []
  ascii : ∀ c ∈ digits, c.isDigit = true
  value : Nat.ofDigitChars 10 digits 0 = n

/-- What stands between the quotes of a label. A backslash takes the next character literally, which
    is no line feed. -/
inductive QuotedText : List Char → List Char → Prop
  | empty : QuotedText [] []
  | plain {c : Char} {body label : List Char} (hquote : c ≠ '"') (hslash : c ≠ '\\')
      (hbody : QuotedText body label) : QuotedText (c :: body) (c :: label)
  | escape {c : Char} {body label : List Char} (hfeed : c ≠ '\n')
      (hbody : QuotedText body label) : QuotedText ('\\' :: c :: body) (c :: label)

inductive LabelText : List Char → List Char → Prop
  | quoted {body label : List Char} (hbody : QuotedText body label) :
      LabelText ('"' :: (body ++ ['"'])) label
  | bare {run label : List Char} (hrun : ∀ c ∈ run, c ≠ '"' ∧ c ≠ ',')
      (hlabel : IsTrimOf label run) : LabelText run label

inductive TransitionText : List Char → Edge → Prop
  | intro {line first source middle text last target label : List Char} {s t : StateId}
      (hline : Padded ('(' :: (first ++ ',' :: (middle ++ ',' :: (last ++ [')'])))) line)
      (hfirst : Padded source first) (hsource : Denotes source s) (hs : s < stateBound)
      (hmiddle : Padded text middle) (hlabel : LabelText text label)
      (hlast : Padded target last) (htarget : Denotes target t) (ht : t < stateBound) :
      TransitionText line ⟨s, String.ofList label, t⟩

variable {c : Char} {cs rest blanks digits body text label : List Char} {n bound line : Nat}

theorem symbol_blanks (hc : isBlank c = false) (h : allBlank blanks = true) (rest : List Char) :
    symbol c (blanks ++ c :: rest) = some rest := by
  rw [symbol, skipBlanks_append h, ← symbol, symbol_cons hc]

theorem exists_blanks_of_symbol (h : symbol c cs = some rest) :
    ∃ blanks, allBlank blanks = true ∧ cs = blanks ++ c :: rest := by
  obtain ⟨blanks, hblanks, hcs⟩ := exists_blanks cs
  unfold symbol at h
  split at h
  · rename_i d tail htail
    split at h
    · rename_i hd
      cases h
      subst hd
      exact ⟨blanks, hblanks, by rw [← htail]; exact hcs⟩
    · cases h
  · cases h

theorem numeral_padded (hne : digits ≠ []) (hdigits : ∀ c ∈ digits, isDecimal c = true)
    {padded : List Char} (hpadded : Padded digits padded) (hblank : isBlank c = false)
    (hdecimal : isDecimal c = false) (rest : List Char) :
    ∃ more, numeral (padded ++ c :: rest) = some (digits, more) ∧ symbol c more = some rest := by
  obtain ⟨before, behind, hbefore, hbehind, rfl⟩ := hpadded
  refine ⟨behind ++ c :: rest, numeral_eq_some_iff.2 ⟨hne, hdigits, ?_, before, hbefore, ?_⟩,
    symbol_blanks hblank hbehind rest⟩
  · intro d hd
    cases behind with
    | nil =>
      obtain rfl : c = d := Option.some.inj hd
      exact hdecimal
    | cons b behind =>
      obtain rfl : b = d := Option.some.inj hd
      exact not_isDecimal_of_isBlank (List.all_eq_true.1 hbehind b List.mem_cons_self)
  · simp only [List.append_assoc]

theorem quotedBody_eq_some_iff : quotedBody cs = some (label, rest) ↔
    ∃ body, QuotedText body label ∧ cs = body ++ '"' :: rest := by
  constructor
  · intro h
    fun_induction quotedBody cs generalizing label rest with
    | case1 => cases h
    | case2 tail =>
      cases h
      exact ⟨[], .empty, rfl⟩
    | case3 tail => cases h
    | case4 c tail hfeed ih =>
      obtain ⟨⟨found, more⟩, hfound, heq⟩ := Option.map_eq_some_iff.1 h
      cases heq
      obtain ⟨body, hbody, rfl⟩ := ih hfound
      exact ⟨'\\' :: c :: body, .escape hfeed hbody, rfl⟩
    | case5 tail => cases h
    | case6 c tail hquote _ hslash ih =>
      obtain ⟨⟨found, more⟩, hfound, heq⟩ := Option.map_eq_some_iff.1 h
      cases heq
      obtain ⟨body, hbody, rfl⟩ := ih hfound
      exact ⟨c :: body, .plain (fun hc => hquote hc) hslash hbody, rfl⟩
  · rintro ⟨body, hbody, rfl⟩
    induction hbody with
    | empty => rfl
    | plain hquote hslash _ ih => simp [quotedBody, hslash, ih]
    | escape hfeed _ ih => simp [quotedBody, hfeed, ih]

theorem exists_labelText (h : Aldebaran.label cs = some (label, rest)) :
    ∃ blanks text, allBlank blanks = true ∧ LabelText text label ∧
      cs = blanks ++ (text ++ rest) := by
  obtain ⟨blanks, hblanks, hcs⟩ := exists_blanks cs
  unfold Aldebaran.label at h
  split at h
  · rename_i tail htail
    obtain ⟨body, hbody, rfl⟩ := quotedBody_eq_some_iff.1 h
    refine ⟨blanks, _, hblanks, .quoted hbody, ?_⟩
    rw [htail] at hcs
    simpa using hcs
  · obtain ⟨hlabel, hrest⟩ := Prod.mk.inj (Option.some.inj h)
    obtain ⟨hsplit, hrun, -⟩ := longest_iff.1 ⟨rfl, hrest⟩
    refine ⟨blanks, _, hblanks, .bare (fun c hc => ?_) (hlabel ▸ isTrimOf_trim _), ?_⟩
    · simpa using hrun c hc
    · rw [← hsplit]
      exact hcs

theorem label_of_head (h : ∀ c ∈ (skipBlanks cs).head?, c ≠ '"') :
    Aldebaran.label cs = some (bareLabel (skipBlanks cs)) := by
  unfold Aldebaran.label
  split
  · rename_i tail htail
    rw [htail] at h
    exact absurd rfl (h '"' rfl)
  · rfl

theorem bareLabel_comma {run : List Char} (hrun : ∀ c ∈ run, c ≠ '"' ∧ c ≠ ',')
    (rest : List Char) : bareLabel (run ++ ',' :: rest) = (trim run, ',' :: rest) := by
  obtain ⟨htake, hdrop⟩ := (longest_iff (p := fun c => c != '"' && c != ',')).2
    ⟨rfl, fun c hc => by simpa using hrun c hc, fun c (hc : c ∈ (',' :: rest).head?) => by
      cases hc; decide⟩
  rw [bareLabel, hdrop, htake]

theorem label_padded (h : LabelText text label) {padded : List Char} (hpadded : Padded text padded)
    (rest : List Char) :
    ∃ more, Aldebaran.label (padded ++ ',' :: rest) = some (label, more) ∧
      symbol ',' more = some rest := by
  cases h with
  | @quoted body _ hbody =>
    obtain ⟨before, behind, hbefore, hbehind, rfl⟩ := hpadded
    refine ⟨behind ++ ',' :: rest, ?_, symbol_blanks (by decide) hbehind rest⟩
    have hskip : skipBlanks (before ++ '"' :: (body ++ ['"']) ++ behind ++ ',' :: rest) =
        '"' :: (body ++ '"' :: (behind ++ ',' :: rest)) := by
      simp only [List.append_assoc, skipBlanks_append hbefore]
      rw [List.cons_append, skipBlanks_of_head fun c hc => by cases hc; decide]
      simp
    simp only [Aldebaran.label, hskip]
    exact quotedBody_eq_some_iff.2 ⟨body, hbody, rfl⟩
  | bare hrun hlabel =>
    -- blanks are neither quotes nor commas, so the padded run is read up to the comma
    have hall : ∀ c ∈ padded, c ≠ '"' ∧ c ≠ ',' := by
      obtain ⟨before, behind, hbefore, hbehind, rfl⟩ := hpadded
      have hblank : ∀ c, isBlank c = true → c ≠ '"' ∧ c ≠ ',' := by
        rintro c hc
        constructor <;> rintro rfl <;> revert hc <;> decide
      intro c hc
      simp only [List.mem_append] at hc
      rcases hc with (hc | hc) | hc
      · exact hblank c (List.all_eq_true.1 hbefore c hc)
      · exact hrun c hc
      · exact hblank c (List.all_eq_true.1 hbehind c hc)
    have hskip := skipBlanks_stop (c := ',') (by decide) padded rest
    have hkept : ∀ c ∈ skipBlanks padded, c ≠ '"' ∧ c ≠ ',' := fun c hc =>
      hall c (skipBlanks_subset padded hc)
    refine ⟨',' :: rest, ?_, symbol_cons (by decide)⟩
    rw [label_of_head, hskip, bareLabel_comma hkept, trim,
      skipBlanks_of_head (head_skipBlanks padded), ← trim, (hlabel.padded_text hpadded).trim_eq]
    rw [hskip]
    intro c hc
    cases hpad : skipBlanks padded with
    | nil =>
      rw [hpad] at hc
      cases hc
      decide
    | cons d ds =>
      rw [hpad] at hc hkept
      obtain rfl : d = c := Option.some.inj hc
      exact (hkept d List.mem_cons_self).1

theorem transitionParts_eq_some_iff {source target : List Char} :
    transitionParts cs = some (source, label, target) ↔
      source ≠ [] ∧ (∀ c ∈ source, isDecimal c = true) ∧ target ≠ [] ∧
      (∀ c ∈ target, isDecimal c = true) ∧ ∃ first middle last text, Padded source first ∧
        Padded text middle ∧ LabelText text label ∧ Padded target last ∧
        Padded ('(' :: (first ++ ',' :: (middle ++ ',' :: (last ++ [')'])))) cs := by
  unfold transitionParts
  simp only [Option.bind_eq_bind, Option.bind_eq_some_iff]
  constructor
  · rintro ⟨⟨digits, c₂⟩, ⟨c₁, hopen, hfirst⟩, ⟨found, c₄⟩, ⟨c₃, hcomma, hlabel⟩,
      ⟨others, c₆⟩, ⟨c₅, hbetween, hlast⟩, c₇, hclose, h⟩
    obtain ⟨b₀, hb₀, rfl⟩ := exists_blanks_of_symbol hopen
    obtain ⟨hsource, hdigits, -, b₁, hb₁, rfl⟩ := numeral_eq_some_iff.1 hfirst
    obtain ⟨b₂, hb₂, rfl⟩ := exists_blanks_of_symbol hcomma
    obtain ⟨b₃, text, hb₃, htext, rfl⟩ := exists_labelText hlabel
    obtain ⟨b₄, hb₄, rfl⟩ := exists_blanks_of_symbol hbetween
    obtain ⟨htarget, hothers, -, b₅, hb₅, rfl⟩ := numeral_eq_some_iff.1 hlast
    obtain ⟨b₆, hb₆, rfl⟩ := exists_blanks_of_symbol hclose
    split at h
    · rename_i hb₇
      cases h
      refine ⟨hsource, hdigits, htarget, hothers, _, _, _, text, ⟨b₁, b₂, hb₁, hb₂, rfl⟩,
        ⟨b₃, b₄, hb₃, hb₄, rfl⟩, htext, ⟨b₅, b₆, hb₅, hb₆, rfl⟩, b₀, c₇, hb₀, hb₇, ?_⟩
      simp only [List.append_assoc, List.cons_append, List.nil_append]
    · cases h
  · rintro ⟨hsource, hdigits, htarget, hothers, first, middle, last, text, hfirst, hmiddle, htext,
      hlast, before, behind, hbefore, hbehind, rfl⟩
    obtain ⟨c₂, hread₁, hcomma⟩ := numeral_padded (c := ',') hsource hdigits hfirst (by decide)
      (by decide) (middle ++ ',' :: (last ++ ')' :: behind))
    obtain ⟨c₄, hread₂, hbetween⟩ := label_padded htext hmiddle (last ++ ')' :: behind)
    obtain ⟨c₆, hread₃, hclose⟩ := numeral_padded (c := ')') htarget hothers hlast (by decide)
      (by decide) behind
    refine ⟨_, ⟨_, ?_, hread₁⟩, _, ⟨_, hcomma, hread₂⟩, _, ⟨_, hbetween, hread₃⟩, _, hclose,
      if_pos hbehind⟩
    simp only [List.append_assoc, List.cons_append, List.nil_append]
    exact symbol_blanks (by decide) hbefore _

theorem parseTransition_ok_iff {text : String} {edge : Edge} :
    parseTransition text line = .ok edge ↔ TransitionText text.toList edge := by
  constructor
  · intro h
    unfold parseTransition at h
    split at h
    · cases h
    · rename_i source label target hparts
      obtain ⟨s, hs, h⟩ := bind_ok h
      obtain ⟨t, ht, h⟩ := bind_ok h
      cases h
      obtain ⟨hsource, -, htarget, -, first, middle, last, text, hfirst, hmiddle, htext, hlast,
        hline⟩ := transitionParts_eq_some_iff.1 hparts
      obtain ⟨hdigits, hvalue, hlt⟩ := number_ok_iff.1 hs
      obtain ⟨hothers, hother, hless⟩ := number_ok_iff.1 ht
      exact .intro hline hfirst ⟨hsource, hdigits, hvalue⟩ hlt hmiddle htext hlast
        ⟨htarget, hothers, hother⟩ hless
  · generalize hcs : text.toList = cs
    rintro ⟨hline, hfirst, hsource, hs, hmiddle, htext, hlast, htarget, ht⟩
    have hparts := transitionParts_eq_some_iff.2 ⟨hsource.nonempty,
      fun c hc => isDecimal_of_isDigit (hsource.ascii c hc), htarget.nonempty,
      fun c hc => isDecimal_of_isDigit (htarget.ascii c hc), _, _, _, _, hfirst, hmiddle, htext,
      hlast, hline⟩
    simp only [parseTransition, hcs, hparts, bind, Except.bind,
      number_ok_iff.2 ⟨hsource.ascii, hsource.value, hs⟩,
      number_ok_iff.2 ⟨htarget.ascii, htarget.value, ht⟩]

theorem number_error {e : Error} (h : number bound line digits = .error e) :
    ∃ fault, e = .malformed line fault := by
  unfold number at h
  split at h
  · cases h
  · cases h
    exact ⟨_, rfl⟩

theorem parseTransition_error {text : String} {e : Error}
    (h : parseTransition text line = .error e) : ∃ fault, e = .malformed line fault := by
  unfold parseTransition at h
  split at h
  · cases h
    exact ⟨_, rfl⟩
  · obtain hsource | ⟨s, -, h⟩ := bind_error h
    · exact number_error hsource
    · obtain htarget | ⟨t, -, h⟩ := bind_error h
      · exact number_error htarget
      · cases h

/-- A line is read as a transition exactly if the grammar says that it is this one; the grammar says
    so of one transition at most. Every other line is refused with its number. -/
theorem parseTransition_grammar (text : String) (line : Nat) :
    (∀ edge, parseTransition text line = .ok edge ↔ TransitionText text.toList edge) ∧
    (∀ edge other, TransitionText text.toList edge → TransitionText text.toList other →
      edge = other) ∧
    ((¬ ∃ edge, TransitionText text.toList edge) →
      ∃ fault, parseTransition text line = .error (.malformed line fault)) := by
  have hread : ∀ edge, parseTransition text line = .ok edge ↔ TransitionText text.toList edge :=
    fun edge => parseTransition_ok_iff
  refine ⟨hread, fun edge other hedge hother => ?_, fun hnone => ?_⟩
  · exact Except.ok.inj (((hread edge).2 hedge).symm.trans ((hread other).2 hother))
  · cases hrun : parseTransition text line with
    | ok edge => exact absurd ⟨edge, (hread edge).1 hrun⟩ hnone
    | error e =>
      obtain ⟨fault, rfl⟩ := parseTransition_error hrun
      exact ⟨fault, rfl⟩

theorem toList_quoteLabel (label : String) :
    (quoteLabel label).toList = '"' :: (escaped label.toList ++ ['"']) := by
  rw [quoteLabel, String.toList_ofList]
  rfl

theorem quotedText_escaped (label : List Char) : QuotedText (escaped label) label := by
  induction label with
  | nil => exact .empty
  | cons c label ih =>
    rw [escaped, List.flatMap_cons, ← escaped]
    split
    · -- an escaped character is a quote or a backslash, so it is no line feed
      rename_i hc
      refine .escape ?_ ih
      rcases hc with rfl | rfl <;> decide
    · rename_i hc
      obtain ⟨hquote, hslash⟩ := not_or.1 hc
      exact .plain hquote hslash ih

/-- Whatever stands behind a written label, its last quote is the one that closes it. -/
theorem label_quoteLabel (label : String) (rest : List Char) :
    Aldebaran.label ((quoteLabel label).toList ++ rest) = some (label.toList, rest) := by
  rw [toList_quoteLabel, List.cons_append, List.append_assoc, List.singleton_append]
  exact quotedBody_escaped label.toList rest

/-- A label between quotes reads back as itself, whatever its characters are: the label is taken off
    any text that begins with it, its quoted form is one of the grammar, and a transition with the
    label is read as this transition and has no other reading. -/
theorem parseTransition_quoted {s t : StateId} (label : String) (line : Nat) (hs : s < stateBound)
    (ht : t < stateBound) :
    (∀ rest, Aldebaran.label ((quoteLabel label).toList ++ rest) = some (label.toList, rest)) ∧
    LabelText (quoteLabel label).toList label.toList ∧
    parseTransition (record s label t) line = .ok ⟨s, label, t⟩ ∧
    ∀ edge, TransitionText (record s label t).toList edge ↔ edge = ⟨s, label, t⟩ := by
  have hread : parseTransition (record s label t) line = .ok ⟨s, label, t⟩ :=
    parseTransition_record label hs ht
  refine ⟨label_quoteLabel label, ?_, hread, fun edge => ?_⟩
  · rw [toList_quoteLabel]
    exact .quoted (quotedText_escaped label.toList)
  · have hgrammar : parseTransition (record s label t) line = .ok edge ↔
        TransitionText (record s label t).toList edge := parseTransition_ok_iff
    rw [← hgrammar, hread, Except.ok.injEq, eq_comm]

/-- Looks like the end of a transition and ends in a backslash. -/
def decoy : String := " go\", 1)\n(2, \\"

theorem decoy_quoted :
    record 7 decoy 4294967295 = "(7, \" go\\\", 1)\n(2, \\\\\", 4294967295)" ∧
    parseTransition (record 7 decoy 4294967295) 3 = .ok ⟨7, decoy, 4294967295⟩ := by
  refine ⟨by decide, ?_⟩
  obtain ⟨-, -, hread, -⟩ := parseTransition_quoted (s := 7) (t := 4294967295) decoy 3 (by decide)
    (by decide)
  exact hread

end InteractiveMarkov.Aldebaran
