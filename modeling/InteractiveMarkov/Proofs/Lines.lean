import InteractiveMarkov.Text.Line
import Mathlib.Data.List.Infix

set_option autoImplicit false

namespace InteractiveMarkov.Text

section Split

variable {α : Type} [DecidableEq α] {mark ret : α}

theorem splitAtMark_cons (mark x : α) (xs : List α) :
    splitAtMark mark (x :: xs) = splitStep mark x (splitAtMark mark xs) := rfl

theorem splitAtMark_ne_nil (mark : α) (xs : List α) : splitAtMark mark xs ≠ [] := by
  cases xs with
  | nil => simp [splitAtMark]
  | cons x xs =>
    rw [splitAtMark_cons]
    unfold splitStep
    split
    · simp
    · split <;> simp

theorem splitAtMark_append {line : List α} (h : mark ∉ line) (rest : List α) :
    splitAtMark mark (line ++ mark :: rest) = line :: splitAtMark mark rest := by
  induction line with
  | nil =>
    rw [List.nil_append, splitAtMark_cons]
    obtain ⟨piece, pieces, hrest⟩ := List.exists_cons_of_ne_nil (splitAtMark_ne_nil mark rest)
    rw [hrest, splitStep, if_pos rfl]
  | cons x line ih =>
    obtain ⟨hx, hline⟩ := not_or.1 (List.mem_cons.not.1 h)
    rw [List.cons_append, splitAtMark_cons, ih hline, splitStep, if_neg (Ne.symm hx)]

theorem splitAtMark_flatMap {ls : List (List α)} (h : ∀ line ∈ ls, mark ∉ line) :
    splitAtMark mark (ls.flatMap fun line => line ++ [mark]) = ls ++ [[]] := by
  induction ls with
  | nil => rfl
  | cons line ls ih =>
    rw [List.flatMap_cons, List.append_assoc, List.singleton_append,
      splitAtMark_append (h line List.mem_cons_self),
      ih fun other hother => h other (List.mem_cons_of_mem line hother)]
    rfl

theorem not_mem_of_mem_splitAtMark {xs piece : List α} (h : piece ∈ splitAtMark mark xs) :
    mark ∉ piece := by
  induction xs generalizing piece with
  | nil =>
    obtain rfl := List.mem_singleton.1 h
    exact List.not_mem_nil
  | cons x xs ih =>
    obtain ⟨first, pieces, hrest⟩ := List.exists_cons_of_ne_nil (splitAtMark_ne_nil mark xs)
    rw [hrest] at ih
    rw [splitAtMark_cons, hrest, splitStep] at h
    split at h
    · rcases List.mem_cons.1 h with rfl | h
      · exact List.not_mem_nil
      · exact ih h
    · rename_i hx
      rcases List.mem_cons.1 h with rfl | h
      · rw [List.mem_cons, not_or]
        exact ⟨Ne.symm hx, ih List.mem_cons_self⟩
      · exact ih (List.mem_cons_of_mem first h)

theorem endedLines_append {ls : List (List α)} (h : ∀ line ∈ ls, line.getLast? ≠ some ret) :
    endedLines ret (ls ++ [[]]) = ls := by
  have hkeep : ls.map (dropFinal ret) = ls := by
    refine (List.map_congr_left fun line hline => ?_).trans (List.map_id ls)
    rw [dropFinal, if_neg (h line hline), id]
  simp [endedLines, hkeep]

theorem not_mem_of_mem_endedLines {pieces : List (List α)} {line : List α}
    (h : line ∈ endedLines ret pieces) (hpieces : ∀ piece ∈ pieces, mark ∉ piece) :
    mark ∉ line := by
  rcases List.mem_append.1 h with h | h
  · obtain ⟨piece, hpiece, rfl⟩ := List.mem_map.1 h
    have hnot := hpieces piece (List.mem_of_mem_dropLast hpiece)
    unfold dropFinal
    split
    · exact fun hmem => hnot (List.mem_of_mem_dropLast hmem)
    · exact hnot
  · have hlast := (List.mem_filter.1 h).1
    exact hpieces line (List.mem_of_getLast? (Option.mem_toList.1 hlast))

end Split

structure IsLine (line : String) : Prop where
  noFeed : '\n' ∉ line.toList
  noReturn : line.toList.getLast? ≠ some '\r'

def unlines (ls : List String) : String :=
  String.ofList (ls.flatMap fun line => line.toList ++ ['\n'])

theorem unlines_cons (line : String) (ls : List String) :
    unlines (line :: ls) = line ++ "\n" ++ unlines ls := by
  rw [← String.toList_inj]
  simp [unlines]

theorem lines_unlines {ls : List String} (h : ∀ line ∈ ls, IsLine line) :
    lines (unlines ls) = ls := by
  have hchars : ∀ line ∈ ls.map String.toList,
      '\n' ∉ line ∧ line.getLast? ≠ some '\r' := by
    intro line hline
    obtain ⟨text, htext, rfl⟩ := List.mem_map.1 hline
    exact ⟨(h text htext).noFeed, (h text htext).noReturn⟩
  have hflat : (ls.flatMap fun line => line.toList ++ ['\n']) =
      (ls.map String.toList).flatMap fun line => line ++ ['\n'] := by
    rw [List.flatMap_map]
  rw [lines, unlines, String.toList_ofList, hflat,
    splitAtMark_flatMap fun line hline => (hchars line hline).1,
    endedLines_append fun line hline => (hchars line hline).2, List.map_map]
  simp

theorem not_mem_of_mem_lines {text line : String} (h : line ∈ lines text) :
    '\n' ∉ line.toList := by
  obtain ⟨chars, hchars, rfl⟩ := List.mem_map.1 h
  rw [String.toList_ofList]
  exact not_mem_of_mem_endedLines hchars fun piece => not_mem_of_mem_splitAtMark

/-- The lines of a text. A line feed ends a line and takes one carriage return before it along;
    what follows the last line feed is a line if it is not empty. -/
inductive LinesOf : List Char → List String → Prop
  | empty : LinesOf [] []
  | unended {piece : List Char} (hpiece : piece ≠ []) (hfeed : '\n' ∉ piece) :
      LinesOf piece [String.ofList piece]
  | ended {piece rest : List Char} {ls : List String} (hfeed : '\n' ∉ piece)
      (hrest : LinesOf rest ls) :
      LinesOf (piece ++ '\n' :: rest) (String.ofList (dropFinal '\r' piece) :: ls)

theorem splitAtMark_of_not_mem {α : Type} [DecidableEq α] {mark : α} {xs : List α}
    (h : mark ∉ xs) : splitAtMark mark xs = [xs] := by
  induction xs with
  | nil => rfl
  | cons x xs ih =>
    obtain ⟨hx, hxs⟩ := not_or.1 (List.mem_cons.not.1 h)
    rw [splitAtMark_cons, ih hxs, splitStep, if_neg (Ne.symm hx)]

theorem endedLines_cons {α : Type} [DecidableEq α] (ret : α) (piece : List α)
    {pieces : List (List α)} (h : pieces ≠ []) :
    endedLines ret (piece :: pieces) = dropFinal ret piece :: endedLines ret pieces := by
  rw [endedLines, endedLines, List.dropLast_cons_of_ne_nil h, List.map_cons, List.cons_append,
    List.getLast?_cons_of_ne_nil h]

theorem linesOf_endedLines (cs : List Char) :
    LinesOf cs ((endedLines '\r' (splitAtMark '\n' cs)).map String.ofList) := by
  -- on the length, as the text behind the first line feed is read next
  induction hlen : cs.length using Nat.strongRecOn generalizing cs with
  | ind k ih =>
    by_cases hfeed : '\n' ∈ cs
    · obtain ⟨piece, rest, rfl, hpiece⟩ := List.eq_append_cons_of_mem hfeed
      rw [splitAtMark_append hpiece, endedLines_cons _ _ (splitAtMark_ne_nil _ _), List.map_cons]
      rw [List.length_append, List.length_cons] at hlen
      exact .ended hpiece (ih rest.length (by omega) rest rfl)
    · rw [splitAtMark_of_not_mem hfeed]
      cases cs with
      | nil => exact .empty
      | cons c cs => exact .unended (List.cons_ne_nil c cs) hfeed

theorem LinesOf.eq {cs : List Char} {ls : List String} (h : LinesOf cs ls) :
    (endedLines '\r' (splitAtMark '\n' cs)).map String.ofList = ls := by
  induction h with
  | empty => rfl
  | @unended piece hpiece hfeed =>
    obtain ⟨c, cs, rfl⟩ := List.exists_cons_of_ne_nil hpiece
    rw [splitAtMark_of_not_mem hfeed]
    rfl
  | ended hfeed _ ih =>
    rw [splitAtMark_append hfeed, endedLines_cons _ _ (splitAtMark_ne_nil _ _), List.map_cons, ih]

theorem linesOf_iff {text : String} {ls : List String} :
    LinesOf text.toList ls ↔ lines text = ls :=
  ⟨LinesOf.eq, fun h => h ▸ linesOf_endedLines text.toList⟩

def words (line : String) : List String :=
  ((line.toList.splitOnP isBlank).filter (! ·.isEmpty)).map String.ofList

structure IsWord (word : String) : Prop where
  nonempty : word.toList ≠ []
  solid : ∀ c ∈ word.toList, isBlank c = false

theorem isWord_iff {word : String} :
    IsWord word ↔ word.toList ≠ [] ∧ word.toList.all (! isBlank ·) = true := by
  constructor
  · rintro ⟨hne, hsolid⟩
    exact ⟨hne, by simpa using hsolid⟩
  · rintro ⟨hne, hsolid⟩
    exact ⟨hne, by simpa using hsolid⟩

instance decidableIsWord (word : String) : Decidable (IsWord word) :=
  decidable_of_iff _ isWord_iff.symm

theorem words_append (s t : String) : words (s ++ " " ++ t) = words s ++ words t := by
  have hsplit : (s ++ " " ++ t).toList = s.toList ++ ' ' :: t.toList := by simp
  rw [words, hsplit, List.splitOnP_append_cons _ _ (by decide), List.filter_append,
    List.map_append]
  rfl

theorem words_space (t : String) : words (" " ++ t) = words t := words_append "" t

theorem words_replicate (k : Nat) (t : String) :
    words (String.ofList (List.replicate k ' ') ++ t) = words t := by
  induction k with
  | zero => rw [List.replicate_zero, String.ofList_nil, String.empty_append]
  | succ k ih =>
    have hfirst : String.ofList (List.replicate (k + 1) ' ') ++ t =
        " " ++ (String.ofList (List.replicate k ' ') ++ t) := by
      rw [← String.toList_inj]
      simp [List.replicate_succ]
    rw [hfirst, words_space, ih]

theorem IsWord.words {word : String} (h : IsWord word) : words word = [word] := by
  have hempty : word.toList.isEmpty = false := List.isEmpty_eq_false_iff.2 h.nonempty
  rw [Text.words, List.splitOnP_eq_singleton h.solid]
  simp [hempty]

def unwords (ws : List String) : String := " ".intercalate ws

theorem unwords_cons_cons (v w : String) (ws : List String) :
    unwords (v :: w :: ws) = v ++ " " ++ unwords (w :: ws) := by
  rw [unwords, unwords, ← String.toList_inj]
  simp

theorem words_unwords {ws : List String} (h : ∀ w ∈ ws, IsWord w) : words (unwords ws) = ws := by
  induction ws with
  | nil => rfl
  | cons v ws ih =>
    have hv : IsWord v := h v List.mem_cons_self
    cases ws with
    | nil => exact hv.words
    | cons w ws =>
      rw [unwords_cons_cons, words_append, hv.words, ih fun u hu => h u (.tail v hu)]
      rfl

theorem mem_unwords {ws : List String} {c : Char} (h : c ∈ (unwords ws).toList) :
    c = ' ' ∨ ∃ w ∈ ws, c ∈ w.toList := by
  induction ws with
  | nil => cases h
  | cons v ws ih =>
    cases ws with
    | nil => exact .inr ⟨v, List.mem_cons_self, h⟩
    | cons w ws =>
      rw [unwords_cons_cons, String.toList_append, String.toList_append] at h
      rcases List.mem_append.1 h with h | h
      · rcases List.mem_append.1 h with h | h
        · exact .inr ⟨v, List.mem_cons_self, h⟩
        · exact .inl (List.mem_singleton.1 h)
      · rcases ih h with h | ⟨u, hu, hc⟩
        · exact .inl h
        · exact .inr ⟨u, .tail v hu, hc⟩

def isSpaced (c : Char) : Bool := c == ' ' || !isBlank c

theorem isLine_of_spaced {line : String} (h : line.toList.all isSpaced = true) : IsLine line := by
  have hspaced : ∀ c ∈ line.toList, isSpaced c = true := List.all_eq_true.1 h
  refine ⟨fun hfeed => ?_, fun hreturn => ?_⟩
  · exact absurd (hspaced _ hfeed) (by decide)
  · exact absurd (hspaced _ (List.mem_of_getLast? hreturn)) (by decide)

theorem isLine_unwords {ws : List String} (h : ∀ w ∈ ws, IsWord w) : IsLine (unwords ws) := by
  refine isLine_of_spaced (List.all_eq_true.2 fun c hc => ?_)
  rcases mem_unwords hc with rfl | ⟨w, hw, hmem⟩
  · rfl
  · simp [isSpaced, (h w hw).solid c hmem]

theorem mapM_map_some {α β : Type} {f : α → β} {g : β → Option α} {l : List α}
    (h : ∀ x ∈ l, g (f x) = some x) : (l.map f).mapM g = some l := by
  induction l with
  | nil => rfl
  | cons x rest ih =>
    rw [List.map_cons, List.mapM_cons, h x List.mem_cons_self,
      ih fun y hy => h y (.tail x hy)]
    rfl

theorem toUTF8_of_fromUTF8? {bytes : ByteArray} {text : String}
    (h : String.fromUTF8? bytes = some text) : text.toUTF8 = bytes := by
  unfold String.fromUTF8? at h
  split at h
  · cases h
    rfl
  · cases h

theorem fromUTF8?_toUTF8 (text : String) : String.fromUTF8? text.toUTF8 = some text :=
  dif_pos text.isValidUTF8

theorem storedLines_toUTF8 (text : String) : storedLines text.toUTF8 = (lines text).map some := by
  rw [storedLines, fromUTF8?_toUTF8]

/-- A line feed is stored as the one byte that ends lines. -/
theorem feed_mem_toUTF8 {text : String} (h : '\n' ∈ text.toList) :
    10 ∈ text.toUTF8.data.toList := by
  have hbytes : text.toUTF8 = (text.toList.flatMap String.utf8EncodeChar).toByteArray :=
    String.utf8Encode_toList.symm
  rw [hbytes, List.data_toByteArray, List.mem_flatMap]
  exact ⟨'\n', h, by decide⟩

theorem not_mem_of_mem_storedLines {bytes : ByteArray} {line : String}
    (h : some line ∈ storedLines bytes) : '\n' ∉ line.toList := by
  unfold storedLines at h
  split at h
  · obtain ⟨found, hfound, heq⟩ := List.mem_map.1 h
    cases heq
    exact not_mem_of_mem_lines hfound
  · obtain ⟨chunk, hchunk, heq⟩ := List.mem_map.1 h
    intro hfeed
    have hmem := feed_mem_toUTF8 hfeed
    rw [toUTF8_of_fromUTF8? heq] at hmem
    exact not_mem_of_mem_endedLines hchunk (fun piece => not_mem_of_mem_splitAtMark) hmem

end InteractiveMarkov.Text
