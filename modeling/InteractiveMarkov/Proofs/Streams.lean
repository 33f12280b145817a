import InteractiveMarkov.Proofs.Lines
import InteractiveMarkov.Stream
import Mathlib.Data.List.Forall2

set_option autoImplicit false

namespace InteractiveMarkov.Stream

variable {front old data more : ByteArray}

theorem overlay_append (front old data : ByteArray) : overlay (front ++ old) front.size data =
    front ++ data ++ old.extract data.size old.size := by
  unfold overlay
  split
  · rename_i hplace
    have hold : old = ByteArray.empty := by
      rw [← ByteArray.size_eq_zero_iff]
      rw [ByteArray.size_append] at hplace
      omega
    have hnone : old.extract data.size old.size = ByteArray.empty := by
      rw [ByteArray.extract_eq_empty_iff, hold]
      simp
    rw [hnone, hold, ByteArray.append_empty, ByteArray.append_empty]
  · rw [ByteArray.extract_append_eq_left rfl, ByteArray.size_append,
      ByteArray.extract_append_size_add]

theorem overlay_overlay (front old data more : ByteArray) :
    overlay (overlay (front ++ old) front.size data) (front.size + data.size) more =
      overlay (front ++ old) front.size (data ++ more) := by
  have hrest : (old.extract data.size old.size).extract more.size
      (old.extract data.size old.size).size = old.extract (data ++ more).size old.size := by
    rw [ByteArray.extract_extract, ByteArray.size_extract, ByteArray.size_append]
    congr 1
    omega
  rw [overlay_append, overlay_append, ← ByteArray.size_append, overlay_append, hrest,
    ByteArray.append_assoc (a := front)]

theorem exists_split {bytes : ByteArray} {place : Nat} (h : place ≤ bytes.size) :
    ∃ front old, bytes = front ++ old ∧ place = front.size := by
  refine ⟨bytes.extract 0 place, bytes.extract place bytes.size, ?_, ?_⟩
  · rw [← ByteArray.extract_eq_extract_append_extract place (Nat.zero_le _) h,
      ByteArray.extract_zero_size]
  · rw [ByteArray.size_extract]
    omega

theorem overlay_exchange (front old before field behind : ByteArray) (h : field.size = data.size) :
    overlay (overlay (front ++ old) front.size (before ++ data ++ behind))
        (front.size + before.size) field =
      overlay (front ++ old) front.size (before ++ field ++ behind) := by
  have hsize : (before ++ field ++ behind).size = (before ++ data ++ behind).size := by
    simp only [ByteArray.size_append, h]
  have hsplit : ∀ rest, front ++ (before ++ data ++ behind) ++ rest =
      (front ++ before) ++ (data ++ (behind ++ rest)) := by
    intro rest
    simp only [ByteArray.append_assoc]
  rw [overlay_append, overlay_append, hsize, hsplit, ← ByteArray.size_append, overlay_append, h,
    ByteArray.extract_append_eq_right rfl ByteArray.size_append]
  simp only [ByteArray.append_assoc]

/-- What an unbounded stream has become when a text was written since the start. -/
structure Written (start : Stream) (text : String) (stream : Stream) : Prop where
  capacity : stream.capacity = none
  position : stream.position = start.position + text.toUTF8.size
  bytes : start.position ≤ start.bytes.size →
    stream.bytes = overlay start.bytes start.position text.toUTF8

variable {start stream : Stream} {text before behind : String}

theorem put_unbounded (stream : Stream) (h : stream.capacity = none) (text : String) :
    stream.put text = .ok ⟨overlay stream.bytes stream.position text.toUTF8,
      stream.position + text.toUTF8.size, none⟩ := by
  have hfits : ∀ size, stream.fits size = true := by
    intro size
    rw [fits, h]
  rw [put, write, if_pos (hfits _), h]
  rfl

theorem toUTF8_append (s t : String) : (s ++ t).toUTF8 = s.toUTF8 ++ t.toUTF8 :=
  String.toByteArray_append

theorem written_start (h : start.capacity = none) : Written start "" start where
  capacity := h
  position := rfl
  bytes hplace := by
    obtain ⟨front, old, hsplit, hsize⟩ := exists_split hplace
    have hnone : "".toUTF8 = ByteArray.empty := rfl
    rw [hsplit, hsize, overlay_append, hnone, ByteArray.append_empty, ByteArray.size_empty,
      ByteArray.extract_zero_size]

theorem Written.put (h : Written start text stream) (more : String) :
    ∃ after, stream.put more = .ok after ∧ Written start (text ++ more) after := by
  refine ⟨_, put_unbounded stream h.capacity more, rfl, ?_, fun hplace => ?_⟩
  · rw [h.position, toUTF8_append, ByteArray.size_append, Nat.add_assoc]
  · obtain ⟨front, old, hsplit, hsize⟩ := exists_split hplace
    rw [h.bytes hplace, h.position, hsplit, hsize, toUTF8_append, overlay_overlay]

theorem Written.putLines (h : Written start text stream) (lines : List String) : ∃ after,
    (lines.map (· ++ "\n")).foldlM Stream.put stream = .ok after ∧
      Written start (text ++ Text.unlines lines) after := by
  induction lines generalizing text stream with
  | nil => exact ⟨stream, rfl, by simpa [Text.unlines] using h⟩
  | cons line rest ih =>
    obtain ⟨next, hput, hnext⟩ := h.put (line ++ "\n")
    obtain ⟨after, hrun, hafter⟩ := ih hnext
    refine ⟨after, ?_, ?_⟩
    · rw [List.map_cons, List.foldlM_cons, hput]
      exact hrun
    · rwa [Text.unlines_cons, ← String.append_assoc]

section Records

variable {α : Type} {line : α → Except Error String} {item : α} {items : List α} {after : Stream}
  {written count : Nat}

theorem putRecord_ok_iff : putRecord line (stream, written) item = .ok (after, count) ↔
    ∃ emitted, line item = .ok emitted ∧ stream.put emitted = .ok after ∧ count = written + 1 := by
  constructor
  · intro h
    obtain ⟨emitted, hline, h⟩ := bind_ok h
    obtain ⟨next, hput, h⟩ := bind_ok h
    cases h
    exact ⟨emitted, hline, hput, rfl⟩
  · rintro ⟨emitted, hline, hput, rfl⟩
    simp only [putRecord, bind, Except.bind, hline, hput]

theorem foldlM_putRecord_ok_iff :
    items.foldlM (putRecord line) (stream, written) = .ok (after, count) ↔
      ∃ emitted, List.Forall₂ (fun item text => line item = .ok text) items emitted ∧
        emitted.foldlM put stream = .ok after ∧ count = written + emitted.length := by
  -- each turn emits one text and raises the counter by one
  induction items generalizing stream written with
  | nil =>
    constructor
    · intro h
      cases h
      exact ⟨[], .nil, rfl, rfl⟩
    · rintro ⟨_, ⟨⟩, hput, rfl⟩
      cases hput
      rfl
  | cons item rest ih =>
    rw [List.foldlM_cons]
    constructor
    · intro h
      obtain ⟨⟨next, counted⟩, hrecord, h⟩ := bind_ok h
      obtain ⟨first, hline, hput, rfl⟩ := putRecord_ok_iff.1 hrecord
      obtain ⟨emitted, hlines, hrun, rfl⟩ := ih.1 h
      refine ⟨first :: emitted, .cons hline hlines, ?_, ?_⟩
      · rw [List.foldlM_cons, hput]
        exact hrun
      · rw [List.length_cons]
        omega
    · rintro ⟨_, hlines, hrun, rfl⟩
      cases hlines with
      | @cons _ first _ emitted hline hlines =>
        rw [List.foldlM_cons] at hrun
        obtain ⟨next, hput, hrun⟩ := bind_ok hrun
        rw [putRecord_ok_iff.2 ⟨first, hline, hput, rfl⟩]
        refine ih.2 ⟨emitted, hlines, hrun, ?_⟩
        rw [List.length_cons]
        omega

/-- The counter ends at the number of the lines that were emitted, one for each item. -/
theorem putRecords_ok_iff : stream.putRecords line items = .ok (after, count) ↔
    ∃ emitted, List.Forall₂ (fun item text => line item = .ok text) items emitted ∧
      emitted.foldlM put stream = .ok after ∧ count = emitted.length := by
  rw [putRecords, foldlM_putRecord_ok_iff]
  simp only [Nat.zero_add]

theorem count_putRecords (h : stream.putRecords line items = .ok (after, count)) :
    count = items.length := by
  obtain ⟨emitted, hlines, -, rfl⟩ := putRecords_ok_iff.1 h
  exact hlines.length_eq.symm

theorem putRecords_bind {β : Type} (next : Stream → Nat → Except Error β) :
    (do
      let (stream, written) ← stream.putRecords line items
      next stream written) =
    (do
      let (stream, _) ← stream.putRecords line items
      next stream items.length) := by
  cases hrun : stream.putRecords line items with
  | error e => rfl
  | ok result =>
    obtain ⟨after, count⟩ := result
    obtain rfl := count_putRecords hrun
    rfl

theorem Written.putRecords {shown : α → String} (h : Written start text stream)
    (hitems : ∀ item ∈ items, line item = .ok (shown item ++ "\n")) : ∃ after,
    stream.putRecords line items = .ok (after, items.length) ∧
      Written start (text ++ Text.unlines (items.map shown)) after := by
  obtain ⟨after, hrun, hwritten⟩ := h.putLines (items.map shown)
  refine ⟨after, putRecords_ok_iff.2 ⟨_, ?_, hrun, ?_⟩, hwritten⟩
  · rw [List.map_map, List.forall₂_map_right_iff, List.forall₂_same]
    exact hitems
  · rw [List.length_map, List.length_map]

end Records

def blankField : String := String.ofList (List.replicate countWidth ' ')

theorem size_toUTF8_ofList {cs : List Char} (h : ∀ c ∈ cs, c.utf8Size = 1) :
    (String.ofList cs).toUTF8.size = cs.length := by
  rw [String.toUTF8_eq_toByteArray, String.toByteArray_ofList]
  induction cs with
  | nil => rfl
  | cons c cs ih =>
    rw [List.utf8Encode_cons, ByteArray.size_append, ih fun d hd => h d (.tail c hd),
      List.utf8Encode_singleton, List.size_toByteArray, String.length_utf8EncodeChar,
      h c List.mem_cons_self, List.length_cons, Nat.add_comm]

theorem utf8Size_of_isDigit {c : Char} (h : c.isDigit = true) : c.utf8Size = 1 := by
  have hrange : c.val ≤ 57 := by
    simp only [Char.isDigit, Bool.and_eq_true, decide_eq_true_eq] at h
    exact h.2
  unfold Char.utf8Size
  rw [if_pos (UInt32.le_trans hrange (by decide))]

theorem length_toDigits_le {count : Nat} (h : count < countBound) :
    (Nat.toDigits 10 count).length ≤ countWidth :=
  (Nat.length_toDigits_le_iff (by decide) (by decide)).2 (Nat.lt_trans h (by decide))

theorem countField_eq (count : Nat) : countField count =
    String.ofList (List.replicate (countWidth - (Nat.toDigits 10 count).length) ' ') ++
      count.repr := by
  rw [← String.toList_inj]
  simp [countField]

theorem size_countField {count : Nat} (h : count < countBound) :
    (countField count).toUTF8.size = blankField.toUTF8.size := by
  have hdigits := length_toDigits_le h
  have hascii : ∀ c ∈ List.replicate (countWidth - (Nat.toDigits 10 count).length) ' ' ++
      Nat.toDigits 10 count, c.utf8Size = 1 := by
    intro c hc
    rcases List.mem_append.1 hc with hc | hc
    · obtain rfl := List.eq_of_mem_replicate hc
      rfl
    · exact utf8Size_of_isDigit (Nat.isDigit_of_mem_toDigits (by decide) (by decide) hc)
  have hblank : ∀ c ∈ List.replicate countWidth ' ', c.utf8Size = 1 := by
    intro c hc
    obtain rfl := List.eq_of_mem_replicate hc
    rfl
  rw [countField, blankField, size_toUTF8_ofList hascii, size_toUTF8_ofList hblank,
    List.length_append, List.length_replicate, List.length_replicate]
  omega

theorem Written.reserve (h : Written start text stream) : ∃ after,
    stream.reserve = .ok (after, start.position + text.toUTF8.size) ∧
      Written start (text ++ blankField) after := by
  obtain ⟨after, hput, hwritten⟩ := h.put blankField
  refine ⟨after, ?_, hwritten⟩
  unfold Stream.reserve
  rw [show String.ofList (List.replicate countWidth ' ') = blankField from rfl, hput, h.position]
  rfl

theorem exists_patch (h : stream.capacity = none) (place count : Nat) :
    ∃ after, stream.patch place count = .ok after := by
  rw [patch, put_unbounded { stream with position := place } h (countField count)]
  exact ⟨_, rfl⟩

theorem Written.patch (h : Written start (before ++ blankField ++ behind) stream) {count : Nat}
    (hcount : count < countBound) : ∃ after,
    stream.patch (start.position + before.toUTF8.size) count = .ok after ∧
      Written start (before ++ countField count ++ behind) after := by
  have hsize := size_countField hcount
  have hput := put_unbounded { stream with position := start.position + before.toUTF8.size }
    h.capacity (countField count)
  refine ⟨_, by rw [Stream.patch, hput]; rfl, rfl, ?_, fun hplace => ?_⟩
  · simp only [h.position, toUTF8_append, ByteArray.size_append, hsize]
  · obtain ⟨front, old, hsplit, hfront⟩ := exists_split hplace
    simp only [h.bytes hplace, hsplit, hfront, toUTF8_append]
    exact overlay_exchange front old _ _ _ hsize

end InteractiveMarkov.Stream
