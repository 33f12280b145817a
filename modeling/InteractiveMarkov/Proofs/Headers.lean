import InteractiveMarkov.Proofs.ChainFiles
import InteractiveMarkov.Proofs.Tables

set_option autoImplicit false

namespace InteractiveMarkov

open Text

/-- A text with a count in its header: what stands before the count field, what stands between the
    field and the end of the header, and the records that are counted, one a line. -/
structure CountedText where
  opening : String
  closing : String
  records : List String

namespace CountedText

def withField (text : CountedText) (field : String) : String :=
  text.opening ++ field ++ (text.closing ++ unlines text.records)

def drafted (text : CountedText) : String := text.withField Stream.blankField

def counted (text : CountedText) : String :=
  text.withField (Stream.countField text.records.length)

/-- The records are the lines behind those of the header. -/
def Lined (text : CountedText) : Prop := ∃ header : List String,
  unlines header = text.opening ++ Stream.countField text.records.length ++ text.closing ∧
    lines text.counted = header ++ text.records

end CountedText

/-- The field is 20 characters wide and holds the count behind blanks. -/
structure RightAligned (field : String) (count : Nat) : Prop where
  width : field.length = 20
  digits : ∃ blanks, field = String.ofList (List.replicate blanks ' ') ++ count.repr

def Stream.ending (bytes : ByteArray) : Stream := ⟨bytes, bytes.size, none⟩

/-- Whatever a stream holds that stands at its end, the writer appends the text. It leaves the count
    field blank in a draft, and its last step changes no byte outside the field. -/
structure Backpatches (write draft : Stream → Except Error (Stream × Nat)) (text : CountedText) :
    Prop where
  steps : ∀ stream, write stream = do
    let (stream, place) ← draft stream
    let stream ← stream.patch place text.records.length
    .ok (stream, text.records.length)
  drafted : ∀ bytes, draft (.ending bytes) =
    .ok (.ending (bytes ++ text.drafted.toUTF8), bytes.size + text.opening.toUTF8.size)
  written : ∀ bytes, write (.ending bytes) =
    .ok (.ending (bytes ++ text.counted.toUTF8), text.records.length)
  untouched : ∀ bytes place, place < bytes.size + text.opening.toUTF8.size ∨
      bytes.size + text.opening.toUTF8.size + 20 ≤ place →
    (bytes ++ text.counted.toUTF8).data[place]? = (bytes ++ text.drafted.toUTF8).data[place]?

theorem rightAligned_countField {count : Nat} (h : count < countBound) :
    RightAligned (Stream.countField count) count where
  width := by
    have hdigits : (Nat.toDigits 10 count).length ≤ 20 := Stream.length_toDigits_le h
    rw [Stream.countField, String.length_ofList, List.length_append, List.length_replicate,
      Stream.countWidth]
    omega
  digits := ⟨_, Stream.countField_eq count⟩

example : Stream.countField 42 = "                  42" := by decide

theorem size_blankField : Stream.blankField.toUTF8.size = 20 := by decide

theorem getElem?_outside (front behind : ByteArray) {data data' : ByteArray}
    (hsize : data.size = data'.size) {place : Nat}
    (h : place < front.size ∨ front.size + data.size ≤ place) :
    (front ++ data ++ behind).data[place]? = (front ++ data' ++ behind).data[place]? := by
  have hfront : front.data.size = front.size := rfl
  have hdata : data.data.size = data.size := rfl
  have hdata' : data'.data.size = data'.size := rfl
  simp only [ByteArray.data_append, Array.append_assoc]
  rcases h with h | h
  · rw [Array.getElem?_append_left (by omega), Array.getElem?_append_left (by omega)]
  · rw [Array.getElem?_append_right (by omega), Array.getElem?_append_right (by omega),
      Array.getElem?_append_right (by omega), Array.getElem?_append_right (by omega), hdata, hdata',
      hsize]

theorem Stream.Written.eq_ending {bytes : ByteArray} {text : String} {after : Stream}
    (h : Stream.Written (.ending bytes) text after) : after = .ending (bytes ++ text.toUTF8) := by
  have hbytes : after.bytes = bytes ++ text.toUTF8 := (h.bytes (Nat.le_refl _)).trans (if_pos rfl)
  have hposition : after.position = (bytes ++ text.toUTF8).size := by
    rw [h.position, ByteArray.size_append]
    rfl
  obtain ⟨held, position, capacity⟩ := after
  obtain rfl : capacity = none := h.capacity
  subst hbytes hposition
  rfl

theorem backpatches_of_draft {write draft : Stream → Except Error (Stream × Nat)}
    {text : CountedText} (hcount : text.records.length < countBound)
    (hsteps : ∀ stream, write stream = do
      let (stream, place) ← draft stream
      let stream ← stream.patch place text.records.length
      .ok (stream, text.records.length))
    (hdraft : ∀ start : Stream, start.capacity = none → ∃ drafted,
      draft start = .ok (drafted, start.position + text.opening.toUTF8.size) ∧
        Stream.Written start text.drafted drafted) :
    Backpatches write draft text where
  steps := hsteps
  drafted bytes := by
    obtain ⟨drafted, hrun, hwritten⟩ := hdraft (.ending bytes) rfl
    rw [hrun, hwritten.eq_ending]
    rfl
  written bytes := by
    obtain ⟨drafted, hrun, hwritten⟩ := hdraft (.ending bytes) rfl
    obtain ⟨after, hpatch, hpatched⟩ := hwritten.patch hcount
    rw [hsteps, hrun]
    simp only [bind, Except.bind, hpatch]
    rw [hpatched.eq_ending]
    rfl
  untouched bytes place hplace := by
    have hsize : (Stream.countField text.records.length).toUTF8.size = 20 :=
      (Stream.size_countField hcount).trans size_blankField
    rw [← ByteArray.size_append, ← hsize] at hplace
    simpa only [CountedText.counted, CountedText.drafted, CountedText.withField,
      Stream.toUTF8_append, ByteArray.append_assoc] using
      getElem?_outside (bytes ++ text.opening.toUTF8) (text.closing ++ unlines text.records).toUTF8
        (Stream.size_countField hcount) hplace

namespace Aldebaran

def countedFile (chain : Chain) : CountedText :=
  ⟨fileOpening chain, fileClosing chain, chain.transitions.map recordOf⟩

theorem backpatches_write {chain : Chain} (h : chain.FromOne)
    (hcount : chain.transitions.length < countBound) :
    Backpatches (write chain) (draft chain) (countedFile chain) := by
  have hlength : (countedFile chain).records.length = chain.transitions.length := List.length_map _
  refine backpatches_of_draft (hlength ▸ hcount) (fun stream => ?_) fun start => draft_ok h
  rw [hlength]
  exact write_eq_draft chain stream

theorem lined_countedFile {chain : Chain}
    (hfeed : ∀ transition ∈ chain.transitions, '\n' ∉ transition.label.text.toList) :
    (countedFile chain).Lined := by
  have htext : (countedFile chain).counted = unlines (fileLines chain) := by
    rw [unlines_fileLines, CountedText.counted, CountedText.withField, countedFile, List.length_map]
  refine ⟨[heading (chain.initial - 1) chain.transitions.length chain.stateCount], ?_, ?_⟩
  · rw [unlines_cons, ← String.toList_inj]
    simp [heading, countedFile, fileOpening, fileClosing, unlines]
  · rw [htext, lines_unlines (isLine_fileLines hfeed)]
    rfl

end Aldebaran

namespace RateMatrix

def countedTable (chain : Chain) : CountedText :=
  ⟨heading chain, "\n", (rows chain).map rowLine⟩

theorem length_countedTable (chain : Chain) :
    (countedTable chain).records.length = chain.transitions.length := by
  rw [countedTable, List.length_map, (stablySorted_rows chain).perm.length_eq]

theorem backpatches_write {chain : Chain} (hcount : chain.transitions.length < countBound)
    (hrates : ∀ u ∈ rows chain, PositiveRate u.label) :
    Backpatches (write chain) (draft chain) (countedTable chain) := by
  have hlength := length_countedTable chain
  refine backpatches_of_draft (hlength ▸ hcount) (fun stream => ?_)
    fun start hstart => draft_ok hstart hrates
  rw [hlength]
  exact write_eq_draft chain stream

theorem lined_countedTable {chain : Chain} (hrates : ∀ u ∈ rows chain, PositiveRate u.label) :
    (countedTable chain).Lined := by
  have hlength := length_countedTable chain
  have htext : (countedTable chain).counted = unlines (tableLines chain) := by
    rw [unlines_tableLines, CountedText.counted, hlength]
    rfl
  refine ⟨["STATES " ++ chain.stateCount.repr, countLine chain.transitions.length], ?_, ?_⟩
  · rw [hlength, unlines_cons, unlines_cons, ← String.toList_inj]
    simp [countedTable, heading, countLine, unlines]
  · rw [htext, lines_unlines (isLine_tableLines hrates)]
    rfl

end RateMatrix

/-- Both writers with a count in the header append their text to whatever the stream holds, and what
    they append does not depend on it. The field holds the number of the records, and patching it
    changes nothing else. -/
theorem counts_backpatched {chain : Chain} (h : chain.FromOne)
    (hcount : chain.transitions.length < countBound) :
    RightAligned (Stream.countField chain.transitions.length) chain.transitions.length ∧
    (∃ text : CountedText, text.records = chain.transitions.map Aldebaran.recordOf ∧
      Backpatches (Aldebaran.write chain) (Aldebaran.draft chain) text ∧
      ((∀ transition ∈ chain.transitions, '\n' ∉ transition.label.text.toList) → text.Lined)) ∧
    ∀ bytes result, RateMatrix.write chain (.ending bytes) = .ok result →
      ∃ text : CountedText, text.records = (RateMatrix.rows chain).map RateMatrix.rowLine ∧
        text.records.length = chain.transitions.length ∧
        Backpatches (RateMatrix.write chain) (RateMatrix.draft chain) text ∧ text.Lined := by
  refine ⟨rightAligned_countField hcount, ⟨Aldebaran.countedFile chain, rfl,
    Aldebaran.backpatches_write h hcount, Aldebaran.lined_countedFile⟩, fun bytes result hwrite => ?_⟩
  have hrates : ∀ u ∈ RateMatrix.rows chain, RateMatrix.PositiveRate u.label := fun u hu =>
    RateMatrix.positive_of_write rfl hwrite u (RateMatrix.mem_rows.1 hu)
  exact ⟨RateMatrix.countedTable chain, rfl, RateMatrix.length_countedTable chain,
    RateMatrix.backpatches_write hcount hrates, RateMatrix.lined_countedTable hrates⟩

theorem furnace_backpatched : RateMatrix.furnace.FromOne ∧
    RateMatrix.furnace.transitions.length < countBound ∧
    (∃ text : CountedText, text.records.length = 4 ∧ text.Lined ∧
      Backpatches (Aldebaran.write RateMatrix.furnace) (Aldebaran.draft RateMatrix.furnace) text) ∧
    ∃ result, RateMatrix.write RateMatrix.furnace (.ending "kept".toUTF8) = .ok result ∧
      ∃ text : CountedText, text.records.length = 4 ∧ text.Lined ∧
        Backpatches (RateMatrix.write RateMatrix.furnace) (RateMatrix.draft RateMatrix.furnace)
          text := by
  have hone : RateMatrix.furnace.FromOne := ⟨by decide, by simp [RateMatrix.furnace]⟩
  have hcount : RateMatrix.furnace.transitions.length < countBound := by decide
  have hrates : ∀ u ∈ RateMatrix.furnace.transitions, RateMatrix.PositiveRate u.label := by
    decide +kernel
  obtain ⟨-, ⟨file, hrecords, hfile, hlined⟩, htable⟩ := counts_backpatched hone hcount
  obtain ⟨result, hwrite⟩ : ∃ result,
      RateMatrix.write RateMatrix.furnace (.ending "kept".toUTF8) = .ok result :=
    (RateMatrix.exists_write_ok_iff rfl).2 hrates
  obtain ⟨table, -, hlength, hbackpatches, hrows⟩ := htable _ result hwrite
  refine ⟨hone, hcount, ⟨file, ?_, hlined (by decide), hfile⟩, result, hwrite, table, hlength, hrows,
    hbackpatches⟩
  rw [hrecords, List.length_map]
  rfl

end InteractiveMarkov
