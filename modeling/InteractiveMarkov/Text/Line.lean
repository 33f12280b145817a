import InteractiveMarkov.Text.Blank

set_option autoImplicit false

namespace InteractiveMarkov.Text

variable {α : Type} [DecidableEq α]

def splitStep (mark : α) (x : α) : List (List α) → List (List α)
  | [] => [[x]]
  | piece :: pieces => if x = mark then [] :: piece :: pieces else (x :: piece) :: pieces

/-- Splits at every `mark`; the last piece is what follows the last `mark`. -/
def splitAtMark (mark : α) (xs : List α) : List (List α) := xs.foldr (splitStep mark) [[]]

def dropFinal (mark : α) (piece : List α) : List α :=
  if piece.getLast? = some mark then piece.dropLast else piece

/-- Every piece but the last was ended by a line feed; an empty last piece is no line. -/
def endedLines (ret : α) (pieces : List (List α)) : List (List α) :=
  pieces.dropLast.map (dropFinal ret) ++ pieces.getLast?.toList.filter (! ·.isEmpty)

def lines (text : String) : List String :=
  (endedLines '\r' (splitAtMark '\n' text.toList)).map String.ofList

/-- The lines of stored text; a line that is not well-formed is `none`. -/
def storedLines (bytes : ByteArray) : List (Option String) :=
  match String.fromUTF8? bytes with
  | some text => (lines text).map some
  | none =>
    (endedLines (13 : UInt8) (splitAtMark (10 : UInt8) bytes.toList)).map fun line =>
      String.fromUTF8? (ByteArray.mk line.toArray)

end InteractiveMarkov.Text
