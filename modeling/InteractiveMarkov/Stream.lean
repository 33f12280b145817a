import InteractiveMarkov.Error

set_option autoImplicit false

namespace InteractiveMarkov

/-- A seekable stream of bytes. A write that would pass the capacity fails. -/
structure Stream where
  bytes : ByteArray
  position : Nat
  capacity : Option Nat

namespace Stream

def empty : Stream := ⟨ByteArray.empty, 0, none⟩

/-- The data laid over the bytes from the given place on. -/
def overlay (bytes : ByteArray) (place : Nat) (data : ByteArray) : ByteArray :=
  if place = bytes.size then bytes ++ data
  else bytes.extract 0 place ++ data ++ bytes.extract (place + data.size) bytes.size

def fits (stream : Stream) (size : Nat) : Bool :=
  match stream.capacity with
  | none => true
  | some capacity => decide (size ≤ capacity)

def write (stream : Stream) (text : String) : Except AccessFault Stream :=
  let data := text.toUTF8
  let final := stream.position + data.size
  if stream.fits final then
    .ok { stream with bytes := overlay stream.bytes stream.position data, position := final }
  else .error .full

def put (stream : Stream) (text : String) : Except Error Stream :=
  (stream.write text).mapError .access

/-- The width of a count field: enough for any count below `countBound`. -/
def countWidth : Nat := 20

def countField (count : Nat) : String :=
  let digits := Nat.toDigits 10 count
  String.ofList (List.replicate (countWidth - digits.length) ' ' ++ digits)

def reserve (stream : Stream) : Except Error (Stream × Nat) := do
  let stream' ← stream.put (String.ofList (List.replicate countWidth ' '))
  .ok (stream', stream.position)

def putRecord {α : Type} (line : α → Except Error String) (state : Stream × Nat) (item : α) :
    Except Error (Stream × Nat) := do
  let text ← line item
  let stream ← state.1.put text
  .ok (stream, state.2 + 1)

/-- Writes a line for each item and counts the lines as they are written. -/
def putRecords {α : Type} (line : α → Except Error String) (items : List α) (stream : Stream) :
    Except Error (Stream × Nat) :=
  items.foldlM (putRecord line) (stream, 0)

def patch (stream : Stream) (place count : Nat) : Except Error Stream := do
  let patched ← { stream with position := place }.put (countField count)
  .ok { patched with position := stream.position }

end Stream

end InteractiveMarkov
