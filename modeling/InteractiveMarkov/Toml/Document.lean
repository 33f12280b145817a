import InteractiveMarkov.Toml.Scalar
import InteractiveMarkov.Toml.Tree

set_option autoImplicit false

namespace InteractiveMarkov.Toml

def comment? : List Char → Option (List Char)
  | '#' :: rest =>
    let rest := rest.dropWhile (!isControl ·)
    if rest.isEmpty || (lineEnd? rest).isSome then some rest else none
  | cs => some cs

def finishLine? (cs : List Char) : Option (List Char) :=
  (comment? (skipSpaces cs)).bind fun rest => if rest.isEmpty then some [] else lineEnd? rest

/-- Skips white space, line ends and comments; `inComment` tells whether one is open. -/
def skipFiller (inComment : Bool) : List Char → Option (List Char)
  | [] => some []
  | '\n' :: rest => skipFiller false rest
  | '\r' :: '\n' :: rest => skipFiller false rest
  | c :: rest =>
    if inComment then (if isControl c then none else skipFiller true rest)
    else if c = '#' then skipFiller true rest
    else if isSpace c then skipFiller false rest
    else some (c :: rest)

def isBareChar (c : Char) : Bool := c.isAlphanum || c == '_' || c == '-'

def keyPart (cs : List Char) : Reading String :=
  let run := cs.takeWhile isBareChar
  if run.isEmpty then shortString cs else some (String.ofList run, cs.drop run.length)

def partLimit : Nat := 80

/-- Takes a key of at most so many parts: those before its last dot, and its last part. -/
def keyPath : Nat → List Char → Reading (List String × String)
  | 0, _ => none
  | limit + 1, cs =>
    match keyPart (skipSpaces cs) with
    | none => none
    | some (part, rest) =>
      match skipSpaces rest with
      | '.' :: rest =>
        (keyPath limit rest).map fun ((path, last), rest) => ((part :: path, last), rest)
      | rest => some (([], part), rest)

def keyBefore (cs : List Char) : Reading (List String × String) :=
  (keyPath partLimit cs).bind fun (key, rest) =>
    (mark? '=' rest).map fun rest => (key, skipSpaces rest)

/-- Takes a key of an inline table and the sign of equality after it, which may stand on a line of
    its own. -/
def inlineKeyBefore (cs : List Char) : Reading (List String × String) :=
  (keyPath partLimit cs).bind fun (key, rest) =>
    ((skipFiller false rest).bind (mark? '=')).bind fun rest =>
      (skipFiller false rest).map fun rest => (key, rest)

def nestingLimit : Nat := 80

mutual

/-- Takes a value, inside which so many levels may still be opened. The length of the document is
    fuel enough: every call takes a character or ends. -/
def value : Nat → Nat → List Char → Reading Value
  | 0, _, _ => none
  | fuel + 1, depth, cs =>
    match cs with
    | '[' :: rest => if depth = 0 then none else
      (arrayItems fuel (depth - 1) rest).map fun (items, rest) => (.array items, rest)
    | '\x7b' :: rest => if depth = 0 then none else
      (inlineEntries fuel (depth - 1) [] rest).map fun (entries, rest) =>
        (.table (entriesToValues entries), rest)
    | '"' :: _ => (string cs).map fun (text, rest) => (.text text, rest)
    | '\'' :: _ => (string cs).map fun (text, rest) => (.text text, rest)
    | cs => plain cs

def arrayItems : Nat → Nat → List Char → Reading (List Value)
  | 0, _, _ => none
  | fuel + 1, depth, cs =>
    match skipFiller false cs with
    | none => none
    | some (']' :: rest) => some ([], rest)
    | some cs =>
      match value fuel depth cs with
      | none => none
      | some (item, rest) =>
        match skipFiller false rest with
        | some (']' :: rest) => some ([item], rest)
        | some (',' :: rest) =>
          (arrayItems fuel depth rest).map fun (items, rest) => (item :: items, rest)
        | _ => none

def inlineEntries : Nat → Nat → List (String × Node) → List Char →
    Reading (List (String × Node))
  | 0, _, _, _ => none
  | fuel + 1, depth, entries, cs =>
    match skipFiller false cs with
    | none => none
    | some ('\x7d' :: rest) => some (entries, rest)
    | some cs =>
      match inlineKeyBefore cs with
      | none => none
      | some ((path, key), rest) =>
        match value fuel depth rest with
        | none => none
        | some (item, rest) =>
          match assignKey key item path entries with
          | none => none
          | some entries =>
            match skipFiller false rest with
            | some ('\x7d' :: rest) => some (entries, rest)
            | some (',' :: rest) => inlineEntries fuel depth entries rest
            | _ => none

end

def headerKey (closing : List Char) (cs : List Char) : Reading (List String × String) :=
  (keyPath partLimit cs).bind fun (key, rest) =>
    if closing.isPrefixOf rest then
      (finishLine? (rest.drop closing.length)).map fun rest => (key, rest)
    else none

/-- Reads the lines of a document into its tree; `current` is the table they belong to. -/
def readLines : Nat → List String → List (String × Node) → List Char →
    Option (List (String × Node))
  | 0, _, _, _ => none
  | fuel + 1, current, root, cs =>
    match skipFiller false cs with
    | none => none
    | some [] => some root
    | some ('[' :: '[' :: rest) =>
      (headerKey [']', ']'] rest).bind fun ((path, key), rest) =>
        (openElement path key root).bind fun root => readLines fuel (path ++ [key]) root rest
    | some ('[' :: rest) =>
      (headerKey [']'] rest).bind fun ((path, key), rest) =>
        (openTable path key root).bind fun root => readLines fuel (path ++ [key]) root rest
    | some cs =>
      (keyBefore cs).bind fun ((path, key), rest) =>
        (value (2 * rest.length + 2) nestingLimit rest).bind fun (item, rest) =>
          (finishLine? rest).bind fun rest =>
            (descend (assignKey key item path) current root).bind fun root =>
              readLines fuel current root rest

/-- Reads a document; a byte order mark in front of it is skipped. -/
def parse? (text : String) : Option Entries :=
  let cs := match text.toList with
    | c :: rest => if c.toNat = 0xFEFF then rest else c :: rest
    | [] => []
  (readLines (cs.length + 1) [] [] cs).map entriesToValues

end InteractiveMarkov.Toml
