import InteractiveMarkov.Reduction
import InteractiveMarkov.Toml.Document

/-!
The settings of the program, as a TOML document gives them. Every setting has a default and every
key that names no setting is ignored. A section may also be an array that gives its settings in
order: later settings may be left out and surplus items are ignored, but an array for the labels
gives both names. A section that is a date or a time leaves all its settings at their defaults.
-/

set_option autoImplicit false

namespace InteractiveMarkov

structure OutputSettings where
  modelName : String := "lts"
  pretty : Bool := true
  deriving DecidableEq, Repr

structure Settings where
  labels : Vocabulary := {}
  merge : Bool := false
  output : OutputSettings := {}
  level : String := "info"
  deriving DecidableEq, Repr

namespace Settings

open Toml

def text? : Value → Option String
  | .text value => some value
  | _ => none

def bool? : Value → Option Bool
  | .bool value => some value
  | _ => none

def keyOr {α : Type} (read : Value → Option α) (default : α) (key : String) (entries : Entries) :
    Option α :=
  match entries.lookup key with
  | none => some default
  | some value => read value

def itemOr {α : Type} (read : Value → Option α) (default : α) (place : Nat) (items : List Value) :
    Option α :=
  match items[place]? with
  | none => some default
  | some value => read value

/-- The values of all other keys only have to be representable. -/
def othersRepresentable (known : List String) (entries : Entries) : Bool :=
  entries.all fun entry => known.contains entry.1 || entry.2.isRepresentable

def labels? : Value → Option Vocabulary
  | .table entries => do
    let failure ← keyOr text? ({} : Vocabulary).failure "failure" entries
    let repair ← keyOr (fun value => (text? value).map some) none "repair" entries
    if othersRepresentable ["failure", "repair"] entries then some ⟨failure, repair⟩ else none
  | .array (failure :: repair :: _) => do
    some ⟨← text? failure, some (← text? repair)⟩
  | .moment _ => some {}
  | _ => none

def merge? : Value → Option Bool
  | .table entries =>
    if othersRepresentable ["merge_identical"] entries then
      keyOr bool? false "merge_identical" entries
    else none
  | .array items => itemOr bool? false 0 items
  | .moment _ => some false
  | _ => none

def output? : Value → Option OutputSettings
  | .table entries => do
    let modelName ← keyOr text? ({} : OutputSettings).modelName "model_name" entries
    let pretty ← keyOr bool? ({} : OutputSettings).pretty "pretty" entries
    if othersRepresentable ["model_name", "pretty"] entries then some ⟨modelName, pretty⟩ else none
  | .array items => do
    some ⟨← itemOr text? ({} : OutputSettings).modelName 0 items,
      ← itemOr bool? ({} : OutputSettings).pretty 1 items⟩
  | .moment _ => some {}
  | _ => none

def level? : Value → Option String
  | .table entries =>
    if othersRepresentable ["level"] entries then
      keyOr text? ({} : Settings).level "level" entries
    else none
  | .array items => itemOr text? ({} : Settings).level 0 items
  | .moment _ => some ({} : Settings).level
  | _ => none

def ofEntries (entries : Entries) : Option Settings := do
  let labels ← keyOr labels? {} "labels" entries
  let merge ← keyOr merge? false "reduction" entries
  let output ← keyOr output? {} "output" entries
  let level ← keyOr level? ({} : Settings).level "logging" entries
  if othersRepresentable ["labels", "reduction", "output", "logging"] entries then
    some ⟨labels, merge, output, level⟩
  else none

def parse (path text : String) : Except Error Settings :=
  match (Toml.parse? text).bind ofEntries with
  | some settings => .ok settings
  | none => .error (.settingsMalformed path)

/-- The name under which a document that came from no file is reported. -/
def noFile : String := "unknown"

def withLabels (settings : Settings) (failure repair : Option String) : Settings :=
  { settings with
    labels := ⟨failure.getD settings.labels.failure, repair <|> settings.labels.repair⟩ }

def options (settings : Settings) : ReductionOptions := ⟨settings.labels, settings.merge⟩

end Settings

end InteractiveMarkov
