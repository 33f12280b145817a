import InteractiveMarkov.Order
import InteractiveMarkov.Text.Blank

set_option autoImplicit false

namespace InteractiveMarkov

/-- An interactive action, by its effect on the failure status of the state it enters. -/
inductive Action where
  | anonymous
  | failure
  | repair
  | other (name : String)
  deriving DecidableEq, Repr

inductive LabelClass where
  | silent
  | rate (expr : String)
  | timed
  | interactive (action : Action)
  deriving DecidableEq, Repr

namespace LabelClass

/-- Silent and interactive edges take no time, so they preempt delays. -/
def isImmediate : LabelClass → Bool
  | silent => true
  | interactive _ => true
  | _ => false

def isDelay : LabelClass → Bool
  | rate _ => true
  | timed => true
  | _ => false

/-- The action of a label that fell through every rule. -/
def unknownAction? : LabelClass → Option String
  | interactive (.other name) => some name
  | _ => none

def describe : LabelClass → String
  | silent => "silent"
  | rate expr => "rate " ++ expr
  | timed => "timed"
  | interactive .anonymous => "action i"
  | interactive .failure => "failure action"
  | interactive .repair => "repair action"
  | interactive (.other name) => "action " ++ name

end LabelClass

structure Vocabulary where
  failure : String := "FAIL"
  repair : Option String := none
  deriving DecidableEq, Repr

def rateMark : List Char := ['r', 'a', 't', 'e', ' ']

def timeMark : List Char := ['t', 'i', 'm', 'e', ' ']

/-- The meaning of a label: the first rule that applies. -/
def Vocabulary.classify (names : Vocabulary) (label : String) : LabelClass :=
  if label = "" then .silent
  else if rateMark.isPrefixOf label.toList then
    .rate (String.ofList (Text.trim (label.toList.drop rateMark.length)))
  else if timeMark.isPrefixOf label.toList then .timed
  else if label = "i" then .interactive .anonymous
  else if label = names.failure then .interactive .failure
  else if names.repair = some label then .interactive .repair
  else .interactive (.other label)

/-- The label of an edge that survives a reduction: the expression of a rate, or the full text of
    a timed delay or an action. -/
inductive KeptLabel where
  | rate (expr : String)
  | timed (text : String)
  | action (name : String)
  deriving DecidableEq, Repr

namespace KeptLabel

def isDelay : KeptLabel → Bool
  | action _ => false
  | _ => true

def isRate : KeptLabel → Bool
  | rate _ => true
  | _ => false

def text : KeptLabel → String
  | rate expr => String.ofList rateMark ++ expr
  | timed text => text
  | action name => name

def describe (label : KeptLabel) : String := "\"" ++ label.text ++ "\""

def rank : KeptLabel → Nat
  | rate _ => 0
  | timed _ => 1
  | action _ => 2

/-- The text that tells labels of one rank apart. -/
def body : KeptLabel → String
  | rate expr => expr
  | timed text => text
  | action name => name

instance : Ord KeptLabel := ⟨compareOn fun label => (label.rank, label.body)⟩

instance : Std.TransOrd KeptLabel :=
  inferInstanceAs (Std.TransCmp (compareOn fun label : KeptLabel => (label.rank, label.body)))

theorem eq_of_rank_of_body {a b : KeptLabel} (h : (a.rank, a.body) = (b.rank, b.body)) :
    a = b := by
  cases a <;> cases b <;> simp_all [rank, body]

instance : Std.LawfulEqOrd KeptLabel := lawfulEq_compareOn fun _ _ => eq_of_rank_of_body

end KeptLabel

/-- What an edge of this class keeps of its label; a silent edge keeps nothing. -/
def LabelClass.keep? (kind : LabelClass) (label : String) : Option KeptLabel :=
  match kind with
  | silent => none
  | rate expr => some (.rate expr)
  | timed => some (.timed label)
  | interactive _ => some (.action label)

end InteractiveMarkov
