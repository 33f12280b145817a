set_option autoImplicit false

namespace InteractiveMarkov

inductive Status where
  | failed
  | operational
  deriving DecidableEq, Repr

namespace Status

def isFailed : Status → Bool
  | failed => true
  | operational => false

def describe : Status → String
  | failed => "failed"
  | operational => "not failed"

end Status

end InteractiveMarkov
