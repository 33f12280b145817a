import Std.Data.ExtTreeMap

set_option autoImplicit false

namespace InteractiveMarkov

instance pairOrder {α β : Type} [Ord α] [Ord β] : Ord (α × β) := lexOrd

theorem lawfulEq_compareOn {α β : Type} [Ord β] [Std.LawfulEqOrd β] {key : α → β}
    (inj : ∀ a b, key a = key b → a = b) : Std.LawfulEqCmp (compareOn key) where
  compare_self := Std.ReflCmp.compare_self
  eq_of_compare h := inj _ _ (Std.LawfulEqCmp.eq_of_compare h)

end InteractiveMarkov
