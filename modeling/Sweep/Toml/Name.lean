import Sweep.Text.Classes

/-!
# Bare names

A name in TOML stands without quotes if it is not empty and made of ASCII letters, digits,
underscores and dashes. Reader and printer share the class.
-/

set_option autoImplicit false

namespace Sweep.Toml

def isBareChar (c : Char) : Bool :=
  (decide ('A' ≤ c) && decide (c ≤ 'Z')) || (decide ('a' ≤ c) && decide (c ≤ 'z')) ||
    Text.isAsciiDigit c || c == '_' || c == '-'

end Sweep.Toml
