/-!
# Listings

The text of a collection: its items between braces, a comma and a space between
two of them.
-/

namespace Propositional.Text

/-- The items between braces, such as `{a, b}`. -/
def listing (items : List String) : String :=
  "\x7b" ++ ", ".intercalate items ++ "\x7d"

/-- The digit of a truth value. -/
def digit (value : Bool) : String :=
  if value then "1" else "0"

end Propositional.Text
