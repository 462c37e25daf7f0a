/-!
# Text

Addresses are written `0x` and then lower-case digits, with no leading zeros. Records are dumped on one line by
their field names, `Name { field: 1, other: 2 }`, and an optional number as `Some(1)` or `None`. `dump` functions
elsewhere are built from these.
-/

namespace BoundaryTag

def hex (n : Nat) : String := "0x" ++ String.ofList (Nat.toDigits 16 n)

def record (name : String) (fields : List (String × String)) : String :=
  name ++ " \x7b " ++ ", ".intercalate (fields.map fun f => f.1 ++ ": " ++ f.2) ++ " \x7d"

def optional : Option Nat → String
  | some n => "Some(" ++ toString n ++ ")"
  | none => "None"

end BoundaryTag
