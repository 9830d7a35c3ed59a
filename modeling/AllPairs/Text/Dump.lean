/-!
Structural texts: how a value is written when its make-up is shown rather than its meaning.
A list stands in brackets, a call form names its arguments, a record names its fields.
-/

namespace AllPairs.Dump

/-- Items in brackets, parted by a comma and a blank. -/
def list (items : List String) : String :=
  "[" ++ String.intercalate ", " items ++ "]"

/-- A constructor applied to unnamed arguments. -/
def applied (name : String) (arguments : List String) : String :=
  name ++ "(" ++ String.intercalate ", " arguments ++ ")"

/-- A record with its named fields. -/
def record (name : String) (fields : List (String × String)) : String :=
  name ++ " \x7b " ++ String.intercalate ", " (fields.map fun field => field.1 ++ ": " ++ field.2)
    ++ " \x7d"

/-- A record that shows some of its fields and hides the rest. -/
def openRecord (name : String) (fields : List (String × String)) : String :=
  name ++ " \x7b " ++ String.join (fields.map fun field => field.1 ++ ": " ++ field.2 ++ ", ")
    ++ ".. \x7d"

end AllPairs.Dump
