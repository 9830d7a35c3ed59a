import AllPairs.Decimal.Style
import AllPairs.Json.Text

/-!
Writing JSON with one item or member on each line. A layout is the text of a value at a given depth
of nesting; every depth is two blanks of indentation. An empty list or object takes no lines.
-/

namespace AllPairs.Json

/-- The text of a value as a function of the depth at which it stands. -/
abbrev Layout := Nat → String

/-- A new line at the given depth. -/
def newLine (depth : Nat) : String :=
  "\n" ++ String.ofList (List.replicate (2 * depth) ' ')

namespace Layout

/-- A value without parts. -/
def atom (text : String) : Layout := fun _ => text

/-- A natural number. -/
def natural (value : Nat) : Layout := atom (toString value)

/-- A string. -/
def text (value : String) : Layout := atom (writeText value)

/-- A binary floating point number in its shortest form; numbers without one are null. -/
def float (value : Float) : Layout := atom ((Decimal.shortestText? value).getD "null")

/-- Parts between an opening and a closing mark, each on a line of its own. -/
def enclosed (opening closing : String) (parts : List Layout) : Layout := fun depth =>
  match parts with
  | [] => opening ++ closing
  | _ =>
    opening
      ++ String.intercalate "," (parts.map fun part => newLine (depth + 1) ++ part (depth + 1))
      ++ newLine depth ++ closing

/-- A list. -/
def list (items : List Layout) : Layout :=
  enclosed "[" "]" items

/-- A member of an object. -/
def member (key : String) (value : Layout) : Layout := fun depth =>
  writeText key ++ ": " ++ value depth

/-- An object with its members in the given order. -/
def object (members : List (String × Layout)) : Layout :=
  enclosed "\x7b" "\x7d" (members.map fun entry => member entry.1 entry.2)

/-- The text of a value that stands alone. -/
def render (layout : Layout) : String := layout 0

end Layout
end AllPairs.Json
