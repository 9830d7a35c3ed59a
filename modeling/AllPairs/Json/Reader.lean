import AllPairs.Json.Skip

/-!
Reading JSON by the shape that is wanted. A reader takes a value off the start of an input and
leaves the remainder. Reading goes once from left to right, and the first fault that shows ends
it: a fault in the key of a member comes before the lack of a colon, and a missing member shows
only when the object closes.
-/

namespace AllPairs.Json

/-- Takes a value off the start of an input. -/
abbrev Reader (α : Type) := Octets → Except Fault (α × Octets)

namespace Reader

/-- Changes the value that is read. -/
def map {α β : Type} (f : α → β) (reader : Reader α) : Reader β := fun input =>
  (reader input).map fun read => (f read.1, read.2)

end Reader

/-- A number that is in range. -/
def number : Reader Decimal.Number := fun input => do
  let (numeral, rest) ← numeral (.ended .value) input
  match numeral.toNumber? with
  | some number => .ok (number, rest)
  | none => .error (.malformed .numberOutOfRange)

/-- How a number appears in a message. -/
def Found.ofNumber : Decimal.Number → Found
  | .natural value => .integer value
  | .negative magnitude => .integer (-Int.ofNat magnitude)
  | .float value => .float value

/-- The octet starts a number. -/
def StartsNumber (c : UInt8) : Prop := c = Octet.minus ∨ Octet.isDigit c

instance (c : UInt8) : Decidable (StartsNumber c) := inferInstanceAs (Decidable (_ ∨ _))

/-- What kind of value starts here. Words, numbers and strings have to be read for that. -/
def found : Octets → Except Fault Found
  | [] => .error (.ended .value)
  | c :: rest =>
    match wordTail? c with
    | some tail => do
      let _ ← word tail rest
      .ok (if c = Octet.smallN then .null else .boolean (c = Octet.smallT))
    | none =>
      if StartsNumber c then (number (c :: rest)).map fun read => .ofNumber read.1
      else if c = Octet.quote then (readText rest).map fun read => .text read.1
      else if c = Octet.openBracket then .ok .sequence
      else if c = Octet.openBrace then .ok .map
      else .error (.malformed .noValue)

/-- The fault of a value of another type than the expected one. -/
def wrongType {α : Type} (expected : String) (input : Octets) : Except Fault α := do
  .error (.mismatch (.wrongType (← found input) expected))

/-- A number of any kind. -/
def anyNumber (expected : String) : Reader Decimal.Number := fun input =>
  match afterBlanks input with
  | [] => .error (.ended .value)
  | c :: rest => if StartsNumber c then number (c :: rest) else wrongType expected (c :: rest)

/-- A natural number below the word size that passes a test. -/
def naturalWith (expected : String) (accepts : Nat → Bool) : Reader Nat := fun input => do
  let (number, rest) ← anyNumber expected input
  match number with
  | .natural value =>
    if accepts value then .ok (value, rest)
    else .error (.mismatch (.wrongValue (.ofNumber number) expected))
  | .negative _ => .error (.mismatch (.wrongValue (.ofNumber number) expected))
  | .float _ => .error (.mismatch (.wrongType (.ofNumber number) expected))

/-- A natural number below the word size. -/
def natural : Reader Nat :=
  naturalWith "usize" fun _ => true

/-- A positive number below the word size. -/
def positive : Reader Nat :=
  naturalWith "a nonzero usize" (0 < ·)

/-- A binary floating point number. -/
def float : Reader Float :=
  (anyNumber "f64").map Decimal.Number.toFloat

/-- A value, or none in the place of a null. -/
def optional {α : Type} (reader : Reader α) : Reader (Option α) := fun input =>
  match afterBlanks input with
  | Octet.smallN :: rest => (word (octets "ull") rest).map fun rest => (none, rest)
  | start => (reader start).map fun read => (some read.1, read.2)

/-- A string. -/
def text : Reader String := fun input =>
  match afterBlanks input with
  | [] => .error (.ended .value)
  | Octet.quote :: rest => readText rest
  | start => wrongType "a string" start

/-- Looks for an item of a list, the first one or a later one: where the item starts, or none if
the list closes here. -/
def nextItem (first : Bool) (input : Octets) : Except Fault (Option Octets) :=
  match afterBlanks input with
  | [] => .error (.ended .list)
  | c :: rest =>
    if c = Octet.closeBracket then .ok none
    else if first then .ok (some (c :: rest))
    else if c = Octet.comma then
      match afterBlanks rest with
      | [] => .error (.ended .value)
      | d :: more =>
        if d = Octet.closeBracket then .error (.malformed .trailingComma)
        else .ok (some (d :: more))
    else .error (.malformed .noCommaOrBracket)

/-- The end of a list that may have no more items. -/
def endList (input : Octets) : Except Fault Octets :=
  match afterBlanks input with
  | [] => .error (.ended .list)
  | c :: rest =>
    if c = Octet.closeBracket then .ok rest
    else if c = Octet.comma ∧ (afterBlanks rest).head? = some Octet.closeBracket then
      .error (.malformed .trailingComma)
    else .error (.malformed .trailingCharacters)

/-- The items of a list up to its end. Every item takes at least one octet, so there are not more
items than octets; `fuel` is a bound on their number. -/
def items {α : Type} (item : Reader α) : (fuel : Nat) → (first : Bool) → Reader (List α)
  | 0, _, _ => .error (.ended .list)
  | fuel + 1, first, input => do
    match ← nextItem first input with
    | none => return ([], ← endList input)
    | some start =>
      let (value, rest) ← item start
      let (values, rest) ← items item fuel false rest
      return (value :: values, rest)

/-- A list. -/
def list {α : Type} (item : Reader α) : Reader (List α) := fun input =>
  match afterBlanks input with
  | [] => .error (.ended .value)
  | Octet.openBracket :: rest => items item (rest.length + 1) true rest
  | start => wrongType "a sequence" start

/-- A part of a record: its key, and a reader that tells how its value changes the record. -/
structure Field (α : Type) where
  key : String
  read : Reader (α → α)

/-- A record: how it is called, its value before any field is read, whether every field has to be
there, and its fields. -/
structure Record (α : Type) where
  name : String
  blank : α
  complete : Bool
  fields : List (Field α)

namespace Record

variable {α : Type} (record : Record α)

/-- The fields of a record in a list, by position. -/
def inOrder : (fields : List (Field α)) → (index : Nat) → (value : α) → Reader α
  | [], _, value, input => return (value, ← endList input)
  | field :: fields, index, value, input => do
    match ← nextItem (index == 0) input with
    | some start =>
      let (change, rest) ← field.read start
      inOrder fields (index + 1) (change value) rest
    | none =>
      if record.complete then
        .error (.mismatch (.wrongLength index
          (record.name ++ " with " ++ toString record.fields.length ++ " elements")))
      else return (value, ← endList input)

/-- A record that is written as a list. -/
def ofList : Reader α :=
  record.inOrder record.fields 0 record.blank

end Record

/-- What an object goes on with. -/
inductive Member where
  /-- A member with this key; the colon is not yet read. -/
  | key (name : String) (rest : Octets)
  /-- The end of the object. -/
  | close (rest : Octets)

/-- The key of a member from its opening quote on. -/
def memberKey (input : Octets) : Except Fault Member :=
  match input with
  | Octet.quote :: rest => (readText rest).map fun read => .key read.1 read.2
  | _ => .error (.malformed .keyNotText)

/-- Looks for a member of an object, the first one or a later one. -/
def nextMember (first : Bool) (input : Octets) : Except Fault Member :=
  match afterBlanks input with
  | [] => .error (.ended .object)
  | c :: rest =>
    if c = Octet.closeBrace then .ok (.close rest)
    else if first then memberKey (c :: rest)
    else if c = Octet.comma then
      match afterBlanks rest with
      | [] => .error (.ended .value)
      | d :: more =>
        if d = Octet.closeBrace then .error (.malformed .trailingComma) else memberKey (d :: more)
    else .error (.malformed .noCommaOrBrace)

/-- The colon after a key. -/
def colon (input : Octets) : Except Fault Octets :=
  match afterBlanks input with
  | [] => .error (.ended .object)
  | Octet.colon :: rest => .ok rest
  | _ => .error (.malformed .noColon)

namespace Record

variable {α : Type} (record : Record α)

/-- The value of a record whose object closes after members with the given keys. -/
def finish (seen : List String) (value : α) : Except Fault α :=
  match record.fields.find? (·.key ∉ seen) with
  | some field =>
    if record.complete then .error (.mismatch (.missingField field.key)) else .ok value
  | none => .ok value

/-- The members of an object up to its end. Members of other keys than those of the fields are
passed over. A bound on the number of members is `fuel`. -/
def members : (fuel : Nat) → (seen : List String) → (first : Bool) → (value : α) → Reader α
  | 0, _, _, _, _ => .error (.ended .object)
  | fuel + 1, seen, first, value, input => do
    match ← nextMember first input with
    | .close rest => return (← record.finish seen value, rest)
    | .key name rest =>
      match record.fields.find? (·.key == name) with
      | some field =>
        if name ∈ seen then .error (.mismatch (.duplicateField name))
        else
          let (change, rest) ← field.read (← colon rest)
          members fuel (name :: seen) false (change value) rest
      | none => members fuel seen false value (← skipValue (← colon rest))

/-- A record, written as an object or as a list of its fields. -/
def read : Reader α := fun input =>
  match afterBlanks input with
  | [] => .error (.ended .value)
  | Octet.openBracket :: rest => record.ofList rest
  | Octet.openBrace :: rest => record.members (rest.length + 1) [] true record.blank rest
  | start => wrongType record.name start

end Record

/-- An alternative: its name, what its content is called, and a reader of its content. -/
structure Variant (α : Type) where
  name : String
  content : String
  read : Reader α

/-- The variant with the given name. -/
def Variant.named {α : Type} (variants : List (Variant α)) (name : String) :
    Except Fault (Variant α) :=
  match variants.find? (·.name == name) with
  | some variant => .ok variant
  | none => .error (.mismatch (.unknownVariant name (variants.map Variant.name)))

/-- One of several alternatives: an object with a single member, whose key is the name. -/
def tagged {α : Type} (variants : List (Variant α)) : Reader α := fun input =>
  match afterBlanks input with
  | [] => .error (.ended .value)
  | Octet.quote :: rest => do
    let (name, _) ← readText rest
    let variant ← Variant.named variants name
    .error (.mismatch (.wrongType .bareName variant.content))
  | Octet.openBrace :: rest =>
    match afterBlanks rest with
    | [] => .error (.ended .object)
    | Octet.quote :: rest => do
      let (name, rest) ← readText rest
      let variant ← Variant.named variants name
      let (value, rest) ← variant.read (← colon rest)
      match afterBlanks rest with
      | [] => .error (.ended .object)
      | Octet.closeBrace :: rest => .ok (value, rest)
      | _ => .error (.malformed .noValue)
    | Octet.closeBrace :: _ => .error (.malformed .noValue)
    | _ => .error (.malformed .keyNotText)
  | _ => .error (.malformed .noValue)

/-- The value of a text that holds nothing else. -/
def document {α : Type} (reader : Reader α) (input : Octets) : Except Fault α := do
  let (value, rest) ← reader input
  if (afterBlanks rest).isEmpty then .ok value
  else .error (.malformed .trailingCharacters)

end AllPairs.Json
