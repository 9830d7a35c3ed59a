import AllPairs.Json.Numeral
import AllPairs.Json.Text

/-!
Passing over a value of any shape and depth without keeping anything of it. What the text still has
to bring is kept as a stack of goals, so depth costs no recursion: a value, or the remainder of a
list or of an object that is open.
-/

namespace AllPairs.Json

/-- The given octets, of which nothing may be missing. -/
def word : (expected : Octets) → (input : Octets) → Except Fault Octets
  | [], input => .ok input
  | _ :: _, [] => .error (.ended .value)
  | e :: expected, c :: rest =>
    if c = e then word expected rest else .error (.malformed .brokenWord)

/-- What follows the first octet in the word that starts with it. -/
def wordTail? : UInt8 → Option Octets
  | Octet.smallN => some (octets "ull")
  | Octet.smallT => some (octets "rue")
  | Octet.smallF => some (octets "alse")
  | _ => none

theorem length_word_le {expected input rest : Octets} (h : word expected input = .ok rest) :
    rest.length ≤ input.length := by
  fun_induction word expected input <;> grind

/-- Passes over a value that is neither a list nor an object. -/
def skipScalar (input : Octets) : Except Fault (Rest input) :=
  match input with
  | [] => .error (.ended .value)
  | c :: rest =>
    match wordTail? c with
    | some tail =>
      match scan : word tail rest with
      | .error fault => .error fault
      | .ok left => .ok ⟨left, Nat.lt_succ_of_le (length_word_le scan)⟩
    | none =>
      if c = Octet.quote then (skipText rest).map (.after c)
      else if c = Octet.minus ∨ Octet.isDigit c then
        match scan : numeral (.malformed .badNumber) (c :: rest) with
        | .error fault => .error fault
        | .ok (_, left) => .ok ⟨left, length_numeral_lt scan⟩
      else .error (.malformed .noValue)

/-- Passes over the key of a member and the colon after it. -/
def skipKey (input : Octets) : Except Fault (Rest input) :=
  match begins : afterBlanks input with
  | [] => .error (.ended .object)
  | c :: rest =>
    have le : rest.length < input.length := by
      have := length_afterBlanks_le input
      grind
    if c = Octet.quote then do
      let key ← skipText rest
      match follows : afterBlanks key with
      | [] => .error (.ended .object)
      | c :: left =>
        if c = Octet.colon then
          .ok ⟨left, by
            have := length_afterBlanks_le key
            grind⟩
        else .error (.malformed .noColon)
    else .error (.malformed .keyNotText)

/-- What a text has to bring before the values that are open are complete. -/
inductive Goal where
  | value
  /-- The items of a list from after its opening bracket on. -/
  | items
  /-- The remainder of a list from after an item on. -/
  | moreItems
  /-- The members of an object from after its opening brace on. -/
  | members
  /-- The remainder of an object from after a member on. -/
  | moreMembers
deriving DecidableEq

/-- Reads until every goal is met, the first one first. -/
def skip (goals : List Goal) (input : Octets) : Except Fault Octets :=
  match goals with
  | [] => .ok input
  | goal :: goals =>
    match begins : afterBlanks input with
    | [] =>
      match goal with
      | .value => .error (.ended .value)
      | .items | .moreItems => .error (.ended .list)
      | .members | .moreMembers => .error (.ended .object)
    | c :: rest =>
      have le : rest.length < input.length := by
        have := length_afterBlanks_le input
        grind
      match goal with
      | .value =>
        if c = Octet.openBracket then skip (.items :: goals) rest
        else if c = Octet.openBrace then skip (.members :: goals) rest
        else
          match skipScalar (c :: rest) with
          | .error fault => .error fault
          | .ok left => skip goals left
      | .items =>
        if c = Octet.closeBracket then skip goals rest
        else skip (.value :: .moreItems :: goals) (c :: rest)
      | .moreItems =>
        if c = Octet.comma then skip (.value :: .moreItems :: goals) rest
        else if c = Octet.closeBracket then skip goals rest
        else .error (.malformed .noCommaOrBracket)
      | .members =>
        if c = Octet.closeBrace then skip goals rest
        else
          match skipKey (c :: rest) with
          | .error fault => .error fault
          | .ok left => skip (.value :: .moreMembers :: goals) left
      | .moreMembers =>
        if c = Octet.comma then
          match skipKey rest with
          | .error fault => .error fault
          | .ok left => skip (.value :: .moreMembers :: goals) left
        else if c = Octet.closeBrace then skip goals rest
        else .error (.malformed .noCommaOrBrace)
termination_by 2 * input.length + if goals.head? = some .items then 1 else 0
decreasing_by
  all_goals
    have := length_afterBlanks_le input
    grind

/-- Passes over one value. -/
def skipValue (input : Octets) : Except Fault Octets :=
  skip [.value] input

end AllPairs.Json
