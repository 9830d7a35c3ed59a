import AllPairs.Decimal.Numeral
import AllPairs.Json.Fault
import AllPairs.Json.Octet

/-!
Numbers in JSON: an optional minus sign, digits without a superfluous zero in front, and optionally
a point with digits and an exponent with digits. What it means that the input ends inside a number
depends on why the number is read, so that fault is a parameter.
-/

namespace AllPairs.Json

open Decimal (Numeral)

/-- The values of the digits at the start of an input, and what follows them. -/
def digits (input : Octets) : List Nat × Octets :=
  ((input.takeWhile Octet.isDigit).map Octet.digitValue, input.dropWhile Octet.isDigit)

/-- One or more digits. -/
def digits? (cut : Fault) (input : Octets) : Except Fault (List Nat × Octets) :=
  match input with
  | [] => .error cut
  | c :: _ => if Octet.isDigit c then .ok (digits input) else .error (.malformed .badNumber)

/-- The digits before the point, of which the first is zero only if it is the only one. -/
def wholeDigits (cut : Fault) : Octets → Except Fault (List Nat × Octets)
  | Octet.zero :: c :: rest =>
    if Octet.isDigit c then .error (.malformed .badNumber) else .ok ([0], c :: rest)
  | input => digits? cut input

/-- A point with digits, if there is a point. -/
def fractionDigits (cut : Fault) : Octets → Except Fault (Option (List Nat) × Octets)
  | Octet.point :: rest => (digits? cut rest).map fun read => (some read.1, read.2)
  | input => .ok (none, input)

/-- The number after the letter of an exponent, with an optional sign. -/
def exponentDigits (cut : Fault) : Octets → Except Fault (Int × Octets)
  | Octet.minus :: rest =>
    (digits? cut rest).map fun read => (-Int.ofNat (Decimal.ofDigits read.1), read.2)
  | Octet.plus :: rest =>
    (digits? cut rest).map fun read => (Int.ofNat (Decimal.ofDigits read.1), read.2)
  | input => (digits? cut input).map fun read => (Int.ofNat (Decimal.ofDigits read.1), read.2)

/-- An exponent, if there is one. -/
def exponentPart (cut : Fault) : Octets → Except Fault (Option Int × Octets)
  | [] => .ok (none, [])
  | c :: rest =>
    if c = Octet.smallE ∨ c = Octet.capitalE then
      (exponentDigits cut rest).map fun read => (some read.1, read.2)
    else .ok (none, c :: rest)

/-- A number without its sign. -/
def unsignedNumeral (cut : Fault) (negative : Bool) (input : Octets) :
    Except Fault (Numeral × Octets) := do
  let (whole, rest) ← wholeDigits cut input
  let (fraction, rest) ← fractionDigits cut rest
  let (exponent, rest) ← exponentPart cut rest
  return (⟨negative, whole, fraction, exponent⟩, rest)

/-- A number; `cut` is the fault of an input that ends inside it. -/
def numeral (cut : Fault) : Octets → Except Fault (Numeral × Octets)
  | Octet.minus :: rest => unsignedNumeral cut true rest
  | input => unsignedNumeral cut false input

theorem length_digits?_lt {cut : Fault} {input : Octets} {read : List Nat × Octets}
    (h : digits? cut input = .ok read) : read.2.length < input.length := by
  cases input with
  | nil => simp [digits?] at h
  | cons c tail =>
    by_cases digit : Octet.isDigit c
    · simp only [digits?, digits, digit, if_true, Except.ok.injEq,
        List.dropWhile_cons_of_pos] at h
      have : (tail.dropWhile Octet.isDigit).length ≤ tail.length :=
        (List.dropWhile_suffix _).length_le
      simp only [← h, List.length_cons]
      omega
    · simp [digits?, digit] at h

theorem length_wholeDigits_lt {cut : Fault} {input : Octets} {read : List Nat × Octets}
    (h : wholeDigits cut input = .ok read) : read.2.length < input.length := by
  unfold wholeDigits at h
  split at h
  · grind
  · exact length_digits?_lt h

/-- Reading digits takes an octet, whatever is made of their values. -/
theorem length_map_digits?_lt {α : Type} {cut : Fault} {input : Octets}
    {f : List Nat × Octets → α × Octets} {read : α × Octets}
    (h : (digits? cut input).map f = .ok read) (keeps : ∀ found, (f found).2 = found.2) :
    read.2.length < input.length := by
  cases scan : digits? cut input with
  | error => simp [scan, Except.map] at h
  | ok found =>
    have := length_digits?_lt scan
    simp only [scan, Except.map, Except.ok.injEq] at h
    rwa [← h, keeps]

theorem length_fractionDigits_le {cut : Fault} {input : Octets}
    {read : Option (List Nat) × Octets} (h : fractionDigits cut input = .ok read) :
    read.2.length ≤ input.length := by
  unfold fractionDigits at h
  split at h
  · have := length_map_digits?_lt h fun _ => rfl
    grind
  · grind

theorem length_exponentDigits_le {cut : Fault} {input : Octets} {read : Int × Octets}
    (h : exponentDigits cut input = .ok read) : read.2.length ≤ input.length := by
  unfold exponentDigits at h
  split at h <;> have := length_map_digits?_lt h (fun _ => rfl) <;> grind

theorem length_exponentPart_le {cut : Fault} {input : Octets} {read : Option Int × Octets}
    (h : exponentPart cut input = .ok read) : read.2.length ≤ input.length := by
  cases input with
  | nil => grind [exponentPart]
  | cons c tail =>
    simp only [exponentPart] at h
    split at h
    · cases scan : exponentDigits cut tail with
      | error => simp [scan, Except.map] at h
      | ok found =>
        have := length_exponentDigits_le scan
        simp only [scan, Except.map, Except.ok.injEq] at h
        grind
    · grind

theorem length_unsignedNumeral_lt {cut : Fault} {negative : Bool} {input : Octets}
    {read : Numeral × Octets} (h : unsignedNumeral cut negative input = .ok read) :
    read.2.length < input.length := by
  simp only [unsignedNumeral, bind, Except.bind] at h
  split at h
  · simp at h
  next whole scanWhole =>
    split at h
    · simp at h
    next fraction scanFraction =>
      split at h
      · simp at h
      next exponent scanExponent =>
        have := length_wholeDigits_lt scanWhole
        have := length_fractionDigits_le scanFraction
        have := length_exponentPart_le scanExponent
        simp only [pure, Except.pure, Except.ok.injEq] at h
        grind

/-- A number takes at least one octet. -/
theorem length_numeral_lt {cut : Fault} {input : Octets} {read : Numeral × Octets}
    (h : numeral cut input = .ok read) : read.2.length < input.length := by
  unfold numeral at h
  split at h
  · have := length_unsignedNumeral_lt h
    grind
  · exact length_unsignedNumeral_lt h

end AllPairs.Json
