/-!
# Number literals

A number is written with decimal digits, after an optional plus sign, and is less than `2 ^ 64`.
-/

namespace RangeTyping.Source

/-- The value of a digit. -/
def digit? (c : Char) : Option Nat :=
  if '0' ≤ c ∧ c ≤ '9' then some (c.toNat - '0'.toNat) else none

/-- The value of the digits `cs` after digits of value `n`. -/
def digitsFrom? (n : Nat) : List Char → Option Nat
  | [] => some n
  | c :: cs =>
    match digit? c with
    | some d => digitsFrom? (10 * n + d) cs
    | none => none

/-- The value of at least one digit. -/
def digits? : List Char → Option Nat
  | [] => none
  | cs => digitsFrom? 0 cs

/-- **The value of a number literal.** -/
def number? (s : String) : Option Nat :=
  let value := match s.toList with
    | '+' :: cs => digits? cs
    | cs => digits? cs
  value.filter (· < 18446744073709551616)

end RangeTyping.Source
