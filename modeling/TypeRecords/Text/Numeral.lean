/-
Decimal numerals for machine words.

A numeral is a run of ASCII digits, with an optional plus sign in front, whose
value fits a word of 64 bits. There is no sign for negative numbers, no
grouping and no other digits.
-/

namespace TypeRecords.Text

/-- One more than the largest machine word. -/
def wordLimit : Nat := UInt64.size

def digit? (c : Char) : Option Nat :=
  if '0' ≤ c ∧ c ≤ '9' then some (c.toNat - '0'.toNat) else none

/-- Reads digits from the left; `value` is what has been read so far. -/
def digits? : List Char → Nat → Option Nat
  | [], value => some value
  | c :: rest, value =>
    match digit? c with
    | some d => digits? rest (value * 10 + d)
    | none => none

/-- A numeral without its plus sign. -/
def unsigned : List Char → List Char
  | '+' :: rest => rest
  | cs => cs

/-- Reads a whole numeral. -/
def word? (cs : List Char) : Option Nat :=
  if unsigned cs = [] then none else (digits? (unsigned cs) 0).filter (· < wordLimit)

end TypeRecords.Text
