/-! The number that a decimal literal stands for. Reading is FAST rather than
exact: the digits are gathered into a word of 64 bits for as long as they fit,
and the word is then multiplied or divided by a power of ten in doubles. The
result can be off by the last bit. -/

namespace DragDrop

/-- The exponent part of a literal. -/
structure Exponent where
  negative : Bool
  digits : List Char
deriving DecidableEq, Repr

/-- A number as it is written. -/
structure Literal where
  negative : Bool
  whole : List Char
  /-- The digits behind the point. None if there is no point. -/
  fraction : List Char := []
  exponent : Option Exponent := none
deriving DecidableEq, Repr

/-- A number as it is used. Integers are kept apart as long as they fit. -/
inductive Number where
  | integer (n : Int)
  | double (x : Float)

/-- The nearest double. -/
def Number.toFloat : Number → Float
  | .integer n => Float.ofInt n
  | .double x => x

namespace Literal

def digitValue (c : Char) : Nat := c.toNat - '0'.toNat

/-- Words of 64 bits are below this. -/
def wordLimit : Nat := 0x10000000000000000

/-- Integers with a sign have this magnitude at most, and below zero only. -/
def signedLimit : Nat := 0x8000000000000000

/-- Exponents are below this. -/
def exponentLimit : Nat := 0x80000000

/-- Appends digits to a number that has to stay below the limit. The first digit
that does not fit is left over, and so are ALL behind it. -/
def gather (limit : Nat) (n : Nat) : List Char → Nat × List Char
  | [] => (n, [])
  | c :: rest =>
    let m := 10 * n + digitValue c
    if m < limit then gather limit m rest else (n, c :: rest)

theorem length_gather_le (limit n : Nat) (digits : List Char) :
    (gather limit n digits).2.length ≤ digits.length := by
  induction digits generalizing n with
  | nil => exact Nat.le_refl 0
  | cons c rest ih =>
    rw [gather]
    split
    · exact Nat.le_succ_of_le (ih _)
    · exact Nat.le_refl _

/-- A power of ten among the doubles. The exponent is at most 308. -/
def powerOfTen (e : Nat) : Float := Float.ofScientific 1 false e

/-- Moves the point of a double that is not negative. Nothing if the result is
too great. Small exponents are reached in strides. -/
def scale (x : Float) (e : Int) : Option Float :=
  if 308 < e then if x == 0 then some x else none
  else if 0 ≤ e then
    let y := x * powerOfTen e.toNat
    if y.isInf then none else some y
  else if -308 ≤ e then some (x / powerOfTen e.natAbs)
  else if x == 0 then some x
  else scale (x / powerOfTen 308) (e + 308)
termination_by e.natAbs

private def signed (negative : Bool) (x : Float) : Float := if negative then -x else x

/-- The integer that a literal stands for when it has digits only. Zero with a
sign is no integer. -/
def integer? (l : Literal) : Option Int :=
  match l.fraction, l.exponent, gather wordLimit 0 l.whole with
  | [], none, (n, []) =>
    if !l.negative then some n
    else if 0 < n ∧ n ≤ signedLimit then some (-n)
    else none
  | _, _, _ => none

/-- The gathered digits, and the power of ten they are to be multiplied by short
of the exponent part. Whole digits that did not fit count as zeros, those behind
the point as nothing. -/
def gathered (l : Literal) : Nat × Int :=
  let (n, beyond) := gather wordLimit 0 l.whole
  let (m, skipped) := gather wordLimit n l.fraction
  (m, (beyond.length : Int) - (l.fraction.length - skipped.length : Nat))

/-- The double that a literal stands for. A number that is too great is refused
with the count of digits that need not be looked at to know. -/
def double (l : Literal) : Except Nat Float :=
  let (m, e) := l.gathered
  let scaled (e : Int) : Except Nat Float :=
    match scale (Float.ofNat m) e with
    | some x => .ok (signed l.negative x)
    | none => .error 0
  match l.exponent with
  | none => scaled e
  | some x =>
    match gather exponentLimit 0 x.digits with
    | (k, []) => scaled (if x.negative then e - k else e + k)
    | (_, _ :: unread) =>
      if m ≠ 0 ∧ !x.negative then .error unread.length else .ok (signed l.negative 0)

/-- The number that a literal stands for. -/
def number (l : Literal) : Except Nat Number :=
  match l.integer? with
  | some n => .ok (.integer n)
  | none => l.double.map .double

end Literal

end DragDrop
