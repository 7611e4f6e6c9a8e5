/-! Coordinates. Every geometric rule of this library is written ONCE, over
`Scalar`, and read at two carriers: `Float`, which runs, and `Rat`, where the
same rules are exact. No order law is assumed, since a `Float` may be no number;
each rule that has to cope with that says how. -/

namespace DragDrop

/-- What the geometry asks of a coordinate: arithmetic short of division, and
an order that can be tested. -/
class Scalar (α : Type) extends Zero α, Add α, Sub α, Mul α, LE α, LT α, OfScientific α where
  /-- Halves a coordinate. -/
  half : α → α
  /-- Forgets the sign. -/
  abs : α → α
  /-- Orders vectors, given by their two components, as their length does. -/
  norm : α → α → α
  /-- The order can be tested. -/
  decLe : DecidableLE α
  /-- The strict order can be tested. -/
  decLt : DecidableLT α

namespace Scalar

variable {α : Type} [Scalar α]

instance (priority := low) : DecidableLE α := Scalar.decLe

instance (priority := low) : DecidableLT α := Scalar.decLt

/-- Only what is no number fails to equal itself. -/
def isNaN (x : α) : Bool := !decide (x ≤ x)

/-- Cuts off below zero. What is no number becomes zero TOO. -/
def nonneg (x : α) : α := if 0 < x then x else 0

/-- The smaller of two, passing over an operand that is no number. -/
def lesser (a b : α) : α := if b < a then b else if isNaN a then b else a

/-- The greater of two, passing over an operand that is no number. -/
def greater (a b : α) : α := if a < b then b else if isNaN a then b else a

theorem nonneg_of_pos {x : α} (h : 0 < x) : nonneg x = x := if_pos h

theorem nonneg_of_not_pos {x : α} (h : ¬0 < x) : nonneg x = 0 := if_neg h

@[simp] theorem nonneg_zero : nonneg (0 : α) = 0 := ite_self 0

/-- What has been cut off stays as it is. -/
@[simp] theorem nonneg_nonneg (x : α) : nonneg (nonneg x) = nonneg x := by
  by_cases h : 0 < x
  · rw [nonneg_of_pos h, nonneg_of_pos h]
  · rw [nonneg_of_not_pos h, nonneg_zero]

end Scalar

/-- Doubles: a vector's length is computed in doubles, so it may overflow. -/
instance : Scalar Float where
  zero := 0
  half x := x / 2
  abs x := x.abs
  norm x y := (x * x + y * y).sqrt
  decLe := inferInstance
  decLt := inferInstance

/-- Exact numbers: vectors are compared by the SQUARE of their length. -/
instance : Scalar Rat where
  zero := 0
  half x := x / 2
  abs x := if x < 0 then -x else x
  norm x y := x * x + y * y
  decLe := inferInstance
  decLt := inferInstance

theorem Scalar.isNaN_rat (x : Rat) : Scalar.isNaN x = false := by
  simp [Scalar.isNaN]

end DragDrop
