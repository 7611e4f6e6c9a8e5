import DragDrop.Decimal.Shortest

/-! How a double is written out: which exponents are spelled by zeros, and what
stands around the digits. The digits themselves come from `Magnitude.shortest`. -/

namespace DragDrop

/-- The decisions of one number format. -/
structure Style where
  /-- The exponents of the LEADING digit that are written without an exponent
  part, if not all of them are. -/
  plain : Option (Int × Int)
  /-- A whole number is followed by a point and a zero. -/
  pointZero : Bool
  tie : Tie

namespace Style

def digits (n : Nat) : List Char := Nat.toDigits 10 n

def zeros (n : Nat) : List Char := List.replicate n '0'

/-- The digits with the point put in its place. -/
def layoutPlain (s : Style) (d : Decimal) : List Char :=
  let ds := digits d.digits
  if 0 ≤ d.exponent then
    ds ++ zeros d.exponent.toNat ++ if s.pointZero then ['.', '0'] else []
  else
    let behind := (-d.exponent).toNat
    if behind < ds.length then
      ds.take (ds.length - behind) ++ '.' :: ds.drop (ds.length - behind)
    else '0' :: '.' :: zeros (behind - ds.length) ++ ds

/-- One digit, the others behind a point, and a signed exponent. -/
def layoutScientific (d : Decimal) : List Char :=
  let ds := digits d.digits
  let e := d.exponent + (ds.length - 1 : Nat)
  let fraction := if ds.length = 1 then [] else '.' :: ds.drop 1
  ds.take 1 ++ fraction ++ 'e' :: (if 0 ≤ e then '+' else '-') :: digits e.natAbs

/-- The digits and all that surrounds them, short of the sign. -/
def layout (s : Style) (d : Decimal) : List Char :=
  let e := d.exponent + ((digits d.digits).length - 1 : Nat)
  match s.plain with
  | none => s.layoutPlain d
  | some (low, high) =>
    if low ≤ e ∧ e ≤ high then s.layoutPlain d else layoutScientific d

/-- The text of a finite double. Zero keeps its sign. -/
def finite (s : Style) (x : Float) : List Char :=
  let b := x.toBits
  let m := Magnitude.ofBits (b &&& 0x7FFFFFFFFFFFFFFF)
  let body := if m.significand = 0 then s.layout ⟨0, 0⟩ else s.layout (m.shortest s.tie)
  if b >>> 63 = 0 then body else '-' :: body

/-- The text of any double. -/
def text (s : Style) (x : Float) : List Char :=
  if x.isNaN then ['N', 'a', 'N']
  else if x.isFinite then s.finite x
  else if 0 < x then ['i', 'n', 'f']
  else ['-', 'i', 'n', 'f']

end Style

/-- Numbers in JSON always show that they are no integers: there is a fraction
or an exponent. Exponents from -5 to 15 are spelled out. -/
def jsonStyle : Style := ⟨some (-5, 15), true, .even⟩

/-- Numbers in remarks never have an exponent, and no fraction unless it is
needed. -/
def noteStyle : Style := ⟨none, false, .up⟩

end DragDrop
