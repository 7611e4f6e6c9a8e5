import DragDrop.Decimal.Literal
import DragDrop.Json.Reader

/-! Numbers in a text. What a number is called when the text ends too early is
up to the caller: those who skip it do not look that closely. -/

namespace DragDrop.Json

/-- The rest of a text behind the digits it begins with. -/
def afterDigits (s : List Char) : Rest s :=
  ⟨s.dropWhile Char.isDigit, (List.dropWhile_suffix _).length_le⟩

/-- The digits that a text begins with; none of them is a fault. -/
def someDigits (atEnd : Cause) (s : List Char) : Except Fault (List Char × Rest s) :=
  if (s.takeWhile Char.isDigit).isEmpty then
    .error (.next (if s.isEmpty then atEnd else .badNumber) s)
  else .ok (s.takeWhile Char.isDigit, afterDigits s)

/-- The digits in front of the point: a zero alone, or digits that do not begin
with one. -/
def wholePart (atEnd : Cause) : (s : List Char) → Except Fault (Read s (List Char))
  | [] => .error (.here atEnd [])
  | c :: rest =>
    if c = '0' then
      if (rest.takeWhile Char.isDigit).isEmpty then .ok (.one c rest [c])
      else .error (.next .badNumber rest)
    else if c.isDigit then
      .ok ((afterDigits rest).after (.one c rest c) (c :: rest.takeWhile Char.isDigit))
    else .error (.next .badNumber (c :: rest))

/-- The point and the digits behind it, if there is one. -/
def fractionPart (atEnd : Cause) : (s : List Char) → Except Fault (List Char × Rest s)
  | '.' :: rest => do
    let (digits, r) ← someDigits atEnd rest
    return (digits, r.behind '.')
  | s => .ok ([], .all s)

/-- Whether the exponent is negative. A plus says nothing. -/
def exponentSign : (s : List Char) → Bool × Rest s
  | '-' :: rest => (true, (Rest.all rest).behind '-')
  | '+' :: rest => (false, (Rest.all rest).behind '+')
  | s => (false, .all s)

/-- The exponent, if there is one. -/
def exponentPart (atEnd : Cause) : (s : List Char) → Except Fault (Option Exponent × Rest s)
  | [] => .ok (none, .all [])
  | c :: rest =>
    if c = 'e' ∨ c = 'E' then do
      let (negative, body) := exponentSign rest
      let (digits, r) ← someDigits atEnd body.chars
      return (some ⟨negative, digits⟩, ⟨r.chars, by
        have := r.notLonger
        have := body.notLonger
        simp; omega⟩)
    else .ok (none, .all (c :: rest))

/-- A minus sign, if there is one. -/
def minus : (s : List Char) → Bool × Rest s
  | '-' :: rest => (true, (Rest.all rest).behind '-')
  | s => (false, .all s)

/-- A number as it is written, at the front of the text. -/
def numeral (atEnd : Cause) (s : List Char) : Except Fault (Read s Literal) := do
  let (negative, body) := minus s
  let whole ← wholePart atEnd body.chars
  let (fraction, r) ← fractionPart atEnd whole.rest
  let (exponent, r') ← exponentPart atEnd r.chars
  return ⟨⟨negative, whole.value, fraction, exponent⟩, r'.chars, by
    have := body.notLonger
    have := whole.shorter
    have := r.notLonger
    have := r'.notLonger
    omega⟩

/-- A number at the front of the text, as it is used. -/
def openNumber (s : List Char) : Except Fault (Read s Number) := do
  let l ← numeral .endInValue s
  match l.value.number with
  | .ok n => return l.as n
  | .error unread => .error ⟨.numberTooGreat, byteLength l.rest + unread⟩

end DragDrop.Json
