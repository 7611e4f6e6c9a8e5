import DragDrop.Json.Numeral
import DragDrop.Json.Text

/-! Passing over a value that nobody wants. Its form has to be right, at any
depth, but its numbers may be as great as they like. -/

namespace DragDrop.Json

/-- What is left of the word that begins with this letter. -/
def wordAfter? (c : Char) : Option (List Char) :=
  if c = 'n' then some ['u', 'l', 'l']
  else if c = 't' then some ['r', 'u', 'e']
  else if c = 'f' then some ['a', 'l', 's', 'e']
  else none

/-- A number begins with a digit or a minus sign. -/
def beginsNumber (c : Char) : Bool := c == '-' || c.isDigit

/-- Passes over a value without members or elements. It begins with this
character, which no bracket is. -/
def skipLeaf {s : List Char} (t : Read s Char) : Except Fault (Read s Unit) := do
  match wordAfter? t.value with
  | some w =>
    return (← word w t.rest).after t ()
  | none =>
    if beginsNumber t.value then
      return t.onto ((← numeral .badNumber t.again).as ())
    else if t.value = '"' then
      return t.after (← skipText t.rest)
    else .error (.next .noValue t.again)

mutual

/-- Passes over a value. -/
def skipValue (s : List Char) : Except Fault (Read s Unit) :=
  match next? s with
  | none => .error (.next .endInValue [])
  | some t =>
    if t.value = '[' then
      match next? t.rest with
      | none => .error (.next .endInList [])
      | some u =>
        if u.value = ']' then .ok (t.after (u.as ()))
        else (skipElements t.rest).map t.after
    else if t.value = '\x7b' then
      match next? t.rest with
      | none => .error (.next .endInObject [])
      | some u =>
        if u.value = '\x7d' then .ok (t.after (u.as ()))
        else (skipMembers t.rest).map t.after
    else skipLeaf t
termination_by (s.length, 0)
decreasing_by
  · exact Prod.Lex.left _ _ t.shorter
  · exact Prod.Lex.left _ _ t.shorter

/-- Passes over an element, and over all behind it up to the end of the list. -/
def skipElements (s : List Char) : Except Fault (Read s Unit) := do
  let v ← skipValue s
  match next? v.rest with
  | none => .error (.next .endInList [])
  | some t =>
    if t.value = ']' then return v.after (t.as ())
    else if t.value = ',' then return v.after (t.after (← skipElements t.rest))
    else .error (.next .noListEnd t.again)
termination_by (s.length, 1)
decreasing_by
  · exact Prod.Lex.right _ Nat.zero_lt_one
  · have := v.shorter
    have := t.shorter
    exact Prod.Lex.left _ _ (by omega)

/-- Passes over a member, and over all behind it up to the end of the object. -/
def skipMembers (s : List Char) : Except Fault (Read s Unit) := do
  match next? s with
  | none => .error (.next .endInObject [])
  | some k =>
    if k.value = '"' then
      let name ← skipText k.rest
      let c ← colon name.rest
      let v ← skipValue c.rest
      match next? v.rest with
      | none => .error (.next .endInObject [])
      | some t =>
        if t.value = '\x7d' then return k.after (name.after (c.after (v.after (t.as ()))))
        else if t.value = ',' then
          return k.after (name.after (c.after (v.after (t.after (← skipMembers t.rest)))))
        else .error (.next .noObjectEnd t.again)
    else .error (.next .noKey k.again)
termination_by (s.length, 1)
decreasing_by
  · have := k.shorter
    have := name.shorter
    have := c.shorter
    exact Prod.Lex.left _ _ (by omega)
  · have := k.shorter
    have := name.shorter
    have := c.shorter
    have := v.shorter
    have := t.shorter
    exact Prod.Lex.left _ _ (by omega)

end

end DragDrop.Json
