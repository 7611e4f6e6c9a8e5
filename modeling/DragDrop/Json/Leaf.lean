import DragDrop.Json.Skip

/-! Readers of single values: truth values, numbers, texts. A value of the wrong
kind is read to its end before it is complained about, so that a fault WITHIN it
comes first; lists and objects are not entered. -/

namespace DragDrop.Json

/-- The number as it is found. -/
def foundNumber : Number → Found
  | .integer n => .integer n
  | .double x => .double x

/-- The fault in a value that begins with this character, where something else
was expected. -/
def mismatch {s : List Char} (expected : Expected) (t : Read s Char) : Fault :=
  let wrong (found : Found) (rest : List Char) : Fault := .here (.wrongKind found expected) rest
  let words (found : Found) (w : List Char) : Fault :=
    match word w t.rest with
    | .ok r => wrong found r.chars
    | .error e => e
  match t.value with
  | 'n' => words .null ['u', 'l', 'l']
  | 't' => words (.boolean true) ['r', 'u', 'e']
  | 'f' => words (.boolean false) ['a', 'l', 's', 'e']
  | '[' => wrong .list t.again
  | '\x7b' => wrong .object t.again
  | '"' =>
    match openText t.rest with
    | .ok r => wrong (.text r.value) r.rest
    | .error e => e
  | c =>
    if beginsNumber c then
      match openNumber t.again with
      | .ok r => wrong (foundNumber r.value) r.rest
      | .error e => e
    else .next .noValue t.again

/-- Reads on from the first character of a value. -/
def onValue {s : List Char} {α : Type} (read : Read s Char → Except Fault (Read s α)) :
    Except Fault (Read s α) :=
  match next? s with
  | none => .error (.next .endInValue [])
  | some t => read t

/-- The rest of a word, which has this meaning. -/
def wordFor {s : List Char} {α : Type} (t : Read s Char) (w : List Char) (a : α) :
    Except Fault (Read s α) :=
  (word w t.rest).map fun r => r.after t a

def readNull : Reader Unit := fun _ => onValue fun t =>
  if t.value = 'n' then wordFor t ['u', 'l', 'l'] ()
  else .error (mismatch .null t)

def readBoolean : Reader Bool := fun _ => onValue fun t =>
  if t.value = 't' then wordFor t ['r', 'u', 'e'] true
  else if t.value = 'f' then wordFor t ['a', 'l', 's', 'e'] false
  else .error (mismatch .boolean t)

/-- Reads a double. An integer will do. -/
def readDouble : Reader Float := fun _ => onValue fun t =>
  if beginsNumber t.value then do
    return t.onto ((← openNumber t.again).map Number.toFloat)
  else .error (mismatch .double t)

/-- Reads an integer that is not negative and fits into 64 bits. A number that is
whole, but written with a point, will NOT do. -/
def readNatural : Reader Nat := fun _ => onValue fun t =>
  if beginsNumber t.value then do
    let n ← openNumber t.again
    match n.value with
    | .integer i =>
      if i < 0 then .error (.here (.negative i) n.rest)
      else return t.onto (n.as i.toNat)
    | .double x => .error (.here (.wrongKind (.double x) .natural) n.rest)
  else .error (mismatch .natural t)

def readText : Reader String := fun _ => onValue fun t =>
  if t.value = '"' then (openText t.rest).map t.after
  else .error (mismatch .text t)

/-- Reads a value, or `null` for none. -/
def readOptional {α : Type} (read : Reader α) : Reader (Option α) := fun s =>
  match next? s with
  | some t =>
    if t.value = 'n' then wordFor t ['u', 'l', 'l'] none
    else (read s).map (Read.map some)
  | none => (read s).map (Read.map some)

/-- Reads a value, and turns it into another one. -/
def Reader.map {α β : Type} (f : α → β) (read : Reader α) : Reader β := fun s =>
  (read s).map (Read.map f)

end DragDrop.Json
