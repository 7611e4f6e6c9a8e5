import DragDrop.Json.Leaf

/-! Readers of values with parts: lists, objects, records, and choices from a set
of names. A record is read member by member into a DRAFT of it, in any order; it
can also come in the form of a list, with its fields in the order of their
declaration. -/

namespace DragDrop.Json

variable {α β δ : Type}

/-- The elements of an open list, up to its end. -/
def elements (read : Reader α) (first : Bool) (s : List Char) :
    Except Fault (Read s (List α)) := do
  match ← element? first s with
  | none => return (← closeList s).as []
  | some r =>
    let a ← read r.chars
    let l ← elements read false a.rest
    return (a.after (l.map (a.value :: ·))).widen r.notLonger
termination_by s.length
decreasing_by
  have := r.notLonger
  have := a.shorter
  omega

def readList (read : Reader α) : Reader (List α) := fun _ => onValue fun t =>
  if t.value = '[' then (elements read true t.rest).map t.after
  else .error (mismatch .list t)

/-- What to do with a member of an object once its name is known. The colon is
yet to come. -/
abbrev Member (δ : Type) := String → δ → Reader δ

/-- The members of an open object, from a name whose quote is open. -/
def members (member : Member δ) (d : δ) (s : List Char) : Except Fault (Read s δ) := do
  let name ← openText s
  let d ← member name.value d name.rest
  match ← nextKey d.rest with
  | .finish b => return name.after (d.after (b.as d.value))
  | .key k => return name.after (d.after (k.after (← members member d.value k.rest)))
termination_by s.length
decreasing_by
  have := name.shorter
  have := d.shorter
  have := k.shorter
  omega

/-- All the members of an open object. -/
def openObject (member : Member δ) (d : δ) (s : List Char) : Except Fault (Read s δ) := do
  match ← firstKey s with
  | .finish b => return b.as d
  | .key k => return k.after (← members member d k.rest)

/-- A colon, and the value behind it. -/
def afterColon (read : Reader α) : Reader α := fun s => do
  let c ← colon s
  return c.after (← read c.rest)

/-- Reads an object that maps names to values, one member after the other. -/
def readObject (read : Reader β) (add : δ → String → β → δ) (empty : δ) : Reader δ :=
  fun _ => onValue fun t =>
    if t.value = '\x7b' then
      (openObject (fun name d => afterColon (read.map (add d name))) empty t.rest).map t.after
    else .error (mismatch .object t)

/-- One field of a record: how it gets into the draft, and whether it is there. -/
structure Field (δ : Type) where
  name : String
  isSet : δ → Bool
  read : δ → Reader δ

/-- A field that keeps its value under these two functions. -/
def Field.of (name : String) (get : δ → Option β) (set : δ → β → δ) (read : Reader β) :
    Field δ where
  name := name
  isSet d := (get d).isSome
  read d := read.map (set d)

/-- A kind of record. -/
structure Shape (δ α : Type) where
  name : String
  fields : List (Field δ)
  blank : δ
  /-- The record, or the name of the first field that is missing. -/
  finish : δ → Except String α

namespace Shape

/-- A member goes into its field. No field is filled twice, and members of other
names are passed over. -/
def member (sh : Shape δ α) : Member δ := fun name d s =>
  match sh.fields.find? (·.name == name) with
  | some f =>
    if f.isSet d then .error (.here (.repeated name) (afterBrace s))
    else afterColon (f.read d) s
  | none => (afterColon skipValue s).map (Read.map fun _ => d)

/-- The elements of an open list, each for one field. Gives how many there are. -/
def positional : List (Field δ) → Bool → δ → (s : List Char) →
    Except Fault (δ × Nat × Rest s)
  | [], _, d, s => .ok (d, 0, .all s)
  | f :: fs, first, d, s => do
    match ← element? first s with
    | none => return (d, 0, .all s)
    | some r =>
      let v ← f.read d r.chars
      let (d, n, rest) ← positional fs false v.value v.rest
      return (d, n + 1, ⟨rest.chars, by
        have := r.notLonger
        have := v.shorter
        have := rest.notLonger
        omega⟩)

/-- Reads a record in either form. -/
def read (sh : Shape δ α) : Reader α := fun _ => onValue fun t =>
  if t.value = '\x7b' then do
    let d ← openObject sh.member sh.blank t.rest
    match sh.finish d.value with
    | .ok a => return t.after (d.as a)
    | .error name => .error (.here (.missing name) d.rest)
  else if t.value = '[' then do
    let (d, n, rest) ← positional sh.fields true sh.blank t.rest
    let c ← closeList rest.chars
    match sh.finish d with
    | .ok a => return t.after ((c.as a).widen rest.notLonger)
    | .error _ => .error (.here (.tooShort n sh.name sh.fields.length) c.rest)
  else .error (mismatch (.record sh.name) t)

end Shape

/-- The meaning of a name. -/
def chosen (names : List (String × α)) {s : List Char} (name : Read s String) :
    Except Fault (Read s α) :=
  match names.lookup name.value with
  | some a => .ok (name.as a)
  | none => .error (.here (.unknownName name.value (names.map Prod.fst)) name.rest)

/-- Reads one name out of several. It may also come as an object that has `null`
for a member of that name. -/
def readChoice (names : List (String × α)) : Reader α := fun _ => onValue fun t =>
  if t.value = '"' then do
    let name ← openText t.rest
    return t.after (← chosen names name)
  else if t.value = '\x7b' then
    match next? t.rest with
    | none => .error (.next .endInObject [])
    | some k =>
      if k.value = '"' then do
        let name ← openText k.rest
        let a ← chosen names name
        let v ← afterColon readNull a.rest
        match next? v.rest with
        | none => .error (.here .endInObject [])
        | some u =>
          if u.value = '\x7d' then
            return t.after (k.after (a.after (v.after (u.as a.value))))
          else .error (.here .noValue u.again)
      else if k.value = '\x7d' then .error (.next .noValue k.again)
      else .error (.next .noKey k.again)
  else .error (.next .noValue t.again)

end DragDrop.Json
