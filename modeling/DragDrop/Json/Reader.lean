import DragDrop.Json.Fault

/-! Reading a text from the front. A reader gives back what it read and what is
left of the text, which is SHORTER than before; that is what ends the loops over
lists and objects. -/

namespace DragDrop.Json

/-- What was read off the front of a text, and the rest of it. -/
structure Read (s : List Char) (α : Type) where
  value : α
  rest : List Char
  shorter : rest.length < s.length

/-- Reads one value. Blanks in front of it are passed over. -/
abbrev Reader (α : Type) := (s : List Char) → Except Fault (Read s α)

/-- What is left of a text when nothing of it needs to have been read. -/
structure Rest (s : List Char) where
  chars : List Char
  notLonger : chars.length ≤ s.length

namespace Read

variable {α β : Type} {s t : List Char}

/-- What was read off a part of the text that is left. -/
def widen (h : t.length ≤ s.length) (r : Read t α) : Read s α :=
  ⟨r.value, r.rest, Nat.lt_of_lt_of_le r.shorter h⟩

def map (f : α → β) (r : Read s α) : Read s β := ⟨f r.value, r.rest, r.shorter⟩

/-- Takes what was read for something else. -/
def as (r : Read s α) (b : β) : Read s β := ⟨b, r.rest, r.shorter⟩

/-- The first character alone was read. -/
def one (c : Char) (t : List Char) (a : α) : Read (c :: t) α := ⟨a, t, Nat.lt_succ_self _⟩

/-- What was read behind the first character. -/
def behind (c : Char) (r : Read t α) : Read (c :: t) α := r.widen (Nat.le_succ _)

/-- What was read behind something that was read before. -/
def after (r : Read s α) (q : Read r.rest β) : Read s β := q.widen (Nat.le_of_lt r.shorter)

@[simp] theorem value_widen (h : t.length ≤ s.length) (r : Read t α) :
    (r.widen h).value = r.value := rfl

@[simp] theorem rest_widen (h : t.length ≤ s.length) (r : Read t α) :
    (r.widen h).rest = r.rest := rfl

@[simp] theorem value_map (f : α → β) (r : Read s α) : (r.map f).value = f r.value := rfl

@[simp] theorem rest_map (f : α → β) (r : Read s α) : (r.map f).rest = r.rest := rfl

@[simp] theorem value_as (r : Read s α) (b : β) : (r.as b).value = b := rfl

@[simp] theorem rest_as (r : Read s α) (b : β) : (r.as b).rest = r.rest := rfl

@[simp] theorem value_one (c : Char) (t : List Char) (a : α) : (one c t a).value = a := rfl

@[simp] theorem rest_one (c : Char) (t : List Char) (a : α) : (one c t a).rest = t := rfl

@[simp] theorem value_behind (c : Char) (r : Read t α) : (r.behind c).value = r.value := rfl

@[simp] theorem rest_behind (c : Char) (r : Read t α) : (r.behind c).rest = r.rest := rfl

@[simp] theorem value_after (r : Read s α) (q : Read r.rest β) : (r.after q).value = q.value :=
  rfl

@[simp] theorem rest_after (r : Read s α) (q : Read r.rest β) : (r.after q).rest = q.rest := rfl

end Read

namespace Rest

variable {s t : List Char}

/-- All of the text is left. -/
def all (s : List Char) : Rest s := ⟨s, Nat.le_refl _⟩

/-- What is left behind the first character. -/
def behind (c : Char) (r : Rest t) : Rest (c :: t) := ⟨r.chars, Nat.le_succ_of_le r.notLonger⟩

/-- What is left behind something that was read, whose value is given. -/
def after {α β : Type} (q : Read s β) (r : Rest q.rest) (a : α) : Read s α :=
  ⟨a, r.chars, Nat.lt_of_le_of_lt r.notLonger q.shorter⟩

@[simp] theorem chars_all (s : List Char) : (all s).chars = s := rfl

@[simp] theorem chars_behind (c : Char) (r : Rest t) : (r.behind c).chars = r.chars := rfl

end Rest

/-- The characters that may stand between any two others. -/
def isBlank (c : Char) : Bool := c == ' ' || c == '\n' || c == '\t' || c == '\r'

/-- The first character that is no blank. -/
def next? : (s : List Char) → Option (Read s Char)
  | [] => none
  | c :: rest => if isBlank c then (next? rest).map (Read.behind c) else some (.one c rest c)

/-- The rest, with the last character put back. -/
def Read.again {s : List Char} (t : Read s Char) : List Char := t.value :: t.rest

theorem Read.length_again_le {s : List Char} (t : Read s Char) : t.again.length ≤ s.length :=
  t.shorter

/-- What was read from the last character on. -/
def Read.onto {s : List Char} {α : Type} (t : Read s Char) (r : Read t.again α) : Read s α :=
  r.widen t.length_again_le

/-- Passes over what is left of a word. -/
def word : List Char → (s : List Char) → Except Fault (Rest s)
  | [], s => .ok (.all s)
  | _ :: _, [] => .error (.here .endInValue [])
  | c :: cs, d :: rest =>
    if d = c then (word cs rest).map (Rest.behind d) else .error (.next .noWord (d :: rest))

/-- The colon between a key and its value. -/
def colon (s : List Char) : Except Fault (Read s Unit) :=
  match next? s with
  | none => .error (.next .endInObject [])
  | some t => if t.value = ':' then .ok (t.as ()) else .error (.next .noColon t.again)

/-- Looks for another element in an open list: the list goes on in front of what
is given, or it ends. -/
def element? (first : Bool) (s : List Char) : Except Fault (Option (Rest s)) :=
  match next? s with
  | none => .error (.next .endInList [])
  | some t =>
    if t.value = ']' then .ok none
    else if first then .ok (some ⟨t.again, t.length_again_le⟩)
    else if t.value = ',' then
      match next? t.rest with
      | none => .error (.next .endInValue [])
      | some u =>
        if u.value = ']' then .error (.next .trailingComma u.again)
        else .ok (some ⟨u.again, Nat.le_trans u.length_again_le (Nat.le_of_lt t.shorter)⟩)
    else .error (.next .noListEnd t.again)

/-- The end of a list from which nothing more is wanted. -/
def closeList (s : List Char) : Except Fault (Read s Unit) :=
  match next? s with
  | none => .error (.next .endInList [])
  | some t =>
    if t.value = ']' then .ok (t.as ())
    else if t.value = ',' then
      match next? t.rest with
      | some u =>
        if u.value = ']' then .error (.next .trailingComma u.again)
        else .error (.next .trailingText u.again)
      | none => .error (.next .trailingText [])
    else .error (.next .trailingText t.again)

/-- What comes next in an open object. -/
inductive KeyOrEnd (s : List Char) where
  /-- The quote of a key was passed. -/
  | key (quote : Read s Unit)
  /-- The end of the object was passed. -/
  | finish (brace : Read s Unit)

/-- Looks for the first key, or the end, of an object. -/
def firstKey (s : List Char) : Except Fault (KeyOrEnd s) :=
  match next? s with
  | none => .error (.next .endInObject [])
  | some t =>
    if t.value = '\x7d' then .ok (.finish (t.as ()))
    else if t.value = '"' then .ok (.key (t.as ()))
    else .error (.next .noKey t.again)

/-- Looks for a further key, or the end, of an object. -/
def nextKey (s : List Char) : Except Fault (KeyOrEnd s) :=
  match next? s with
  | none => .error (.next .endInObject [])
  | some t =>
    if t.value = '\x7d' then .ok (.finish (t.as ()))
    else if t.value = ',' then
      match next? t.rest with
      | none => .error (.next .endInValue [])
      | some u =>
        if u.value = '"' then .ok (.key (t.after (u.as ())))
        else if u.value = '\x7d' then .error (.next .trailingComma u.again)
        else .error (.next .noKey u.again)
    else .error (.next .noObjectEnd t.again)

/-- What is left when the end of an object is passed over, should it come next. -/
def afterBrace (s : List Char) : List Char :=
  match next? s with
  | none => []
  | some t => if t.value = '\x7d' then t.rest else t.again

/-- Reads a whole text. Only blanks may follow the value. -/
def readAll {α : Type} (read : Reader α) (s : List Char) : Except Fault α := do
  let r ← read s
  match next? r.rest with
  | none => return r.value
  | some t => .error (.next .trailingText t.again)

/-- Reads a whole text, or says what is wrong with it. -/
def decode {α : Type} (read : Reader α) (text : String) : Except String α :=
  (readAll read text.toList).mapError (·.message text.toList)

end DragDrop.Json
