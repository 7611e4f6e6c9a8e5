import DragDrop.Json.Reader

/-! Texts between quotes: how they are written, and how they are read. Only the
quote, the backslash and the control characters HAVE to be escaped, and nothing
else is when we write; readers take any escape. -/

namespace DragDrop.Json

/-- The letter behind the backslash, for a character that has one. The slash has
one that is read but never written. -/
def letter? (c : Char) : Option Char :=
  if c = '"' ∨ c = '\\' then some c
  else if c = '\x08' then some 'b'
  else if c = '\t' then some 't'
  else if c = '\n' then some 'n'
  else if c = '\x0c' then some 'f'
  else if c = '\r' then some 'r'
  else none

/-- The character that a letter behind a backslash stands for. -/
def ofLetter? (c : Char) : Option Char :=
  if c = '"' ∨ c = '\\' ∨ c = '/' then some c
  else if c = 'b' then some '\x08'
  else if c = 't' then some '\t'
  else if c = 'n' then some '\n'
  else if c = 'f' then some '\x0c'
  else if c = 'r' then some '\r'
  else none

theorem ofLetter?_of_letter? {c l : Char} (h : letter? c = some l) : ofLetter? l = some c := by
  unfold letter? at h
  split at h
  · obtain rfl := Option.some.inj h
    unfold ofLetter?
    grind
  · repeat' split at h
    all_goals cases h <;> (subst_vars; rfl)

/-- One character between quotes. -/
def escaped (c : Char) : List Char :=
  match letter? c with
  | some l => ['\\', l]
  | none =>
    if c < ' ' then
      ['\\', 'u', '0', '0', Nat.digitChar (c.toNat / 16), Nat.digitChar (c.toNat % 16)]
    else [c]

/-- A text between quotes. -/
def writeText (s : String) : List Char := '"' :: s.toList.flatMap escaped ++ ['"']

/-- Digits count up to fifteen, in either case. -/
def hexValue? (c : Char) : Option Nat :=
  if '0' ≤ c ∧ c ≤ '9' then some (c.toNat - '0'.toNat)
  else if 'a' ≤ c ∧ c ≤ 'f' then some (c.toNat - 'a'.toNat + 10)
  else if 'A' ≤ c ∧ c ≤ 'F' then some (c.toNat - 'A'.toNat + 10)
  else none

/-- What is wrong with a code unit: it takes FOUR BYTES, whatever they are. -/
def badUnit (s : List Char) : Fault :=
  if byteLength s < 4 then .here .endInText [] else ⟨.badEscape, byteLength s - 4⟩

/-- A code unit, four digits. -/
def codeUnit : (s : List Char) → Except Fault (Read s Nat)
  | a :: b :: c :: d :: rest =>
    match hexValue? a, hexValue? b, hexValue? c, hexValue? d with
    | some i, some j, some k, some l =>
      .ok ⟨4096 * i + 256 * j + 16 * k + l, rest, by simp; omega⟩
    | _, _, _, _ => .error (badUnit (a :: b :: c :: d :: rest))
  | s => .error (badUnit s)

/-- The first half of a pair of code units. -/
def isHighHalf (n : Nat) : Bool := 0xD800 ≤ n && n ≤ 0xDBFF

/-- The second half of a pair of code units. -/
def isLowHalf (n : Nat) : Bool := 0xDC00 ≤ n && n ≤ 0xDFFF

/-- The character that a pair of code units stands for. -/
def joined (high low : Nat) : Char :=
  Char.ofNat (0x10000 + 0x400 * (high - 0xD800) + (low - 0xDC00))

/-- The second half of a pair, with all that leads up to it. -/
def lowHalf : (s : List Char) → Except Fault (Read s Nat)
  | [] | ['\\'] => .error (.here .endInText [])
  | '\\' :: 'u' :: rest => do
    let n ← codeUnit rest
    if isLowHalf n.value then return (n.behind 'u').behind '\\'
    else .error (.here .unpaired n.rest)
  | '\\' :: rest => .error (.next .brokenPair rest)
  | rest => .error (.next .brokenPair rest)

/-- A character by its code: one unit, or a pair of them. -/
def coded (s : List Char) : Except Fault (Read s Char) := do
  let n ← codeUnit s
  if isLowHalf n.value then .error (.here .unpaired n.rest)
  else if isHighHalf n.value then
    let m ← lowHalf n.rest
    return n.after (m.map (joined n.value))
  else return n.map Char.ofNat

/-- What follows a backslash. -/
def escape : (s : List Char) → Except Fault (Read s Char)
  | [] => .error (.here .endInText [])
  | c :: rest =>
    match ofLetter? c with
    | some d => .ok (.one c rest d)
    | none =>
      if c = 'u' then (coded rest).map (Read.behind c)
      else .error (.next .badEscape (c :: rest))

/-- A text whose quote is open. -/
def textBody : (s : List Char) → Except Fault (Read s (List Char))
  | [] => .error (.here .endInText [])
  | c :: rest => do
    if c = '"' then return .one c rest []
    else if c = '\\' then
      let d ← escape rest
      let t ← textBody d.rest
      return (d.after (t.map (d.value :: ·))).behind c
    else if c < ' ' then .error (.here .control rest)
    else
      let t ← textBody rest
      return (t.map (c :: ·)).behind c
termination_by s => s.length
decreasing_by
  · have := d.shorter; simp; omega
  · simp

/-- A text whose quote is open. -/
def openText (s : List Char) : Except Fault (Read s String) :=
  (textBody s).map (Read.map String.ofList)

/-- What follows a backslash in a text that nobody wants. Halves of pairs are not
missed there. -/
def skipEscape : (s : List Char) → Except Fault (Read s Unit)
  | [] => .error (.here .endInText [])
  | c :: rest =>
    match ofLetter? c with
    | some _ => .ok (.one c rest ())
    | none =>
      if c = 'u' then (codeUnit rest).map fun n => (n.as ()).behind c
      else .error (.next .badEscape (c :: rest))

/-- A text whose quote is open and that nobody wants. A control character is met
one byte EARLIER than by those who read. -/
def skipText : (s : List Char) → Except Fault (Read s Unit)
  | [] => .error (.here .endInText [])
  | c :: rest => do
    if c = '"' then return .one c rest ()
    else if c = '\\' then
      let d ← skipEscape rest
      return (d.after (← skipText d.rest)).behind c
    else if c < ' ' then .error (.here .control (c :: rest))
    else
      return (← skipText rest).behind c
termination_by s => s.length
decreasing_by
  · have := d.shorter; simp; omega
  · simp

end DragDrop.Json
