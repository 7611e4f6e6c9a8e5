import DragDrop.Decimal.Style
import DragDrop.Text.Quoted

/-! What can be wrong with a JSON text, and where. A fault keeps its CAUSE, and
counts the bytes behind it that were not read; wording and place are worked out
from these only when somebody asks. -/

namespace DragDrop.Json

/-- What stands in the text. -/
inductive Found where
  | null
  | boolean (b : Bool)
  | integer (n : Int)
  | double (x : Float)
  | text (s : String)
  | list
  | object

/-- What ought to stand there. -/
inductive Expected where
  | null
  | boolean
  | double
  | natural
  | text
  | list
  | object
  /-- An object with known members, under the name of its kind. -/
  | record (name : String)
deriving DecidableEq, Repr

inductive Cause where
  /-- The text ends within a value that has hardly begun. -/
  | endInValue
  | endInList
  | endInObject
  | endInText
  /-- No value begins like this. -/
  | noValue
  /-- A word other than `null`, `true` and `false`. -/
  | noWord
  | noColon
  /-- An element is followed by neither a comma nor the end of its list. -/
  | noListEnd
  /-- A member is followed by neither a comma nor the end of its object. -/
  | noObjectEnd
  | noKey
  | trailingComma
  | trailingText
  | badNumber
  | numberTooGreat
  | badEscape
  /-- A control character within quotes. -/
  | control
  /-- Half of a pair of code units, without or before its other half. -/
  | unpaired
  /-- The first half of a pair is not followed by an escape. -/
  | brokenPair
  | wrongKind (found : Found) (expected : Expected)
  | negative (n : Int)
  | repeated (field : String)
  | missing (field : String)
  /-- A record in the form of a list has too few elements. -/
  | tooShort (count : Nat) (record : String) (fields : Nat)
  | unknownName (name : String) (known : List String)

/-- A cause, and how many bytes of the text were not read when it was met. -/
structure Fault where
  cause : Cause
  left : Nat

namespace Found

def describe : Found → String
  | null => "null"
  | boolean b => s!"boolean `{b}`"
  | integer n => s!"integer `{n}`"
  | double x => s!"floating point `{String.ofList (jsonStyle.text x)}`"
  | text s => "string " ++ Text.quoted s
  | list => "sequence"
  | object => "map"

end Found

namespace Expected

def describe : Expected → String
  | null => "unit"
  | boolean => "a boolean"
  | double => "f64"
  | natural => "usize"
  | text => "a string"
  | list => "a sequence"
  | object => "a map"
  | record name => "struct " ++ name

end Expected

namespace Cause

/-- The names to choose from. -/
def choices : List String → String
  | [] => "there are no variants"
  | [a] => s!"expected `{a}`"
  | [a, b] => s!"expected `{a}` or `{b}`"
  | names => "expected one of " ++ String.intercalate ", " (names.map fun a => s!"`{a}`")

def message : Cause → String
  | endInValue => "EOF while parsing a value"
  | endInList => "EOF while parsing a list"
  | endInObject => "EOF while parsing an object"
  | endInText => "EOF while parsing a string"
  | noValue => "expected value"
  | noWord => "expected ident"
  | noColon => "expected `:`"
  | noListEnd => "expected `,` or `]`"
  | noObjectEnd => "expected `,` or `\x7d`"
  | noKey => "key must be a string"
  | trailingComma => "trailing comma"
  | trailingText => "trailing characters"
  | badNumber => "invalid number"
  | numberTooGreat => "number out of range"
  | badEscape => "invalid escape"
  | control => "control character (\\u0000-\\u001F) found while parsing a string"
  | unpaired => "lone leading surrogate in hex escape"
  | brokenPair => "unexpected end of hex escape"
  | wrongKind found expected => s!"invalid type: {found.describe}, expected {expected.describe}"
  | negative n => s!"invalid value: integer `{n}`, expected {Expected.natural.describe}"
  | repeated field => s!"duplicate field `{field}`"
  | missing field => s!"missing field `{field}`"
  | tooShort count record fields =>
    s!"invalid length {count}, expected {(Expected.record record).describe} with {fields} elements"
  | unknownName name known => s!"unknown variant `{name}`, {choices known}"

end Cause

/-- How many bytes the characters take up. -/
def byteLength (s : List Char) : Nat := s.foldr (fun c n => c.utf8Size + n) 0

/-- Line and column after a number of bytes, counted on from a line and a column.
Lines start at one, columns count BYTES. -/
def placeAfter (line column : Nat) : Nat → List Char → Nat × Nat
  | 0, _ | _, [] => (line, column)
  | n, c :: rest =>
    if c = '\n' then placeAfter (line + 1) 0 (n - 1) rest
    else placeAfter line (column + min n c.utf8Size) (n - c.utf8Size) rest
termination_by _ s => s.length

namespace Fault

/-- A fault that was met with exactly this much of the text unread. -/
def here (cause : Cause) (rest : List Char) : Fault := ⟨cause, byteLength rest⟩

/-- A fault of the byte that comes next. It counts as read, if there is one. -/
def next (cause : Cause) (rest : List Char) : Fault := ⟨cause, byteLength rest - 1⟩

/-- Line and column of a fault in its text. -/
def place (f : Fault) (text : List Char) : Nat × Nat :=
  placeAfter 1 0 (byteLength text - f.left) text

def message (f : Fault) (text : List Char) : String :=
  let (line, column) := f.place text
  s!"{f.cause.message} at line {line} column {column}"

end Fault

end DragDrop.Json
