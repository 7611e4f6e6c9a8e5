import DragDrop.Json.Text

/-! JSON values, and how they are written: on one line, or with every element and
every member on a line of its own. -/

namespace DragDrop.Json

inductive Value where
  | null
  | boolean (b : Bool)
  | integer (n : Int)
  | double (x : Float)
  | text (s : String)
  | list (elements : List Value)
  | object (members : List (String × Value))

namespace Value

/-- The digits of an integer, with its sign. -/
def writeInteger (n : Int) : List Char :=
  (if n < 0 then ['-'] else []) ++ Nat.toDigits 10 n.natAbs

/-- There is no writing for what is no finite number. -/
def writeDouble (x : Float) : List Char :=
  if x.isFinite then jsonStyle.text x else ['n', 'u', 'l', 'l']

/-- Depth of a value in an indented text; on one line there is none. -/
abbrev Depth := Option Nat

/-- The start of a line, two blanks for each level. -/
def newline : Depth → List Char
  | none => []
  | some n => '\n' :: List.replicate (2 * n) ' '

/-- What stands between a name and its value. -/
def colonAt (d : Depth) : List Char := if d.isSome then [':', ' '] else [':']

mutual

def write (d : Depth) : Value → List Char
  | null => ['n', 'u', 'l', 'l']
  | boolean b => if b then ['t', 'r', 'u', 'e'] else ['f', 'a', 'l', 's', 'e']
  | integer n => writeInteger n
  | double x => writeDouble x
  | text s => writeText s
  | list [] => ['[', ']']
  | list (v :: vs) => '[' :: writeElements (d.map (· + 1)) (v :: vs) ++ newline d ++ [']']
  | object [] => ['\x7b', '\x7d']
  | object (m :: ms) =>
    '\x7b' :: writeMembers (d.map (· + 1)) (m :: ms) ++ newline d ++ ['\x7d']

/-- The elements of a list, with the commas between them. -/
def writeElements (d : Depth) : List Value → List Char
  | [] => []
  | [v] => newline d ++ write d v
  | v :: w :: vs => newline d ++ write d v ++ ',' :: writeElements d (w :: vs)

/-- The members of an object, with the commas between them. -/
def writeMembers (d : Depth) : List (String × Value) → List Char
  | [] => []
  | [(name, v)] => newline d ++ writeText name ++ colonAt d ++ write d v
  | (name, v) :: m :: ms =>
    newline d ++ writeText name ++ colonAt d ++ write d v ++ ',' :: writeMembers d (m :: ms)

end

/-- The value on one line, without a blank. -/
def compact (v : Value) : String := String.ofList (v.write none)

/-- The value over many lines. -/
def indented (v : Value) : String := String.ofList (v.write (some 0))

end Value

end DragDrop.Json
