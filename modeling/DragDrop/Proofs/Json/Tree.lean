import DragDrop.Json.Skip
import DragDrop.Proofs.Json.Numeral

/-! The grammar of JSON, without regard to what anybody wants to read. A tree keeps every
token as it is spelled, the escapes and the exponents too, and ONLY the blanks between
the tokens are left out of it: `Spells` says which texts a tree can stand in. -/

namespace DragDrop.Json

/-- A number as it is spelled. Neither the letter in front of an exponent nor a plus
behind that letter says anything. -/
structure Numeral where
  literal : Literal
  wellFormed : literal.WellFormed
  capital : Bool := false
  plus : Bool := false

namespace Numeral

def exponentChars (n : Numeral) : List Char :=
  n.literal.exponent.elim [] fun e => (if n.capital then 'E' else 'e') ::
    ((if e.negative then ['-'] else if n.plus then ['+'] else []) ++ e.digits)

def chars (n : Numeral) : List Char := n.literal.front ++ n.exponentChars

end Numeral

/-- A hexadecimal digit, in either case. -/
abbrev HexDigit := { c : Char // (hexValue? c).isSome = true }

def HexDigit.value (x : HexDigit) : Nat := (hexValue? x.val).get x.property

/-- What can stand between quotes. -/
inductive Piece where
  /-- A character that need not be escaped. -/
  | plain (c : Char) (quote : c ≠ '"') (slash : c ≠ '\\') (control : ¬c < ' ')
  /-- A letter behind a backslash, and the character that it stands for. -/
  | letter (l c : Char) (means : ofLetter? l = some c)
  /-- A code unit. It can be HALF of a pair. -/
  | unit (a b c d : HexDigit)

namespace Piece

def chars : Piece → List Char
  | plain c _ _ _ => [c]
  | letter l _ _ => ['\\', l]
  | unit a b c d => ['\\', 'u', a.val, b.val, c.val, d.val]

/-- The pieces as they stand in a text. -/
def spelled (ps : List Piece) : List Char := ps.flatMap chars

/-- The characters of a text as they are. Those that have to be escaped are left out. -/
def plainly (s : String) : List Piece :=
  s.toList.filterMap fun c =>
    if h : c ≠ '"' ∧ c ≠ '\\' ∧ ¬c < ' ' then some (.plain c h.1 h.2.1 h.2.2) else none

/-- The number of a code unit. -/
def code (a b c d : HexDigit) : Nat := 4096 * a.value + 256 * b.value + 16 * c.value + d.value

/-- The characters that the pieces stand for. Halves that make no pair stand for none. -/
def meaning : List Piece → Option (List Char)
  | [] => some []
  | plain c _ _ _ :: ps => (meaning ps).map (c :: ·)
  | letter _ c _ :: ps => (meaning ps).map (c :: ·)
  | unit a b c d :: ps =>
    if isLowHalf (code a b c d) then none
    else if isHighHalf (code a b c d) then
      match ps with
      | unit a' b' c' d' :: ps =>
        if isLowHalf (code a' b' c' d') then
          (meaning ps).map (joined (code a b c d) (code a' b' c' d') :: ·)
        else none
      | _ => none
    else (meaning ps).map (Char.ofNat (code a b c d) :: ·)

/-- The text that the pieces stand for. -/
def text? (ps : List Piece) : Option String := (meaning ps).map String.ofList

end Piece

/-- A value, token by token. -/
inductive Tree where
  | null
  | boolean (b : Bool)
  | number (n : Numeral)
  | text (ps : List Piece)
  | list (ts : List Tree)
  | object (ms : List (List Piece × Tree))

/-- The name of a member as it is spelled, and its value. -/
abbrev Tree.Member := List Piece × Tree

/-- A truth value as it stands in a text. -/
def wordChars (b : Bool) : List Char :=
  if b then ['t', 'r', 'u', 'e'] else ['f', 'a', 'l', 's', 'e']

/-- A part of a text: a value, or what is left of a list or an object, from behind its
bracket on or from behind one of its parts. -/
inductive Phrase where
  | value (t : Tree)
  | elements (first : Bool) (ts : List Tree)
  | members (first : Bool) (ms : List Tree.Member)

/-- Between two parts, but not in front of the first one, there is a comma. -/
def Comma : Bool → List Char → List Char → Prop
  | true, s, u => s = u
  | false, s, u => Pads s (',' :: u)

/-- The text begins with the phrase, and this is what is left of it. Blanks can stand in
front of any token. -/
inductive Spells : Phrase → List Char → List Char → Prop
  | null {s rest : List Char} (h : Pads s (['n', 'u', 'l', 'l'] ++ rest)) :
    Spells (.value .null) s rest
  | boolean {s rest : List Char} (b : Bool) (h : Pads s (wordChars b ++ rest)) :
    Spells (.value (.boolean b)) s rest
  | number {s rest : List Char} (n : Numeral) (h : Pads s (n.chars ++ rest)) :
    Spells (.value (.number n)) s rest
  | text {s rest : List Char} (ps : List Piece)
    (h : Pads s ('"' :: (Piece.spelled ps ++ '"' :: rest))) : Spells (.value (.text ps)) s rest
  | list {s u rest : List Char} {ts : List Tree} (h : Pads s ('[' :: u))
    (hts : Spells (.elements true ts) u rest) : Spells (.value (.list ts)) s rest
  | object {s u rest : List Char} {ms : List Tree.Member} (h : Pads s ('\x7b' :: u))
    (hms : Spells (.members true ms) u rest) : Spells (.value (.object ms)) s rest
  | listEnd {first : Bool} {s rest : List Char} (h : Pads s (']' :: rest)) :
    Spells (.elements first []) s rest
  | element {first : Bool} {s u v rest : List Char} {t : Tree} {ts : List Tree}
    (hcomma : Comma first s u) (ht : Spells (.value t) u v)
    (hts : Spells (.elements false ts) v rest) : Spells (.elements first (t :: ts)) s rest
  | objectEnd {first : Bool} {s rest : List Char} (h : Pads s ('\x7d' :: rest)) :
    Spells (.members first []) s rest
  | member {first : Bool} {s u v w x rest : List Char} {ps : List Piece} {t : Tree}
    {ms : List Tree.Member} (hcomma : Comma first s u)
    (hname : Pads u ('"' :: (Piece.spelled ps ++ '"' :: v))) (hcolon : Pads v (':' :: w))
    (ht : Spells (.value t) w x) (hms : Spells (.members false ms) x rest) :
    Spells (.members first ((ps, t) :: ms)) s rest

/-- The whole text is a spelling of the tree. -/
def Tree.SpelledBy (t : Tree) (text : String) : Prop :=
  ∃ rest, Spells (.value t) text.toList rest ∧ Pads rest []

/-! ## One spelling of every tree -/

namespace Tree

/-- What stands between two parts, but not in front of the first one. -/
def comma (gap : List Char) (first : Bool) : List Char := if first then [] else gap ++ [',']

mutual

/-- The tree with the same gap in front of every token. -/
def write (gap : List Char) : Tree → List Char
  | null => gap ++ ['n', 'u', 'l', 'l']
  | boolean b => gap ++ wordChars b
  | number n => gap ++ n.chars
  | text ps => gap ++ '"' :: (Piece.spelled ps ++ ['"'])
  | list ts => gap ++ '[' :: writeElements gap true ts
  | object ms => gap ++ '\x7b' :: writeMembers gap true ms

def writeElements (gap : List Char) : Bool → List Tree → List Char
  | _, [] => gap ++ [']']
  | first, t :: ts => comma gap first ++ (write gap t ++ writeElements gap false ts)

def writeMembers (gap : List Char) : Bool → List Member → List Char
  | _, [] => gap ++ ['\x7d']
  | first, (ps, t) :: ms => comma gap first ++ (gap ++ '"' :: (Piece.spelled ps ++
      '"' :: (gap ++ ':' :: (write gap t ++ writeMembers gap false ms))))

end

section

variable {gap : List Char} (hgap : ∀ c ∈ gap, isBlank c = true)
include hgap

theorem comma_write (first : Bool) (s : List Char) : Comma first (comma gap first ++ s) s := by
  cases first with
  | true => rfl
  | false =>
    show Pads ((gap ++ [',']) ++ s) (',' :: s)
    rw [List.append_assoc]
    exact Pads.append hgap _

mutual

/-- EVERY tree can be spelled, and the gap can be anything blank. -/
theorem spells_write : (t : Tree) → (rest : List Char) →
    Spells (.value t) (t.write gap ++ rest) rest
  | null, rest => by
    rw [write, List.append_assoc]
    exact .null (Pads.append hgap _)
  | boolean b, rest => by
    rw [write, List.append_assoc]
    exact .boolean b (Pads.append hgap _)
  | number n, rest => by
    rw [write, List.append_assoc]
    exact .number n (Pads.append hgap _)
  | text ps, rest => by
    rw [write, List.append_assoc, List.cons_append, List.append_assoc]
    exact .text ps (Pads.append hgap _)
  | list ts, rest => by
    rw [write, List.append_assoc]
    exact .list (Pads.append hgap _) (spells_writeElements true ts rest)
  | object ms, rest => by
    rw [write, List.append_assoc]
    exact .object (Pads.append hgap _) (spells_writeMembers true ms rest)

theorem spells_writeElements : (first : Bool) → (ts : List Tree) → (rest : List Char) →
    Spells (.elements first ts) (writeElements gap first ts ++ rest) rest
  | first, [], rest => by
    rw [writeElements, List.append_assoc]
    exact .listEnd (Pads.append hgap _)
  | first, t :: ts, rest => by
    rw [writeElements, List.append_assoc, List.append_assoc]
    exact .element (comma_write hgap first _) (spells_write t _) (spells_writeElements false ts rest)

theorem spells_writeMembers : (first : Bool) → (ms : List Member) → (rest : List Char) →
    Spells (.members first ms) (writeMembers gap first ms ++ rest) rest
  | first, [], rest => by
    rw [writeMembers, List.append_assoc]
    exact .objectEnd (Pads.append hgap _)
  | first, (ps, t) :: ms, rest => by
    rw [writeMembers]
    simp only [List.append_assoc, List.cons_append]
    exact .member (comma_write hgap first _) (Pads.append hgap _) (Pads.append hgap _)
      (spells_write t _) (spells_writeMembers false ms rest)

end

theorem spelledBy_write (t : Tree) : t.SpelledBy (String.ofList (t.write gap)) := by
  refine ⟨[], ?_, .refl _⟩
  rw [String.toList_ofList, ← List.append_nil (t.write gap)]
  exact spells_write hgap t []

end

end Tree

end DragDrop.Json
