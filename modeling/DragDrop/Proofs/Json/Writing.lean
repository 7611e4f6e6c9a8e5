import DragDrop.Json.Value
import DragDrop.Proofs.Decimal.Reread
import DragDrop.Proofs.Json.Meaning

/-! All that is written is JSON. Every value stands in its text as a tree, at any depth of
indentation: texts with their escapes, integers and finite doubles as numerals, and what is no
finite double as `null`, since there is no numeral for it. What a reader makes of a written
value is what it makes of that tree, in this spelling as in any other. -/

namespace DragDrop

/-! ## Tokens -/

namespace Literal

/-- The literal of an integer. -/
def ofInt (n : Int) : Literal where
  negative := decide (n < 0)
  whole := Nat.toDigits 10 n.natAbs

theorem wellFormed_ofInt (n : Int) : (ofInt n).WellFormed :=
  { wellFormed_ofNat n.natAbs with }

theorem chars_ofInt (n : Int) : (ofInt n).chars = Json.Value.writeInteger n := by
  simp [chars, ofInt, exponentChars, Json.Value.writeInteger]

end Literal

namespace Json

open Value (Depth newline colonAt writeElements writeMembers)

namespace Numeral

/-- The numeral of a literal that was written. Its exponent always has a sign. -/
def ofLiteral (l : Literal) (h : l.WellFormed) : Numeral where
  literal := l
  wellFormed := h
  plus := true

theorem chars_ofLiteral (l : Literal) (h : l.WellFormed) : (ofLiteral l h).chars = l.chars := by
  rw [chars, Literal.chars_eq, exponentChars]
  congr 1
  dsimp only [ofLiteral]
  cases l.exponent with
  | none => rfl
  | some e => cases hn : e.negative <;> simp [Literal.exponentChars, hn]

def ofInt (n : Int) : Numeral := ofLiteral (.ofInt n) (Literal.wellFormed_ofInt n)

theorem chars_ofInt (n : Int) : (ofInt n).chars = Value.writeInteger n := by
  rw [ofInt, chars_ofLiteral, Literal.chars_ofInt]

def ofDouble (x : Float) (h : x.isFinite = true) : Numeral :=
  ofLiteral ((written x).literal (isNegative x)) (Decimal.wellFormed_literal (writable_written h) _)

theorem chars_ofDouble {x : Float} (h : x.isFinite = true) :
    (ofDouble x h).chars = jsonStyle.text x := by
  rw [ofDouble, chars_ofLiteral, text_eq_chars h]

end Numeral

namespace Piece

theorem letter?_eq_none {c : Char} (h : letter? c = none) : c ≠ '"' ∧ c ≠ '\\' := by
  unfold letter? at h
  split at h
  · exact absurd h (Option.some_ne_none c)
  · rename_i hc
    exact not_or.mp hc

/-- A hexadecimal digit as it is written. -/
theorem hexValue?_digitChar {n : Nat} (h : n < 16) : hexValue? n.digitChar = some n := by
  have htable : ∀ n < 16, hexValue? (Nat.digitChar n) = some n := by decide
  exact htable n h

/-- A digit of an escape. -/
def hex (n : Nat) (h : n < 16) : HexDigit :=
  ⟨n.digitChar, by rw [hexValue?_digitChar h]; rfl⟩

/-- A character as it is written. -/
def ofChar (c : Char) : Piece :=
  match h : letter? c with
  | some l => letter l c (ofLetter?_of_letter? h)
  | none =>
    if hc : c < ' ' then
      have hhi : c.toNat / 16 < 16 := by have : c.toNat < 32 := hc; omega
      unit (hex 0 (by omega)) (hex 0 (by omega)) (hex (c.toNat / 16) hhi)
        (hex (c.toNat % 16) (by omega))
    else plain c (letter?_eq_none h).1 (letter?_eq_none h).2 hc

theorem chars_ofChar (c : Char) : (ofChar c).chars = escaped c := by
  unfold ofChar
  split
  · rename_i l h
    have he : escaped c = ['\\', l] := by rw [escaped, h]
    rw [he]
    rfl
  · rename_i h
    have he : escaped c = if c < ' ' then
        ['\\', 'u', '0', '0', Nat.digitChar (c.toNat / 16), Nat.digitChar (c.toNat % 16)]
        else [c] := by rw [escaped, h]
    rw [he]
    split <;> rfl

def ofText (s : String) : List Piece := s.toList.map ofChar

theorem spelled_ofText (s : String) : spelled (ofText s) = s.toList.flatMap escaped := by
  rw [spelled, ofText, List.flatMap_map]
  congr 1
  exact funext chars_ofChar

theorem value_hex {n : Nat} (h : n < 16) : (hex n h).value = n :=
  Option.get_of_eq_some _ (hexValue?_digitChar h)

/-- A character comes back out of its own escape. -/
theorem meaning_ofChar (c : Char) (ps : List Piece) :
    meaning (ofChar c :: ps) = (meaning ps).map (c :: ·) := by
  unfold ofChar
  split
  · rfl
  · split
    · rename_i hc
      have hlt : c.toNat < 32 := hc
      have hcode : code (hex 0 (by omega)) (hex 0 (by omega)) (hex (c.toNat / 16) (by omega))
          (hex (c.toNat % 16) (by omega)) = c.toNat := by
        simp only [code, value_hex]
        omega
      have hlow : isLowHalf c.toNat = false := by
        rw [isLowHalf, Bool.and_eq_false_iff]
        exact .inl (decide_eq_false (by omega))
      have hhigh : isHighHalf c.toNat = false := by
        rw [isHighHalf, Bool.and_eq_false_iff]
        exact .inl (decide_eq_false (by omega))
      rw [meaning.eq_def]
      dsimp only
      rw [hcode, hlow, hhigh, if_neg (by simp), if_neg (by simp), Char.ofNat_toNat]
    · rfl

/-- The pieces that a text is written in stand for that text. -/
theorem text?_ofText (s : String) : text? (ofText s) = some s := by
  have hmeaning (cs : List Char) : meaning (cs.map ofChar) = some cs := by
    induction cs with
    | nil => rfl
    | cons c cs ih =>
      rw [List.map_cons, meaning_ofChar, ih]
      rfl
  rw [text?, ofText, hmeaning, Option.map_some, String.ofList_toList]

theorem writeText_eq (s : String) (rest : List Char) :
    writeText s ++ rest = '"' :: (spelled (ofText s) ++ '"' :: rest) := by
  rw [spelled_ofText]
  simp [writeText]

end Piece

/-! ## Values -/

namespace Value

mutual

/-- The value as it is written, token by token. -/
def tree : Value → Tree
  | null => .null
  | boolean b => .boolean b
  | integer n => .number (.ofInt n)
  | double x => if h : x.isFinite = true then .number (.ofDouble x h) else .null
  | text s => .text (Piece.ofText s)
  | list vs => .list (trees vs)
  | object ms => .object (memberTrees ms)

def trees : List Value → List Tree
  | [] => []
  | v :: vs => v.tree :: trees vs

def memberTrees : List (String × Value) → List Tree.Member
  | [] => []
  | (name, v) :: ms => (Piece.ofText name, v.tree) :: memberTrees ms

end

theorem trees_eq_map (vs : List Value) : trees vs = vs.map tree := by
  induction vs with
  | nil => rfl
  | cons v vs ih => rw [trees, ih, List.map_cons]

theorem memberTrees_eq_map (ms : List (String × Value)) :
    memberTrees ms = ms.map fun m => (Piece.ofText m.1, m.2.tree) := by
  induction ms with
  | nil => rfl
  | cons m ms ih => rw [memberTrees, ih, List.map_cons]

theorem tree_double {x : Float} (h : x.isFinite = true) :
    (double x).tree = .number (.ofDouble x h) := by
  rw [tree, dif_pos h]

end Value

/-! ## Layout -/

/-- The start of a line is nothing but blanks. -/
theorem pads_newline (d : Depth) (s : List Char) : Pads (newline d ++ s) s := by
  apply Pads.append
  intro c hc
  cases d with
  | none => exact absurd hc (List.not_mem_nil)
  | some n =>
    rcases List.mem_cons.mp hc with rfl | hc
    · rfl
    · rw [List.eq_of_mem_replicate hc]
      rfl

/-- Behind a colon there may be a blank. -/
theorem pads_colonAt (d : Depth) (s : List Char) :
    ∃ t, Pads (colonAt d ++ s) (':' :: t) ∧ Pads t s := by
  cases d with
  | none => exact ⟨s, .refl _, .refl _⟩
  | some n => exact ⟨' ' :: s, .refl _, .cons rfl (.refl _)⟩

/-- What stands behind an element, up to the end of the list. -/
def writeFurther (d : Depth) : List Value → List Char
  | [] => []
  | v :: vs => ',' :: writeElements d (v :: vs)

theorem writeElements_cons (d : Depth) (v : Value) (vs : List Value) :
    writeElements d (v :: vs) = newline d ++ (v.write d ++ writeFurther d vs) := by
  cases vs with
  | nil => rw [writeElements, writeFurther, List.append_nil]
  | cons w vs => rw [writeElements, writeFurther, List.append_assoc]

/-- What stands behind a member, up to the end of the object. -/
def writeFurtherMembers (d : Depth) : List (String × Value) → List Char
  | [] => []
  | m :: ms => ',' :: writeMembers d (m :: ms)

theorem writeMembers_cons (d : Depth) (name : String) (v : Value) (ms : List (String × Value)) :
    writeMembers d ((name, v) :: ms) = newline d ++ '"' :: (Piece.spelled (Piece.ofText name) ++
      '"' :: (colonAt d ++ (v.write d ++ writeFurtherMembers d ms))) := by
  rw [← Piece.writeText_eq]
  cases ms with
  | nil => simp [writeMembers, writeFurtherMembers]
  | cons m ms => simp [writeMembers, writeFurtherMembers]

/-! ## Spellings -/

mutual

/-- EVERY value is written as a spelling of its tree, and blanks can stand in front. -/
theorem spells_tree : (v : Value) → (d : Depth) → {s rest : List Char} →
    Pads s (v.write d ++ rest) → Spells (.value v.tree) s rest
  | .null, d, s, rest, hs => .null hs
  | .boolean b, d, s, rest, hs => .boolean b hs
  | .integer n, d, s, rest, hs => by
    rw [Value.tree]
    apply Spells.number
    rw [Numeral.chars_ofInt]
    exact hs
  | .double x, d, s, rest, hs => by
    rw [Value.write, Value.writeDouble] at hs
    by_cases h : x.isFinite = true
    · rw [Value.tree_double h]
      apply Spells.number
      rwa [if_pos h, ← Numeral.chars_ofDouble h] at hs
    · rw [Value.tree, dif_neg h]
      apply Spells.null
      rwa [if_neg h] at hs
  | .text t, d, s, rest, hs => by
    rw [Value.write, Piece.writeText_eq] at hs
    exact .text _ hs
  | .list [], d, s, rest, hs => .list hs (.listEnd (.refl _))
  | .list (v :: vs), d, s, rest, hs => by
    rw [Value.write, writeElements_cons] at hs
    simp only [List.append_assoc, List.cons_append] at hs
    refine .list hs (.element rfl (spells_tree v _ (pads_newline _ _)) ?_)
    exact spells_further vs _ (pads_newline d _)
  | .object [], d, s, rest, hs => .object hs (.objectEnd (.refl _))
  | .object ((name, v) :: ms), d, s, rest, hs => by
    rw [Value.write, writeMembers_cons] at hs
    simp only [List.append_assoc, List.cons_append] at hs
    obtain ⟨w, hcolon, hw⟩ := pads_colonAt (d.map (· + 1))
      (v.write _ ++ (writeFurtherMembers _ ms ++ (newline d ++ '\x7d' :: rest)))
    refine .object hs (.member rfl (pads_newline _ _) hcolon (spells_tree v _ hw) ?_)
    exact spells_furtherMembers ms _ (pads_newline d _)

theorem spells_further : (vs : List Value) → (d : Depth) → {tail rest : List Char} →
    Pads tail (']' :: rest) →
    Spells (.elements false (Value.trees vs)) (writeFurther d vs ++ tail) rest
  | [], d, tail, rest, hclose => .listEnd hclose
  | v :: vs, d, tail, rest, hclose => by
    rw [writeFurther, writeElements_cons]
    simp only [List.append_assoc, List.cons_append]
    exact .element (.refl _) (spells_tree v d (pads_newline d _)) (spells_further vs d hclose)

theorem spells_furtherMembers : (ms : List (String × Value)) → (d : Depth) →
    {tail rest : List Char} → Pads tail ('\x7d' :: rest) →
    Spells (.members false (Value.memberTrees ms)) (writeFurtherMembers d ms ++ tail) rest
  | [], d, tail, rest, hclose => .objectEnd hclose
  | (name, v) :: ms, d, tail, rest, hclose => by
    rw [writeFurtherMembers, writeMembers_cons]
    simp only [List.append_assoc, List.cons_append]
    obtain ⟨w, hcolon, hw⟩ := pads_colonAt d (v.write d ++ (writeFurtherMembers d ms ++ tail))
    exact .member (.refl _) (pads_newline d _) hcolon (spells_tree v d hw)
      (spells_furtherMembers ms d hclose)

end

namespace Value

/-- The text is a spelling of the value, with blanks wherever they can stand. -/
def SpelledBy (v : Value) (text : String) : Prop := v.tree.SpelledBy text

theorem spelledBy_write (v : Value) (d : Depth) : v.SpelledBy (String.ofList (v.write d)) := by
  refine ⟨[], spells_tree v d ?_, .refl _⟩
  rw [String.toList_ofList, List.append_nil]
  exact .refl _

theorem spelledBy_compact (v : Value) : v.SpelledBy v.compact := spelledBy_write v none

theorem spelledBy_indented (v : Value) : v.SpelledBy v.indented := spelledBy_write v (some 0)

end Value

/-! ## Objects -/

namespace Tree

/-- The names of the members of an object, in their order. -/
def names? : Tree → Option (List String)
  | object ms => ms.mapM fun m => Piece.text? m.1
  | _ => none

/-- The first member of this name, in an object. -/
def member? (name : String) : Tree → Option Tree
  | object ms => (ms.find? fun m => Piece.text? m.1 = some name).map Prod.snd
  | _ => none

theorem names?_tree (ms : List (String × Value)) :
    (Value.object ms).tree.names? = some (ms.map Prod.fst) := by
  rw [Value.tree, names?, Value.memberTrees_eq_map, List.mapM_map]
  have hname : ((fun m : Member => Piece.text? m.1) ∘
      fun m : String × Value => (Piece.ofText m.1, m.2.tree)) = fun m => some m.1 :=
    funext fun m => Piece.text?_ofText m.1
  rw [hname]
  exact List.mapM_pure

theorem member?_tree (name : String) (ms : List (String × Value)) :
    (Value.object ms).tree.member? name = (ms.lookup name).map Value.tree := by
  rw [Value.tree, member?, Value.memberTrees_eq_map]
  induction ms with
  | nil => rfl
  | cons m ms ih =>
    rw [List.map_cons, List.find?_cons, List.lookup_cons]
    dsimp only
    rw [Piece.text?_ofText]
    by_cases hm : m.1 = name
    · simp [hm]
    · have hne : (name == m.1) = false := by simpa using Ne.symm hm
      rw [hne]
      simpa [hm] using ih

end Tree

/-! ## Reading back -/

section

variable {α β δ : Type}

namespace Value

theorem as_boolean (b : Bool) : (boolean b).tree.as readBoolean = some b :=
  means_boolean.as_eq _

theorem as_text (s : String) : (text s).tree.as readText = some s :=
  (means_text.as_eq _).trans (Piece.text?_ofText s)

theorem as_double {x : Float} (h : x.isFinite = true) :
    (double x).tree.as readDouble = some (reread x) := by
  rw [means_double.as_eq, tree_double h, Tree.double?, Numeral.number?]
  show (((written x).literal (isNegative x)).number.toOption).map _ = _
  rw [number_written h]
  rfl

theorem as_natural {n : Nat} (h : n < Literal.wordLimit) :
    (integer n).tree.as readNatural = some n := by
  have hliteral : Literal.ofInt n = .ofNat n := by simp [Literal.ofInt, Literal.ofNat]
  rw [means_natural.as_eq, tree, Tree.natural?, Numeral.number?]
  show ((Literal.ofInt n).number.toOption).bind _ = _
  rw [hliteral, Literal.number_ofNat h]
  show Number.natural? (.integer n) = some n
  rw [Number.natural?, if_neg (by omega), Int.toNat_natCast]

/-- A name out of a set is read as what it is listed with. -/
theorem as_choice {names : List (String × α)} {name : String} {a : α}
    (h : names.lookup name = some a) : (text name).tree.as (readChoice names) = some a := by
  rw [(means_choice names).as_eq, tree, Tree.choice?, Piece.text?_ofText]
  exact h

/-- A list is read element by element. -/
theorem as_list {read : Reader β} {m : Tree → Option β} (hm : Means read m) {f : α → Value}
    {g : α → β} {l : List α} (h : ∀ a ∈ l, (f a).tree.as read = some (g a)) :
    (list (l.map f)).tree.as (readList read) = some (l.map g) := by
  rw [(means_list hm).as_eq, tree, trees_eq_map, List.map_map, Tree.list?]
  induction l with
  | nil => rfl
  | cons a l ih =>
    obtain ⟨ha, hl⟩ := List.forall_mem_cons.mp h
    rw [hm.as_eq] at ha
    rw [List.map_cons, List.mapM_cons, ih hl, Function.comp_apply, ha]
    rfl

end Value

namespace Shape

variable {sh : Shape δ α} {d d' e : δ}

/-- The members, as they are written, take the draft from the one to the other. -/
def Fills (sh : Shape δ α) (d : δ) (ms : List (String × Value)) (e : δ) : Prop :=
  sh.fill (some d) (Value.memberTrees ms) = some e

theorem Fills.nil (d : δ) : sh.Fills d [] d := rfl

theorem Fills.cons {m : String × Value} {ms : List (String × Value)}
    (h : sh.act m.1 d m.2.tree = some d') (hs : sh.Fills d' ms e) : sh.Fills d (m :: ms) e := by
  show sh.fill ((Piece.text? (Piece.ofText m.1)).bind fun name => sh.act name d m.2.tree)
    (Value.memberTrees ms) = some e
  rw [Piece.text?_ofText, Option.bind_some, h]
  exact hs

theorem Fills.append {ms ms' : List (String × Value)} (h : sh.Fills d ms d')
    (h' : sh.Fills d' ms' e) : sh.Fills d (ms ++ ms') e := by
  rw [Fills, fill, Value.memberTrees_eq_map] at h h' ⊢
  rw [List.map_append, List.foldl_append, h, h']

/-- A member goes into its field, if that is not filled yet. -/
theorem act_field {name : String} {get : δ → Option β} {set : δ → β → δ} {read : Reader β}
    {v : Value} {b : β}
    (hfield : sh.fields.find? (·.name == name) = some (.of name get set read))
    (hget : get d = none) (hread : v.tree.as read = some b) :
    sh.act name d v.tree = some (set d b) := by
  have hset : (Field.of name get set read).isSet d = false := by
    show (get d).isSome = false
    rw [hget]
    rfl
  rw [act, hfield]
  dsimp only
  rw [Field.act_of_not_isSet hset, Field.as_of, hread]
  rfl

/-- Members with names that no field has leave the draft as it is. -/
theorem fills_unknown {ms : List (String × Value)}
    (hms : ∀ m ∈ ms, sh.fields.find? (·.name == m.1) = none) (d : δ) : sh.Fills d ms d := by
  induction ms with
  | nil => exact .nil d
  | cons m ms ih =>
    obtain ⟨hm, hms⟩ := List.forall_mem_cons.mp hms
    refine .cons ?_ (ih hms)
    rw [act, hm]

/-- A record is read if its members fill the draft of one. -/
theorem as_object {ms : List (String × Value)} {a : α} (h : ∀ f ∈ sh.fields, f.Uniform)
    (hfills : sh.Fills sh.blank ms e) (hfinish : sh.finish e = .ok a) :
    (Value.object ms).tree.as sh.read = some a := by
  rw [(means_read h).as_eq, Value.tree, tree?, hfills, Option.bind_some, finished?, hfinish]
  rfl

end Shape

/-- What a value is read as, it is read as in ANY spelling. -/
theorem Means.readAll_spelledBy {read : Reader α} {m : Tree → Option α} (hm : Means read m)
    {v : Value} {a : α} (hv : v.tree.as read = some a) {text : String} (ht : v.SpelledBy text) :
    Json.readAll read text.toList = .ok a := by
  have hread : (Json.readAll read text.toList).toOption = some a := by
    rw [hm.readAll ht, ← hm.as_eq, hv]
  cases hr : Json.readAll read text.toList with
  | error e => rw [hr] at hread; cases hread
  | ok b => rw [hr] at hread; exact congrArg Except.ok (Option.some.inj hread)

theorem Means.decode_spelledBy {read : Reader α} {m : Tree → Option α} (hm : Means read m)
    {v : Value} {a : α} (hv : v.tree.as read = some a) {text : String} (ht : v.SpelledBy text) :
    decode read text = .ok a := by
  rw [decode, hm.readAll_spelledBy hv ht]
  rfl

end

end Json

end DragDrop
