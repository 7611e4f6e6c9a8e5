import DragDrop.Json.Leaf
import DragDrop.Proofs.Decimal.Literal
import DragDrop.Proofs.Json.Tree

/-! What readers of single values make of a value, however it is spelled. A reader is seen
here as a partial function on texts: that it fails is kept, and why it does is not. A value
of the wrong kind is found out by its FIRST character. -/

namespace DragDrop.Json

variable {α β : Type} {s rest : List Char}

/-- What was read and what is left of the text, if nothing went wrong. -/
def view (x : Except Fault (Read s α)) : Option (α × List Char) :=
  x.toOption.map fun r => (r.value, r.rest)

theorem view_eq_some_iff {x : Except Fault (Read s α)} {a : α} :
    view x = some (a, rest) ↔ ∃ r, x = .ok r ∧ r.value = a ∧ r.rest = rest := by
  cases x <;> simp [view, Except.toOption]

theorem view_eq_none_iff {x : Except Fault (Read s α)} : view x = none ↔ ∃ e, x = .error e := by
  cases x <;> simp [view, Except.toOption]

/-- Where one reader goes on behind another one, it sees what that one has left. -/
theorem view_bind {t : List Char} {x : Except Fault (Read t β)}
    {f : Read t β → Except Fault (Read s α)} {g : β × List Char → Option (α × List Char)}
    (h : ∀ r : Read t β, view (f r) = g (r.value, r.rest)) : view (x >>= f) = (view x).bind g := by
  cases x with
  | error e => rfl
  | ok r => exact h r

theorem view_map {t : List Char} {x : Except Fault (Read t β)} {f : Read t β → Read s α}
    {g : β → α} (hv : ∀ r : Read t β, (f r).value = g r.value)
    (hr : ∀ r : Read t β, (f r).rest = r.rest) :
    view (x.map f) = (view x).map fun p => (g p.1, p.2) := by
  cases x with
  | error e => rfl
  | ok r => exact congrArg some (Prod.ext (hv r) (hr r))

theorem view_after (t : Read s β) (x : Except Fault (Read t.rest α)) :
    view (x.map t.after) = view x := by
  cases x <;> rfl

/-- A reader goes by the first character that is no blank. -/
theorem Opens.view_eq {t : List Char} {c : Char} (h : Opens s c t)
    {read : (s : List Char) → Read s Char → Except Fault (Read s α)} {o : Option (α × List Char)}
    (hread : ∀ r : Read s Char, r.value = c → r.rest = t → view (read s r) = o) :
    view (onValue (read s)) = o := by
  obtain ⟨r, hr, hc, ht⟩ := h
  rw [onValue, hr]
  exact hread r hc ht

/-! ## Numerals -/

/-- A numeral begins with a minus or a digit. -/
theorem front_begin {l : Literal} (hl : l.WellFormed) :
    ∃ c t, l.front = c :: t ∧ beginsNumber c = true := by
  cases hn : l.negative with
  | true => exact ⟨'-', _, by rw [Literal.front, hn]; rfl, rfl⟩
  | false =>
    obtain ⟨c, cs, hw⟩ := List.exists_cons_of_ne_nil hl.whole_ne_nil
    have hc := hl.whole c (by rw [hw]; exact List.mem_cons_self)
    refine ⟨c, _, by rw [Literal.front, hn, hw]; rfl, ?_⟩
    rw [beginsNumber, hc, Bool.or_true]

theorem ne_of_beginsNumber {c d : Char} (h : beginsNumber c = true)
    (hd : beginsNumber d = false) : c ≠ d := by
  rintro rfl
  rw [h] at hd
  cases hd

theorem isBlank_of_beginsNumber {c : Char} (h : beginsNumber c = true) : isBlank c = false := by
  by_contra hb
  rw [Bool.not_eq_false] at hb
  simp only [isBlank, Bool.or_eq_true, beq_iff_eq] at hb
  rcases hb with ((rfl | rfl) | rfl) | rfl <;> exact absurd h (by decide)

namespace Numeral

/-- Nothing but the digits of a number. -/
def ofNat (n : Nat) : Numeral := ⟨.ofNat n, Literal.wellFormed_ofNat n, false, false⟩

variable (n : Numeral)

theorem chars_begin : ∃ c t, n.chars = c :: t ∧ beginsNumber c = true := by
  obtain ⟨c, t, hc, hb⟩ := front_begin n.wellFormed
  exact ⟨c, t ++ n.exponentChars, by rw [chars, hc]; rfl, hb⟩

theorem exponentSign_spelled (negative plus : Bool) {s : List Char}
    (hs : ∀ c ∈ s.head?, c.isDigit = true) :
    ∃ r, exponentSign ((if negative then ['-'] else if plus then ['+'] else []) ++ s) =
      (negative, r) ∧ r.chars = s := by
  cases negative with
  | true => exact ⟨(Rest.all s).behind '-', rfl, rfl⟩
  | false =>
    cases plus with
    | true => exact ⟨(Rest.all s).behind '+', rfl, rfl⟩
    | false =>
      refine ⟨.all s, ?_, rfl⟩
      show exponentSign s = _
      unfold exponentSign
      split
      · exact absurd (hs '-' rfl) (by decide)
      · exact absurd (hs '+' rfl) (by decide)
      · rfl

theorem exponentPart_spelled (atEnd : Cause) (hr : EndsNumber rest) {s : List Char}
    (hs : s = n.exponentChars ++ rest) :
    ∃ r, exponentPart atEnd s = .ok (n.literal.exponent, r) ∧ r.chars = rest := by
  subst hs
  cases he : n.literal.exponent with
  | none =>
    have hspelled : n.exponentChars = [] := by rw [exponentChars, he]; rfl
    rw [hspelled]
    exact ⟨.all rest, exponentPart_none atEnd hr, rfl⟩
  | some x =>
    obtain ⟨hd, h0⟩ := n.wellFormed.exponent x he
    obtain ⟨d, ds, hds⟩ := List.exists_cons_of_ne_nil h0
    have hdigit : ∀ c ∈ (x.digits ++ rest).head?, c.isDigit = true := by
      rw [hds]
      rintro c ⟨⟩
      exact hd d (by rw [hds]; exact List.mem_cons_self)
    obtain ⟨b, hb, hbody⟩ := exponentSign_spelled x.negative n.plus hdigit
    obtain ⟨r, hdigits, hrest⟩ := someDigits_append atEnd hbody hd h0 hr.noDigit
    have hspelled : n.exponentChars ++ rest = (if n.capital then 'E' else 'e') ::
        ((if x.negative then ['-'] else if n.plus then ['+'] else []) ++ (x.digits ++ rest)) := by
      rw [exponentChars, he, Option.elim_some, List.cons_append, List.append_assoc]
    have hletter : (if n.capital then 'E' else 'e') = 'e' ∨
        (if n.capital then 'E' else 'e') = 'E' := by
      cases n.capital <;> simp
    rw [hspelled, exponentPart, if_pos hletter, hb]
    dsimp only
    rw [hdigits]
    exact ⟨_, rfl, hrest⟩

theorem exponentChars_noDigit (hr : EndsNumber rest) :
    NoDigit (n.exponentChars ++ rest) ∧ ∀ c ∈ (n.exponentChars ++ rest).head?, c ≠ '.' := by
  cases he : n.literal.exponent with
  | none =>
    rw [exponentChars, he]
    exact ⟨hr.noDigit, fun c hc => (hr c hc).2.1⟩
  | some x =>
    rw [exponentChars, he]
    cases n.capital <;> exact ⟨noDigit_cons rfl _, by rintro c ⟨⟩; decide⟩

theorem takes_numeral (atEnd : Cause) (hr : EndsNumber rest) :
    Takes (numeral atEnd) (n.chars ++ rest) n.literal rest := by
  obtain ⟨hdigit, hpoint⟩ := n.exponentChars_noDigit hr
  rw [chars, List.append_assoc]
  apply takes_numeral_of_exponent atEnd n.wellFormed _ hdigit hpoint
  intro s hs
  exact n.exponentPart_spelled atEnd hr hs

/-- The number, unless it is too great to be used. -/
def number? : Option Number := n.literal.number.toOption

theorem view_openNumber (hr : EndsNumber rest) :
    view (openNumber (n.chars ++ rest)) = n.number?.map fun x => (x, rest) := by
  obtain ⟨r, hnum, hv, hrest⟩ := n.takes_numeral .endInValue hr
  rw [openNumber, hnum, number?]
  dsimp only [bind, Except.bind]
  rw [hv]
  cases n.literal.number with
  | ok x => exact congrArg some (Prod.ext rfl hrest)
  | error unread => rfl

end Numeral

/-! ## The first character -/

namespace Tree

/-- The characters that a value can begin with. -/
def begins : Tree → Char → Bool
  | null, c => c == 'n'
  | boolean _, c => c == 't' || c == 'f'
  | number _, c => beginsNumber c
  | text _, c => c == '"'
  | list _, c => c == '['
  | object _, c => c == '\x7b'

variable {t : Tree} {c d : Char}

theorem ne_of_begins (h : t.begins c = true) (hd : t.begins d = false) : c ≠ d := by
  rintro rfl
  rw [h] at hd
  exact Bool.false_ne_true hd.symm

theorem isBlank_of_begins (h : t.begins c = true) : isBlank c = false := by
  cases t with
  | number n => exact isBlank_of_beginsNumber h
  | boolean b =>
    rw [begins, Bool.or_eq_true, beq_iff_eq, beq_iff_eq] at h
    rcases h with rfl | rfl <;> rfl
  | null | text | list | object => obtain rfl := beq_iff_eq.mp h; rfl

/-- Only numbers begin like numbers. -/
theorem beginsNumber_of_begins (h : t.begins c = true) (hn : ∀ n, t ≠ .number n) :
    beginsNumber c = false := by
  cases t with
  | number n => exact absurd rfl (hn n)
  | boolean b =>
    rw [begins, Bool.or_eq_true, beq_iff_eq, beq_iff_eq] at h
    rcases h with rfl | rfl <;> rfl
  | null | text | list | object => obtain rfl := beq_iff_eq.mp h; rfl

end Tree

/-- In front of a value there is nothing but blanks. -/
theorem Spells.exists_begin {t : Tree} (h : Spells (.value t) s rest) :
    ∃ c u, Pads s (c :: u) ∧ t.begins c = true ∧ Spells (.value t) (c :: u) rest := by
  cases h with
  | null h => exact ⟨_, _, h, rfl, .null (.refl _)⟩
  | boolean b h => cases b <;> exact ⟨_, _, h, rfl, .boolean _ (.refl _)⟩
  | number n h =>
    obtain ⟨c, u, hc, hb⟩ := n.chars_begin
    rw [hc] at h
    refine ⟨c, u ++ rest, h, hb, .number n ?_⟩
    rw [hc]
    exact .refl _
  | text ps h => exact ⟨_, _, h, rfl, .text ps (.refl _)⟩
  | list h hts => exact ⟨_, _, h, rfl, .list (.refl _) hts⟩
  | object h hms => exact ⟨_, _, h, rfl, .object (.refl _) hms⟩

theorem Spells.opens {t : Tree} (h : Spells (.value t) s rest) :
    ∃ c u, Opens s c u ∧ t.begins c = true := by
  obtain ⟨c, u, hpads, hb, -⟩ := h.exists_begin
  exact ⟨c, u, hpads.opens_cons (Tree.isBlank_of_begins hb), hb⟩

/-- A reader fails that has no use for what the value begins with. -/
theorem Spells.view_eq_none {t : Tree} (h : Spells (.value t) s rest)
    {read : (s : List Char) → Read s Char → Except Fault (Read s α)}
    (hread : ∀ r : Read s Char, t.begins r.value = true → ∃ e, read s r = .error e) :
    view (onValue (read s)) = none := by
  obtain ⟨c, u, hopen, hb⟩ := h.opens
  apply hopen.view_eq
  intro r hc _
  rw [← hc] at hb
  exact view_eq_none_iff.mpr (hread r hb)

/-- However a tree is spelled, the reader takes it for this, or fails if this is none. -/
def Means (read : Reader α) (m : Tree → Option α) : Prop :=
  ∀ t s rest, Spells (.value t) s rest → EndsNumber rest →
    view (read s) = (m t).map fun a => (a, rest)

theorem Means.map {read : Reader α} {m : Tree → Option α} (h : Means read m) (f : α → β) :
    Means (read.map f) fun t => (m t).map f := by
  intro t s rest hs hr
  rw [Reader.map, view_map (g := f) (fun _ => rfl) (fun _ => rfl), h t s rest hs hr, Option.map_map,
    Option.map_map]
  rfl

/-! ## Single values -/

theorem view_wordFor {t : Read s Char} {w : List Char} (ht : t.rest = w ++ rest) (a : α) :
    view (wordFor t w a) = some (a, rest) := by
  obtain ⟨r, hr, hrest⟩ := word_append ht
  rw [wordFor, hr]
  exact congrArg some (Prod.ext rfl hrest)

def Tree.boolean? : Tree → Option Bool
  | .boolean b => some b
  | _ => none

theorem means_boolean : Means readBoolean Tree.boolean? := by
  intro t s rest h _
  cases t with
  | boolean b =>
    cases h with
    | boolean b h =>
      cases b with
      | false =>
        apply (h.opens_cons rfl).view_eq
        intro r hc ht
        rw [hc, if_neg (by simp), if_pos rfl]
        exact view_wordFor ht false
      | true =>
        apply (h.opens_cons rfl).view_eq
        intro r hc ht
        rw [if_pos hc]
        exact view_wordFor ht true
  | null | number | text | list | object =>
    apply h.view_eq_none
    intro r hb
    rw [if_neg (Tree.ne_of_begins hb rfl), if_neg (Tree.ne_of_begins hb rfl)]
    exact ⟨_, rfl⟩

def Tree.null? : Tree → Option Unit
  | .null => some ()
  | _ => none

theorem means_null : Means readNull Tree.null? := by
  intro t s rest h _
  cases t with
  | null =>
    cases h with
    | null h =>
      apply (h.opens_cons rfl).view_eq
      intro r hc ht
      rw [if_pos hc]
      exact view_wordFor ht ()
  | boolean | number | text | list | object =>
    apply h.view_eq_none
    intro r hb
    rw [if_neg (Tree.ne_of_begins hb rfl)]
    exact ⟨_, rfl⟩

/-- A number is read on from its first character. -/
theorem Spells.view_number {n : Numeral} (h : Spells (.value (.number n)) s rest)
    (hr : EndsNumber rest) {read : (s : List Char) → Read s Char → Except Fault (Read s α)}
    {o : Option (α × List Char)}
    (hread : ∀ t : Read s Char, beginsNumber t.value = true →
      view (openNumber t.again) = n.number?.map (fun x => (x, rest)) → view (read s t) = o) :
    view (onValue (read s)) = o := by
  cases h with
  | number n h =>
    obtain ⟨c, u, hc, hb⟩ := n.chars_begin
    have hnumber := n.view_openNumber hr
    rw [hc, List.cons_append] at h hnumber
    apply (h.opens_cons (isBlank_of_beginsNumber hb)).view_eq
    intro t hv ht
    apply hread t (hv ▸ hb)
    rw [← hnumber, Read.again, hv, ht]

def Tree.double? : Tree → Option Float
  | .number n => n.number?.map Number.toFloat
  | _ => none

theorem means_double : Means readDouble Tree.double? := by
  intro t s rest h hr
  cases t with
  | number n =>
    apply h.view_number hr
    intro t hb hnumber
    rw [if_pos hb, view_bind (g := fun p => some (p.1.toFloat, p.2)) (fun _ => rfl), hnumber,
      Tree.double?]
    cases n.number? <;> rfl
  | null | boolean | text | list | object =>
    apply h.view_eq_none
    intro r hb
    have hn := Tree.beginsNumber_of_begins hb (by intro n hn; cases hn)
    rw [hn, if_neg (by simp)]
    exact ⟨_, rfl⟩

/-- The integer, if it is one that is not negative. -/
def Number.natural? : Number → Option Nat
  | .integer i => if i < 0 then none else some i.toNat
  | .double _ => none

def Tree.natural? : Tree → Option Nat
  | .number n => n.number?.bind Number.natural?
  | _ => none

theorem means_natural : Means readNatural Tree.natural? := by
  intro t s rest h hr
  cases t with
  | number n =>
    apply h.view_number hr
    intro t hb hnumber
    rw [if_pos hb, view_bind (g := fun p => (Number.natural? p.1).map fun i => (i, p.2)), hnumber,
      Tree.natural?]
    · cases n.number? <;> rfl
    · intro r
      cases r.value with
      | integer i =>
        dsimp only [Number.natural?]
        split <;> rfl
      | double x => rfl
  | null | boolean | text | list | object =>
    apply h.view_eq_none
    intro r hb
    have hn := Tree.beginsNumber_of_begins hb (by intro n hn; cases hn)
    rw [hn, if_neg (by simp)]
    exact ⟨_, rfl⟩

/-! ## Texts -/

namespace Piece

theorem spelled_unit (a b c d : HexDigit) (ps : List Piece) (rest : List Char) :
    spelled (unit a b c d :: ps) ++ rest =
      '\\' :: 'u' :: a.val :: b.val :: c.val :: d.val :: (spelled ps ++ rest) := rfl

theorem view_codeUnit (a b c d : HexDigit) (rest : List Char) :
    view (codeUnit (a.val :: b.val :: c.val :: d.val :: rest)) = some (code a b c d, rest) := by
  have hdigit (x : HexDigit) : hexValue? x.val = some x.value := (Option.some_get _).symm
  unfold codeUnit
  simp only [hdigit]
  rfl

/-- The second half of a pair, if it comes next. -/
def low? : List Piece → Option (Nat × List Piece)
  | unit a b c d :: ps =>
    if isLowHalf (code a b c d) then some (code a b c d, ps) else none
  | _ => none

theorem view_lowHalf_of_ne {s : List Char} (h : ∀ t, s ≠ '\\' :: 'u' :: t) :
    view (lowHalf s) = none := by
  apply view_eq_none_iff.mpr
  unfold lowHalf
  split
  · exact ⟨_, rfl⟩
  · exact ⟨_, rfl⟩
  · exact absurd rfl (h _)
  · exact ⟨_, rfl⟩
  · exact ⟨_, rfl⟩

theorem view_lowHalf (ps : List Piece) (rest : List Char) :
    view (lowHalf (spelled ps ++ '"' :: rest)) =
      (low? ps).map fun p => (p.1, spelled p.2 ++ '"' :: rest) := by
  cases ps with
  | nil => rfl
  | cons p ps =>
    cases p with
    | plain c quote slash control =>
      apply view_lowHalf_of_ne
      intro t ht
      exact slash (List.head_eq_of_cons_eq ht)
    | letter l c means =>
      apply view_lowHalf_of_ne
      intro t ht
      obtain rfl : l = 'u' := List.head_eq_of_cons_eq (List.tail_eq_of_cons_eq ht)
      exact Option.some_ne_none c (means.symm.trans (by decide))
    | unit a b c d =>
      show view (do
        let n ← codeUnit (a.val :: b.val :: c.val :: d.val :: (spelled ps ++ '"' :: rest))
        if isLowHalf n.value then return (n.behind 'u').behind '\\'
        else .error (.here .unpaired n.rest)) = _
      rw [view_bind (g := fun n => if isLowHalf n.1 then some n else none), view_codeUnit, low?]
      · rw [Option.bind_some]
        split <;> rfl
      · intro r
        dsimp only
        split <;> rfl

theorem view_coded (a b c d : HexDigit) (more : List Char) :
    view (coded (a.val :: b.val :: c.val :: d.val :: more)) =
      if isLowHalf (code a b c d) then none
      else if isHighHalf (code a b c d) then
        (view (lowHalf more)).map fun m => (joined (code a b c d) m.1, m.2)
      else some (Char.ofNat (code a b c d), more) := by
  unfold coded
  rw [view_bind (g := fun n => if isLowHalf n.1 then none
    else if isHighHalf n.1 then (view (lowHalf n.2)).map fun m => (joined n.1 m.1, m.2)
    else some (Char.ofNat n.1, n.2)), view_codeUnit, Option.bind_some]
  intro r
  dsimp only
  split
  · rfl
  · split
    · generalize joined r.value = pair
      rw [view_bind (g := fun m => some (pair m.1, m.2)) (fun _ => rfl), Option.map_eq_bind]
      rfl
    · rfl

theorem view_escape_unit (a b c d : HexDigit) (more : List Char) :
    view (escape ('u' :: a.val :: b.val :: c.val :: d.val :: more)) =
      view (coded (a.val :: b.val :: c.val :: d.val :: more)) := by
  have hnone : ofLetter? 'u' = none := by decide
  rw [escape, hnone]
  dsimp only
  rw [if_pos rfl]
  cases coded (a.val :: b.val :: c.val :: d.val :: more) <;> rfl

theorem view_escape_letter {l c : Char} (h : ofLetter? l = some c) (more : List Char) :
    view (escape (l :: more)) = some (c, more) := by
  rw [escape, h]
  rfl

theorem view_textBody_escape (e : List Char) :
    view (textBody ('\\' :: e)) = (view (escape e)).bind fun d =>
      (view (textBody d.2)).map fun p => (d.1 :: p.1, p.2) := by
  rw [textBody, if_neg (by simp), if_pos rfl]
  apply view_bind
  intro r
  rw [view_bind (g := fun p => some (r.value :: p.1, p.2)) (fun _ => rfl)]
  cases view (textBody r.rest) <;> rfl

theorem view_textBody_plain {c : Char} (quote : c ≠ '"') (slash : c ≠ '\\') (control : ¬c < ' ')
    (more : List Char) :
    view (textBody (c :: more)) = (view (textBody more)).map fun p => (c :: p.1, p.2) := by
  rw [textBody, if_neg quote, if_neg slash, if_neg control,
    view_bind (g := fun p => some (c :: p.1, p.2)) (fun _ => rfl)]
  cases view (textBody more) <;> rfl

/-- A text is read to its quote, and it is what its pieces mean. -/
theorem view_textBody (ps : List Piece) (rest : List Char) :
    view (textBody (spelled ps ++ '"' :: rest)) = (meaning ps).map fun cs => (cs, rest) := by
  fun_induction meaning ps with
  | case1 =>
    show view (textBody ('"' :: rest)) = _
    rw [textBody, if_pos rfl]
    rfl
  | case2 c quote slash control ps ih =>
    show view (textBody (c :: (spelled ps ++ '"' :: rest))) = _
    rw [view_textBody_plain quote slash control, ih]
    cases meaning ps <;> rfl
  | case3 l c means ps ih =>
    show view (textBody ('\\' :: l :: (spelled ps ++ '"' :: rest))) = _
    rw [view_textBody_escape, view_escape_letter means, Option.bind_some, ih]
    cases meaning ps <;> rfl
  | case4 a b c d ps hlow =>
    rw [spelled_unit, view_textBody_escape, view_escape_unit, view_coded, if_pos hlow]
    rfl
  | case5 a b c d hlow hhigh a' b' c' d' ps hlow' ih =>
    rw [spelled_unit, view_textBody_escape, view_escape_unit, view_coded, if_neg hlow,
      if_pos hhigh, view_lowHalf, low?, if_pos hlow']
    generalize joined (code a b c d) = pair
    rw [Option.map_some, Option.map_some, Option.bind_some, ih]
    cases meaning ps <;> rfl
  | case6 a b c d hlow hhigh a' b' c' d' ps hlow' =>
    rw [spelled_unit, view_textBody_escape, view_escape_unit, view_coded, if_neg hlow,
      if_pos hhigh, view_lowHalf, low?, if_neg hlow']
    rfl
  | case7 a b c d ps hlow hhigh hnone =>
    have hps : low? ps = none := by
      unfold low?
      split
      · exact absurd rfl (hnone _ _ _ _ _)
      · rfl
    rw [spelled_unit, view_textBody_escape, view_escape_unit, view_coded, if_neg hlow,
      if_pos hhigh, view_lowHalf, hps]
    rfl
  | case8 a b c d ps hlow hhigh ih =>
    rw [spelled_unit, view_textBody_escape, view_escape_unit, view_coded, if_neg hlow,
      if_neg hhigh, Option.bind_some, ih]
    cases meaning ps <;> rfl

theorem view_openText (ps : List Piece) (rest : List Char) :
    view (openText (spelled ps ++ '"' :: rest)) = (text? ps).map fun n => (n, rest) := by
  rw [openText, view_map (g := String.ofList) (fun _ => rfl) (fun _ => rfl), view_textBody, text?]
  cases meaning ps <;> rfl

end Piece

/-- A text is read on from behind its quote. -/
theorem Spells.view_text {ps : List Piece} (h : Spells (.value (.text ps)) s rest)
    {read : (s : List Char) → Read s Char → Except Fault (Read s α)}
    {o : Option (α × List Char)}
    (hread : ∀ t : Read s Char, t.value = '"' →
      view (openText t.rest) = (Piece.text? ps).map (fun n => (n, rest)) → view (read s t) = o) :
    view (onValue (read s)) = o := by
  cases h with
  | text ps h =>
    apply (h.opens_cons rfl).view_eq
    intro t hv ht
    apply hread t hv
    rw [← Piece.view_openText, ht]

def Tree.text? : Tree → Option String
  | .text ps => Piece.text? ps
  | _ => none

theorem means_text : Means readText Tree.text? := by
  intro t s rest h _
  cases t with
  | text ps =>
    apply h.view_text
    intro t hv htext
    rw [if_pos hv, view_after]
    exact htext
  | null | boolean | number | list | object =>
    apply h.view_eq_none
    intro r hb
    rw [if_neg (Tree.ne_of_begins hb rfl)]
    exact ⟨_, rfl⟩

/-- Nothing is read for a value that is `null`, and else the value. -/
def Tree.optional? (m : Tree → Option α) : Tree → Option (Option α)
  | .null => some none
  | t => (m t).map some

theorem means_optional {read : Reader α} {m : Tree → Option α} (h : Means read m) :
    Means (readOptional read) (Tree.optional? m) := by
  intro t s rest hs hr
  cases t with
  | null =>
    cases hs with
    | null hs =>
      obtain ⟨r, hn, hv, hrest⟩ := hs.opens_cons rfl
      unfold readOptional
      rw [hn]
      dsimp only
      rw [if_pos hv]
      exact view_wordFor hrest none
  | boolean | number | text | list | object =>
    obtain ⟨c, u, ⟨r, hn, rfl, -⟩, hb⟩ := hs.opens
    have hne : r.value ≠ 'n' :=
      Tree.ne_of_begins hb rfl
    unfold readOptional
    rw [hn]
    dsimp only
    rw [if_neg hne, view_map (g := some) (fun _ => rfl) (fun _ => rfl), h _ s rest hs hr]
    simp only [Tree.optional?, Option.map_map]
    rfl

end DragDrop.Json
