import DragDrop.Json.Numeral
import DragDrop.Proofs.Json.Reader

/-! Numbers are taken apart as they were put together. A numeral ends where neither
a digit nor a point nor an exponent follows, and nothing of it is left behind. -/

namespace DragDrop

/-- Nothing but digits. -/
def AllDigits (s : List Char) : Prop := ∀ c ∈ s, c.isDigit = true

namespace Literal

/-- An exponent as it stands in a text, if there is one. Its sign is always given. -/
def exponentChars : Option Exponent → List Char
  | none => []
  | some e => 'e' :: (if e.negative then '-' else '+') :: e.digits

/-- The literal as it stands in a text, short of its exponent. -/
def front (l : Literal) : List Char :=
  (if l.negative then ['-'] else []) ++ (l.whole ++
    (if l.fraction = [] then [] else '.' :: l.fraction))

/-- The literal as it stands in a text. -/
def chars (l : Literal) : List Char :=
  (if l.negative then ['-'] else []) ++ (l.whole ++
    ((if l.fraction = [] then [] else '.' :: l.fraction) ++ exponentChars l.exponent))

theorem chars_eq (l : Literal) : l.chars = l.front ++ exponentChars l.exponent := by
  simp only [chars, front, List.append_assoc]

/-- What a literal has to look like. No digit stands behind a zero in front. -/
structure WellFormed (l : Literal) : Prop where
  whole : AllDigits l.whole
  whole_ne_nil : l.whole ≠ []
  head : l.whole.head? = some '0' → l.whole = ['0']
  fraction : AllDigits l.fraction
  exponent : ∀ e ∈ l.exponent, AllDigits e.digits ∧ e.digits ≠ []

end Literal

namespace Json

open Literal

/-- A number that came before this has come to its end. -/
def EndsNumber (s : List Char) : Prop :=
  ∀ c ∈ s.head?, c.isDigit = false ∧ c ≠ '.' ∧ c ≠ 'e' ∧ c ≠ 'E'

theorem endsNumber_cons {c : Char} (hd : c.isDigit = false) (hp : c ≠ '.') (he : c ≠ 'e')
    (hE : c ≠ 'E') (s : List Char) : EndsNumber (c :: s) := by
  intro b hb
  obtain rfl := Option.some.inj hb
  exact ⟨hd, hp, he, hE⟩

/-- No digit comes next. -/
def NoDigit (s : List Char) : Prop := ∀ c ∈ s.head?, c.isDigit = false

theorem EndsNumber.noDigit {s : List Char} (h : EndsNumber s) : NoDigit s := by
  intro c hc
  exact (h c hc).1

theorem noDigit_cons {c : Char} (hc : c.isDigit = false) (s : List Char) : NoDigit (c :: s) := by
  intro b hb
  obtain rfl := Option.some.inj hb
  exact hc

theorem takeWhile_digits {ds rest : List Char} (hd : AllDigits ds) (hr : NoDigit rest) :
    (ds ++ rest).takeWhile Char.isDigit = ds := by
  rw [List.takeWhile_append_of_pos hd]
  cases rest with
  | nil => simp
  | cons c cs => simp [hr c rfl]

theorem dropWhile_digits {ds rest : List Char} (hd : AllDigits ds) (hr : NoDigit rest) :
    (ds ++ rest).dropWhile Char.isDigit = rest := by
  rw [List.dropWhile_append_of_pos hd]
  cases rest with
  | nil => rfl
  | cons c cs => simp [hr c rfl]

theorem someDigits_append (atEnd : Cause) {ds rest s : List Char} (hs : s = ds ++ rest)
    (hd : AllDigits ds) (h0 : ds ≠ []) (hr : NoDigit rest) :
    ∃ r, someDigits atEnd s = .ok (ds, r) ∧ r.chars = rest := by
  subst hs
  refine ⟨afterDigits (ds ++ rest), ?_, dropWhile_digits hd hr⟩
  rw [someDigits, takeWhile_digits hd hr, if_neg (by simpa using h0)]

theorem takes_wholePart (atEnd : Cause) {ds rest : List Char} (hd : AllDigits ds) (h0 : ds ≠ [])
    (hhead : ds.head? = some '0' → ds = ['0']) (hr : NoDigit rest) :
    Takes (wholePart atEnd) (ds ++ rest) ds rest := by
  cases ds with
  | nil => exact absurd rfl h0
  | cons c cs =>
    rw [AllDigits, List.forall_mem_cons] at hd
    by_cases hc : c = '0'
    · subst hc
      obtain rfl : cs = [] := List.tail_eq_of_cons_eq (hhead rfl)
      have hnone : (rest.takeWhile Char.isDigit).isEmpty = true := by
        have hd : AllDigits [] := fun _ h => absurd h List.not_mem_nil
        have := takeWhile_digits hd hr
        rw [List.nil_append] at this
        rw [this]
        rfl
      refine ⟨.one '0' rest ['0'], ?_, rfl, rfl⟩
      show wholePart atEnd ('0' :: rest) = _
      rw [wholePart, if_pos rfl, if_pos hnone]
    · refine ⟨(afterDigits (cs ++ rest)).after (.one c (cs ++ rest) c)
        (c :: (cs ++ rest).takeWhile Char.isDigit), ?_, ?_, dropWhile_digits hd.2 hr⟩
      · show wholePart atEnd (c :: (cs ++ rest)) = _
        rw [wholePart, if_neg hc, if_pos hd.1]
      · exact congrArg (c :: ·) (takeWhile_digits hd.2 hr)

theorem fractionPart_none (atEnd : Cause) {s : List Char} (h : ∀ c ∈ s.head?, c ≠ '.') :
    fractionPart atEnd s = .ok ([], .all s) := by
  unfold fractionPart
  split
  · rename_i rest
    exact absurd rfl (h '.' rfl)
  · rfl

theorem fractionPart_append (atEnd : Cause) {ds rest s : List Char} (hd : AllDigits ds)
    (hs : s = (if ds = [] then [] else '.' :: ds) ++ rest) (hr : NoDigit rest)
    (hpoint : ∀ c ∈ rest.head?, c ≠ '.') :
    ∃ r, fractionPart atEnd s = .ok (ds, r) ∧ r.chars = rest := by
  by_cases h0 : ds = []
  · rw [if_pos h0, List.nil_append] at hs
    subst hs h0
    exact ⟨.all s, fractionPart_none atEnd hpoint, rfl⟩
  · rw [if_neg h0] at hs
    subst hs
    obtain ⟨r, he, hrest⟩ := someDigits_append atEnd (s := ds ++ rest) rfl hd h0 hr
    refine ⟨r.behind '.', ?_, hrest⟩
    show fractionPart atEnd ('.' :: (ds ++ rest)) = _
    rw [fractionPart, he]
    rfl

theorem exponentPart_none (atEnd : Cause) {s : List Char} (h : EndsNumber s) :
    exponentPart atEnd s = .ok (none, .all s) := by
  cases s with
  | nil => rfl
  | cons c cs =>
    have hc := h c rfl
    rw [exponentPart, if_neg (not_or.mpr ⟨hc.2.2.1, hc.2.2.2⟩)]

theorem minus_append (negative : Bool) {s : List Char} (hs : ∀ c ∈ s.head?, c ≠ '-') :
    ∃ r, minus ((if negative then ['-'] else []) ++ s) = (negative, r) ∧ r.chars = s := by
  cases negative
  · refine ⟨.all s, ?_, rfl⟩
    show minus s = _
    unfold minus
    split
    · exact absurd rfl (hs '-' rfl)
    · rfl
  · exact ⟨(Rest.all s).behind '-', rfl, rfl⟩

/-- A numeral is taken apart as it was put together, however its exponent is spelled. -/
theorem takes_numeral_of_exponent (atEnd : Cause) {l : Literal} (hl : l.WellFormed)
    {spelled rest : List Char}
    (hpart : ∀ s, s = spelled ++ rest →
      ∃ r, exponentPart atEnd s = .ok (l.exponent, r) ∧ r.chars = rest)
    (hdigit : NoDigit (spelled ++ rest)) (hpoint : ∀ c ∈ (spelled ++ rest).head?, c ≠ '.') :
    Takes (numeral atEnd) (l.front ++ (spelled ++ rest)) l rest := by
  have hchars : l.front ++ (spelled ++ rest) = (if l.negative then ['-'] else []) ++ (l.whole ++
      ((if l.fraction = [] then [] else '.' :: l.fraction) ++ (spelled ++ rest))) := by
    simp only [Literal.front, List.append_assoc]
  have hfrac : NoDigit ((if l.fraction = [] then [] else '.' :: l.fraction) ++
      (spelled ++ rest)) := by
    split
    · exact hdigit
    · exact noDigit_cons rfl _
  have hsign : ∀ c ∈ (l.whole ++ ((if l.fraction = [] then [] else '.' :: l.fraction) ++
      (spelled ++ rest))).head?, c ≠ '-' := by
    obtain ⟨c, cs, hw⟩ := List.exists_cons_of_ne_nil hl.whole_ne_nil
    rw [hw]
    rintro b ⟨⟩ rfl
    have := hl.whole '-' (by rw [hw]; exact List.mem_cons_self)
    exact absurd this (by simp)
  rw [hchars]
  obtain ⟨b, hb, hbody⟩ := minus_append l.negative hsign
  have hwhole := takes_wholePart atEnd hl.whole hl.whole_ne_nil hl.head hfrac
  obtain ⟨w, hw, hwv, hwrest⟩ := hwhole.from_rest hbody
  obtain ⟨f, hf, hfrest⟩ := fractionPart_append atEnd hl.fraction hwrest hdigit hpoint
  obtain ⟨x, hx, hxrest⟩ := hpart f.chars hfrest
  refine ⟨⟨⟨l.negative, w.value, l.fraction, l.exponent⟩, x.chars, by
    have := b.notLonger
    have := w.shorter
    have := f.notLonger
    have := x.notLonger
    omega⟩, ?_, ?_, hxrest⟩
  · unfold numeral
    rw [hb]
    dsimp only
    rw [hw]
    show (do let (fraction, r) ← fractionPart atEnd w.rest; _) = _
    rw [hf]
    show (do let (exponent, r') ← exponentPart atEnd f.chars; _) = _
    rw [hx]
    rfl
  · rw [hwv]

end Json

end DragDrop
