import DragDrop.Proofs.Json.Spelling

/-! A value that nobody wants is passed over EXACTLY, at any depth and however it is
spelled: numbers may be as great as they like, and texts may have halves of pairs in
them. The proof is one induction on the grammar. -/

namespace DragDrop.Json

variable {s t u rest : List Char}

theorem view_skipEscape_letter {l c : Char} (h : ofLetter? l = some c) (more : List Char) :
    view (skipEscape (l :: more)) = some ((), more) := by
  rw [skipEscape, h]
  rfl

theorem view_skipEscape_unit (a b c d : HexDigit) (more : List Char) :
    view (skipEscape ('u' :: a.val :: b.val :: c.val :: d.val :: more)) = some ((), more) := by
  have hnone : ofLetter? 'u' = none := by decide
  obtain ⟨n, hn, -, hrest⟩ := view_eq_some_iff.mp (Piece.view_codeUnit a b c d more)
  rw [skipEscape, hnone]
  dsimp only
  rw [if_pos rfl, hn]
  exact congrArg some (Prod.ext rfl hrest)

theorem view_skipText_escape {e more : List Char} (h : view (skipEscape e) = some ((), more)) :
    view (skipText ('\\' :: e)) = view (skipText more) := by
  rw [skipText, if_neg (by simp), if_pos rfl, view_bind (g := fun d => view (skipText d.2)), h]
  · rfl
  · intro d
    rw [view_bind (g := some) (fun _ => rfl), Option.bind_fun_some]

theorem view_skipText (ps : List Piece) (rest : List Char) :
    view (skipText (Piece.spelled ps ++ '"' :: rest)) = some ((), rest) := by
  induction ps with
  | nil =>
    show view (skipText ('"' :: rest)) = _
    rw [skipText, if_pos rfl]
    rfl
  | cons p ps ih =>
    rw [← ih]
    cases p with
    | plain c quote slash control =>
      show view (skipText (c :: (Piece.spelled ps ++ '"' :: rest))) = _
      rw [skipText, if_neg quote, if_neg slash, if_neg control,
        view_bind (g := some) (fun _ => rfl), Option.bind_fun_some]
    | letter l c means => exact view_skipText_escape (view_skipEscape_letter means _)
    | unit a b c d => exact view_skipText_escape (view_skipEscape_unit a b c d _)

theorem endsNumber_of_isBlank {c : Char} (h : isBlank c = true) (s : List Char) :
    EndsNumber (c :: s) := by
  simp only [isBlank, Bool.or_eq_true, beq_iff_eq] at h
  rcases h with ((rfl | rfl) | rfl) | rfl <;>
    exact endsNumber_cons rfl (by simp) (by simp) (by simp) s

/-- A number has come to its end where a list or an object goes on. -/
theorem Pads.endsNumber {c : Char} (h : Pads s (c :: t)) (hc : c = ',' ∨ c = ']' ∨ c = '\x7d') :
    EndsNumber s := by
  cases h with
  | refl =>
    rcases hc with rfl | rfl | rfl <;>
      exact endsNumber_cons rfl (by simp) (by simp) (by simp) t
  | cons hb h => exact endsNumber_of_isBlank hb _

theorem Spells.endsNumber_elements {ts : List Tree} (h : Spells (.elements false ts) s rest) :
    EndsNumber s := by
  cases h with
  | listEnd h => exact h.endsNumber (.inr (.inl rfl))
  | element hcomma ht hts => exact Pads.endsNumber hcomma (.inl rfl)

theorem Spells.endsNumber_members {ms : List Tree.Member}
    (h : Spells (.members false ms) s rest) : EndsNumber s := by
  cases h with
  | objectEnd h => exact h.endsNumber (.inr (.inr rfl))
  | member hcomma hname hcolon ht hms => exact Pads.endsNumber hcomma (.inl rfl)

/-! ## Steps -/

/-- Behind a part that was skipped, the list or the object ends, or a comma comes and it
goes on. -/
def further (close : Char) (go : List Char → Option (Unit × List Char)) (s : List Char) :
    Option (Unit × List Char) :=
  (next? s).bind fun t =>
    if t.value = close then some ((), t.rest) else if t.value = ',' then go t.rest else none

theorem further_end {close : Char} (go : List Char → Option (Unit × List Char))
    (h : Opens s close rest) : further close go s = some ((), rest) := by
  obtain ⟨r, hr, hc, rfl⟩ := h
  rw [further, hr, Option.bind_some, if_pos hc]

theorem further_comma {close : Char} (go : List Char → Option (Unit × List Char))
    (hclose : ',' ≠ close) (h : Opens s ',' u) : further close go s = go u := by
  obtain ⟨r, hr, hc, rfl⟩ := h
  rw [further, hr, Option.bind_some, hc, if_neg hclose, if_pos rfl]

theorem view_skipElements {q : List Char} (h : view (skipValue q) = some ((), s)) :
    view (skipElements q) = further ']' (fun u => view (skipElements u)) s := by
  obtain ⟨v, hv, -, rfl⟩ := view_eq_some_iff.mp h
  rw [skipElements, hv, further]
  dsimp only [bind, Except.bind]
  cases next? v.rest with
  | none => rfl
  | some t =>
    dsimp only [Option.bind]
    split
    · rfl
    · split
      · cases skipElements t.rest <;> rfl
      · rfl

/-- A member is passed over: its name, the colon and its value. -/
def SkipsMember (q s : List Char) : Prop :=
  ∃ ps v w, Pads q ('"' :: (Piece.spelled ps ++ '"' :: v)) ∧ Pads v (':' :: w) ∧
    view (skipValue w) = some ((), s)

theorem view_skipMembers {q : List Char} (h : SkipsMember q s) :
    view (skipMembers q) = further '\x7d' (fun u => view (skipMembers u)) s := by
  obtain ⟨ps, v, w, hname, hcolon, hvalue⟩ := h
  obtain ⟨k, hk, hquote, hkrest⟩ := hname.opens_cons rfl
  have htext := view_skipText ps v
  rw [← hkrest] at htext
  obtain ⟨name, hn, -, hnrest⟩ := view_eq_some_iff.mp htext
  rw [← hnrest] at hcolon
  obtain ⟨c, hc, hcrest⟩ := colon_of_opens (hcolon.opens_cons rfl)
  rw [← hcrest] at hvalue
  obtain ⟨v, hv, -, rfl⟩ := view_eq_some_iff.mp hvalue
  rw [skipMembers, hk, further]
  dsimp only
  rw [if_pos hquote, hn]
  dsimp only [bind, Except.bind]
  rw [hc]
  dsimp only
  rw [hv]
  dsimp only
  cases next? v.rest with
  | none => rfl
  | some t =>
    dsimp only [Option.bind]
    split
    · rfl
    · split
      · cases skipMembers t.rest <;> rfl
      · rfl

/-! ## Whole values -/

theorem view_skipValue_leaf {c : Char} (h : Opens s c t) (hl : c ≠ '[') (ho : c ≠ '\x7b')
    {o : Option (Unit × List Char)}
    (hleaf : ∀ r : Read s Char, r.value = c → r.rest = t → view (skipLeaf r) = o) :
    view (skipValue s) = o := by
  obtain ⟨r, hr, hc, ht⟩ := h
  rw [skipValue, hr]
  dsimp only
  rw [if_neg (hc ▸ hl), if_neg (hc ▸ ho)]
  exact hleaf r hc ht

theorem view_skipValue_word {c : Char} {w : List Char} (hw : wordAfter? c = some w)
    (h : Pads s (c :: (w ++ rest))) (hb : isBlank c = false) :
    view (skipValue s) = some ((), rest) := by
  have hne {d : Char} (hd : wordAfter? d = none) : c ≠ d := by
    rintro rfl
    rw [hw] at hd
    cases hd
  apply view_skipValue_leaf (h.opens_cons hb) (hne (by decide)) (hne (by decide))
  intro r hc ht
  obtain ⟨q, hq, hqrest⟩ := word_append ht
  rw [skipLeaf, hc, hw]
  dsimp only
  rw [hq]
  exact congrArg some (Prod.ext rfl hqrest)

theorem wordAfter?_of_beginsNumber {c : Char} (h : beginsNumber c = true) :
    wordAfter? c = none := by
  rw [wordAfter?, if_neg (ne_of_beginsNumber h rfl), if_neg (ne_of_beginsNumber h rfl),
    if_neg (ne_of_beginsNumber h rfl)]

theorem view_skipValue_number (n : Numeral) (h : Pads s (n.chars ++ rest))
    (hr : EndsNumber rest) : view (skipValue s) = some ((), rest) := by
  obtain ⟨c, u, hc, hb⟩ := n.chars_begin
  have htakes := n.takes_numeral .badNumber hr
  rw [hc, List.cons_append] at h htakes
  apply view_skipValue_leaf (h.opens_cons (isBlank_of_beginsNumber hb))
    (ne_of_beginsNumber hb rfl) (ne_of_beginsNumber hb rfl)
  intro r hv ht
  have hagain : r.again = c :: (u ++ rest) := by rw [Read.again, hv, ht]
  obtain ⟨q, hq, -, hqrest⟩ := htakes.from_rest hagain
  rw [skipLeaf, hv, wordAfter?_of_beginsNumber hb]
  dsimp only
  rw [if_pos hb, hq]
  exact congrArg some (Prod.ext rfl hqrest)

theorem view_skipValue_text (ps : List Piece)
    (h : Pads s ('"' :: (Piece.spelled ps ++ '"' :: rest))) :
    view (skipValue s) = some ((), rest) := by
  apply view_skipValue_leaf (h.opens_cons rfl) (by simp) (by simp)
  intro r hv ht
  have htext := view_skipText ps rest
  rw [← ht] at htext
  obtain ⟨q, hq, -, hqrest⟩ := view_eq_some_iff.mp htext
  have hword : wordAfter? '"' = none := by decide
  have hnumber : ¬beginsNumber '"' = true := by decide
  rw [skipLeaf, hv, hword]
  dsimp only
  rw [if_neg hnumber, if_pos rfl, hq]
  exact congrArg some (Prod.ext rfl hqrest)

theorem view_skipValue_list_nil (h : Opens s '[' u) (hu : Opens u ']' rest) :
    view (skipValue s) = some ((), rest) := by
  obtain ⟨r, hr, hc, rfl⟩ := h
  obtain ⟨q, hq, hqc, hqrest⟩ := hu
  rw [skipValue, hr]
  dsimp only
  rw [if_pos hc, hq]
  dsimp only
  rw [if_pos hqc]
  exact congrArg some (Prod.ext rfl hqrest)

theorem view_skipValue_list_cons {c : Char} (h : Opens s '[' u) (hu : Opens u c t)
    (hc : c ≠ ']') : view (skipValue s) = view (skipElements u) := by
  obtain ⟨r, hr, hrc, rfl⟩ := h
  obtain ⟨q, hq, hqc, -⟩ := hu
  rw [skipValue, hr]
  dsimp only
  rw [if_pos hrc, hq]
  dsimp only
  rw [if_neg (hqc ▸ hc), view_after]

theorem view_skipValue_object_nil (h : Opens s '\x7b' u) (hu : Opens u '\x7d' rest) :
    view (skipValue s) = some ((), rest) := by
  obtain ⟨r, hr, hc, rfl⟩ := h
  obtain ⟨q, hq, hqc, hqrest⟩ := hu
  rw [skipValue, hr]
  dsimp only
  rw [hc, if_neg (by simp), if_pos rfl, hq]
  dsimp only
  rw [if_pos hqc]
  exact congrArg some (Prod.ext rfl hqrest)

theorem view_skipValue_object_cons (h : Opens s '\x7b' u) (hu : Opens u '"' t) :
    view (skipValue s) = view (skipMembers u) := by
  obtain ⟨r, hr, hrc, rfl⟩ := h
  obtain ⟨q, hq, hqc, -⟩ := hu
  rw [skipValue, hr]
  dsimp only
  rw [hrc, if_neg (by simp), if_pos rfl, hq]
  dsimp only
  rw [hqc, if_neg (by simp), view_after]

/-- The phrase is passed over. Further elements and members are, once what stands in
front of them is. -/
def Phrase.Skipped : Phrase → List Char → List Char → Prop
  | value _, s, rest => EndsNumber rest → view (skipValue s) = some ((), rest)
  | elements true _, s, rest => Opens s ']' rest ∨
      (∃ c t, Opens s c t ∧ c ≠ ']') ∧ view (skipElements s) = some ((), rest)
  | elements false _, s, rest => ∀ q, view (skipValue q) = some ((), s) →
      view (skipElements q) = some ((), rest)
  | members true _, s, rest => Opens s '\x7d' rest ∨
      (∃ t, Opens s '"' t) ∧ view (skipMembers s) = some ((), rest)
  | members false _, s, rest => ∀ q, SkipsMember q s → view (skipMembers q) = some ((), rest)

theorem Spells.skipped {p : Phrase} (h : Spells p s rest) : p.Skipped s rest := by
  induction h with
  | null h => exact fun _ => view_skipValue_word (c := 'n') (by decide) h rfl
  | boolean b h =>
    intro _
    cases b with
    | true => exact view_skipValue_word (c := 't') (by decide) h rfl
    | false => exact view_skipValue_word (c := 'f') (by decide) h rfl
  | number n h => exact fun hr => view_skipValue_number n h hr
  | text ps h => exact fun _ => view_skipValue_text ps h
  | list h _ ih =>
    intro _
    rcases ih with hend | ⟨⟨c, t, hopen, hc⟩, hskip⟩
    · exact view_skipValue_list_nil (h.opens_cons rfl) hend
    · rw [view_skipValue_list_cons (h.opens_cons rfl) hopen hc, hskip]
  | object h _ ih =>
    intro _
    rcases ih with hend | ⟨⟨t, hopen⟩, hskip⟩
    · exact view_skipValue_object_nil (h.opens_cons rfl) hend
    · rw [view_skipValue_object_cons (h.opens_cons rfl) hopen, hskip]
  | @listEnd first s rest h =>
    cases first with
    | true => exact .inl (h.opens_cons rfl)
    | false => exact fun q hq => (view_skipElements hq).trans (further_end _ (h.opens_cons rfl))
  | @element first s u v rest t ts hcomma ht hts iht ihts =>
    have hskip : view (skipElements u) = some ((), rest) :=
      ihts u (iht hts.endsNumber_elements)
    cases first with
    | true =>
      obtain rfl : s = u := hcomma
      obtain ⟨c, w, hopen, hb⟩ := ht.opens
      exact .inr ⟨⟨c, w, hopen, Tree.ne_of_begins hb (by cases t <;> rfl)⟩, hskip⟩
    | false =>
      intro q hq
      rw [view_skipElements hq, further_comma _ (by simp) (Pads.opens_cons hcomma rfl), hskip]
  | @objectEnd first s rest h =>
    cases first with
    | true => exact .inl (h.opens_cons rfl)
    | false => exact fun q hq => (view_skipMembers hq).trans (further_end _ (h.opens_cons rfl))
  | @member first s u v w x rest ps t ms hcomma hname hcolon ht hms iht ihms =>
    have hskip : view (skipMembers u) = some ((), rest) :=
      ihms u ⟨ps, v, w, hname, hcolon, iht hms.endsNumber_members⟩
    cases first with
    | true =>
      obtain rfl : s = u := hcomma
      exact .inr ⟨⟨_, hname.opens_cons rfl⟩, hskip⟩
    | false =>
      intro q hq
      rw [view_skipMembers hq, further_comma _ (by simp) (Pads.opens_cons hcomma rfl), hskip]

/-- Whatever the value is, skipping it stops RIGHT BEHIND it. -/
theorem means_skipValue : Means skipValue fun _ => some () := fun _ _ _ h hr => h.skipped hr

end DragDrop.Json
