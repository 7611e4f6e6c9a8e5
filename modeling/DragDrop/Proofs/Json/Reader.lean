import DragDrop.Json.Leaf

/-! What readers make of the front of a text. The statements give the value that is
read AND the rest that is left, so that they can be chained. Blanks may stand in front
of every token, of those between the parts of a list or an object too. -/

namespace DragDrop.Json

variable {α : Type}

/-- The reader takes this value off the front of a text, and leaves this rest. -/
def Takes (read : Reader α) (s : List Char) (a : α) (rest : List Char) : Prop :=
  ∃ r, read s = .ok r ∧ r.value = a ∧ r.rest = rest

/-- Reading goes on where another reader has stopped. -/
theorem Takes.from_rest {read : Reader α} {s t rest : List Char} {a : α}
    (h : Takes read t a rest) (hs : s = t) : Takes read s a rest := hs ▸ h

/-- What is left of a text when some blanks in front of it are passed over. -/
inductive Pads : List Char → List Char → Prop
  | refl (s : List Char) : Pads s s
  | cons {c : Char} {s t : List Char} (hc : isBlank c = true) (h : Pads s t) : Pads (c :: s) t

theorem Pads.append {bs : List Char} (h : ∀ c ∈ bs, isBlank c = true) (s : List Char) :
    Pads (bs ++ s) s := by
  induction bs with
  | nil => exact .refl s
  | cons c bs ih =>
    rw [List.forall_mem_cons] at h
    exact .cons h.1 (ih h.2)

/-- This is the first character that is no blank, and this stands behind it. -/
def Opens (s : List Char) (c : Char) (t : List Char) : Prop :=
  ∃ r, next? s = some r ∧ r.value = c ∧ r.rest = t

theorem opens_cons {c : Char} (hc : isBlank c = false) (t : List Char) : Opens (c :: t) c t := by
  refine ⟨.one c t c, ?_, rfl, rfl⟩
  rw [next?, hc]
  rfl

theorem Pads.opens {s t u : List Char} {c : Char} (h : Pads s t) (ht : Opens t c u) :
    Opens s c u := by
  induction h with
  | refl => exact ht
  | @cons b s t hb _ ih =>
    obtain ⟨r, hr, rfl, rfl⟩ := ih ht
    refine ⟨r.behind b, ?_, rfl, rfl⟩
    rw [next?, hb, hr]
    rfl

theorem Pads.opens_cons {s t : List Char} {c : Char} (h : Pads s (c :: t))
    (hc : isBlank c = false) : Opens s c t :=
  h.opens (Json.opens_cons hc t)

theorem word_append {w s rest : List Char} (h : s = w ++ rest) :
    ∃ r, word w s = .ok r ∧ r.chars = rest := by
  induction w generalizing s with
  | nil => exact ⟨.all s, rfl, h⟩
  | cons c w ih =>
    subst h
    obtain ⟨r, hr, hrest⟩ := ih rfl
    refine ⟨r.behind c, ?_, hrest⟩
    show word (c :: w) (c :: (w ++ rest)) = _
    rw [word, if_pos rfl, hr]
    rfl

/-! ## Between parts -/

theorem element?_end (first : Bool) {s rest : List Char} (h : Opens s ']' rest) :
    element? first s = .ok none := by
  obtain ⟨t, ht, hv, -⟩ := h
  rw [element?, ht]
  dsimp only
  rw [if_pos hv]

theorem closeList_of_opens {s rest : List Char} (h : Opens s ']' rest) :
    ∃ c, closeList s = .ok c ∧ c.rest = rest := by
  obtain ⟨t, ht, hv, hrest⟩ := h
  refine ⟨t.as (), ?_, hrest⟩
  rw [closeList, ht]
  dsimp only
  rw [if_pos hv]

theorem element?_of_opens {s t : List Char} {c : Char} (h : Opens s c t) (hc : c ≠ ']') :
    ∃ r, element? true s = .ok (some r) ∧ r.chars = c :: t := by
  obtain ⟨r, hr, hv, hrest⟩ := h
  refine ⟨⟨r.again, r.length_again_le⟩, ?_, ?_⟩
  · rw [element?, hr]
    dsimp only
    rw [hv, if_neg hc, if_pos rfl]
  · show r.value :: r.rest = _
    rw [hv, hrest]

theorem element?_of_comma {s t u : List Char} {c : Char} (hs : Opens s ',' t) (h : Opens t c u)
    (hc : c ≠ ']') : ∃ r, element? false s = .ok (some r) ∧ r.chars = c :: u := by
  obtain ⟨r, hr, hv, rfl⟩ := hs
  obtain ⟨q, hq, hqv, hqrest⟩ := h
  refine ⟨⟨q.again, Nat.le_trans q.length_again_le (Nat.le_of_lt r.shorter)⟩, ?_, ?_⟩
  · rw [element?, hr]
    dsimp only
    rw [hv, if_neg (by simp), if_neg (by simp), if_pos rfl, hq]
    dsimp only
    rw [hqv, if_neg hc]
  · show q.value :: q.rest = _
    rw [hqv, hqrest]

theorem colon_of_opens {s t : List Char} (h : Opens s ':' t) :
    ∃ c, colon s = .ok c ∧ c.rest = t := by
  obtain ⟨r, hr, hc, rfl⟩ := h
  refine ⟨r.as (), ?_, rfl⟩
  rw [colon, hr]
  dsimp only
  rw [if_pos hc]

/-- A further key is found behind its comma. -/
theorem nextKey_further {s t u : List Char} (hs : Opens s ',' t) (h : Opens t '"' u) :
    ∃ k, nextKey s = .ok (.key k) ∧ k.rest = u := by
  obtain ⟨r, hr, hv, rfl⟩ := hs
  obtain ⟨q, hq, hqv, hqrest⟩ := h
  refine ⟨r.after (q.as ()), ?_, hqrest⟩
  rw [nextKey, hr]
  dsimp only
  rw [hv, if_neg (by simp), if_pos rfl, hq]
  dsimp only
  rw [if_pos hqv]

theorem nextKey_finish {s rest : List Char} (h : Opens s '\x7d' rest) :
    ∃ b, nextKey s = .ok (.finish b) ∧ b.rest = rest := by
  obtain ⟨r, hr, hv, hrest⟩ := h
  refine ⟨r.as (), ?_, hrest⟩
  rw [nextKey, hr]
  dsimp only
  rw [if_pos hv]

theorem firstKey_key {s t : List Char} (h : Opens s '"' t) :
    ∃ k, firstKey s = .ok (.key k) ∧ k.rest = t := by
  obtain ⟨r, hr, hv, hrest⟩ := h
  refine ⟨r.as (), ?_, hrest⟩
  rw [firstKey, hr]
  dsimp only
  rw [hv, if_neg (by simp), if_pos rfl]

theorem firstKey_finish {s rest : List Char} (h : Opens s '\x7d' rest) :
    ∃ b, firstKey s = .ok (.finish b) ∧ b.rest = rest := by
  obtain ⟨r, hr, hv, hrest⟩ := h
  refine ⟨r.as (), ?_, hrest⟩
  rw [firstKey, hr]
  dsimp only
  rw [if_pos hv]

end DragDrop.Json
