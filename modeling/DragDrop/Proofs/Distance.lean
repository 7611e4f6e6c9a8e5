import DragDrop.Proofs.Catchment
import DragDrop.Proofs.Double.Infinity

/-! What a distance is, and how much of it counts. In exact numbers it is the distance from the
pointer to the LINE of the highlight, its measuring edge over the whole of its run, as a square:
the nearest point of the line is the pointer put onto the edge, less what it overshoots the run
by. What is viable has no overshoot, so viable highlights are ranked by how far the pointer is
from them along their own axes, and by nothing else. -/

namespace DragDrop

/-! ## Overshoots -/

section Overshoot

variable {v w lo hi : Rat}

/-- Less its overshoot, a value lies in the span. -/
theorem within_sub_overshoot (h : lo ≤ hi) :
    lo ≤ v - overshoot v lo hi ∧ v - overshoot v lo hi ≤ hi := by
  unfold overshoot
  split
  · rw [sub_sub_cancel]
    exact ⟨le_rfl, h⟩
  · rename_i hlo
    split
    · rw [sub_sub_cancel]
      exact ⟨h, le_rfl⟩
    · rename_i hhi
      rw [sub_zero]
      exact ⟨not_lt.mp hlo, not_lt.mp hhi⟩

/-- No value of the span is nearer than the overshoot tells. -/
theorem overshoot_sq_le (hlo : lo ≤ w) (hhi : w ≤ hi) : overshoot v lo hi ^ 2 ≤ (v - w) ^ 2 := by
  unfold overshoot
  split
  · rename_i h
    rw [sub_sq_comm v w]
    exact sq_le_sq' (by linarith) (by linarith)
  · split
    · exact sq_le_sq' (by linarith) (by linarith)
    · rw [zero_pow two_ne_zero]
      exact sq_nonneg (v - w)

end Overshoot

/-! ## The line of a highlight -/

namespace Point

/-- The square of the distance between two points. -/
def squareTo (p q : Point Rat) : Rat := (p.x - q.x) ^ 2 + (p.y - q.y) ^ 2

theorem squareTo_nonneg (p q : Point Rat) : 0 ≤ p.squareTo q :=
  add_nonneg (sq_nonneg _) (sq_nonneg _)

theorem squareTo_eq_zero_iff {p q : Point Rat} : p.squareTo q = 0 ↔ p = q := by
  rw [squareTo, add_eq_zero_iff_of_nonneg (sq_nonneg _) (sq_nonneg _), sq_eq_zero_iff,
    sq_eq_zero_iff, sub_eq_zero, sub_eq_zero]
  constructor
  · rintro ⟨hx, hy⟩
    cases p
    cases q
    exact congrArg₂ Point.mk hx hy
  · rintro rfl
    exact ⟨rfl, rfl⟩

end Point

namespace Highlight

variable {p q : Point Rat} {h : Highlight Rat}

/-- The line that a highlight is measured from: its edge, from one end of its run to the other. -/
def line (h : Highlight Rat) : Set (Point Rat) := {q | q.along h.axis = h.edge ∧ h.Spans q}

/-- The pointer, put onto the line. Along the run it stays where it is, as far as the run goes. -/
def nearest (p : Point Rat) : Highlight Rat → Point Rat
  | vertical b => ⟨b.bounds.left, p.y - overshoot p.y b.bounds.top b.bounds.bottom⟩
  | horizontal b => ⟨p.x - overshoot p.x b.bounds.left b.bounds.right, b.bounds.top⟩

/-- Extents are cut off at zero, so that every line has points. -/
theorem nearest_mem_line (p : Point Rat) (h : Highlight Rat) : h.nearest p ∈ h.line := by
  cases h with
  | vertical b =>
    exact ⟨rfl, within_sub_overshoot (le_add_of_nonneg_right (Scalar.zero_le_nonneg b.height))⟩
  | horizontal b =>
    exact ⟨rfl, within_sub_overshoot (le_add_of_nonneg_right (Scalar.zero_le_nonneg b.width))⟩

theorem distance_eq_sq (p : Point Rat) (h : Highlight Rat) :
    h.distance p = (p.along h.axis - h.edge) ^ 2 + h.overrun p ^ 2 := by
  rw [distance_eq_norm, sq, sq]
  rfl

theorem squareTo_nearest (p : Point Rat) (h : Highlight Rat) :
    p.squareTo (h.nearest p) = h.distance p := by
  rw [distance_eq_sq]
  cases h with
  | vertical b =>
    simp only [Point.squareTo, nearest, sub_sub_cancel]
    rfl
  | horizontal b =>
    simp only [Point.squareTo, nearest, sub_sub_cancel]
    exact add_comm _ _

theorem distance_le_squareTo (hq : q ∈ h.line) : h.distance p ≤ p.squareTo q := by
  obtain ⟨hedge, hspan⟩ := hq
  rw [distance_eq_sq, ← hedge]
  cases h with
  | vertical b => exact add_le_add_right (overshoot_sq_le hspan.1 hspan.2) _
  | horizontal b =>
    rw [Point.squareTo, add_comm]
    exact add_le_add_left (overshoot_sq_le hspan.1 hspan.2) _

/-- A highlight is as far from the pointer as the nearest point of its line is, wherever the
pointer is and whatever extents the bar was given, and at distance zero just on that line. -/
theorem isLeast_distance (p : Point Rat) (h : Highlight Rat) :
    IsLeast (p.squareTo '' h.line) (h.distance p) ∧ (h.distance p = 0 ↔ p ∈ h.line) := by
  refine ⟨⟨⟨h.nearest p, h.nearest_mem_line p, h.squareTo_nearest p⟩, ?_⟩, ?_, ?_⟩
  · rintro _ ⟨q, hq, rfl⟩
    exact distance_le_squareTo hq
  · intro hzero
    rw [← squareTo_nearest, Point.squareTo_eq_zero_iff] at hzero
    rw [hzero]
    exact h.nearest_mem_line p
  · intro hp
    have hle := distance_le_squareTo (p := p) hp
    rw [Point.squareTo_eq_zero_iff.mpr rfl] at hle
    rw [← squareTo_nearest] at hle ⊢
    exact le_antisymm hle (p.squareTo_nonneg _)

/-- A bar that is inside out is a single point. -/
example : distance (⟨0, 0⟩ : Point Rat) (.vertical { x := 3, y := 4, width := -1, height := -9 }) =
    25 := by decide +kernel

end Highlight

/-! ## Ranking by the offset -/

/-- What is chosen is a matter of how the members of the list compare. -/
theorem firstLeast_congr {β : Type} {cmp cmp' : β → β → Ordering} {l : List β}
    (h : ∀ a ∈ l, ∀ b ∈ l, cmp a b = cmp' a b) : firstLeast cmp l = firstLeast cmp' l := by
  cases l with
  | nil => rfl
  | cons a l =>
    simp only [firstLeast, Option.some.injEq]
    -- What wins so far is a member itself, so the two agree on it and on what comes next.
    induction l generalizing a with
    | nil => rfl
    | cons b l ih =>
      rw [List.foldl_cons, List.foldl_cons, h a (by simp) b (by simp)]
      split
      · exact ih b fun x hx y hy => h x (List.mem_cons_of_mem a hx) y (List.mem_cons_of_mem a hy)
      · have hsub : a :: l ⊆ a :: b :: l := List.cons_subset_cons a (List.subset_cons_self b l)
        exact ih a fun x hx y hy => h x (hsub hx) y (hsub hy)

namespace Highlight

/-- In exact numbers, two highlights that span the pointer compare as their offsets do. -/
theorem byDistance_offset {p : Point Rat} {h g : Highlight Rat} (hs : h.Spans p)
    (gs : g.Spans p) :
    byDistance (h.distance p) (g.distance p) = byDistance (h.offset p) (g.offset p) := by
  simp only [byDistance, Scalar.isNaN_rat, ← not_le, distance_le_iff hs gs, distance_le_iff gs hs]

end Highlight

namespace Selection

section Viable

variable {α κ : Type} [Scalar α] {c : Policy α} {p : Point α} {l : List (Highlight α × κ)}
  {h : Highlight α × κ}

theorem spans_of_mem_viable (hh : h ∈ viable c p l) : h.1.Spans p := by
  obtain ⟨biased, hcatches⟩ := exists_catches_of_mem_viable hh
  exact (Highlight.catches_iff.mp hcatches).1

/-- What is picked if viable highlights are ranked by a key, as they are by their distances. -/
def pickBy (key : Highlight α → α) (c : Policy α) (p : Point α) (hs : List (Highlight α)) :
    Option (Highlight α × Nat) :=
  firstLeast (fun a b => byDistance (key a.1) (key b.1)) (viable c p hs.zipIdx)

theorem pickBy_distance (c : Policy α) (p : Point α) (hs : List (Highlight α)) :
    pickBy (Highlight.distance p) c p hs = pick c p hs := rfl

end Viable

/-- Whatever is viable is not overshot: of its distance only what the pointer is away along the
axis is left. So in exact numbers the same occurrence is picked, on ties too, when highlights
are ranked by their offsets instead of their distances. -/
theorem ranked_by_offset :
    (∀ (c : Policy Float) (p : Point Float) (hs : List (Highlight Float)),
      ∀ h ∈ viable c p hs.zipIdx, h.1.overrun p = 0 ∧
        h.1.distance p = Scalar.norm (p.along h.1.axis - h.1.edge) 0) ∧
      ∀ (c : Policy Rat) (p : Point Rat) (hs : List (Highlight Rat)),
        pick c p hs = pickBy (Highlight.offset p) c p hs := by
  constructor
  · intro c p hs h hh
    have hzero := Highlight.overrun_of_spans (spans_of_mem_viable hh)
    rw [Highlight.distance_eq_norm, hzero]
    exact ⟨rfl, rfl⟩
  · intro c p hs
    rw [← pickBy_distance]
    apply firstLeast_congr
    intro h hh g hg
    exact Highlight.byDistance_offset (spans_of_mem_viable hh) (spans_of_mem_viable hg)

/-- A bar in a row, an edge below the row, and one in front of that which does not run as far. -/
def porch (α : Type) [Scalar α] : List (Highlight α) :=
  [.vertical { x := 100.0, y := 0.0, width := 0.0, height := 40.0 },
    .horizontal { x := 110.0, y := 38.0, width := 190.0, height := 0.0 },
    .horizontal { x := 0.0, y := 40.0, width := 300.0, height := 0.0, zone := { top := some 20.0 } }]

/-- A pointer at the height of the short edge, but off its run. -/
def atPorch (α : Type) [Scalar α] : Point α := ⟨106.0, 38.0⟩

/-- The short edge has the least offset, and is not viable. Of the others the edge is picked,
by its distance as by its offset. -/
theorem ranked_by_offset_porch :
    (viable .standard (atPorch Float) (porch Float).zipIdx).map Prod.snd = [0, 2] ∧
      (∀ h ∈ viable .standard (atPorch Float) (porch Float).zipIdx,
        h.1.overrun (atPorch Float) = 0) ∧
      (pick .standard (atPorch Rat) (porch Rat)).map Prod.snd = some 2 ∧
      (pickBy (Highlight.offset (atPorch Rat)) .standard (atPorch Rat) (porch Rat)).map Prod.snd =
        some 2 := by
  have hpick : (pick .standard (atPorch Rat) (porch Rat)).map Prod.snd = some 2 := by
    decide +kernel
  refine ⟨by decide, ?_, hpick, ?_⟩
  · intro h hh
    exact (ranked_by_offset.1 _ _ _ h hh).1
  · rw [← ranked_by_offset.2]
    exact hpick

end Selection

end DragDrop
