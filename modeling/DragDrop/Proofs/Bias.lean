import DragDrop.Proofs.Catchment
import DragDrop.Proofs.Double.Infinity
import DragDrop.Proofs.Occurrences

/-! The vertical bias, in doubles. As long as both of its scales lie between zero and one it
takes horizontal bars away and lets none in, whatever numbers the bars hold: a reach that is
infinite, scaled by zero, is no number and reaches NOTHING. A list sees the bias only through
the one bit whether a vertical bar catches the pointer, so vertical bars that are put into a
list thin out its viable horizontal ones, or leave them alone. -/

namespace DragDrop

/-! ## A scaled reach -/

/-- Neither scale of the bias makes a reach longer, or turns it round. -/
def Policy.Shrinks (c : Policy Float) : Prop :=
  (0 ≤ c.bottomScale ∧ c.bottomScale ≤ 1) ∧ (0 ≤ c.topScale ∧ c.topScale ≤ 1)

instance (c : Policy Float) : Decidable c.Shrinks := inferInstanceAs (Decidable (_ ∧ _))

section Reach

variable {c : Policy Float} {declared : Option Float} {scale x y : Float}

theorem Policy.le_add_of_biased (h0 : 0 ≤ scale) (h1 : scale ≤ 1)
    (h : y ≤ x + c.biasedReach declared scale true) :
    y ≤ x + c.biasedReach declared scale false := by
  cases declared with
  | none => exact h
  | some v => exact Double.le_add_of_le_add_part (Scalar.nonneg_float v) h0 h1 h

theorem Policy.sub_le_of_biased (h0 : 0 ≤ scale) (h1 : scale ≤ 1)
    (h : x - c.biasedReach declared scale true ≤ y) :
    x - c.biasedReach declared scale false ≤ y := by
  cases declared with
  | none => exact h
  | some v => exact Double.sub_le_of_sub_part_le (Scalar.nonneg_float v) h0 h1 h

/-- What a highlight catches under the bias, it catches without. -/
theorem Highlight.catches_of_biased (hc : c.Shrinks) {h : Highlight Float} {p : Point Float}
    (hp : h.Catches c true p) : h.Catches c false p := by
  cases h with
  | vertical b => exact (catches_vertical c true false p b).mp hp
  | horizontal b =>
    rw [catches_iff] at hp ⊢
    refine ⟨hp.1, ?_⟩
    have hreach := hp.2
    split at hreach
    · rename_i hle
      rw [if_pos hle]
      exact Policy.le_add_of_biased hc.1.1 hc.1.2 hreach
    · rename_i hlt
      rw [if_neg hlt]
      exact Policy.sub_le_of_biased hc.2.1 hc.2.2 hreach

end Reach

/-! ## Vertical bars put into a list -/

namespace Selection

variable {α : Type}

/-- The second list is the first one with vertical bars put in, anywhere. -/
inductive Interspersed : List (Highlight α) → List (Highlight α) → Prop
  | nil : Interspersed [] []
  | keep (h : Highlight α) {hs gs : List (Highlight α)} :
      Interspersed hs gs → Interspersed (h :: hs) (h :: gs)
  | insert (b : Bar α) {hs gs : List (Highlight α)} :
      Interspersed hs gs → Interspersed hs (.vertical b :: gs)

variable {hs gs : List (Highlight α)}

theorem Interspersed.subset (hi : Interspersed hs gs) : hs ⊆ gs := by
  induction hi with
  | nil => exact List.Subset.refl []
  | keep h _ ih => exact List.cons_subset_cons h ih
  | insert b _ ih => exact List.subset_cons_of_subset _ ih

/-- The horizontal bars stay, in their order. -/
theorem Interspersed.filter_eq (hi : Interspersed hs gs) :
    (hs.filter fun h => h.isVertical == false) = gs.filter fun h => h.isVertical == false := by
  induction hi with
  | nil => rfl
  | keep h _ ih => rw [List.filter_cons, List.filter_cons, ih]
  | insert b _ ih => rw [ih, List.filter_cons_of_neg (by simp [Highlight.isVertical])]

variable [Scalar α]

/-- The horizontal bars that are viable, in order, each with its seat among all of them. -/
def viableHorizontals (c : Policy α) (p : Point α) (hs : List (Highlight α)) :
    List (Highlight α × Nat) :=
  ((viable c p hs.zipIdx).filter fun h => h.1.isVertical == false).map (retag (seat hs))

variable {c : Policy α} {p : Point α}

theorem filter_viable {κ : Type} (l : List (Highlight α × κ)) :
    ((viable c p l).filter fun h => h.1.isVertical == false) =
      horizontals c p (biased c p l) l := by
  have hv : ((verticals c p l).filter fun h => h.1.isVertical == false) = [] := by
    rw [List.filter_eq_nil_iff]
    intro h hh
    simp [(mem_verticals.mp hh).2.1]
  rw [viable, List.filter_append, hv, List.nil_append, List.filter_eq_self]
  intro h hh
  simpa using (mem_horizontals.mp hh).2.1

/-- Which horizontal bars are viable is a matter of the horizontal bars, and of the bias. -/
theorem viableHorizontals_eq : viableHorizontals c p hs =
    ((hs.filter fun h => h.isVertical == false).zipIdx).filter fun h =>
      h.1.Catches c (decide (Biased c p hs)) p := by
  have hmap : viableHorizontals c p hs =
      (viable c p (seated hs)).filter fun h => h.1.isVertical == false := by
    rw [seated, viable_retag, List.filter_map]
    rfl
  rw [hmap, filter_viable, horizontals_eq, filter_seated, biased_eq, map_fst_seated]

/-- While the bias is the same, vertical bars that are put in change nothing. -/
theorem Interspersed.viable_congr (hi : Interspersed hs gs)
    (hb : Biased c p gs ↔ Biased c p hs) :
    viableHorizontals c p gs = viableHorizontals c p hs := by
  rw [viableHorizontals_eq, viableHorizontals_eq, hi.filter_eq, decide_eq_decide.mpr hb]

theorem Interspersed.sublist {c : Policy Float} (hc : c.Shrinks) {p : Point Float}
    {hs gs : List (Highlight Float)} (hi : Interspersed hs gs) :
    (viableHorizontals c p gs).Sublist (viableHorizontals c p hs) := by
  by_cases hb : Biased c p gs ↔ Biased c p hs
  · rw [hi.viable_congr hb]
  · -- The bias came in, for it cannot have gone.
    have hnone : ¬Biased c p hs := fun h => hb (iff_of_true (h.mono hi.subset) h)
    have hbiased : Biased c p gs := by
      by_contra h
      exact hb (iff_of_false h hnone)
    rw [viableHorizontals_eq, viableHorizontals_eq, hi.filter_eq, decide_eq_true hbiased,
      decide_eq_false hnone]
    apply List.monotone_filter_right
    intro h hcaught
    rw [decide_eq_true_eq] at hcaught ⊢
    exact Highlight.catches_of_biased hc hcaught

/-- The bias only takes away. Whatever numbers a highlight holds, a horizontal one that
qualifies under the bias qualifies without it, and a vertical one does not look at it. So
vertical bars that are put into a list leave of its viable horizontal bars a subsequence,
and all of them if no vertical bar catches the pointer then, or if one did already. -/
theorem bias_shrinks (c : Policy Float) (hc : c.Shrinks) :
    (∀ h p, Highlight.Catches c true p h → Highlight.Catches c false p h) ∧
      (∀ h p, Highlight.isVertical h = true →
        (Highlight.Catches c true p h ↔ Highlight.Catches c false p h)) ∧
      ∀ p hs gs, Interspersed hs gs →
        (viableHorizontals c p gs).Sublist (viableHorizontals c p hs) ∧
          (¬Biased c p gs ∨ Biased c p hs →
            viableHorizontals c p gs = viableHorizontals c p hs) := by
  refine ⟨fun h p => Highlight.catches_of_biased hc, ?_, fun p hs gs hi => ⟨hi.sublist hc, ?_⟩⟩
  · intro h p hv
    cases h with
    | vertical b => exact Highlight.catches_vertical c true false p b
    | horizontal b => exact absurd hv Bool.false_ne_true
  · intro hbias
    apply hi.viable_congr
    rcases hbias with hnone | hbiased
    · exact iff_of_false hnone fun h => hnone (h.mono hi.subset)
    · exact iff_of_true (hbiased.mono hi.subset) hbiased

/-- A policy under which nothing is left of a reach downward. -/
def blind : Policy Float := ⟨10, 0, 0.3⟩

/-- A row edge that reaches down without an end, and one that reaches up. -/
def rowEdges : List (Highlight Float) :=
  [.horizontal { x := 0, y := 100, width := 300, height := 0, zone := { bottom := some (1 / 0) } },
    .horizontal { x := 0, y := 124, width := 300, height := 0, zone := { top := some 40 } }]

/-- A bar between the two edges takes the endless reach away, not the other one. -/
theorem bias_shrinks_rowEdges :
    blind.Shrinks ∧ Interspersed rowEdges (inRow :: rowEdges) ∧
      (viableHorizontals blind ⟨155, 120⟩ rowEdges).map Prod.snd = [0, 1] ∧
      (viableHorizontals blind ⟨155, 120⟩ (inRow :: rowEdges)).map Prod.snd = [1] ∧
      (viableHorizontals blind ⟨155, 120⟩ (inRow :: rowEdges)).Sublist
        (viableHorizontals blind ⟨155, 120⟩ rowEdges) := by
  have hc : blind.Shrinks := by decide +kernel
  have hi : Interspersed rowEdges (inRow :: rowEdges) := .insert _ (.keep _ (.keep _ .nil))
  exact ⟨hc, hi, by decide +kernel, by decide +kernel,
    ((bias_shrinks blind hc).2.2 ⟨155, 120⟩ rowEdges (inRow :: rowEdges) hi).1⟩

end Selection

end DragDrop
