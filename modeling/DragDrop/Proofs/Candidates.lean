import DragDrop.Proofs.Selection

/-! One list of candidates against another. A horizontal bar can drop out when a
vertical one comes in, since the bias is a matter of the WHOLE list; what brings the
bias in is itself a target, so adding candidates never leaves the pointer without one. -/

namespace DragDrop.Selection

variable {α : Type} [Scalar α] {c : Policy α} {p : Point α} {hs gs : List (Highlight α)}

theorem isSome_pick_iff : (pick c p hs).isSome ↔ ∃ h ∈ hs, Viable c p hs h := by
  simp only [Option.isSome_iff_ne_none, ne_eq, pick_eq_none_iff, not_forall, not_not, exists_prop]

/-- What is viable is a matter of the bias, and of nothing else in the list. -/
theorem viable_congr (hb : Biased c p hs ↔ Biased c p gs) {h : Highlight α} :
    Viable c p hs h ↔ Viable c p gs h := by
  rw [Viable, Viable, decide_eq_decide.mpr hb]

/-- The vertical bar that brings the bias in is viable itself. -/
theorem exists_viable_of_biased (hb : Biased c p hs) : ∃ v ∈ hs, Viable c p hs v := by
  obtain ⟨v, hv, hvertical, hcatches⟩ := hb
  refine ⟨v, hv, ?_⟩
  rw [Viable, if_pos hvertical]
  exact hcatches

theorem Biased.mono (hb : Biased c p hs) (hsub : hs ⊆ gs) : Biased c p gs := by
  obtain ⟨v, hv, hcaught⟩ := hb
  exact ⟨v, hsub hv, hcaught⟩

/-- More candidates never lose the target: where one is found among some highlights,
one is found among ANY that contain them. It need not be the same one, nor viable before. -/
theorem isSome_pick_of_subset (hsub : hs ⊆ gs) (h : (pick c p hs).isSome) :
    (pick c p gs).isSome := by
  rw [isSome_pick_iff] at h ⊢
  obtain ⟨g, hg, hviable⟩ := h
  by_cases hb : Biased c p gs
  · exact exists_viable_of_biased hb
  · -- No vertical bar was added that catches the pointer, so nothing drops out.
    have hnone : ¬Biased c p hs := fun hb' => hb (hb'.mono hsub)
    exact ⟨g, hsub hg, (viable_congr (iff_of_false hnone hb)).mp hviable⟩

/-- The edge between two rows, which reaches far down. -/
def rowEdge : Highlight Float := .horizontal
  { x := 0, y := 100, width := 300, height := 0, zone := { bottom := some 50 } }

/-- A place within the lower one of the rows. -/
def inRow : Highlight Float := .vertical
  { x := 150, y := 100, width := 0, height := 60, zone := { right := some 10 } }

/-- All that was viable drops out, and what was added takes its place. -/
theorem isSome_pick_rowEdge_inRow :
    (viable .standard ⟨155, 120⟩ [rowEdge].zipIdx).map Prod.snd = [0] ∧
      (viable .standard ⟨155, 120⟩ [rowEdge, inRow].zipIdx).map Prod.snd = [1] ∧
      [rowEdge] ⊆ [rowEdge, inRow] ∧ (pick .standard ⟨155, 120⟩ [rowEdge]).isSome ∧
      (pick .standard ⟨155, 120⟩ [rowEdge, inRow]).isSome := by
  have hsub : [rowEdge] ⊆ [rowEdge, inRow] := by simp
  have hfound : (pick .standard ⟨155, 120⟩ [rowEdge]).isSome := by decide +kernel
  exact ⟨by decide +kernel, by decide +kernel, hsub, hfound, isSome_pick_of_subset hsub hfound⟩

end DragDrop.Selection
