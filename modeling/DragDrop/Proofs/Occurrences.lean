import DragDrop.Proofs.Candidates

/-! Which OCCURRENCE of a list is picked, and what else in the list has a say in it. A pick
is told by its place, and places shift when something is left out or the list is reordered;
so here an occurrence is followed by its place in another list, or by its seat: how many of
its own orientation stand in front of it. What was not picked can go, as long as the bias
stays. The order of a list does nothing but break ties between bars of one orientation. -/

namespace DragDrop.Selection

variable {α κ ι : Type} [Scalar α] {c : Policy α} {p : Point α} {hs gs : List (Highlight α)}

/-! ## Tags -/

/-- Gives a highlight another tag. -/
def retag {α : Type} (tag : Highlight α × κ → ι) (h : Highlight α × κ) : Highlight α × ι :=
  (h.1, tag h)

theorem viable_retag (tag : Highlight α × κ → ι) (l : List (Highlight α × κ)) :
    viable c p (l.map (retag tag)) = (viable c p l).map (retag tag) :=
  viable_map (f := retag tag) (fun _ => rfl) (fun _ _ => Iff.rfl) l

theorem closest_retag (tag : Highlight α × κ → ι) (l : List (Highlight α × κ)) :
    closest c p (l.map (retag tag)) = (closest c p l).map (retag tag) :=
  closest_map (f := retag tag) (fun _ => rfl) (fun _ _ => Iff.rfl) (fun _ => rfl) l

/-- The pick of a list, looked up in a list with tags, is what is closest there. -/
theorem pick_map_fst (l : List (Highlight α × κ)) :
    (pick c p (l.map Prod.fst)).bind (fun h => l[h.2]?) = closest c p l := by
  have htags : (l.map Prod.fst).zipIdx.map (retag fun h => l[h.2]?) = l.map (retag some) := by
    apply List.ext_getElem?
    intro i
    cases hi : l[i]? <;> simp [retag, hi]
  have hclosest := congrArg (fun g => (closest c p g).bind Prod.snd) htags
  simp only [closest_retag, Option.bind_map] at hclosest
  exact hclosest.trans (Option.bind_fun_some _)

/-! ## What is left out -/

/-- The occurrences that are kept, each with its place in the whole list. -/
def kept {α : Type} (keep : Nat → Bool) (hs : List (Highlight α)) : List (Highlight α × Nat) :=
  hs.zipIdx.filter fun h => keep h.2

/-- The list without those that are not kept. -/
def remaining {α : Type} (keep : Nat → Bool) (hs : List (Highlight α)) : List (Highlight α) :=
  (kept keep hs).map Prod.fst

/-- What is picked from the list that remains, with its place in the WHOLE list. -/
def pickRemaining (c : Policy α) (p : Point α) (keep : Nat → Bool) (hs : List (Highlight α)) :
    Option (Highlight α × Nat) :=
  (pick c p (remaining keep hs)).bind fun h => (kept keep hs)[h.2]?

variable {keep : Nat → Bool}

omit [Scalar α] in
theorem mem_remaining {g : Highlight α} :
    g ∈ remaining keep hs ↔ ∃ i, hs[i]? = some g ∧ keep i = true := by
  simp [remaining, kept, List.mem_zipIdx_iff_getElem?]

omit [Scalar α] in
theorem remaining_subset : remaining keep hs ⊆ hs := by
  intro g hg
  obtain ⟨i, hi, -⟩ := mem_remaining.mp hg
  exact List.mem_of_getElem? hi

/-- While the bias stays, a highlight is viable without the others as it was with them. -/
theorem viable_filter {l : List (Highlight α × κ)} {keep : Highlight α × κ → Bool}
    (hb : biased c p (l.filter keep) = biased c p l) :
    viable c p (l.filter keep) = (viable c p l).filter keep := by
  rw [viable, viable, hb, List.filter_append]
  exact congrArg₂ (· ++ ·) (List.filter_comm _ _ l) (List.filter_comm _ _ l)

theorem closest_filter [Valued α] {l : List (Highlight α × κ)} {keep : Highlight α × κ → Bool}
    {h : Highlight α × κ} (hp : closest c p l = some h) (hk : keep h = true)
    (hb : biased c p (l.filter keep) = biased c p l) : closest c p (l.filter keep) = some h := by
  rw [closest_eq_firstLeast] at hp ⊢
  rw [viable_filter hb]
  exact ((firstLeast_eq_some _ hp).filter hk).eq_some

theorem pickRemaining_of_biased [Valued α] {h : Highlight α × Nat} (hp : pick c p hs = some h)
    (hk : keep h.2 = true) (hb : Biased c p (remaining keep hs) ↔ Biased c p hs) :
    pickRemaining c p keep hs = some h := by
  rw [pickRemaining, remaining, pick_map_fst]
  apply closest_filter hp hk
  rw [biased_zipIdx, ← decide_eq_decide.mpr hb]
  exact biased_eq _

/-- A vertical bar that is picked catches the pointer, so it brings the bias in. -/
theorem biased_of_pick [Valued α] {h : Highlight α × Nat} (hp : pick c p hs = some h)
    (hv : h.1.isVertical = true) (hmem : h.1 ∈ gs) : Biased c p gs := by
  have hviable := (best_of_pick hp).viable
  rw [Viable, if_pos hv] at hviable
  exact ⟨h.1, hmem, hv, hviable⟩

/-- What is not picked does not count. Whatever else is left out of the list, the SAME
occurrence is picked, as long as a vertical bar that catches the pointer remains just when
there was one; and so it is if only horizontal bars are left out and vertical ones that do
not catch the pointer, or, when a vertical bar is picked, any others. -/
theorem pick_remaining [Valued α] {h : Highlight α × Nat} (hp : pick c p hs = some h)
    (hk : keep h.2 = true) :
    ((Biased c p (remaining keep hs) ↔ Biased c p hs) → pickRemaining c p keep hs = some h) ∧
      ((∀ g i, hs[i]? = some g → keep i = false →
        ¬g.isVertical ∨ ¬g.Catches c false p ∨ h.1.isVertical) →
          pickRemaining c p keep hs = some h) := by
  refine ⟨pickRemaining_of_biased hp hk, ?_⟩
  intro hout
  refine pickRemaining_of_biased hp hk ⟨fun hb => hb.mono remaining_subset, ?_⟩
  rintro ⟨v, hv, hvertical, hcatches⟩
  by_cases hpicked : h.1.isVertical = true
  · exact biased_of_pick hp hpicked (mem_remaining.mpr ⟨h.2, mem_of_pick hp, hk⟩)
  · -- The bar that brings the bias in is none of those that were left out.
    obtain ⟨i, hi⟩ := List.mem_iff_getElem?.mp hv
    cases hki : keep i with
    | true => exact ⟨v, mem_remaining.mpr ⟨i, hi, hki⟩, hvertical, hcatches⟩
    | false =>
      rcases hout v i hi hki with h' | h' | h'
      · exact absurd hvertical h'
      · exact absurd hcatches h'
      · exact absurd h' hpicked

/-- A row edge just above the pointer, another one farther up, and a bar on either side. -/
def crossing : List (Highlight Float) :=
  [.vertical { x := 150, y := 100, width := 0, height := 60 },
    .horizontal { x := 0, y := 119, width := 300, height := 0 },
    .horizontal { x := 0, y := 112, width := 300, height := 0 },
    .vertical { x := 160, y := 100, width := 0, height := 60 }]

/-- Keeps every other place. -/
def everyOther (i : Nat) : Bool := i % 2 == 1

/-- The left one of the two bars goes, and the farther row edge. -/
theorem pick_remaining_crossing :
    (pick .standard ⟨154, 120⟩ crossing).map Prod.snd = some 1 ∧
      (viable .standard ⟨154, 120⟩ crossing.zipIdx).map Prod.snd = [0, 3, 1, 2] ∧
      (pickRemaining .standard ⟨154, 120⟩ everyOther crossing).map Prod.snd = some 1 := by
  have hpick : (pick .standard ⟨154, 120⟩ crossing).map Prod.snd = some 1 := by decide +kernel
  obtain ⟨h, hp, hplace⟩ := Option.map_eq_some_iff.mp hpick
  have hkeep : everyOther h.2 = true := by rw [hplace]; rfl
  have hbias : Biased .standard ⟨154, 120⟩ (remaining everyOther crossing) ↔
      Biased .standard ⟨154, 120⟩ crossing :=
    iff_of_true (by decide +kernel) (by decide +kernel)
  have hsame := (pick_remaining hp hkeep).1 hbias
  exact ⟨hpick, by decide +kernel, by rw [hsame, Option.map_some, hplace]⟩

/-! ## Seats -/

/-- How many highlights of its own orientation stand in front of an occurrence. -/
def seat {α : Type} (hs : List (Highlight α)) (h : Highlight α × Nat) : Nat :=
  (hs.take h.2).countP fun g => g.isVertical == h.1.isVertical

/-- Each highlight with its seat. -/
def seated {α : Type} (hs : List (Highlight α)) : List (Highlight α × Nat) :=
  hs.zipIdx.map (retag (seat hs))

omit [Scalar α] in
theorem seated_append (hs : List (Highlight α)) (h : Highlight α) :
    seated (hs ++ [h]) =
      seated hs ++ [(h, hs.countP fun g => g.isVertical == h.isVertical)] := by
  have hfront : ∀ g ∈ hs.zipIdx, retag (seat (hs ++ [h])) g = retag (seat hs) g := by
    intro g hg
    have hlt := (List.mem_zipIdx hg).2.1
    rw [retag, retag, seat, seat, List.take_append_of_le_length (by omega)]
  rw [seated, seated, List.zipIdx_append, List.map_append, List.map_congr_left hfront]
  simp [retag, seat]

omit [Scalar α] in
/-- The seats of one orientation are its places among its own kind. -/
theorem filter_seated (o : Bool) (hs : List (Highlight α)) :
    (seated hs).filter (fun h => h.1.isVertical == o) =
      (hs.filter fun h => h.isVertical == o).zipIdx := by
  induction hs using List.reverseRecOn with
  | nil => rfl
  | append_singleton hs h ih =>
    rw [seated_append, List.filter_append, List.filter_append, ih, List.zipIdx_append]
    by_cases ho : h.isVertical = o
    · simp [ho, List.countP_eq_length_filter]
    · simp [ho]

omit [Scalar α] in
theorem map_fst_seated (hs : List (Highlight α)) : (seated hs).map Prod.fst = hs := by
  rw [seated, List.map_map]
  exact List.zipIdx_map_fst ..

theorem verticals_eq (l : List (Highlight α × κ)) : verticals c p l =
    (l.filter fun h => h.1.isVertical == true).filter fun h => h.1.Catches c false p := by
  simp [verticals, List.filter_filter, and_comm]

theorem horizontals_eq (b : Bool) (l : List (Highlight α × κ)) : horizontals c p b l =
    (l.filter fun h => h.1.isVertical == false).filter fun h => h.1.Catches c b p := by
  simp [horizontals, List.filter_filter, and_comm]

/-- What is viable is a matter of the two orientations apart. -/
theorem viable_congr_filter {l l' : List (Highlight α × κ)}
    (h : ∀ o, l.filter (fun h => h.1.isVertical == o) = l'.filter fun h => h.1.isVertical == o) :
    viable c p l = viable c p l' := by
  have hverticals : verticals c p l = verticals c p l' := by rw [verticals_eq, verticals_eq, h]
  rw [viable, viable, biased, biased, hverticals, horizontals_eq, horizontals_eq, h]

/-- However the same two sequences are put together, the same seat is picked. -/
theorem pick_retag_seat
    (hv : hs.filter (·.isVertical) = gs.filter (·.isVertical))
    (hh : hs.filter (!·.isVertical) = gs.filter (!·.isVertical)) :
    (pick c p hs).map (retag (seat hs)) = (pick c p gs).map (retag (seat gs)) := by
  have hseated : viable c p (seated hs) = viable c p (seated gs) := by
    apply viable_congr_filter
    intro o
    rw [filter_seated, filter_seated]
    cases o <;> simp [hv, hh]
  rw [pick, pick, ← closest_retag, ← closest_retag, closest, closest]
  exact congrArg _ hseated

/-! ## The order of the list -/

theorem map_fst_viable (hs : List (Highlight α)) :
    ((viable c p hs.zipIdx).map Prod.fst).Perm (hs.filter fun h => Viable c p hs h) := by
  have hmap := List.filter_map (f := Prod.fst) (p := fun h => decide (Viable c p hs h))
    (l := hs.zipIdx)
  rw [List.zipIdx_map_fst] at hmap
  exact ((perm_viable_zipIdx c p hs).map Prod.fst).trans (.of_eq hmap.symm)

theorem biased_perm (h : hs.Perm gs) : Biased c p hs ↔ Biased c p gs :=
  ⟨fun hb => hb.mono h.subset, fun hb => hb.mono h.symm.subset⟩

/-- On a tie with a vertical bar, none but a vertical one is picked. -/
theorem isVertical_of_tie [Valued α] {g : Highlight α × Nat} {h : Highlight α}
    (hg : Best c p gs g) (hmem : h ∈ gs) (hviable : Viable c p gs h)
    (htie : byDistance (h.distance p) (g.1.distance p) = .eq) (hv : h.isVertical = true) :
    g.1.isVertical = true := by
  by_contra hn
  obtain ⟨j, hj⟩ := List.mem_iff_getElem?.mp hmem
  have hne : j ≠ g.2 := by
    rintro rfl
    rw [hg.inList, Option.some.injEq] at hj
    exact hn (hj ▸ hv)
  rcases hg.ahead h j hj hviable htie hne with ⟨h', -⟩ | ⟨h', -⟩
  · exact hn h'
  · exact hn (h'.trans hv)

/-- In another order something else may be picked, but not anything nearer, or farther, or
of the other orientation. -/
theorem tie_of_perm [Valued α] (hperm : hs.Perm gs) {h g : Highlight α × Nat}
    (hh : pick c p hs = some h) (hg : pick c p gs = some g) :
    byDistance (h.1.distance p) (g.1.distance p) = .eq ∧ h.1.isVertical = g.1.isVertical := by
  have bh := best_of_pick hh
  have bg := best_of_pick hg
  have hviable {f : Highlight α} : Viable c p hs f ↔ Viable c p gs f :=
    viable_congr (biased_perm hperm)
  have hmem : h.1 ∈ gs := hperm.subset (List.mem_of_getElem? bh.inList)
  have gmem : g.1 ∈ hs := hperm.symm.subset (List.mem_of_getElem? bg.inList)
  have htie : Valued.rank (h.1.distance p) = Valued.rank (g.1.distance p) := by
    obtain ⟨j, hj⟩ := List.mem_iff_getElem?.mp hmem
    obtain ⟨i, hi⟩ := List.mem_iff_getElem?.mp gmem
    have hle := bh.nearest g.1 i hi (hviable.mpr bg.viable)
    have hge := bg.nearest h.1 j hj (hviable.mp bh.viable)
    rw [byDistance_eq_compare, Ne, compare_lt_iff_lt, not_lt] at hle hge
    exact le_antisymm hle hge
  have heq (x y : α) (h : Valued.rank x = Valued.rank y) : byDistance x y = .eq := by
    rw [byDistance_eq_compare, compare_eq_iff_eq, h]
  refine ⟨heq _ _ htie, Bool.eq_iff_iff.mpr ⟨?_, ?_⟩⟩
  · exact isVertical_of_tie bg hmem (hviable.mp bh.viable) (heq _ _ htie)
  · exact isVertical_of_tie bh gmem (hviable.mpr bg.viable) (heq _ _ htie.symm)

/-- The order of a list only breaks ties within one orientation. However its vertical and
its horizontal bars are interleaved, the same occurrence is picked; and in any other order
the same highlights are viable, a target is found or none is, and the two picks are equally
far and of one orientation. -/
theorem pick_reordered [Valued α] (c : Policy α) (p : Point α) (hs gs : List (Highlight α)) :
    (hs.filter (·.isVertical) = gs.filter (·.isVertical) →
      hs.filter (!·.isVertical) = gs.filter (!·.isVertical) →
        (pick c p hs).map (retag (seat hs)) = (pick c p gs).map (retag (seat gs))) ∧
      (hs.Perm gs →
        ((viable c p hs.zipIdx).map Prod.fst).Perm ((viable c p gs.zipIdx).map Prod.fst) ∧
          (pick c p hs).isSome = (pick c p gs).isSome ∧
          ∀ h g, pick c p hs = some h → pick c p gs = some g →
            byDistance (h.1.distance p) (g.1.distance p) = .eq ∧
              h.1.isVertical = g.1.isVertical) := by
  refine ⟨pick_retag_seat, fun hperm => ⟨?_, ?_, fun h g => tie_of_perm hperm⟩⟩
  · have hviable : (fun h => decide (Viable c p hs h)) = fun h => decide (Viable c p gs h) := by
      funext h
      exact decide_eq_decide.mpr (viable_congr (biased_perm hperm))
    refine (map_fst_viable hs).trans (.trans ?_ (map_fst_viable gs).symm)
    rw [hviable]
    exact hperm.filter _
  · exact Bool.eq_iff_iff.mpr
      ⟨isSome_pick_of_subset hperm.subset, isSome_pick_of_subset hperm.symm.subset⟩

/-- A row edge, between two rows. -/
def rowLine : Highlight Float := .horizontal { x := 0, y := 100, width := 300, height := 0 }

/-- The bars to the left and to the right of a widget in the lower row. -/
def leftBar : Highlight Float := .vertical { x := 150, y := 100, width := 0, height := 60 }

@[inherit_doc leftBar]
def rightBar : Highlight Float :=
  .vertical { x := 160, y := 100, width := 0, height := 60, slot := { row := 1 } }

/-- All three are equally far from a pointer in the upper half of the widget. -/
def corner : List (Highlight Float) := [rowLine, leftBar, rightBar]

/-- Wherever the row edge stands, the left bar is picked. The right one is picked where it
stands in front of that; it is as near, and vertical too. -/
theorem pick_reordered_corner :
    (pick .standard ⟨155, 105⟩ corner).map (retag (seat corner)) =
        (pick .standard ⟨155, 105⟩ [leftBar, rowLine, rightBar]).map
          (retag (seat [leftBar, rowLine, rightBar])) ∧
      (pick .standard ⟨155, 105⟩ corner).map (·.1.slot.row) = some 0 ∧
      (pick .standard ⟨155, 105⟩ corner.reverse).map (·.1.slot.row) = some 1 ∧
      ∀ h g, pick .standard ⟨155, 105⟩ corner = some h →
        pick .standard ⟨155, 105⟩ corner.reverse = some g →
          byDistance (h.1.distance ⟨155, 105⟩) (g.1.distance ⟨155, 105⟩) = .eq ∧
            h.1.isVertical = g.1.isVertical := by
  have hbars : corner.filter (·.isVertical) =
      [leftBar, rowLine, rightBar].filter (·.isVertical) := by
    simp [corner, rowLine, leftBar, rightBar, Highlight.isVertical]
  have hlines : corner.filter (!·.isVertical) =
      [leftBar, rowLine, rightBar].filter (!·.isVertical) := by
    simp [corner, rowLine, leftBar, rightBar, Highlight.isVertical]
  have hinterleaved := (pick_reordered .standard ⟨155, 105⟩ corner
    [leftBar, rowLine, rightBar]).1 hbars hlines
  have hreordered := (pick_reordered .standard ⟨155, 105⟩ corner corner.reverse).2
    (List.reverse_perm corner).symm
  exact ⟨hinterleaved, by decide +kernel, by decide +kernel, hreordered.2.2⟩

end DragDrop.Selection
