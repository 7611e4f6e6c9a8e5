import DragDrop.Proofs.Layout.Bars

/-! What a layout offers, number by number. Here the coordinates of the insertion points are
looked up BY NUMBER, as are the two that lie next to each, and every number that is asked for
exists. Along its axis a bar takes its place and its tolerances from them; across the axis all
bars of a layout run from the least near edge to the greatest far edge of what is on screen.
Rectangles that are no numbers are passed over there, and leave nothing but zeros elsewhere. -/

namespace DragDrop

variable {α : Type}

/-! ## The extremes of a list -/

section Extreme

variable [Scalar α]

/-- A member of a list that stands in a relation to all the numbers in it. If there is none
among them, it is not a number either. -/
structure Extreme (R : α → α → Prop) (m : α) (l : List α) : Prop where
  mem : m ∈ l
  rel : ∀ x ∈ l, Scalar.isNaN x = false → R m x

/-- The least number of a list. -/
def Least : α → List α → Prop := Extreme fun a b => a ≤ b

/-- The greatest number of a list. -/
def Greatest : α → List α → Prop := Extreme fun a b => b ≤ a

variable (R : α → α → Prop)

/-- The extreme of two is found by a comparison that may fail. -/
theorem extreme_choice {p : Prop} [Decidable p] {a b : α}
    (hrefl : ∀ x, Scalar.isNaN x = false → R x x) (hp : p → R b a)
    (hnot : ¬p → Scalar.isNaN a = false → Scalar.isNaN b = false → R a b) :
    Extreme R (if p then b else if Scalar.isNaN a then b else a) [a, b] := by
  by_cases h : p
  · rw [if_pos h]
    exact ⟨by simp, by simpa using ⟨fun _ => hp h, hrefl b⟩⟩
  · rw [if_neg h]
    cases ha : Scalar.isNaN a with
    | true => exact ⟨by simp, by simpa [ha] using hrefl b⟩
    | false => exact ⟨by simp, by simpa using ⟨hrefl a, hnot h ha⟩⟩

/-- From the extreme of two, the extreme of a list. -/
theorem extreme_foldl {f : α → α → α} (htrans : ∀ a b c, R a b → R b c → R a c)
    (hnumber : ∀ a b, R a b → Scalar.isNaN a = false) (hf : ∀ a b, Extreme R (f a b) [a, b])
    (a : α) (l : List α) : Extreme R (l.foldl f a) (a :: l) := by
  induction l generalizing a with
  | nil =>
    have hself : f a a = a := by simpa using (hf a a).mem
    refine ⟨List.mem_singleton.mpr rfl, ?_⟩
    intro x hx hn
    obtain rfl := List.mem_singleton.mp hx
    have hrel := (hf x x).rel x (by simp) hn
    rwa [hself] at hrel
  | cons b l ih =>
    have hrest := ih (f a b)
    -- What is extreme of the first two stands for both of them.
    have hpair : ∀ x ∈ [a, b], Scalar.isNaN x = false → R ((b :: l).foldl f a) x := by
      intro x hx hn
      have hx' := (hf a b).rel x hx hn
      exact htrans _ _ _ (hrest.rel _ List.mem_cons_self (hnumber _ _ hx')) hx'
    constructor
    · rcases List.mem_cons.mp hrest.mem with h | h
      · have hmem := (hf a b).mem
        rw [← h] at hmem
        exact List.mem_append_left l hmem
      · exact List.mem_cons_of_mem a (List.mem_cons_of_mem b h)
    · intro x hx hn
      rcases List.mem_append.mp (show x ∈ [a, b] ++ l from hx) with h | h
      · exact hpair x h hn
      · exact hrest.rel x (List.mem_cons_of_mem _ h) hn

variable [Valued α]

theorem least_lesser (a b : α) : Least (Scalar.lesser a b) [a, b] := by
  apply extreme_choice (fun a b => a ≤ b)
  · intro x
    exact Valued.reflexive
  · exact Valued.le_of_strict
  · intro h ha hb
    exact Valued.le_of_not_strict hb ha h

theorem greatest_greater (a b : α) : Greatest (Scalar.greater a b) [a, b] := by
  apply extreme_choice (fun a b => b ≤ a)
  · intro x
    exact Valued.reflexive
  · exact Valued.le_of_strict
  · intro h ha hb
    exact Valued.le_of_not_strict ha hb h

namespace Rect

variable {rs : List (Rect α)} {r : Rect α}

/-- Nothing begins in front of the union. -/
theorem least_near_unions (h : unions rs = some r) (axis : Axis) :
    Least (r.near axis) (rs.map (·.near axis)) := by
  cases rs with
  | nil => cases h
  | cons s rs =>
    obtain rfl := Option.some.inj h
    have hfold : (rs.foldl union s).near axis =
        (rs.map (·.near axis)).foldl Scalar.lesser (s.near axis) := by
      rw [List.foldl_map, ← List.foldl_hom fun r : Rect α => r.near axis]
      intro r s
      cases axis <;> rfl
    rw [hfold]
    exact extreme_foldl (fun a b => a ≤ b) (fun _ _ _ => Valued.transitive)
      (fun _ _ h => (Valued.le_iff.mp h).1.1) least_lesser _ _

/-- Nothing goes on behind the union. -/
theorem greatest_far_unions (h : unions rs = some r) (axis : Axis) :
    Greatest (r.far axis) (rs.map (·.far axis)) := by
  cases rs with
  | nil => cases h
  | cons s rs =>
    obtain rfl := Option.some.inj h
    have hfold : (rs.foldl union s).far axis =
        (rs.map (·.far axis)).foldl Scalar.greater (s.far axis) := by
      rw [List.foldl_map, ← List.foldl_hom fun r : Rect α => r.far axis]
      intro r s
      cases axis <;> rfl
    rw [hfold]
    exact extreme_foldl (fun a b => b ≤ a) (fun _ _ _ hab hbc => Valued.transitive hbc hab)
      (fun _ _ h => (Valued.le_iff.mp h).1.2) greatest_greater _ _

end Rect

end Extreme

/-! ## A bar, seen along an axis -/

/-- The axis across. -/
def Axis.other : Axis → Axis
  | across => down
  | down => across

/-- A coordinate of the upper left corner. -/
def Bar.corner (b : Bar α) : Axis → α
  | .across => b.x
  | .down => b.y

def Bar.extent (b : Bar α) : Axis → α
  | .across => b.width
  | .down => b.height

/-- What is declared for in front, along an axis. -/
def DropZone.before (z : DropZone α) : Axis → Option α
  | .across => z.left
  | .down => z.top

/-- What is declared for behind, along an axis. -/
def DropZone.after (z : DropZone α) : Axis → Option α
  | .across => z.right
  | .down => z.bottom

namespace Layout

variable [Scalar α]

section Bar

variable (l : Layout) (span : Rect α) (s : Stop α) (row : Nat)

theorem corner_bar : (l.bar span s row).bar.corner l.kind.axis = s.position := by
  unfold bar
  cases l.kind.axis <;> rfl

theorem corner_other_bar :
    (l.bar span s row).bar.corner l.kind.axis.other = span.near l.kind.axis.other := by
  unfold bar
  cases l.kind.axis <;> rfl

theorem extent_bar : (l.bar span s row).bar.extent l.kind.axis = Scalar.nonneg barThickness := by
  unfold bar
  cases l.kind.axis <;> rfl

theorem extent_other_bar : (l.bar span s row).bar.extent l.kind.axis.other =
    Scalar.nonneg (span.far l.kind.axis.other - span.near l.kind.axis.other) := by
  unfold bar
  cases l.kind.axis <;> rfl

theorem before_bar :
    (l.bar span s row).bar.zone.before l.kind.axis = some (Scalar.nonneg s.before) := by
  unfold bar
  cases l.kind.axis <;> exact congrArg some (Scalar.nonneg_nonneg s.before)

theorem after_bar :
    (l.bar span s row).bar.zone.after l.kind.axis = some (Scalar.nonneg s.after) := by
  unfold bar
  cases l.kind.axis <;> exact congrArg some (Scalar.nonneg_nonneg s.after)

theorem undeclared_bar : (l.bar span s row).bar.zone.before l.kind.axis.other = none ∧
    (l.bar span s row).bar.zone.after l.kind.axis.other = none := by
  unfold bar
  cases l.kind.axis <;> exact ⟨rfl, rfl⟩

end Bar

/-! ## Coordinates by number -/

/-- Half the gap between two coordinates, if there ARE such coordinates. -/
def halfGap? (axis : Axis) (rects : List (Rect α)) (i j : Nat) : Option α :=
  (coordinate? axis rects i).bind fun s => (coordinate? axis rects j).map fun t =>
    Scalar.half (Scalar.abs (t - s))

/-- What a layout has to offer under a number, next to these rectangles. -/
structure Offers (l : Layout) (rects : List (Rect α)) (k : Nat) (h : Highlight α) : Prop where
  axis : h.axis = l.kind.axis
  slot : h.slot = ⟨l.alignment, l.canvas, l.path, k⟩
  coordinate : coordinate? l.kind.axis rects k = some (h.bar.corner l.kind.axis)
  thickness : h.bar.extent l.kind.axis = barThickness
  start : Least (h.bar.corner l.kind.axis.other) (rects.map (·.near l.kind.axis.other))
  extent : ∃ finish, Greatest finish (rects.map (·.far l.kind.axis.other)) ∧
    h.bar.extent l.kind.axis.other = Scalar.nonneg (finish - h.bar.corner l.kind.axis.other)
  /-- Half the gap to the coordinate in front, where there is one. -/
  before : if k = 0 then h.bar.zone.before l.kind.axis = some 0
    else ∃ gap, halfGap? l.kind.axis rects (k - 1) k = some gap ∧
      h.bar.zone.before l.kind.axis = some (Scalar.nonneg gap)
  /-- Half the gap to the coordinate behind, where there is one. -/
  after : if k = rects.length then h.bar.zone.after l.kind.axis = some 0
    else ∃ gap, halfGap? l.kind.axis rects k (k + 1) = some gap ∧
      h.bar.zone.after l.kind.axis = some (Scalar.nonneg gap)
  undeclared : h.bar.zone.before l.kind.axis.other = none ∧
    h.bar.zone.after l.kind.axis.other = none

variable {l : Layout} {q : Query α} {h g : Highlight α} {k : Nat}

theorem Offers.before_succ {rects : List (Rect α)} (hg : l.Offers rects (k + 1) g) :
    ∃ gap, halfGap? l.kind.axis rects k (k + 1) = some gap ∧
      g.bar.zone.before l.kind.axis = some (Scalar.nonneg gap) := by
  have hbefore := hg.before
  rwa [if_neg k.succ_ne_zero] at hbefore

/-- Two neighbours declare the same towards each other. -/
theorem Offers.after_eq_before {rects : List (Rect α)} (hh : l.Offers rects k h)
    (hg : l.Offers rects (k + 1) g) :
    h.bar.zone.after l.kind.axis = g.bar.zone.before l.kind.axis := by
  obtain ⟨gap, hgap, hbefore⟩ := hg.before_succ
  have hafter := hh.after
  split at hafter
  · -- Behind the last number there is none.
    rename_i hlast
    have hnext := hg.coordinate
    rw [coordinate?, if_neg (by omega), List.getElem?_eq_none (by omega)] at hnext
    cases hnext
  · obtain ⟨gap', hgap', hafter⟩ := hafter
    rw [hgap] at hgap'
    rw [hafter, hbefore, Option.some.inj hgap']

theorem before_of_chain {rects : List (Rect α)} {axis : Axis} {s : Stop α}
    (hs : (Stop.chain 0 (stops axis rects))[k]? = some s) :
    if k = 0 then s.before = 0 else halfGap? axis rects (k - 1) k = some s.before := by
  have hplace := Stop.position_of_getElem? hs
  rcases Stop.before_of_getElem? hs with ⟨rfl, hzero⟩ | ⟨j, t, rfl, ht, hgap⟩
  · rw [if_pos rfl]
    exact hzero
  · rw [getElem?_stops] at hplace ht
    rw [if_neg j.succ_ne_zero, halfGap?, Nat.add_sub_cancel, ht, hplace, hgap]
    rfl

theorem after_of_chain {rects : List (Rect α)} (hne : rects ≠ []) {axis : Axis} {s : Stop α}
    (hs : (Stop.chain 0 (stops axis rects))[k]? = some s) :
    if k = rects.length then s.after = 0 else halfGap? axis rects k (k + 1) = some s.after := by
  have hplace := Stop.position_of_getElem? hs
  have hlength := length_stops axis hne
  rcases Stop.after_of_getElem? hs with ⟨hlast, hzero⟩ | ⟨t, ht, hgap⟩
  · rw [if_pos (by omega)]
    exact hzero
  · have hlt := (List.getElem?_eq_some_iff.mp ht).1
    rw [getElem?_stops] at hplace ht
    rw [if_neg (by omega), halfGap?, hplace, ht, hgap]
    rfl

/-- Each bar of a layout is the one to offer under its number. -/
theorem offers_of_getElem? [Valued α] (hthick : (0 : α) < barThickness)
    (hcanvas : q.canvas = l.canvas) (hmeasured : l.measured q ≠ [])
    (hk : (l.highlights q)[k]? = some h) : l.Offers ((l.measured q).map Prod.snd) k h := by
  obtain ⟨span, hspan⟩ := exists_unions hmeasured
  have hrects : (l.measured q).map Prod.snd ≠ [] := by simpa using hmeasured
  rw [getElem?_highlights hcanvas hspan] at hk
  obtain ⟨s, hs, rfl⟩ := Option.map_eq_some_iff.mp hk
  have hbefore := before_of_chain hs
  have hafter := after_of_chain hrects hs
  exact {
    axis := axis_bar l span s k
    slot := slot_bar l span s k
    coordinate := by
      rw [corner_bar, ← getElem?_stops]
      exact Stop.position_of_getElem? hs
    thickness := by rw [extent_bar, Scalar.nonneg_of_pos hthick]
    start := by
      rw [corner_other_bar]
      exact Rect.least_near_unions hspan _
    extent := by
      refine ⟨span.far l.kind.axis.other, Rect.greatest_far_unions hspan _, ?_⟩
      rw [extent_other_bar, corner_other_bar]
    before := by
      rw [before_bar]
      split
      · rename_i hfirst
        rw [if_pos hfirst] at hbefore
        rw [hbefore, Scalar.nonneg_zero]
      · rename_i hfirst
        rw [if_neg hfirst] at hbefore
        exact ⟨_, hbefore, rfl⟩
    after := by
      rw [after_bar]
      split
      · rename_i hlast
        rw [if_pos hlast] at hafter
        rw [hafter, Scalar.nonneg_zero]
      · rename_i hlast
        rw [if_neg hlast] at hafter
        exact ⟨_, hafter, rfl⟩
    undeclared := undeclared_bar l span s k }

/-- All that a layout offers: nothing on a foreign canvas or where no child is on screen, and
else one bar for each number up to that of children there, as `Offers` has it. -/
theorem highlights_spec (l : Layout) (q : Query Float) :
    (q.canvas ≠ l.canvas ∨ l.measured q = [] → l.highlights q = []) ∧
      (q.canvas = l.canvas → l.measured q ≠ [] →
        (l.highlights q).length = (l.measured q).length + 1 ∧
        (∀ k h, (l.highlights q)[k]? = some h → l.Offers ((l.measured q).map Prod.snd) k h) ∧
        ∀ k h g, (l.highlights q)[k]? = some h → (l.highlights q)[k + 1]? = some g →
          h.bar.zone.after l.kind.axis = g.bar.zone.before l.kind.axis) := by
  constructor
  · intro hnothing
    apply List.eq_nil_iff_forall_not_mem.mpr
    intro h hh
    obtain ⟨hcanvas, hmeasured⟩ := measured_of_mem_highlights hh
    rcases hnothing with hforeign | hnone
    · exact hforeign hcanvas
    · exact hmeasured hnone
  · intro hcanvas hmeasured
    have hthick : (0 : Float) < barThickness := by decide
    refine ⟨length_bars hcanvas hmeasured, ?_, ?_⟩
    · intro k h hk
      exact offers_of_getElem? hthick hcanvas hmeasured hk
    · intro k h g hk hnext
      exact (offers_of_getElem? hthick hcanvas hmeasured hk).after_eq_before
        (offers_of_getElem? hthick hcanvas hmeasured hnext)

/-- A row in which a child stands twice. -/
def bookcase : Layout where
  canvas := mainCanvas
  kind := .alignedRow
  path := [⟨"page"⟩, ⟨"bookcase"⟩]
  children := [⟨"atlas"⟩, ⟨"novel"⟩, ⟨"globe"⟩, ⟨"atlas"⟩, ⟨"lamp"⟩]
  alignment := .center

/-- The novel is being dragged, the lamp was not measured, and the globe is at no height. -/
def bookcaseDrag : Query Float where
  canvas := mainCanvas
  positions := .ofList [(⟨"atlas"⟩, ⟨0, 10, 100, 40⟩), (⟨"novel"⟩, ⟨100, 0, 20, 60⟩),
    (⟨"globe"⟩, ⟨120, 0 / 0, 80, 50⟩)]
  dragged := [⟨⟨"novel"⟩, "book", .hug⟩]

/-- The bar in front of the globe reaches half way to both atlases, and is as high as they
are. On another canvas there is none. -/
theorem highlights_spec_bookcase : (bookcase.highlights bookcaseDrag).length = 4 ∧
    (∃ h, (bookcase.highlights bookcaseDrag)[1]? = some h ∧
      bookcase.Offers ((bookcase.measured bookcaseDrag).map Prod.snd) 1 h ∧
      (h.bar.x == 120 && h.bar.y == 10 && h.bar.width == 4 && h.bar.height == 40) = true ∧
      ((h.bar.zone.left == some 60) && (h.bar.zone.right == some 60)) = true) ∧
    bookcase.highlights ⟨⟨"dialog"⟩, bookcaseDrag.positions, bookcaseDrag.dragged⟩ = [] := by
  have hcount : (bookcase.measured bookcaseDrag).length = 3 := by decide +kernel
  have hmeasured : bookcase.measured bookcaseDrag ≠ [] := by
    apply List.ne_nil_of_length_pos
    omega
  have hlook : ∀ h ∈ (bookcase.highlights bookcaseDrag)[1]?,
      (h.bar.x == 120 && h.bar.y == 10 && h.bar.width == 4 && h.bar.height == 40) = true ∧
      ((h.bar.zone.left == some 60) && (h.bar.zone.right == some 60)) = true := by
    decide +kernel
  obtain ⟨hlength, hoffers, -⟩ := (highlights_spec bookcase bookcaseDrag).2 rfl hmeasured
  rw [hcount] at hlength
  have hone : 1 < (bookcase.highlights bookcaseDrag).length := by omega
  have hget := List.getElem?_eq_getElem hone
  exact ⟨hlength, ⟨_, hget, hoffers 1 _ hget, hlook _ hget⟩,
    (highlights_spec bookcase ⟨⟨"dialog"⟩, bookcaseDrag.positions, bookcaseDrag.dragged⟩).1
      (.inl (by decide))⟩

end Layout

end DragDrop
