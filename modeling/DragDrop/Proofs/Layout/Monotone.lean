import DragDrop.Proofs.Layout.Nearest

/-! The target follows the pointer. What is picked stands at a nearest one of ALL stops,
also in front of them and behind them: there only sides reach that declare zero, and the
outermost stop has one. So farther along nothing is picked that is less far. Stops that
coincide do not reach alike, and the first that reaches is taken; its number does not
fall either. -/

namespace DragDrop

theorem abs_sub_le_iff_of_gt {m s t : Rat} (h : t < s) :
    |m - s| ≤ |m - t| ↔ s + t ≤ m + m := by
  have hfactor : (m - t) ^ 2 - (m - s) ^ 2 = (s - t) * (m + m - (s + t)) := by ring
  rw [← sq_le_sq, ← sub_nonneg, hfactor, mul_nonneg_iff_of_pos_left (sub_pos.mpr h), sub_nonneg]

theorem abs_sub_le_iff_of_lt {m s t : Rat} (h : s < t) :
    |m - s| ≤ |m - t| ↔ m + m ≤ s + t := by
  have hfactor : (m - t) ^ 2 - (m - s) ^ 2 = (t - s) * (s + t - (m + m)) := by ring
  rw [← sq_le_sq, ← sub_nonneg, hfactor, mul_nonneg_iff_of_pos_left (sub_pos.mpr h), sub_nonneg]

namespace Nearest

variable {S : List Rat} {a b m s t : Rat}

/-- In front of all places, the first of them is the nearest. -/
theorem of_in_front (hm : m ≤ s) (hS : ∀ u ∈ S, s ≤ u) : Nearest S m s := by
  intro u hu
  have hsu := hS u hu
  rw [abs_sub_comm, abs_sub_comm m u, abs_of_nonneg (by linarith), abs_of_nonneg (by linarith)]
  linarith

theorem of_behind (hm : s ≤ m) (hS : ∀ u ∈ S, u ≤ s) : Nearest S m s := by
  intro u hu
  have hus := hS u hu
  rw [abs_of_nonneg (by linarith), abs_of_nonneg (by linarith)]
  linarith

/-- The nearest place does not fall. -/
theorem mono (hs : Nearest S a s) (ht : Nearest S b t) (hsS : s ∈ S) (htS : t ∈ S)
    (hab : a < b) : s ≤ t := by
  by_contra hlt
  have hst : t < s := not_le.mp hlt
  have ha : s + t ≤ a + a := (abs_sub_le_iff_of_gt hst).mp (hs t htS)
  have hb : b + b ≤ t + s := (abs_sub_le_iff_of_lt hst).mp (ht s hsS)
  linarith

end Nearest

theorem le_of_getElem?_le {S : List Rat} (hS : S.Pairwise (· ≤ ·)) {i j : Nat} {s t : Rat}
    (hs : S[i]? = some s) (ht : S[j]? = some t) (hij : i ≤ j) : s ≤ t := by
  obtain ⟨hi, rfl⟩ := List.getElem?_eq_some_iff.mp hs
  obtain ⟨hj, rfl⟩ := List.getElem?_eq_some_iff.mp ht
  exact hS.rel_get_of_le (a := ⟨i, hi⟩) (b := ⟨j, hj⟩) hij

namespace Stop

variable {r : Rat → Rat} {a b m : Rat} {S : List Rat} {i j : Nat} {x y : Stop Rat}

/-- The gap in front of a stop, where the places do not fall. -/
theorem before_of_sorted (hS : S.Pairwise (· ≤ ·)) (hx : (chain 0 S)[i]? = some x) :
    0 ≤ x.before ∧ (0 < x.before →
      ∃ k s, i = k + 1 ∧ S[k]? = some s ∧ x.before = (x.position - s) / 2) := by
  rcases before_of_getElem? hx with ⟨-, hzero⟩ | ⟨k, s, rfl, hs, hgap⟩
  · rw [hzero]
    exact ⟨le_rfl, fun h => absurd h (lt_irrefl 0)⟩
  · have hle : s ≤ x.position := le_of_getElem?_le hS hs (position_of_getElem? hx) (by omega)
    rw [Scalar.half_abs_sub hle] at hgap
    exact ⟨by linarith, fun _ => ⟨k, s, rfl, hs, hgap⟩⟩

theorem after_of_sorted (hS : S.Pairwise (· ≤ ·)) (hx : (chain 0 S)[i]? = some x) :
    0 ≤ x.after ∧ (0 < x.after → ∃ t, S[i + 1]? = some t ∧ x.after = (t - x.position) / 2) := by
  rcases after_of_getElem? hx with ⟨-, hzero⟩ | ⟨t, ht, hgap⟩
  · rw [hzero]
    exact ⟨le_rfl, fun h => absurd h (lt_irrefl 0)⟩
  · have hle : x.position ≤ t := le_of_getElem?_le hS (position_of_getElem? hx) ht (by omega)
    rw [Scalar.half_abs_sub hle] at hgap
    exact ⟨by linarith, fun _ => ⟨t, ht, hgap⟩⟩

/-- A stop reaches in front of all places only over a side that declares zero. -/
theorem before_eq_zero (hr : Reaching r) (hS : S.Pairwise (· ≤ ·))
    (hx : (chain 0 S)[i]? = some x) (hreach : x.Reaches r m) (hm : ∀ s ∈ S, m < s) :
    x.before = 0 := by
  obtain ⟨hnonneg, hgap⟩ := before_of_sorted hS hx
  by_contra hne
  have hpos : 0 < x.before := lt_of_le_of_ne hnonneg (Ne.symm hne)
  obtain ⟨k, s, -, hs, hhalf⟩ := hgap hpos
  have hms := hm s (List.mem_of_getElem? hs)
  have hmx := hm x.position (List.mem_of_getElem? (position_of_getElem? hx))
  have hle := hreach.1
  rw [hr.of_pos _ hpos, hhalf] at hle
  linarith

theorem after_eq_zero (hr : Reaching r) (hS : S.Pairwise (· ≤ ·))
    (hx : (chain 0 S)[i]? = some x) (hreach : x.Reaches r m) (hm : ∀ s ∈ S, s < m) :
    x.after = 0 := by
  obtain ⟨hnonneg, hgap⟩ := after_of_sorted hS hx
  by_contra hne
  have hpos : 0 < x.after := lt_of_le_of_ne hnonneg (Ne.symm hne)
  obtain ⟨t, ht, hhalf⟩ := hgap hpos
  have htm := hm t (List.mem_of_getElem? ht)
  have hxm := hm x.position (List.mem_of_getElem? (position_of_getElem? hx))
  have hle := hreach.2
  rw [hr.of_pos _ hpos, hhalf] at hle
  linarith

/-- In front of all stops only zeros reach, and the first stop has one there. -/
theorem Reaches.first (hr : Reaching r) (hS : S.Pairwise (· ≤ ·)) {f : Stop Rat}
    (hf : (chain 0 S)[0]? = some f) (hzero : f.before = 0) (hx : (chain 0 S)[i]? = some x)
    (hreach : x.Reaches r m) (hm : m < f.position) : f.Reaches r m ∧ Nearest S m f.position := by
  have hfirst : ∀ s ∈ S, f.position ≤ s := by
    intro s hs
    obtain ⟨k, hk⟩ := List.mem_iff_getElem?.mp hs
    exact le_of_getElem?_le hS (position_of_getElem? hf) hk (Nat.zero_le k)
  have hle := hreach.1
  rw [before_eq_zero hr hS hx hreach fun s hs => hm.trans_le (hfirst s hs)] at hle
  have hfx := hfirst x.position (List.mem_of_getElem? (position_of_getElem? hx))
  have hafter := (after_of_sorted hS hf).1
  have hbehind := hr.le hafter
  refine ⟨⟨?_, by linarith⟩, .of_in_front hm.le hfirst⟩
  rw [hzero]
  linarith

theorem Reaches.last (hr : Reaching r) (hS : S.Pairwise (· ≤ ·)) {z : Stop Rat}
    (hz : (chain 0 S)[S.length - 1]? = some z) (hzero : z.after = 0)
    (hx : (chain 0 S)[i]? = some x) (hreach : x.Reaches r m) (hm : z.position < m) :
    z.Reaches r m ∧ Nearest S m z.position := by
  have hlast : ∀ s ∈ S, s ≤ z.position := by
    intro s hs
    obtain ⟨k, hk⟩ := List.mem_iff_getElem?.mp hs
    have hlt := (List.getElem?_eq_some_iff.mp hk).1
    exact le_of_getElem?_le hS hk (position_of_getElem? hz) (by omega)
  have hle := hreach.2
  rw [after_eq_zero hr hS hx hreach fun s hs => (hlast s hs).trans_lt hm] at hle
  have hxz := hlast x.position (List.mem_of_getElem? (position_of_getElem? hx))
  have hbefore := (before_of_sorted hS hz).1
  have hfront := hr.le hbefore
  refine ⟨⟨by linarith, ?_⟩, .of_behind hm.le hlast⟩
  rw [hzero]
  linarith

/-- Whatever reaches a place, one of the nearest stops does. -/
theorem exists_nearest_of_reaches (hr : Reaching r) (hS : S.Pairwise (· ≤ ·))
    (hx : (chain 0 S)[i]? = some x) (hreach : x.Reaches r m) :
    ∃ (k : Nat) (z : Stop Rat), (chain 0 S)[k]? = some z ∧ z.Reaches r m ∧
      Nearest S m z.position := by
  have hne : S ≠ [] := List.ne_nil_of_mem (List.mem_of_getElem? (position_of_getElem? hx))
  obtain ⟨f, hf, hfzero⟩ := exists_first 0 hne
  obtain ⟨z, hz, hzzero⟩ := exists_last 0 hne
  rcases lt_or_ge m f.position with hm | hfm
  · exact ⟨0, f, hf, Reaches.first hr hS hf hfzero hx hreach hm⟩
  rcases lt_or_ge z.position m with hm | hmz
  · exact ⟨_, z, hz, Reaches.last hr hS hz hzzero hx hreach hm⟩
  have hhead : S.head? = some f.position :=
    List.head?_eq_getElem?.trans (position_of_getElem? hf)
  have hlast : S.getLast? = some z.position :=
    List.getLast?_eq_getElem?.trans (position_of_getElem? hz)
  obtain ⟨y, hy, hreach, hmin⟩ := exists_nearest hr le_rfl hne hS (by simpa [hhead] using hfm)
    (by simpa [hlast] using hmz)
  obtain ⟨k, hk⟩ := List.mem_iff_getElem?.mp hy
  exact ⟨k, y, hk, hreach, hmin⟩

/-- The stop that a place is answered with: of those that reach it, the nearest, and of
equally near ones the first. -/
structure Chosen (r : Rat → Rat) (m : Rat) (S : List Rat) (i : Nat) (x : Stop Rat) : Prop where
  inChain : (chain 0 S)[i]? = some x
  reaches : x.Reaches r m
  nearest : ∀ (j : Nat) (y : Stop Rat), (chain 0 S)[j]? = some y → y.Reaches r m →
    |m - x.position| ≤ |m - y.position|
  first : ∀ (j : Nat) (y : Stop Rat), (chain 0 S)[j]? = some y → y.Reaches r m →
    |m - y.position| = |m - x.position| → i ≤ j

namespace Chosen

theorem isNearest (hr : Reaching r) (hS : S.Pairwise (· ≤ ·)) (h : Chosen r m S i x) :
    Nearest S m x.position := by
  obtain ⟨k, z, hz, hreach, hmin⟩ := exists_nearest_of_reaches hr hS h.inChain h.reaches
  intro t ht
  exact (h.nearest k z hz hreach).trans (hmin t ht)

theorem position_mem (h : Chosen r m S i x) : x.position ∈ S :=
  List.mem_of_getElem? (position_of_getElem? h.inChain)

/-- Of two stops that coincide, the one in front reaches all that is in front of them,
if the one behind is chosen there. -/
theorem sub_le_of_coincident (hr : Reaching r) (hS : S.Pairwise (· ≤ ·))
    (ha : Chosen r a S i x) (hy : (chain 0 S)[j]? = some y) (hji : j < i)
    (heq : x.position = y.position) : y.position - r y.before ≤ a := by
  obtain ⟨hxnonneg, hxgap⟩ := before_of_sorted hS ha.inChain
  obtain ⟨hynonneg, hygap⟩ := before_of_sorted hS hy
  rcases hynonneg.eq_or_lt with hyzero | hpos
  · -- There is no gap in front of the one behind either, so both reach equally far.
    have hxzero : x.before = 0 := by
      by_contra hne
      obtain ⟨k, s, rfl, hs, hhalf⟩ := hxgap (lt_of_le_of_ne hxnonneg (Ne.symm hne))
      have hys : y.position ≤ s := le_of_getElem?_le hS (position_of_getElem? hy) hs (by omega)
      exact hne (by linarith)
    have hle := ha.reaches.1
    rwa [hxzero, heq, hyzero] at hle
  · -- The place is not nearer to the stop in front of both.
    obtain ⟨k, s, -, hs, hhalf⟩ := hygap hpos
    have hsx : s < x.position := by linarith
    have hmid := (abs_sub_le_iff_of_gt hsx).mp (ha.isNearest hr hS s (List.mem_of_getElem? hs))
    rw [hr.of_pos _ hpos, hhalf]
    linarith

/-- Farther along, no stop in front is chosen. -/
theorem number_le (hr : Reaching r) (hS : S.Pairwise (· ≤ ·)) (ha : Chosen r a S i x)
    (hb : Chosen r b S j y) (hab : a ≤ b) : i ≤ j := by
  rcases hab.eq_or_lt with rfl | hlt
  · have htie : |a - y.position| = |a - x.position| := le_antisymm
      (hb.nearest i x ha.inChain ha.reaches) (ha.nearest j y hb.inChain hb.reaches)
    exact ha.first j y hb.inChain hb.reaches htie
  · by_contra hij
    have hji : j < i := not_le.mp hij
    have heq : x.position = y.position := le_antisymm
      ((ha.isNearest hr hS).mono (hb.isNearest hr hS) ha.position_mem hb.position_mem hlt)
      (le_of_getElem?_le hS (position_of_getElem? hb.inChain) (position_of_getElem? ha.inChain)
        hji.le)
    have hreach : y.Reaches r a :=
      ⟨sub_le_of_coincident hr hS ha hb.inChain hji heq, hlt.le.trans hb.reaches.2⟩
    exact hij (ha.first j y hb.inChain hreach (by rw [heq]))

end Chosen

end Stop

namespace Layout

variable {l : Layout} {q : Query Rat} {p : Point Rat}

/-- How far a pointer is from a bar, along the axis of the layout. -/
theorem offset_bar (span : Rect Rat) (s : Stop Rat) (row : Nat) :
    (l.bar span s row).offset p = |p.along l.kind.axis - s.position| := by
  rw [Highlight.offset, axis_bar, edge_bar, Scalar.abs_rat]

/-- The bar that is picked stands at the chosen stop. -/
theorem chosen_of_pick {c : Policy Rat} (hc : 0 ≤ c.range) {h : Highlight Rat} {i : Nat}
    (hpick : Selection.pick c p (l.highlights q) = some (h, i)) :
    h.slot.row = i ∧ ∃ x, Stop.Chosen (c.stopReach l.kind.axis) (p.along l.kind.axis)
      (l.stopsOf q) i x := by
  have hbest := Selection.best_of_pick hpick
  obtain ⟨hcanvas, hmeasured⟩ := measured_of_mem_highlights (List.mem_of_getElem? hbest.inList)
  obtain ⟨span, hbars⟩ := exists_getElem?_highlights hcanvas hmeasured
  have hi : (l.highlights q)[i]? = some h := hbest.inList
  rw [hbars] at hi
  obtain ⟨x, hx, rfl⟩ := Option.map_eq_some_iff.mp hi
  have hbar {j : Nat} {y : Stop Rat} (hy : (Stop.chain 0 (l.stopsOf q))[j]? = some y) :
      (l.highlights q)[j]? = some (l.bar span y j) := by
    rw [hbars, hy]
    rfl
  have hcatches : (l.bar span x i).Catches c false p :=
    (viable_iff_catches (List.mem_of_getElem? (hbar hx))).mp hbest.viable
  have hspan (y : Stop Rat) (j : Nat) : (l.bar span y j).Spans p :=
    spans_bar_iff.mp (Highlight.catches_iff.mp hcatches).1
  have hviable {j : Nat} {y : Stop Rat} (hy : (Stop.chain 0 (l.stopsOf q))[j]? = some y)
      (hreach : y.Reaches (c.stopReach l.kind.axis) (p.along l.kind.axis)) :
      Selection.Viable c p (l.highlights q) (l.bar span y j) :=
    (viable_iff_catches (List.mem_of_getElem? (hbar hy))).mpr
      ((catches_bar hc (hspan y j)).mpr hreach)
  refine ⟨by rw [slot_bar]; rfl, x, hx, (catches_bar hc (hspan x i)).mp hcatches, ?_, ?_⟩
  · intro j y hy hreach
    have hle := (Highlight.distance_le_iff (hspan x i) (hspan y j)).mp
      (hbest.distance_le (hbar hy) (hviable hy hreach))
    rwa [offset_bar, offset_bar] at hle
  · intro j y hy hreach htie
    by_contra hlt
    have hequal : byDistance ((l.bar span y j).distance p) ((l.bar span x i).distance p) = .eq := by
      rw [Highlight.distance_of_spans (hspan y j), Highlight.distance_of_spans (hspan x i),
        offset_bar, offset_bar, htie, byDistance_eq_compare, compare_eq_iff_eq]
    rcases hbest.ahead _ j (hbar hy) (hviable hy hreach) hequal fun hji => hlt hji.ge with
      ⟨hv, hn⟩ | ⟨-, hij⟩
    · rw [Highlight.isVertical_eq, axis_bar] at hv hn
      exact hn hv
    · exact hlt hij.le

/-- The row that is picked does not fall as the pointer moves along a layout, inside or
outside of it, as long as some bar is picked at either end of the move. Its stops must not
fall, but they may coincide, and to the side the pointer may be anywhere. -/
theorem pick_row_mono (hstops : (l.stopsOf q).Pairwise (· ≤ ·)) {a b : Point Rat}
    (hab : a.along l.kind.axis ≤ b.along l.kind.axis) {g h : Highlight Rat} {i j : Nat}
    (ha : Selection.pick .standard a (l.highlights q) = some (g, i))
    (hb : Selection.pick .standard b (l.highlights q) = some (h, j)) :
    g.slot.row ≤ h.slot.row := by
  have hr := Policy.reaching_stopReach Policy.range_standard_nonneg l.kind.axis
  obtain ⟨hg, x, hx⟩ := chosen_of_pick Policy.range_standard_nonneg ha
  obtain ⟨hh, y, hy⟩ := chosen_of_pick Policy.range_standard_nonneg hb
  rw [hg, hh]
  exact hx.number_le hr hstops hy hab

/-- A row with a child that has no width. -/
def strip : Layout where
  canvas := mainCanvas
  kind := .row
  path := [⟨"page"⟩, ⟨"strip"⟩]
  children := [⟨"icon"⟩, ⟨"divider"⟩, ⟨"label"⟩]

def stripDrag : Query Rat where
  canvas := mainCanvas
  positions := .ofList [(⟨"icon"⟩, ⟨0, 0, 30, 20⟩), (⟨"divider"⟩, ⟨30, 0, 0, 20⟩),
    (⟨"label"⟩, ⟨30, 0, 30, 20⟩)]
  dragged := []

theorem pick_row_mono_strip :
    ∃ g i h j, Selection.pick .standard ⟨35, 5⟩ (strip.highlights stripDrag) = some (g, i) ∧
      Selection.pick .standard ⟨66, 5⟩ (strip.highlights stripDrag) = some (h, j) ∧
      g.slot.row = 1 ∧ h.slot.row = 3 ∧ g.slot.row ≤ h.slot.row := by
  have hfirst : (Selection.pick .standard ⟨35, 5⟩ (strip.highlights stripDrag)).map
      (fun x => x.1.slot.row) = some 1 := by decide +kernel
  have hlast : (Selection.pick .standard ⟨66, 5⟩ (strip.highlights stripDrag)).map
      (fun x => x.1.slot.row) = some 3 := by decide +kernel
  obtain ⟨⟨g, i⟩, hg, hrow⟩ := Option.map_eq_some_iff.mp hfirst
  obtain ⟨⟨h, j⟩, hh, hrow'⟩ := Option.map_eq_some_iff.mp hlast
  exact ⟨g, i, h, j, hg, hh, hrow, hrow',
    pick_row_mono (by decide +kernel) (by decide +kernel) hg hh⟩

end Layout

end DragDrop
