import DragDrop.Layout
import DragDrop.Proofs.Catchment

/-! Stops on a line, exactly. Each stop of a chain reaches half way to its
neighbours, so between the first and the last one there is NO place that none
reaches, and one that is nearest always does. Where no two stops coincide, each
place is reached by one stop only, but for the places half way between two
neighbours, which both of them reach. How far a gap of zero reaches is left open. -/

namespace DragDrop

theorem Scalar.half_abs_sub {s t : Rat} (h : s ≤ t) :
    Scalar.half (Scalar.abs (t - s)) = (t - s) / 2 := by
  rw [Scalar.abs_rat, abs_of_nonneg (sub_nonneg.mpr h)]
  rfl

/-- A gap above zero reaches as far as it says, and a gap of zero not less than that. -/
structure Reaching (r : Rat → Rat) : Prop where
  of_pos : ∀ g, 0 < g → r g = g
  zero_nonneg : 0 ≤ r 0

theorem Reaching.le {r : Rat → Rat} (hr : Reaching r) {g : Rat} (hg : 0 ≤ g) : g ≤ r g := by
  rcases hg.eq_or_lt with rfl | hpos
  · exact hr.zero_nonneg
  · exact (hr.of_pos g hpos).ge

/-- Between two places that do not coincide, each reaches half way. -/
theorem Reaching.half_gap {r : Rat → Rat} (hr : Reaching r) {s t : Rat} (h : s < t) :
    r ((t - s) / 2) = (t - s) / 2 := hr.of_pos _ (by linarith)

/-- No place of the list is nearer than this one. -/
def Nearest (S : List Rat) (m s : Rat) : Prop := ∀ t ∈ S, |m - s| ≤ |m - t|

namespace Nearest

variable {S : List Rat} {m s t : Rat}

/-- In the first half of a gap, the place in front of it is the nearest. -/
theorem of_first_half (hs : s ≤ m) (hm : m + m ≤ s + t) (hS : ∀ u ∈ S, t ≤ u) :
    Nearest (s :: S) m s := by
  intro u hu
  rcases List.mem_cons.mp hu with rfl | hu
  · exact le_rfl
  · have htu := hS u hu
    calc |m - s| = m - s := abs_of_nonneg (by linarith)
      _ ≤ u - m := by linarith
      _ ≤ |u - m| := le_abs_self _
      _ = |m - u| := abs_sub_comm u m

/-- In the second half of a gap, the place behind it is the nearest. -/
theorem of_second_half (ht : m ≤ t) (hm : s + t ≤ m + m) (hS : ∀ u ∈ S, t ≤ u) :
    Nearest (s :: S) m t := by
  intro u hu
  rw [abs_sub_comm, abs_of_nonneg (by linarith)]
  rcases List.mem_cons.mp hu with rfl | hu
  · calc t - m ≤ m - u := by linarith
      _ ≤ |m - u| := le_abs_self _
  · have htu := hS u hu
    calc t - m ≤ u - m := by linarith
      _ ≤ |u - m| := le_abs_self _
      _ = |m - u| := abs_sub_comm u m

/-- What lies in front of another place is not nearer to all that is behind. -/
theorem cons {x : Rat} (h : Nearest S m x) (ht : t ∈ S) (hst : s ≤ t) (htm : t ≤ m) :
    Nearest (s :: S) m x := by
  intro u hu
  rcases List.mem_cons.mp hu with rfl | hu
  · calc |m - x| ≤ |m - t| := h t ht
      _ = m - t := abs_of_nonneg (by linarith)
      _ ≤ m - u := by linarith
      _ ≤ |m - u| := le_abs_self _
  · exact h u hu

end Nearest

/-- The place lies half way between two neighbours, the first of which has this number. -/
def Midway (S : List Rat) (m : Rat) (j : Nat) : Prop :=
  ∃ a b, S[j]? = some a ∧ S[j + 1]? = some b ∧ m + m = a + b

theorem midway_zero {S : List Rat} {m s t : Rat} :
    Midway (s :: t :: S) m 0 ↔ m + m = s + t := by
  simp [Midway]

theorem midway_succ {S : List Rat} {m s : Rat} {j : Nat} :
    Midway (s :: S) m (j + 1) ↔ Midway S m j := by
  simp [Midway]

theorem not_midway_of_lt {S : List Rat} {m : Rat} (h : ∀ s ∈ S, m < s) (j : Nat) :
    ¬Midway S m j := by
  rintro ⟨a, b, ha, hb, hm⟩
  have hma := h a (List.mem_of_getElem? ha)
  have hmb := h b (List.mem_of_getElem? hb)
  linarith

namespace Stop

/-- Whether a place lies in the reach of a stop. -/
def Reaches (r : Rat → Rat) (m : Rat) (s : Stop Rat) : Prop :=
  s.position - r s.before ≤ m ∧ m ≤ s.position + r s.after

instance (r : Rat → Rat) (m : Rat) (s : Stop Rat) : Decidable (s.Reaches r m) :=
  inferInstanceAs (Decidable (_ ∧ _))

section Gaps

variable {α : Type} [Scalar α] {before : α} {S : List α} {i : Nat} {x : Stop α}

theorem position_of_getElem? (h : (chain before S)[i]? = some x) : S[i]? = some x.position := by
  rw [← map_position_chain before S, List.getElem?_map, h]
  rfl

/-- In front of a stop is half the gap to the one before it, if there is one. -/
theorem before_of_getElem? (h : (chain before S)[i]? = some x) :
    (i = 0 ∧ x.before = before) ∨ ∃ j s, i = j + 1 ∧ S[j]? = some s ∧
      x.before = Scalar.half (Scalar.abs (x.position - s)) := by
  induction S generalizing before i with
  | nil => simp [chain] at h
  | cons s S ih =>
    cases S with
    | nil =>
      cases i with
      | zero =>
        obtain rfl := Option.some.inj h
        exact .inl ⟨rfl, rfl⟩
      | succ i => simp [chain] at h
    | cons t rest =>
      cases i with
      | zero =>
        obtain rfl := Option.some.inj h
        exact .inl ⟨rfl, rfl⟩
      | succ i =>
        rcases ih h with ⟨rfl, hx⟩ | ⟨j, u, rfl, hu, hx⟩
        · have ht : t = x.position := Option.some.inj (position_of_getElem? h)
          refine .inr ⟨0, s, rfl, rfl, ?_⟩
          rw [hx, ht]
        · exact .inr ⟨j + 1, u, rfl, hu, hx⟩

/-- Behind a stop is half the gap to the next one, if there is one. -/
theorem after_of_getElem? (h : (chain before S)[i]? = some x) :
    (i + 1 = S.length ∧ x.after = 0) ∨ ∃ t, S[i + 1]? = some t ∧
      x.after = Scalar.half (Scalar.abs (t - x.position)) := by
  induction S generalizing before i with
  | nil => simp [chain] at h
  | cons s S ih =>
    cases S with
    | nil =>
      cases i with
      | zero =>
        obtain rfl := Option.some.inj h
        exact .inl ⟨rfl, rfl⟩
      | succ i => simp [chain] at h
    | cons t rest =>
      cases i with
      | zero =>
        obtain rfl := Option.some.inj h
        exact .inr ⟨t, rfl, rfl⟩
      | succ i =>
        rcases ih h with ⟨hlast, hx⟩ | ⟨u, hu, hx⟩
        · exact .inl ⟨congrArg Nat.succ hlast, hx⟩
        · exact .inr ⟨u, hu, hx⟩

theorem exists_first (before : α) (hne : S ≠ []) :
    ∃ x, (chain before S)[0]? = some x ∧ x.before = before := by
  have hpos : 0 < (chain before S).length := by
    rw [length_chain]
    exact List.length_pos_iff_ne_nil.mpr hne
  refine ⟨_, List.getElem?_eq_getElem hpos, ?_⟩
  obtain ⟨-, hbefore⟩ | ⟨j, -, hj, -⟩ := before_of_getElem? (List.getElem?_eq_getElem hpos)
  · exact hbefore
  · cases hj

theorem exists_last (before : α) (hne : S ≠ []) :
    ∃ x, (chain before S)[S.length - 1]? = some x ∧ x.after = 0 := by
  have hpos : 0 < S.length := List.length_pos_iff_ne_nil.mpr hne
  have hlt : S.length - 1 < (chain before S).length := by
    rw [length_chain]
    omega
  refine ⟨_, List.getElem?_eq_getElem hlt, ?_⟩
  obtain ⟨-, hafter⟩ | ⟨t, ht, -⟩ := after_of_getElem? (List.getElem?_eq_getElem hlt)
  · exact hafter
  · have hnext := (List.getElem?_eq_some_iff.mp ht).1
    omega

end Gaps

theorem chain_cons_cons (before : Rat) {s t : Rat} (h : s ≤ t) (rest : List Rat) :
    chain before (s :: t :: rest) =
      ⟨s, before, (t - s) / 2⟩ :: chain ((t - s) / 2) (t :: rest) := by
  simp only [chain, Scalar.half_abs_sub h]

/-- In a list that does not fall, what comes behind is not in front. -/
theorem le_of_pairwise {s : Rat} {S : List Rat} (hS : (s :: S).Pairwise (· ≤ ·)) :
    ∀ u ∈ s :: S, s ≤ u := by
  intro u hu
  rcases List.mem_cons.mp hu with rfl | hu
  · exact le_rfl
  · exact (List.pairwise_cons.mp hS).1 u hu

theorem exists_chain_cons (before : Rat) {s : Rat} {S : List Rat}
    (hS : (s :: S).Pairwise (· ≤ ·)) :
    ∃ after tail, 0 ≤ after ∧ chain before (s :: S) = ⟨s, before, after⟩ :: tail := by
  cases S with
  | nil => exact ⟨0, [], le_rfl, rfl⟩
  | cons t rest =>
    have hst : s ≤ t := le_of_pairwise hS t (by simp)
    exact ⟨(t - s) / 2, _, by linarith, chain_cons_cons before hst rest⟩

variable {r : Rat → Rat} {m : Rat}

/-- Between the first and the last place, one of the nearest stops reaches. -/
theorem exists_nearest (hr : Reaching r) {before : Rat} (hb : 0 ≤ before) {S : List Rat}
    (hne : S ≠ []) (hS : S.Pairwise (· ≤ ·)) (hfirst : ∀ s ∈ S.head?, s ≤ m)
    (hlast : ∀ s ∈ S.getLast?, m ≤ s) :
    ∃ x ∈ chain before S, x.Reaches r m ∧ Nearest S m x.position := by
  induction S generalizing before with
  | nil => exact absurd rfl hne
  | cons s S ih =>
    have hsm : s ≤ m := hfirst s rfl
    have hbefore := hr.le hb
    cases S with
    | nil =>
      have hms : m ≤ s := hlast s rfl
      have hzero := hr.zero_nonneg
      refine ⟨⟨s, before, 0⟩, List.mem_singleton.mpr rfl, ⟨?_, ?_⟩, ?_⟩
      · show s - r before ≤ m
        linarith
      · show m ≤ s + r 0
        linarith
      · exact .of_first_half (t := s) hsm (by linarith) (by simp)
    | cons t rest =>
      have hrest := (List.pairwise_cons.mp hS).2
      have hst : s ≤ t := le_of_pairwise hS t (by simp)
      have hgap : 0 ≤ (t - s) / 2 := by linarith
      have hreach := hr.le hgap
      rw [chain_cons_cons before hst]
      -- The place lies in one of the halves of the first gap, or behind it.
      by_cases hnear : m + m ≤ s + t
      · refine ⟨_, List.mem_cons_self, ⟨?_, ?_⟩, .of_first_half hsm hnear (le_of_pairwise hrest)⟩
        · show s - r before ≤ m
          linarith
        · show m ≤ s + r ((t - s) / 2)
          linarith
      · by_cases htm : t ≤ m
        · obtain ⟨x, hx, hxm, hmin⟩ := ih hgap (by simp) hrest (by simpa using htm)
            (by simpa using hlast)
          exact ⟨x, List.mem_cons_of_mem _ hx, hxm, hmin.cons List.mem_cons_self hst htm⟩
        · obtain ⟨after, tail, hafter, htail⟩ := exists_chain_cons ((t - s) / 2) hrest
          have hbehind := hr.le hafter
          rw [htail]
          refine ⟨_, List.mem_cons_of_mem _ List.mem_cons_self, ⟨?_, ?_⟩,
            .of_second_half (by linarith) (by linarith) (le_of_pairwise hrest)⟩
          · show t - r ((t - s) / 2) ≤ m
            linarith
          · show m ≤ t + r after
            linarith

/-! ## Stops that do not coincide -/

/-- The numbers of the stops that reach a place, the first stop having number `k`. -/
def reached (r : Rat → Rat) (m before : Rat) (S : List Rat) (k : Nat) : List Nat :=
  (((chain before S).zipIdx k).filter fun x => x.1.Reaches r m).map Prod.snd

theorem reached_singleton (before s : Rat) (k : Nat) :
    reached r m before [s] k = if Reaches r m ⟨s, before, 0⟩ then [k] else [] := by
  by_cases h : Reaches r m ⟨s, before, 0⟩ <;> simp [reached, chain, h]

theorem reached_cons_cons (before : Rat) {s t : Rat} (h : s ≤ t) (rest : List Rat) (k : Nat) :
    reached r m before (s :: t :: rest) k =
      (if Reaches r m ⟨s, before, (t - s) / 2⟩ then [k] else []) ++
        reached r m ((t - s) / 2) (t :: rest) (k + 1) := by
  rw [reached, chain_cons_cons before h, List.zipIdx_cons, List.filter_cons]
  by_cases hs : Reaches r m ⟨s, before, (t - s) / 2⟩ <;> simp [reached, hs]

/-- No stop reaches beyond the reach of the first one. -/
theorem reached_eq_nil (hr : Reaching r) {before s : Rat} (hb : 0 ≤ before) {S : List Rat}
    (hS : (s :: S).Pairwise (· < ·)) (hm : m < s - r before) (k : Nat) :
    reached r m before (s :: S) k = [] := by
  have hs (after : Rat) : ¬Reaches r m ⟨s, before, after⟩ := fun h => absurd h.1 (not_le.mpr hm)
  induction S generalizing before s k with
  | nil => rw [reached_singleton, if_neg (hs 0)]
  | cons t rest ih =>
    obtain ⟨hlt, hrest⟩ := List.pairwise_cons.mp hS
    have hst : s < t := hlt t List.mem_cons_self
    have hgap := hr.half_gap hst
    have hmt : m < t - r ((t - s) / 2) := by linarith [hr.le hb]
    rw [reached_cons_cons before hst.le, if_neg (hs _), List.nil_append]
    exact ih (by linarith) hrest hmt _ fun after h => absurd h.1 (not_le.mpr hmt)

/-- In front of the middle of the first gap, the first stop alone can reach. -/
theorem reached_eq_singleton (hr : Reaching r) {before s : Rat} {S : List Rat}
    (hS : (s :: S).Pairwise (· < ·)) (hs : s - r before ≤ m) (hnil : S = [] → m ≤ s)
    (hcons : ∀ t ∈ S.head?, m + m < s + t) (k : Nat) :
    reached r m before (s :: S) k = [k] := by
  cases S with
  | nil =>
    have hreach : Reaches r m ⟨s, before, 0⟩ := by
      refine ⟨hs, ?_⟩
      show m ≤ s + r 0
      linarith [hnil rfl, hr.zero_nonneg]
    rw [reached_singleton, if_pos hreach]
  | cons t rest =>
    obtain ⟨hlt, hrest⟩ := List.pairwise_cons.mp hS
    have hst : s < t := hlt t List.mem_cons_self
    have hmid : m + m < s + t := hcons t rfl
    have hgap := hr.half_gap hst
    have hreach : Reaches r m ⟨s, before, (t - s) / 2⟩ := by
      refine ⟨hs, ?_⟩
      show m ≤ s + r ((t - s) / 2)
      linarith
    rw [reached_cons_cons before hst.le, if_pos hreach,
      reached_eq_nil hr (by linarith) hrest (by linarith)]
    rfl

/-- Within the first gap, either stop reaches its own half, and none behind does. -/
theorem reached_in_gap (hr : Reaching r) {before s t : Rat} (hb : 0 ≤ before) {S : List Rat}
    (hS : (s :: t :: S).Pairwise (· < ·)) (hs : s ≤ m) (ht : m < t) (k : Nat) :
    reached r m before (s :: t :: S) k =
      (if m + m ≤ s + t then [k] else []) ++ if s + t ≤ m + m then [k + 1] else [] := by
  have hrest := (List.pairwise_cons.mp hS).2
  have hst : s < t := by linarith
  have hgap := hr.half_gap hst
  have hbefore := hr.le hb
  have hreach : Reaches r m ⟨s, before, (t - s) / 2⟩ ↔ m + m ≤ s + t := by
    show s - r before ≤ m ∧ m ≤ s + r ((t - s) / 2) ↔ _
    constructor
    · rintro ⟨-, h⟩
      linarith
    · intro h
      exact ⟨by linarith, by linarith⟩
  rw [reached_cons_cons before hst.le]
  simp only [hreach]
  congr 1
  split
  · refine reached_eq_singleton hr hrest (by linarith) (fun _ => ht.le) ?_ (k + 1)
    intro u hu
    have htu := (List.pairwise_cons.mp hrest).1 u (List.mem_of_mem_head? hu)
    linarith
  · exact reached_eq_nil hr (by linarith) hrest (by linarith) (k + 1)

/-- From the second stop on, the first one is out of reach. -/
theorem reached_behind_gap (hr : Reaching r) {before s t : Rat} {S : List Rat}
    (hst : s < t) (ht : t ≤ m) (k : Nat) :
    reached r m before (s :: t :: S) k = reached r m ((t - s) / 2) (t :: S) (k + 1) := by
  have hgap := hr.half_gap hst
  have hreach : ¬Reaches r m ⟨s, before, (t - s) / 2⟩ := by
    rintro ⟨-, h⟩
    have hm : m ≤ s + r ((t - s) / 2) := h
    linarith
  rw [reached_cons_cons before hst.le, if_neg hreach, List.nil_append]

/-- Each place between the first and the last stop is reached by one stop, or from
half way between two neighbours by both. -/
theorem reached_spec (hr : Reaching r) {before : Rat} (hb : 0 ≤ before) {S : List Rat}
    (hne : S ≠ []) (hS : S.Pairwise (· < ·)) (hfirst : ∀ s ∈ S.head?, s ≤ m)
    (hlast : ∀ s ∈ S.getLast?, m ≤ s) (k : Nat) :
    (∀ j, Midway S m j → reached r m before S k = [k + j, k + j + 1]) ∧
      ((∀ j, ¬Midway S m j) → ∃ j, reached r m before S k = [k + j]) := by
  induction S generalizing before k with
  | nil => exact absurd rfl hne
  | cons s S ih =>
    have hsm : s ≤ m := hfirst s rfl
    have hbefore := hr.le hb
    cases S with
    | nil =>
      refine ⟨fun j h => ?_, fun _ => ⟨0, ?_⟩⟩
      · obtain ⟨a, b, -, hb, -⟩ := h
        simp at hb
      · exact reached_eq_singleton hr hS (by linarith) (fun _ => hlast s rfl) (by simp) k
    | cons t rest =>
      obtain ⟨hlt, hrest⟩ := List.pairwise_cons.mp hS
      have hst : s < t := hlt t List.mem_cons_self
      rcases lt_or_ge m t with htm | htm
      · have hbehind (j : Nat) : ¬Midway (s :: t :: rest) m (j + 1) := by
          rw [midway_succ]
          exact not_midway_of_lt (fun u hu => htm.trans_le (le_of_pairwise
            (hrest.imp le_of_lt) u hu)) j
        rw [reached_in_gap hr hb hS hsm htm]
        constructor
        · intro j h
          cases j with
          | zero =>
            have hmid := midway_zero.mp h
            rw [if_pos hmid.le, if_pos hmid.ge]
            rfl
          | succ j => exact absurd h (hbehind j)
        · intro h
          have hmid : m + m ≠ s + t := fun he => h 0 (midway_zero.mpr he)
          rcases lt_or_gt_of_ne hmid with hlt | hgt
          · exact ⟨0, by rw [if_pos hlt.le, if_neg (not_le.mpr hlt)]; rfl⟩
          · exact ⟨1, by rw [if_neg (not_le.mpr hgt), if_pos hgt.le]; rfl⟩
      · have hgap : 0 ≤ (t - s) / 2 := by linarith
        obtain ⟨hmid, hone⟩ := ih hgap (by simp) hrest (by simpa using htm)
          (by simpa using hlast) (k + 1)
        rw [reached_behind_gap hr hst htm]
        constructor
        · intro j h
          cases j with
          | zero =>
            have hm := midway_zero.mp h
            linarith
          | succ j => rw [hmid j (midway_succ.mp h), Nat.add_right_comm]; rfl
        · intro h
          obtain ⟨j, hj⟩ := hone fun j hmid => h (j + 1) (midway_succ.mpr hmid)
          exact ⟨j + 1, by rw [hj, Nat.add_right_comm]; rfl⟩

end Stop

end DragDrop
