import DragDrop.Proofs.Valued
import DragDrop.Selection

/-! What a selection picks. The comparison of distances is a total preorder in
which what is no number comes last, so the fold of `firstLeast` finds the FIRST
of the least elements, which is the head of a stable sort. From this `pick` is
determined on every list: by what is viable, by distance, and on a tie by
orientation and then by place. Bars that are not normalized are treated as their
normalized forms are. -/

namespace DragDrop

variable {α β κ : Type}

/-! ## The order of distances -/

/-- Distances are compared by their ranks. -/
theorem byDistance_eq_compare [Scalar α] [Valued α] (a b : α) :
    byDistance a b = compare (Valued.rank a) (Valued.rank b) := by
  have hlt : a < b ↔ _ := Valued.lt_iff
  have hgt : b < a ↔ _ := Valued.lt_iff
  unfold byDistance Valued.rank
  cases ha : Scalar.isNaN a <;> cases hb : Scalar.isNaN b <;> rw [ha, hb] at hlt hgt
  · simp only [and_self, true_and] at hlt hgt
    simp only [hlt, hgt, Bool.false_eq_true, if_false]
    rcases lt_trichotomy (Valued.value a) (Valued.value b) with h | h | h
    · rw [if_pos h, compare_lt_iff_lt.mpr (WithTop.coe_lt_coe.mpr h)]
    · rw [h, if_neg (lt_irrefl _), if_neg (lt_irrefl _)]
      exact (compare_eq_iff_eq.mpr rfl).symm
    · rw [if_neg h.not_gt, if_pos h, compare_gt_iff_gt.mpr (WithTop.coe_lt_coe.mpr h)]
  · simp [hlt, hgt, compare_lt_iff_lt.mpr (WithTop.coe_lt_top (Valued.value a))]
    rfl
  · simp [hlt, hgt, compare_gt_iff_gt.mpr (WithTop.coe_lt_top (Valued.value b))]
    rfl
  · simp [hlt, hgt]

theorem byDistance_eq_lt_iff [Scalar α] [Valued α] {a b : α} :
    byDistance a b = .lt ↔ a < b ∨ Scalar.isNaN a = false ∧ Scalar.isNaN b = true := by
  rw [byDistance_eq_compare, compare_lt_iff_lt, Valued.lt_iff, Valued.rank, Valued.rank]
  cases ha : Scalar.isNaN a <;> cases hb : Scalar.isNaN b <;> simp

/-- What is no number comes after every number, and is as far as any other. -/
theorem byDistance_float (a b : Float) :
    (byDistance a b = .lt ↔ a < b ∨ a.isNaN = false ∧ b.isNaN = true) ∧
      (byDistance a b = .eq ↔ a == b ∨ a.isNaN = true ∧ b.isNaN = true) := by
  constructor
  · rw [byDistance_eq_lt_iff, Scalar.isNaN_float, Scalar.isNaN_float]
  · rw [byDistance_eq_compare, compare_eq_iff_eq, Double.beq_iff, Valued.rank, Valued.rank,
      Scalar.isNaN_float, Scalar.isNaN_float]
    cases a.isNaN <;> cases b.isNaN <;> simp [Valued.value]

/-! ## The first of the least -/

section FirstLeast

variable {γ : Type} [LinearOrder γ] (key : β → γ)

/-- Nothing is less than the element, and all in front of it is greater. -/
def FirstLeast (l : List β) (b : β) : Prop :=
  ∃ before after, l = before ++ b :: after ∧ (∀ a ∈ before, key b < key a) ∧
    ∀ a ∈ after, key b ≤ key a

variable {key}

theorem FirstLeast.key_le {l : List β} {a b : β} (h : FirstLeast key l b) (ha : a ∈ l) :
    key b ≤ key a := by
  obtain ⟨before, after, rfl, hb, hf⟩ := h
  rcases List.mem_append.mp ha with h | h
  · exact (hb a h).le
  · rcases List.mem_cons.mp h with rfl | h
    · exact le_rfl
    · exact hf a h

theorem FirstLeast.mem {l : List β} {b : β} (h : FirstLeast key l b) : b ∈ l := by
  obtain ⟨before, after, rfl, -, -⟩ := h
  exact List.mem_append_right _ List.mem_cons_self

theorem FirstLeast.head?_filter {l : List β} {b : β} (h : FirstLeast key l b) :
    (l.filter fun a => decide (key a = key b)).head? = some b := by
  obtain ⟨before, after, rfl, hb, -⟩ := h
  have hnone : before.filter (fun a => decide (key a = key b)) = [] := by
    rw [List.filter_eq_nil_iff]
    intro x hx
    simpa using (hb x hx).ne'
  simp [List.filter_append, hnone]

/-- What is left out of a list does not change what is the first of the least in it. -/
theorem FirstLeast.filter {l : List β} {b : β} (h : FirstLeast key l b) {keep : β → Bool}
    (hb : keep b = true) : FirstLeast key (l.filter keep) b := by
  obtain ⟨before, after, rfl, hbefore, hafter⟩ := h
  refine ⟨before.filter keep, after.filter keep, ?_, ?_, ?_⟩
  · rw [List.filter_append, List.filter_cons_of_pos hb]
  · exact fun a ha => hbefore a (List.mem_of_mem_filter ha)
  · exact fun a ha => hafter a (List.mem_of_mem_filter ha)

variable (key)

theorem firstLeast_cons (a b : β) (l : List β) :
    firstLeast (fun a b => compare (key a) (key b)) (a :: b :: l) =
      firstLeast (fun a b => compare (key a) (key b)) ((if key b < key a then b else a) :: l) := by
  simp only [firstLeast, List.foldl_cons, compare_gt_iff_gt]

/-- The fold finds the first of the least elements. -/
theorem exists_firstLeast (a : β) (l : List β) :
    ∃ b, firstLeast (fun a b => compare (key a) (key b)) (a :: l) = some b ∧
      FirstLeast key (a :: l) b := by
  -- The element that wins so far stays in front of the rest, so the list is never empty.
  induction l generalizing a with
  | nil => exact ⟨a, rfl, [], [], rfl, by simp, by simp⟩
  | cons c l ih =>
    rw [firstLeast_cons]
    by_cases hc : key c < key a
    · obtain ⟨b, hb, before, after, hl, hbefore, hafter⟩ := ih c
      rw [if_pos hc]
      have hbc : key b ≤ key c := FirstLeast.key_le ⟨before, after, hl, hbefore, hafter⟩ (by simp)
      refine ⟨b, hb, a :: before, after, by rw [hl]; rfl, ?_, hafter⟩
      intro d hd
      rcases List.mem_cons.mp hd with rfl | hd
      · exact hbc.trans_lt hc
      · exact hbefore d hd
    · obtain ⟨b, hb, before, after, hl, hbefore, hafter⟩ := ih a
      rw [if_neg hc]
      refine ⟨b, hb, ?_⟩
      have hac : key a ≤ key c := not_lt.mp hc
      -- The winner is `a` itself, or what it lost to behind `c`.
      cases before with
      | nil =>
        obtain ⟨rfl, rfl⟩ := List.cons.inj hl
        refine ⟨[], c :: l, rfl, by simp, ?_⟩
        intro d hd
        rcases List.mem_cons.mp hd with rfl | hd
        · exact hac
        · exact hafter d hd
      | cons x before =>
        obtain ⟨rfl, rfl⟩ := List.cons.inj hl
        refine ⟨a :: c :: before, after, rfl, ?_, hafter⟩
        intro d hd
        have hba := hbefore a (by simp)
        rcases List.mem_cons.mp hd with rfl | hd
        · exact hba
        · rcases List.mem_cons.mp hd with rfl | hd
          · exact hba.trans_le hac
          · exact hbefore d (by simp [hd])

theorem firstLeast_eq_some {l : List β} {b : β}
    (h : firstLeast (fun a b => compare (key a) (key b)) l = some b) : FirstLeast key l b := by
  cases l with
  | nil => cases h
  | cons a l =>
    obtain ⟨b', hb', hf⟩ := exists_firstLeast key a l
    rw [hb'] at h
    exact Option.some.inj h ▸ hf

theorem FirstLeast.eq_some {l : List β} {b : β} (h : FirstLeast key l b) :
    firstLeast (fun a b => compare (key a) (key b)) l = some b := by
  cases l with
  | nil => exact absurd h.mem List.not_mem_nil
  | cons a l =>
    obtain ⟨b', hb', hf⟩ := exists_firstLeast key a l
    have hkey : key b = key b' := le_antisymm (h.key_le hf.mem) (hf.key_le h.mem)
    have hhead := h.head?_filter
    rw [hkey, hf.head?_filter] at hhead
    rw [hb', hhead]

/-- Elements that tie keep their order in a stable sort. -/
theorem filter_mergeSort (b : β) (l : List β) :
    (l.mergeSort fun a c => decide (key a ≤ key c)).filter (fun a => decide (key a = key b)) =
      l.filter fun a => decide (key a = key b) := by
  have hsub : (l.filter fun a => decide (key a = key b)).Sublist
      (l.mergeSort fun a c => decide (key a ≤ key c)) := by
    apply List.sublist_mergeSort (fun _ _ _ => by simpa using le_trans)
      (fun a c => by simpa using le_total (key a) (key c)) _ List.filter_sublist
    rw [List.pairwise_filter]
    apply List.pairwise_of_forall
    intro x y hx hy
    rw [decide_eq_true_eq] at hx hy ⊢
    exact (hx.trans hy.symm).le
  have hperm := List.mergeSort_perm l fun a c => decide (key a ≤ key c)
  symm
  apply List.Sublist.eq_of_length _ (hperm.filter _).length_eq.symm
  simpa using hsub.filter fun a => decide (key a = key b)

/-- The first of the least elements is the head of a stable sort. -/
theorem head?_mergeSort (l : List β) :
    (l.mergeSort fun a b => decide (key a ≤ key b)).head? =
      firstLeast (fun a b => compare (key a) (key b)) l := by
  cases l with
  | nil => rw [List.mergeSort_nil]; rfl
  | cons a l =>
    obtain ⟨b, hb, hf⟩ := exists_firstLeast key a l
    rw [hb]
    generalize a :: l = l at hf
    have hsorted : (l.mergeSort fun a b => decide (key a ≤ key b)).Pairwise
        fun a b => decide (key a ≤ key b) = true :=
      List.pairwise_mergeSort (fun _ _ _ => by simpa using le_trans)
        (fun a b => by simpa using le_total (key a) (key b)) l
    have hperm := List.mergeSort_perm l fun a b => decide (key a ≤ key b)
    have hties := hf.head?_filter
    rw [← filter_mergeSort] at hties
    cases hs : l.mergeSort fun a b => decide (key a ≤ key b) with
    | nil => exact absurd (hperm.mem_iff.mpr hf.mem) (by simp [hs])
    | cons c t =>
      rw [hs] at hties hsorted hperm
      have hcb : key c = key b := by
        apply le_antisymm _ (hf.key_le (hperm.mem_iff.mp List.mem_cons_self))
        rcases List.mem_cons.mp (hperm.mem_iff.mpr hf.mem) with h | h
        · exact h ▸ le_rfl
        · simpa using (List.pairwise_cons.mp hsorted).1 b h
      rwa [List.filter_cons_of_pos (by simpa using hcb)] at hties

end FirstLeast

/-! ## What is picked -/

namespace Selection

variable [Scalar α] (c : Policy α) (p : Point α) (hs : List (Highlight α))

/-- Some vertical bar of the list catches the pointer. -/
def Biased : Prop := ∃ v ∈ hs, v.isVertical ∧ v.Catches c false p

instance : Decidable (Biased c p hs) := inferInstanceAs (Decidable (∃ v ∈ hs, _))

/-- What catches the pointer, given the whole list: a horizontal bar has to do so
under the bias, if there is one. -/
def Viable (h : Highlight α) : Prop :=
  if h.isVertical then h.Catches c false p else h.Catches c (decide (Biased c p hs)) p

instance (h : Highlight α) : Decidable (Viable c p hs h) := by unfold Viable; infer_instance

/-- Of two highlights at their places the first one wins a tie: a vertical bar
over a horizontal one, and of one orientation the earlier one. -/
def Ahead (h g : Highlight α × Nat) : Prop :=
  (h.1.isVertical ∧ ¬g.1.isVertical) ∨ (h.1.isVertical = g.1.isVertical ∧ h.2 < g.2)

/-- What a pick has to be. -/
structure Best (h : Highlight α × Nat) : Prop where
  inList : hs[h.2]? = some h.1
  viable : Viable c p hs h.1
  /-- Nothing viable is nearer. -/
  nearest : ∀ (g : Highlight α) (j : Nat), hs[j]? = some g → Viable c p hs g →
    byDistance (g.distance p) (h.1.distance p) ≠ .lt
  /-- All else that is viable and as near comes after it. -/
  ahead : ∀ (g : Highlight α) (j : Nat), hs[j]? = some g → Viable c p hs g →
    byDistance (g.distance p) (h.1.distance p) = .eq → j ≠ h.2 → Ahead h (g, j)

variable {c p hs}

theorem biased_eq (l : List (Highlight α × κ)) :
    biased c p l = decide (Biased c p (l.map Prod.fst)) := by
  have h : (verticals c p l).isEmpty = false ↔ Biased c p (l.map Prod.fst) := by
    rw [List.isEmpty_eq_false_iff_exists_mem]
    constructor
    · rintro ⟨v, hv⟩
      obtain ⟨hm, ho⟩ := mem_verticals.mp hv
      exact ⟨v.1, List.mem_map_of_mem hm, ho⟩
    · rintro ⟨v, hv, ho⟩
      obtain ⟨g, hg, rfl⟩ := List.mem_map.mp hv
      exact ⟨g, mem_verticals.mpr ⟨hg, ho⟩⟩
  unfold biased
  by_cases hb : Biased c p (l.map Prod.fst)
  · simp [h.mpr hb, hb]
  · simp [hb, Bool.eq_true_of_not_eq_false (mt h.mp hb)]

theorem biased_zipIdx : biased c p hs.zipIdx = decide (Biased c p hs) := by
  rw [biased_eq, List.zipIdx_map_fst]

theorem mem_viable_zipIdx {h : Highlight α × Nat} :
    h ∈ viable c p hs.zipIdx ↔ hs[h.2]? = some h.1 ∧ Viable c p hs h.1 := by
  rw [viable, List.mem_append, mem_verticals, mem_horizontals, biased_zipIdx,
    List.mem_zipIdx_iff_getElem?, Viable]
  cases h.1.isVertical <;> simp

/-- Viable highlights are listed in the order in which they win ties. -/
theorem pairwise_viable : (viable c p hs.zipIdx).Pairwise Ahead := by
  have hz : hs.zipIdx.Pairwise fun h g => h.2 < g.2 := by
    rw [← List.pairwise_map (f := Prod.snd), List.zipIdx_map_snd]
    exact List.pairwise_lt_range'
  refine List.pairwise_append.mpr ⟨?_, ?_, ?_⟩
  · refine (hz.filter _).imp_of_mem ?_
    intro h g hh hg hlt
    exact .inr ⟨(mem_verticals.mp hh).2.1.trans (mem_verticals.mp hg).2.1.symm, hlt⟩
  · refine (hz.filter _).imp_of_mem ?_
    intro h g hh hg hlt
    have h₁ := (mem_horizontals.mp hh).2.1
    have h₂ := (mem_horizontals.mp hg).2.1
    exact .inr ⟨by simp_all, hlt⟩
  · intro h hh g hg
    exact .inl ⟨(mem_verticals.mp hh).2.1, (mem_horizontals.mp hg).2.1⟩

omit [Scalar α] in
theorem Ahead.asymm {h g : Highlight α × Nat} (hg : Ahead h g) : ¬Ahead g h := by
  rintro (⟨hv, hn⟩ | ⟨ho, hl⟩) <;> rcases hg with ⟨hv', hn'⟩ | ⟨ho', hl'⟩
  · exact hn hv'
  · exact hn (ho' ▸ hv)
  · exact hn' (ho ▸ hv')
  · exact absurd (hl.trans hl') (lt_irrefl _)

variable (c p hs)

/-- The ranking of highlights by their distance from the pointer. -/
theorem closest_eq_firstLeast [Valued α] (l : List (Highlight α × κ)) :
    closest c p l = firstLeast (fun a b => compare (Valued.rank (a.1.distance p))
      (Valued.rank (b.1.distance p))) (viable c p l) := by
  simp only [closest, byDistance_eq_compare]

variable {c p hs}

theorem best_of_pick [Valued α] {h : Highlight α × Nat} (hp : pick c p hs = some h) :
    Best c p hs h := by
  rw [pick, closest_eq_firstLeast] at hp
  have hf := firstLeast_eq_some _ hp
  obtain ⟨hi, hv⟩ := mem_viable_zipIdx.mp hf.mem
  refine ⟨hi, hv, ?_, ?_⟩
  · intro g j hj hg hlt
    rw [byDistance_eq_compare, compare_lt_iff_lt] at hlt
    exact absurd (hf.key_le (a := (g, j)) (mem_viable_zipIdx.mpr ⟨hj, hg⟩)) hlt.not_ge
  · intro g j hj hg heq hne
    rw [byDistance_eq_compare, compare_eq_iff_eq] at heq
    obtain ⟨before, after, hl, hbefore, -⟩ := hf
    have hm : (g, j) ∈ viable c p hs.zipIdx := mem_viable_zipIdx.mpr ⟨hj, hg⟩
    have hpair : (viable c p hs.zipIdx).Pairwise Ahead := pairwise_viable
    rw [hl] at hm hpair
    rcases List.mem_append.mp hm with hb | hb
    · exact absurd heq.le (hbefore _ hb).not_ge
    · rcases List.mem_cons.mp hb with he | ha
      · exact absurd (congrArg Prod.snd he) hne
      · exact (List.pairwise_cons.mp (List.pairwise_append.mp hpair).2.1).1 _ ha

/-- At most one highlight is the one to pick. -/
theorem Best.eq [Valued α] {h g : Highlight α × Nat} (hh : Best c p hs h) (hg : Best c p hs g) :
    h = g := by
  have hle := hh.nearest g.1 g.2 hg.inList hg.viable
  have hge := hg.nearest h.1 h.2 hh.inList hh.viable
  rw [byDistance_eq_compare, Ne, compare_lt_iff_lt, not_lt] at hle hge
  have htie := le_antisymm hle hge
  have hi : g.2 = h.2 := by
    by_contra hne
    refine (hh.ahead g.1 g.2 hg.inList hg.viable ?_ hne).asymm
      (hg.ahead h.1 h.2 hh.inList hh.viable ?_ (Ne.symm hne))
    · rw [byDistance_eq_compare, compare_eq_iff_eq, htie]
    · rw [byDistance_eq_compare, compare_eq_iff_eq, htie]
  refine Prod.ext (Option.some.inj ?_) hi.symm
  rw [← hh.inList, ← hg.inList, hi]

theorem pick_eq_none_iff : pick c p hs = none ↔ ∀ h ∈ hs, ¬Viable c p hs h := by
  rw [pick, closest, firstLeast_eq_none_iff, List.eq_nil_iff_forall_not_mem]
  constructor
  · intro hn h hh hv
    obtain ⟨i, hi⟩ := List.mem_iff_getElem?.mp hh
    exact hn (h, i) (mem_viable_zipIdx.mpr ⟨hi, hv⟩)
  · intro hn h hh
    obtain ⟨hi, hv⟩ := mem_viable_zipIdx.mp hh
    exact hn h.1 (List.mem_of_getElem? hi) hv

theorem pick_eq_some_iff [Valued α] {h : Highlight α × Nat} :
    pick c p hs = some h ↔ Best c p hs h := by
  refine ⟨best_of_pick, ?_⟩
  intro hb
  cases hp : pick c p hs with
  | none => exact absurd hb.viable (pick_eq_none_iff.mp hp h.1 (List.mem_of_getElem? hb.inList))
  | some g => rw [(best_of_pick hp).eq hb]

variable (c p hs)

/-- The viable highlights: vertical bars, then horizontal ones, each in the order
of the list. -/
theorem viable_zipIdx : viable c p hs.zipIdx =
    hs.zipIdx.filter (fun h => h.1.isVertical ∧ Viable c p hs h.1) ++
      hs.zipIdx.filter (fun h => ¬h.1.isVertical ∧ Viable c p hs h.1) := by
  rw [viable, verticals, horizontals, biased_zipIdx]
  congr 1
  · apply List.filter_congr
    intro h _
    cases hv : h.1.isVertical <;> simp [Viable, hv]
  · apply List.filter_congr
    intro h _
    cases hv : h.1.isVertical <;> simp [Viable, hv]

/-- No viable highlight is lost, and none comes twice. -/
theorem perm_viable_zipIdx : (viable c p hs.zipIdx).Perm
    (hs.zipIdx.filter fun h => Viable c p hs h.1) := by
  rw [viable_zipIdx]
  refine ((List.filter_append_perm (fun h => h.1.isVertical)
    (hs.zipIdx.filter fun h => Viable c p hs h.1)).symm.trans (.of_eq ?_)).symm
  simp [List.filter_filter]

/-- The pick is the head of a stable sort by distance. -/
theorem pick_eq_head?_mergeSort [Valued α] : pick c p hs = ((viable c p hs.zipIdx).mergeSort
    fun h g => decide (byDistance (h.1.distance p) (g.1.distance p) ≠ .gt)).head? := by
  rw [pick, closest_eq_firstLeast, ← head?_mergeSort]
  simp only [byDistance_eq_compare, ne_eq, compare_gt_iff_gt, not_lt]

/-- What is picked from ANY list: nothing if nothing is viable, and else the one
highlight that is best, which heads a stable sort by distance of the viable ones,
each of which is sorted once. Distances that are no numbers come last, and tie. -/
theorem pick_spec (c : Policy Float) (p : Point Float) (hs : List (Highlight Float)) :
    (pick c p hs = none ↔ ∀ h ∈ hs, ¬Viable c p hs h) ∧
    (∀ h, pick c p hs = some h ↔ Best c p hs h) ∧
    (viable c p hs.zipIdx = hs.zipIdx.filter (fun h => h.1.isVertical ∧ Viable c p hs h.1) ++
      hs.zipIdx.filter (fun h => ¬h.1.isVertical ∧ Viable c p hs h.1)) ∧
    (viable c p hs.zipIdx).Perm (hs.zipIdx.filter fun h => Viable c p hs h.1) ∧
    pick c p hs = ((viable c p hs.zipIdx).mergeSort
      fun h g => decide (byDistance (h.1.distance p) (g.1.distance p) ≠ .gt)).head? ∧
    ∀ a b : Float, (byDistance a b = .lt ↔ a < b ∨ a.isNaN = false ∧ b.isNaN = true) ∧
      (byDistance a b = .eq ↔ a == b ∨ a.isNaN = true ∧ b.isNaN = true) :=
  ⟨pick_eq_none_iff, fun _ => pick_eq_some_iff, viable_zipIdx c p hs, perm_viable_zipIdx c p hs,
    pick_eq_head?_mergeSort c p hs, byDistance_float⟩

/-! ## Changes that are not seen -/

theorem firstLeast_map {γ : Type} (cmp : γ → γ → Ordering) (f : β → γ) (l : List β) :
    firstLeast cmp (l.map f) = (firstLeast (fun a b => cmp (f a) (f b)) l).map f := by
  cases l with
  | nil => rfl
  | cons a l =>
    simp only [firstLeast, List.map_cons, Option.map_some, List.foldl_map]
    refine congrArg some ?_
    induction l generalizing a with
    | nil => rfl
    | cons b l ih =>
      rw [List.foldl_cons, List.foldl_cons, ← ih]
      split <;> rfl

section Change

variable {c p} {p' : Point α} {ι : Type} {f : Highlight α × κ → Highlight α × ι}

/-- A change of highlights and tags carries what is viable along, as long as it keeps what
is asked of a highlight. -/
theorem viable_map (hv : ∀ h, (f h).1.isVertical = h.1.isVertical)
    (hc : ∀ biased h, (f h).1.Catches c biased p' ↔ h.1.Catches c biased p)
    (l : List (Highlight α × κ)) : viable c p' (l.map f) = (viable c p l).map f := by
  have hverticals : verticals c p' (l.map f) = (verticals c p l).map f := by
    simp only [verticals, List.filter_map, Function.comp_def, hv, hc]
  have hhorizontals (b : Bool) : horizontals c p' b (l.map f) = (horizontals c p b l).map f := by
    simp only [horizontals, List.filter_map, Function.comp_def, hv, hc]
  have hb : biased c p' (l.map f) = biased c p l := by
    rw [biased, biased, hverticals, List.isEmpty_map]
  rw [viable, viable, hb, hverticals, hhorizontals, List.map_append]

/-- If it keeps the distances too, then it carries along what is picked. -/
theorem closest_map (hv : ∀ h, (f h).1.isVertical = h.1.isVertical)
    (hc : ∀ biased h, (f h).1.Catches c biased p' ↔ h.1.Catches c biased p)
    (hd : ∀ h, (f h).1.distance p' = h.1.distance p) (l : List (Highlight α × κ)) :
    closest c p' (l.map f) = (closest c p l).map f := by
  simp only [closest, viable_map hv hc, firstLeast_map, hd]

end Change

/-- A change of every highlight, and of the pointer along with them, that keeps all a
selection asks of each. -/
structure Unseen (c : Policy α) (p p' : Point α) (f : Highlight α → Highlight α) : Prop where
  isVertical_eq : ∀ h, (f h).isVertical = h.isVertical
  catches_iff : ∀ biased h, (f h).Catches c biased p' ↔ h.Catches c biased p
  distance_eq : ∀ h, (f h).distance p' = h.distance p

section Unseen

variable {c p} {p' : Point α} {f : Highlight α → Highlight α}

/-- What is viable after the change is what was viable before it, in the same order. -/
theorem Unseen.viable_map (hf : Unseen c p p' f) (l : List (Highlight α × κ)) :
    viable c p' (l.map (Prod.map f id)) = (viable c p l).map (Prod.map f id) :=
  Selection.viable_map (fun h => hf.isVertical_eq h.1) (fun b h => hf.catches_iff b h.1) l

/-- The same place is picked. -/
theorem Unseen.pick_map (hf : Unseen c p p' f) (hs : List (Highlight α)) :
    pick c p' (hs.map f) = (pick c p hs).map (Prod.map f id) := by
  rw [pick, pick, List.zipIdx_map]
  exact closest_map (fun h => hf.isVertical_eq h.1) (fun b h => hf.catches_iff b h.1)
    (fun h => hf.distance_eq h.1) _

end Unseen

/-! ## Bars that are not normalized -/

theorem not_zero_lt_zero [Valued α] : ¬(0 : α) < 0 := by
  intro h
  exact lt_irrefl _ (Valued.lt_iff.mp h).2

theorem catches_normalized [Valued α] (biased : Bool) (h : Highlight α) :
    h.normalized.Catches c biased p ↔ h.Catches c biased p := by
  have hs := c.sideReach_map_nonneg not_zero_lt_zero
  cases h with
  | vertical b =>
    simp only [Highlight.normalized, Highlight.Catches, Bar.bounds_normalized]
    simp only [Bar.normalized, Bar.withZone, Bar.withSlot, DropZone.normalized, hs]
  | horizontal b =>
    simp only [Highlight.normalized, Highlight.Catches, Bar.bounds_normalized]
    simp only [Bar.normalized, Bar.withZone, Bar.withSlot, DropZone.normalized,
      Policy.reachBelow, Policy.reachAbove, Policy.biasedReach_map_nonneg]

theorem distance_normalized (h : Highlight α) : h.normalized.distance p = h.distance p := by
  cases h <;> simp only [Highlight.normalized, Highlight.distance, Bar.bounds_normalized]

theorem unseen_normalized [Valued α] : Unseen c p p Highlight.normalized where
  isVertical_eq := Highlight.isVertical_normalized
  catches_iff := catches_normalized c p
  distance_eq := distance_normalized p

/-- Normalizes a highlight, and leaves its tag. -/
def normalizeTagged (h : Highlight α × κ) : Highlight α × κ := (h.1.normalized, h.2)

theorem viable_map_normalized [Valued α] (l : List (Highlight α × κ)) :
    viable c p (l.map normalizeTagged) = (viable c p l).map normalizeTagged :=
  (unseen_normalized c p).viable_map l

theorem zipIdx_map_normalized :
    (hs.map Highlight.normalized).zipIdx = hs.zipIdx.map normalizeTagged := by
  rw [List.zipIdx_map]
  rfl

theorem pick_map_normalized [Valued α] :
    pick c p (hs.map Highlight.normalized) = (pick c p hs).map normalizeTagged :=
  (unseen_normalized c p).pick_map hs

/-- Bars with ANY numbers in them are selected as their normalized forms are: the
same places are viable, at the same distances, and the same place is picked. -/
theorem normalized_unseen (c : Policy Float) (p : Point Float) (hs : List (Highlight Float)) :
    (viable c p (hs.map Highlight.normalized).zipIdx).map Prod.snd =
        (viable c p hs.zipIdx).map Prod.snd ∧
      (viable c p (hs.map Highlight.normalized).zipIdx).map (fun h => h.1.distance p) =
        (viable c p hs.zipIdx).map (fun h => h.1.distance p) ∧
      (pick c p (hs.map Highlight.normalized)).map Prod.snd = (pick c p hs).map Prod.snd := by
  rw [zipIdx_map_normalized, viable_map_normalized, pick_map_normalized]
  refine ⟨?_, ?_, ?_⟩
  · rw [List.map_map]
    rfl
  · rw [List.map_map]
    apply List.map_congr_left
    intro h _
    exact distance_normalized p h.1
  · rw [Option.map_map]
    rfl

end Selection

end DragDrop
