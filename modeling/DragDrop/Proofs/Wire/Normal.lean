import DragDrop.Proofs.Json.Ensures
import DragDrop.Proofs.Layout.Bars
import DragDrop.Proofs.Wire.Highlight

/-! Wherever a highlight comes from, it is normal: out of a text, where the numbers are
finite because the reader refuses the others, or out of a layout, where they may be
ANYTHING before they are cut off. A list that was loaded can always be saved again. -/

namespace DragDrop

open Json

namespace DropZone

variable {α : Type}

/-- The tolerances of a normalized zone are those of the zone, cut off. -/
theorem forall_mem_declared_normalized [Scalar α] {z : DropZone α} {P : α → Prop}
    (h : ∀ x ∈ z.declared, P (Scalar.nonneg x)) : ∀ x ∈ z.normalized.declared, P x := by
  have hside {side : Option α} (hs : ∀ x ∈ side, P (Scalar.nonneg x)) :
      ∀ x ∈ side.map Scalar.nonneg, P x := by
    intro x hx
    obtain ⟨y, hy, rfl⟩ := Option.map_eq_some_iff.mp hx
    exact hs y hy
  obtain ⟨ht, hb, hl, hr⟩ := forall_mem_declared.mp h
  exact forall_mem_declared.mpr ⟨hside ht, hside hb, hside hl, hside hr⟩

/-- No side of the draft is anything but a finite number. -/
structure Draft.Finite (d : Draft) : Prop where
  top : ∀ o ∈ d.top, ∀ x ∈ o, x.isFinite = true
  bottom : ∀ o ∈ d.bottom, ∀ x ∈ o, x.isFinite = true
  left : ∀ o ∈ d.left, ∀ x ∈ o, x.isFinite = true
  right : ∀ o ∈ d.right, ∀ x ∈ o, x.isFinite = true

theorem ensures_fromJson : Ensures fromJson fun z => ∀ x ∈ z.declared, x.isFinite = true := by
  have hside : Ensures (readOptional readDouble) fun o => ∀ x ∈ o, x.isFinite = true :=
    ensures_optional ensures_double
  have hjoin {o : Option (Option Float)} (h : ∀ s ∈ o, ∀ x ∈ s, x.isFinite = true) :
      ∀ x ∈ o.join, x.isFinite = true := by
    intro x hx
    exact h (some x) (Option.join_eq_some_iff.mp hx) x rfl
  have hset {P : Option Float → Prop} {s : Option Float} (hs : P s) : ∀ o ∈ some s, P o := by
    rintro o ⟨⟩
    exact hs
  refine Shape.ensures_read (I := Draft.Finite) ?blank ?fields ?finish
  case blank => constructor <;> exact fun o ho => absurd ho (Option.not_mem_none o)
  case fields =>
    intro f hf
    simp only [shape, List.mem_cons, List.not_mem_nil, or_false] at hf
    rcases hf with rfl | rfl | rfl | rfl <;> refine Field.keeps_of hside fun d s hd hs => ?_
    · exact { hd with top := hset hs }
    · exact { hd with bottom := hset hs }
    · exact { hd with left := hset hs }
    · exact { hd with right := hset hs }
  case finish =>
    intro d z hd hz
    obtain rfl := Except.ok.inj hz
    exact forall_mem_declared.mpr ⟨hjoin hd.top, hjoin hd.bottom, hjoin hd.left, hjoin hd.right⟩

end DropZone

namespace Record

/-- All the numbers of the record are finite. -/
structure Finite (r : Record) : Prop where
  x : r.x.isFinite = true
  y : r.y.isFinite = true
  width : r.width.isFinite = true
  height : r.height.isFinite = true
  zone : ∀ t ∈ r.zone.declared, t.isFinite = true

/-- All the numbers that the draft has got so far are finite. -/
structure Draft.Finite (d : Draft) : Prop where
  x : ∀ v ∈ d.x, v.isFinite = true
  y : ∀ v ∈ d.y, v.isFinite = true
  width : ∀ v ∈ d.width, v.isFinite = true
  height : ∀ v ∈ d.height, v.isFinite = true
  zone : ∀ z ∈ d.zone, ∀ t ∈ z.declared, t.isFinite = true

/-- What has to be there is there. -/
theorem getDM_eq_ok {β : Type} {o : Option β} {name : String} {b : β} :
    o.getDM (throw name : Except String β) = .ok b ↔ o = some b := by
  cases o with
  | none =>
    constructor <;> intro h
    · cases h
    · cases h
  | some c =>
    constructor <;> intro h
    · exact congrArg some (Except.ok.inj h)
    · exact congrArg Except.ok (Option.some.inj h)

theorem ensures_fromJson : Ensures fromJson Finite := by
  have hset {β : Type} {P : β → Prop} {b : β} (hb : P b) : ∀ c ∈ some b, P c := by
    rintro c ⟨⟩
    exact hb
  refine Shape.ensures_read (I := Draft.Finite) ?blank ?fields ?finish
  case blank => constructor <;> exact fun o ho => absurd ho (Option.not_mem_none o)
  case fields =>
    intro f hf
    simp only [shape, List.mem_cons, List.not_mem_nil, or_false] at hf
    rcases hf with rfl | rfl | rfl | rfl | rfl | rfl | rfl | rfl | rfl | rfl
    · exact Field.keeps_of (ensures_true _) fun d b hd _ => { hd with }
    · exact Field.keeps_of ensures_double fun d b hd hb => { hd with x := hset hb }
    · exact Field.keeps_of ensures_double fun d b hd hb => { hd with y := hset hb }
    · exact Field.keeps_of ensures_double fun d b hd hb => { hd with width := hset hb }
    · exact Field.keeps_of ensures_double fun d b hd hb => { hd with height := hset hb }
    · exact Field.keeps_of DropZone.ensures_fromJson fun d b hd hb => { hd with zone := hset hb }
    · exact Field.keeps_of (ensures_true _) fun d b hd _ => { hd with }
    · exact Field.keeps_of (ensures_true _) fun d b hd _ => { hd with }
    · exact Field.keeps_of (ensures_true _) fun d b hd _ => { hd with }
    · exact Field.keeps_of (ensures_true _) fun d b hd _ => { hd with }
  case finish =>
    intro d r hd hr
    obtain ⟨isVertical, -, hr⟩ := of_bind_eq_ok hr
    obtain ⟨x, hx, hr⟩ := of_bind_eq_ok hr
    obtain ⟨y, hy, hr⟩ := of_bind_eq_ok hr
    obtain ⟨width, hw, hr⟩ := of_bind_eq_ok hr
    obtain ⟨height, hh, hr⟩ := of_bind_eq_ok hr
    obtain rfl := Except.ok.inj hr
    refine ⟨hd.x x (getDM_eq_ok.mp hx), hd.y y (getDM_eq_ok.mp hy),
      hd.width width (getDM_eq_ok.mp hw), hd.height height (getDM_eq_ok.mp hh), ?_⟩
    cases hz : d.zone with
    | none => exact fun t ht => absurd ht List.not_mem_nil
    | some z => exact hd.zone z hz

end Record

namespace Highlight

/-- The sides that matter to the orientation are declared, and no others are. -/
structure DeclaresSides (h : Highlight Float) : Prop where
  left : h.bar.zone.left.isSome = h.isVertical
  right : h.bar.zone.right.isSome = h.isVertical
  top : h.bar.zone.top.isSome = !h.isVertical
  bottom : h.bar.zone.bottom.isSome = !h.isVertical

/-- What is normalized is normal, whatever numbers it was made of. -/
theorem normal_normalized (h : Highlight Float) : h.normalized.Normal := by
  have hzone : ∀ x ∈ h.bar.zone.normalized.declared, 0 ≤ x :=
    DropZone.forall_mem_declared_normalized fun x _ => Scalar.nonneg_float x
  cases h <;> exact ⟨Scalar.nonneg_float _, Scalar.nonneg_float _, hzone⟩

/-- What is normal in this sense survives the way through a record. -/
structure Settled (h : Highlight Float) : Prop where
  normal : h.Normal
  toHighlight_toRecord : h.toRecord.toHighlight = h

theorem settled_of_normalized {h : Highlight Float} (hn : h.normalized = h) : h.Settled where
  normal := hn ▸ h.normal_normalized
  toHighlight_toRecord := h.toHighlight_toRecord.trans hn

theorem isFinite_toHighlight {r : Record} (hr : r.Finite) : r.toHighlight.isFinite = true := by
  have hbar : r.toHighlight.bar = r.bar := by
    unfold Record.toHighlight
    split <;> rfl
  have hzone : ∀ t ∈ r.zone.normalized.declared, t.isFinite = true :=
    DropZone.forall_mem_declared_normalized fun t ht => Scalar.isFinite_nonneg (hr.zone t ht)
  rw [isFinite, numbers, hbar, List.all_append, Bool.and_eq_true, List.all_eq_true,
    List.all_eq_true]
  refine ⟨?_, hzone⟩
  simp only [List.forall_mem_cons]
  exact ⟨hr.x, hr.y, Scalar.isFinite_nonneg hr.width, Scalar.isFinite_nonneg hr.height,
    fun t ht => absurd ht List.not_mem_nil⟩

theorem normalized_toHighlight (r : Record) : r.toHighlight.normalized = r.toHighlight := by
  have hbar : r.bar.normalized = r.bar := by
    simp [Record.bar, Bar.normalized, Bar.ofExtents, Bar.withZone, Bar.withSlot]
  unfold Record.toHighlight
  split
  · exact congrArg vertical hbar
  · exact congrArg horizontal hbar

theorem ensures_fromJson : Ensures fromJson fun h => h.isFinite = true ∧ h.Settled := by
  apply Ensures.map
  refine Record.ensures_fromJson.mono ?_
  intro r hr
  exact ⟨isFinite_toHighlight hr, settled_of_normalized (normalized_toHighlight r)⟩

end Highlight

namespace Layout

variable {l : Layout} (span : Rect Float) (s : Stop Float) (row : Nat)

theorem normalized_bar : (l.bar span s row).normalized = l.bar span s row := by
  unfold bar
  split <;> simp [Highlight.normalized, Bar.normalized, Bar.ofExtents, Bar.withZone, Bar.withSlot]

theorem declaresSides_bar : (l.bar span s row).DeclaresSides := by
  unfold bar
  split <;> exact ⟨rfl, rfl, rfl, rfl⟩

/-- What a layout offers is normal, though its rectangles need not be. -/
theorem settled_of_mem_highlights {q : Query Float} {h : Highlight Float}
    (hh : h ∈ l.highlights q) : h.Settled ∧ h.DeclaresSides := by
  unfold highlights at hh
  split at hh
  · exact absurd hh List.not_mem_nil
  · dsimp only at hh
    split at hh
    · exact absurd hh List.not_mem_nil
    · rename_i span _
      obtain ⟨s, -, rfl⟩ := List.mem_map.mp hh
      exact ⟨Highlight.settled_of_normalized (normalized_bar span s.1 s.2),
        declaresSides_bar span s.1 s.2⟩

end Layout

namespace HighlightList

/-- What can be loaded is finite and normal. -/
theorem settled_of_decode {text : String} {hs : List (Highlight Float)}
    (h : decode text = .ok hs) : ∀ h ∈ hs, h.isFinite = true ∧ h.Settled := by
  have hread : read text.toList = .ok hs := by
    unfold decode at h
    cases hr : read text.toList with
    | error e => rw [hr] at h; cases h
    | ok hs' =>
      rw [hr] at h
      exact congrArg _ (Except.ok.inj h)
  exact (ensures_list Highlight.ensures_fromJson).readAll hread

/-- A list that was loaded can be saved again, every highlight that is loaded or offered
by a layout is normal, and it comes back UNCHANGED out of its record. What is no number
would not be normal, since it is not comparable to zero. -/
theorem producers_settled :
    (∀ text hs, decode text = .ok hs →
        (∀ h ∈ hs, h.isFinite = true ∧ h.Normal ∧ h.toRecord.toHighlight = h) ∧
          ∃ text', encode hs = .ok text') ∧
      ∀ (l : Layout) (q : Query Float), ∀ h ∈ l.highlights q,
        h.Normal ∧ h.DeclaresSides ∧ h.toRecord.toHighlight = h := by
  constructor
  · intro text hs hdecode
    have hall := settled_of_decode hdecode
    refine ⟨fun h hh => ⟨(hall h hh).1, (hall h hh).2.normal, (hall h hh).2.toHighlight_toRecord⟩,
      String.ofList ((Value.list (hs.map Highlight.toJson)).write (some 0)), ?_⟩
    rw [encode, write_eq fun h hh => (hall h hh).1]
    rfl
  · intro l q h hh
    obtain ⟨hsettled, hsides⟩ := Layout.settled_of_mem_highlights hh
    exact ⟨hsettled.normal, hsides, hsettled.toHighlight_toRecord⟩

/-- A column with nothing in it but what a measurement should never give. -/
def tornColumn : Layout where
  canvas := mainCanvas
  kind := .column
  path := []
  children := [⟨"nowhere"⟩, ⟨"everywhere"⟩]

def torn : Query Float where
  canvas := mainCanvas
  positions := .ofList [(⟨"nowhere"⟩, ⟨0 / 0, -1 / 0, 0 / 0, 1 / 0⟩),
    (⟨"everywhere"⟩, ⟨-1 / 0, 1 / 0, 1 / 0, -5⟩)]
  dragged := []

theorem producers_settled_torn :
    (∃ text hs, decode text = .ok hs ∧ (∃ h ∈ hs, h.isFinite = true ∧ h.Normal ∧
        h.toRecord.toHighlight = h) ∧ ∃ text', encode hs = .ok text') ∧
      ∃ h ∈ tornColumn.highlights torn, h.Normal ∧ h.DeclaresSides ∧
        h.toRecord.toHighlight = h := by
  constructor
  · have hfin : ∀ h ∈ ragged, h.isFinite = true := by decide +kernel
    obtain ⟨text, -, hdecode⟩ := decode_encode hfin (by decide +kernel)
    obtain ⟨hall, hsaved⟩ := producers_settled.1 text _ hdecode
    exact ⟨text, _, hdecode, ⟨_, List.mem_cons_self, hall _ List.mem_cons_self⟩, hsaved⟩
  · obtain ⟨h, hh⟩ : ∃ h, h ∈ tornColumn.highlights torn :=
      List.exists_mem_of_length_pos (by decide +kernel)
    exact ⟨h, hh, producers_settled.2 tornColumn torn h hh⟩

end HighlightList

end DragDrop
