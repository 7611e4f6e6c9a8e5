import DragDrop.Proofs.Wire.Slot
import DragDrop.Wire.Highlight

/-! What becomes of a list of highlights that is saved and loaded. The text is always
accepted; orientation, slot and the sides that are declared come back as they were.
The numbers come back as `reread` has them, which is NOT always what they were. -/

namespace DragDrop

open Json

namespace DropZone

/-- The zone that is read where this one was written. -/
def reread (z : DropZone Float) : DropZone Float where
  top := z.top.map DragDrop.reread
  bottom := z.bottom.map DragDrop.reread
  left := z.left.map DragDrop.reread
  right := z.right.map DragDrop.reread

/-- One side as it is written, if it is declared. -/
def member (name : String) (side : Option Float) : List (String × Value) :=
  (side.map fun x => (name, .double x)).toList

theorem toJson_eq (z : DropZone Float) :
    z.toJson = .object (member "top" z.top ++ (member "bottom" z.bottom ++
      (member "left" z.left ++ member "right" z.right))) := by
  obtain ⟨top, bottom, left, right⟩ := z
  cases top <;> cases bottom <;> cases left <;> cases right <;> rfl

theorem uniform_shape : ∀ f ∈ shape.fields, f.Uniform := by
  intro f hf
  simp only [shape, List.mem_cons, List.not_mem_nil, or_false] at hf
  rcases hf with rfl | rfl | rfl | rfl <;> exact Field.uniform_of (means_optional means_double)

theorem means_fromJson : Means fromJson shape.tree? := Shape.means_read uniform_shape

/-- A double is not taken for the word that stands for nothing. -/
theorem as_side {x : Float} (h : x.isFinite = true) :
    (Value.double x).tree.as (readOptional readDouble) = some (some (DragDrop.reread x)) := by
  have hdouble := Value.as_double h
  rw [means_double.as_eq, Value.tree_double h] at hdouble
  rw [(means_optional means_double).as_eq, Value.tree_double h]
  exact congrArg (Option.map some) hdouble

/-- A side is filled if it is declared, and left alone if it is not. -/
theorem fills_member {name : String} {get : Draft → Option (Option Float)}
    {set : Draft → Option Float → Draft} {e : Draft} {side : Option Float}
    (hfield : shape.fields.find? (·.name == name) =
      some (.of name get set (readOptional readDouble)))
    (hget : get e = none) (hside : ∀ x ∈ side, x.isFinite = true) :
    shape.Fills e (member name side)
      (side.elim e fun x => set e (some (DragDrop.reread x))) := by
  cases side with
  | none => exact .nil e
  | some x => exact .cons (Shape.act_field hfield hget (as_side (hside x rfl))) (.nil _)

/-- The sides of a zone are read as they were declared. -/
theorem as_toJson {z : DropZone Float} (h : ∀ x ∈ z.declared, x.isFinite = true) :
    z.toJson.tree.as fromJson = some z.reread := by
  rw [toJson_eq]
  obtain ⟨htop, hbottom, hleft, hright⟩ := forall_mem_declared.mp h
  refine Shape.as_object uniform_shape (Shape.Fills.append (fills_member rfl rfl htop) <|
    Shape.Fills.append (fills_member rfl ?bottom hbottom) <|
      Shape.Fills.append (fills_member rfl ?left hleft) <|
        fills_member rfl ?right hright) ?finish
  case bottom => cases z.top <;> rfl
  case left => cases z.top <;> cases z.bottom <;> rfl
  case right => cases z.top <;> cases z.bottom <;> cases z.left <;> rfl
  case finish =>
    obtain ⟨top, bottom, left, right⟩ := z
    cases top <;> cases bottom <;> cases left <;> cases right <;> rfl

/-- Every declared tolerance is as it was, to the eye of a comparison. -/
theorem beq_iff_declared (z : DropZone Float) (f : Float → Float) :
    ((⟨z.top.map f, z.bottom.map f, z.left.map f, z.right.map f⟩ : DropZone Float) == z) = true ↔
      ∀ x ∈ z.declared, (f x == x) = true := by
  obtain ⟨top, bottom, left, right⟩ := z
  show (top.map f == top && (bottom.map f == bottom &&
    (left.map f == left && right.map f == right))) = true ↔ _
  cases top <;> cases bottom <;> cases left <;> cases right <;>
    simp [declared]

end DropZone

namespace Record

/-- The record that is read where this one was written. -/
def reread (r : Record) : Record where
  isVertical := r.isVertical
  x := DragDrop.reread r.x
  y := DragDrop.reread r.y
  width := DragDrop.reread r.width
  height := DragDrop.reread r.height
  zone := r.zone.reread
  slot := r.slot

theorem uniform_shape : ∀ f ∈ shape.fields, f.Uniform := by
  intro f hf
  simp only [shape, List.mem_cons, List.not_mem_nil, or_false] at hf
  rcases hf with rfl | rfl | rfl | rfl | rfl | rfl | rfl | rfl | rfl | rfl
  · exact Field.uniform_of means_boolean
  · exact Field.uniform_of means_double
  · exact Field.uniform_of means_double
  · exact Field.uniform_of means_double
  · exact Field.uniform_of means_double
  · exact Field.uniform_of DropZone.means_fromJson
  · exact Field.uniform_of (means_choice _)
  · exact Field.uniform_of (means_text.map _)
  · exact Field.uniform_of (means_list (means_text.map _))
  · exact Field.uniform_of means_natural

theorem means_fromJson : Means fromJson shape.tree? := Shape.means_read uniform_shape

/-- A record is read member by member, the slot's among them. -/
theorem as_toJson {r : Record} (hx : r.x.isFinite = true) (hy : r.y.isFinite = true)
    (hw : r.width.isFinite = true) (hh : r.height.isFinite = true)
    (hz : ∀ x ∈ r.zone.declared, x.isFinite = true) (hrow : r.slot.row < Literal.wordLimit) :
    r.toJson.tree.as fromJson = some r.reread := by
  refine Shape.as_object uniform_shape
    (.cons (Shape.act_field rfl rfl (Value.as_boolean r.isVertical)) <|
      .cons (Shape.act_field rfl rfl (Value.as_double hx)) <|
      .cons (Shape.act_field rfl rfl (Value.as_double hy)) <|
      .cons (Shape.act_field rfl rfl (Value.as_double hw)) <|
      .cons (Shape.act_field rfl rfl (Value.as_double hh)) <|
      .cons (Shape.act_field rfl rfl (DropZone.as_toJson hz)) <|
      .cons (Shape.act_field rfl rfl r.slot.alignment.as_toJson) <|
      .cons (Shape.act_field rfl rfl r.slot.canvas.as_toJson) <|
      .cons (Shape.act_field rfl rfl (LayoutId.as_path r.slot.path)) <|
      .cons (Shape.act_field rfl rfl (Value.as_natural hrow)) <| .nil _) ?_
  rfl

end Record

namespace Highlight

/-- Four numbers of a highlight are there in any case. -/
theorem forall_mem_numbers {h : Highlight Float} {P : Float → Prop} :
    (∀ x ∈ h.numbers, P x) ↔ P h.bar.x ∧ P h.bar.y ∧ P h.bar.width ∧ P h.bar.height ∧
      ∀ x ∈ h.bar.zone.declared, P x := by
  simp only [numbers, List.cons_append, List.nil_append, List.forall_mem_cons]

/-- The highlight that is read where this one was written. -/
def reread (h : Highlight Float) : Highlight Float := h.toRecord.reread.toHighlight

theorem means_fromJson :
    Means fromJson fun t => (Record.shape.tree? t).map Record.toHighlight :=
  Record.means_fromJson.map Record.toHighlight

theorem as_toJson {h : Highlight Float} (hfin : h.isFinite = true)
    (hrow : h.slot.row < Literal.wordLimit) : h.toJson.tree.as fromJson = some h.reread := by
  rw [isFinite, List.all_eq_true, forall_mem_numbers] at hfin
  obtain ⟨hx, hy, hw, hh, hz⟩ := hfin
  have hrecord := Record.as_toJson (r := h.toRecord) hx hy hw hh hz hrow
  rw [fromJson, Tree.as_map, toJson, hrecord]
  rfl

theorem isVertical_reread (h : Highlight Float) : h.reread.isVertical = h.isVertical := by
  cases h <;> rfl

/-- What is read is normalized, whether it was when it was written or not. -/
theorem bar_reread (h : Highlight Float) :
    h.reread.bar = {
      x := DragDrop.reread h.bar.x
      y := DragDrop.reread h.bar.y
      width := Scalar.nonneg (DragDrop.reread h.bar.width)
      height := Scalar.nonneg (DragDrop.reread h.bar.height)
      zone := {
        top := h.bar.zone.top.map fun x => Scalar.nonneg (DragDrop.reread x)
        bottom := h.bar.zone.bottom.map fun x => Scalar.nonneg (DragDrop.reread x)
        left := h.bar.zone.left.map fun x => Scalar.nonneg (DragDrop.reread x)
        right := h.bar.zone.right.map fun x => Scalar.nonneg (DragDrop.reread x) }
      slot := h.slot } := by
  have hzone (z : DropZone Float) : z.reread.normalized = {
      top := z.top.map fun x => Scalar.nonneg (DragDrop.reread x)
      bottom := z.bottom.map fun x => Scalar.nonneg (DragDrop.reread x)
      left := z.left.map fun x => Scalar.nonneg (DragDrop.reread x)
      right := z.right.map fun x => Scalar.nonneg (DragDrop.reread x) } := by
    simp only [DropZone.normalized, DropZone.reread, Option.map_map]
    rfl
  rw [← hzone]
  cases h <;> rfl

/-- The two agree in everything that is no number. -/
structure SameSlot (h' h : Highlight Float) : Prop where
  orientation : h'.isVertical = h.isVertical
  slot : h'.slot = h.slot
  top : h'.bar.zone.top.isSome = h.bar.zone.top.isSome
  bottom : h'.bar.zone.bottom.isSome = h.bar.zone.bottom.isSome
  left : h'.bar.zone.left.isSome = h.bar.zone.left.isSome
  right : h'.bar.zone.right.isSome = h.bar.zone.right.isSome

theorem sameSlot_reread (h : Highlight Float) : h.reread.SameSlot h where
  orientation := h.isVertical_reread
  slot := by rw [slot, bar_reread]
  top := by rw [bar_reread, Option.isSome_map]
  bottom := by rw [bar_reread, Option.isSome_map]
  left := by rw [bar_reread, Option.isSome_map]
  right := by rw [bar_reread, Option.isSome_map]

/-- Extents and declared tolerances span something, or nothing. -/
structure Normal (h : Highlight Float) : Prop where
  width : 0 ≤ h.bar.width
  height : 0 ≤ h.bar.height
  declared : ∀ x ∈ h.bar.zone.declared, 0 ≤ x

theorem beq_iff_bar {h' h : Highlight Float} (ho : h'.isVertical = h.isVertical) :
    (h' == h) = true ↔ (h'.bar == h.bar) = true := by
  cases h' <;> cases h <;> first | exact Iff.rfl | cases ho

/-- A normal highlight is what it was if every one of its numbers is. -/
theorem reread_beq_iff {h : Highlight Float} (hfin : h.isFinite = true) (hn : h.Normal) :
    (h.reread == h) = true ↔ ∀ x ∈ h.numbers, (DragDrop.reread x == x) = true := by
  rw [isFinite, List.all_eq_true] at hfin
  have hzone : (∀ x ∈ h.bar.zone.declared, (Scalar.nonneg (DragDrop.reread x) == x) = true) ↔
      ∀ x ∈ h.bar.zone.declared, (DragDrop.reread x == x) = true :=
    forall₂_congr fun x hx =>
      nonneg_reread_beq (hfin x (List.mem_append_right _ hx)) (hn.declared x hx)
  rw [forall_mem_numbers] at hfin ⊢
  obtain ⟨-, -, hw, hh, -⟩ := hfin
  rw [beq_iff_bar h.isVertical_reread, bar_reread]
  have hbar (b b' : Bar Float) : (b' == b) = (b'.x == b.x && (b'.y == b.y &&
      (b'.width == b.width && (b'.height == b.height && (b'.zone == b.zone &&
        b'.slot == b.slot))))) := rfl
  rw [hbar]
  simp only [Bool.and_eq_true, DropZone.beq_iff_declared, hzone, nonneg_reread_beq hw hn.width,
    nonneg_reread_beq hh hn.height]
  have hslot : (h.slot == h.bar.slot) = true := beq_self_eq_true h.slot
  rw [hslot]
  simp only [and_true]

end Highlight

namespace HighlightList

theorem write_eq {hs : List (Highlight Float)} (h : ∀ h ∈ hs, h.isFinite = true) :
    write hs = .ok ((Value.list (hs.map Highlight.toJson)).write (some 0)) := by
  have hnone : hs.findIdx? (!·.isFinite) = none := by
    rw [List.findIdx?_eq_none_iff]
    intro x hx
    rw [h x hx]
    rfl
  rw [write, hnone]

/-- A list of finite highlights is saved, and what was saved is loaded. -/
theorem decode_encode {hs : List (Highlight Float)} (hfin : ∀ h ∈ hs, h.isFinite = true)
    (hrow : ∀ h ∈ hs, h.slot.row < Literal.wordLimit) :
    ∃ text, encode hs = .ok text ∧ decode text = .ok (hs.map Highlight.reread) := by
  have hread : (Value.list (hs.map Highlight.toJson)).tree.as (readList Highlight.fromJson) =
      some (hs.map Highlight.reread) :=
    Value.as_list Highlight.means_fromJson fun h hh => Highlight.as_toJson (hfin h hh) (hrow h hh)
  have hmeans := means_list Highlight.means_fromJson
  refine ⟨(Value.list (hs.map Highlight.toJson)).indented, ?_, ?_⟩
  · rw [encode, write_eq hfin]
    rfl
  · rw [decode, read, hmeans.readAll_spelledBy hread (Value.spelledBy_indented _)]
    rfl

/-- No slot is changed by saving and loading, be the highlights normal or not. -/
theorem decode_encode_sameSlot {hs : List (Highlight Float)}
    (hfin : ∀ h ∈ hs, h.isFinite = true) (hrow : ∀ h ∈ hs, h.slot.row < Literal.wordLimit) :
    ∃ text hs', encode hs = .ok text ∧ decode text = .ok hs' ∧
      List.Forall₂ Highlight.SameSlot hs' hs := by
  obtain ⟨text, hencode, hdecode⟩ := decode_encode hfin hrow
  refine ⟨text, hs.map Highlight.reread, hencode, hdecode, ?_⟩
  rw [List.forall₂_map_left_iff, List.forall₂_same]
  intro h _
  exact h.sameSlot_reread

/-- Extents and tolerances below zero, the greatest of all rows, and names that have
to be escaped. -/
def ragged : List (Highlight Float) := [
  .horizontal {
    x := -1.5e300
    y := 5e-324
    width := -4
    height := 1.9000000000000001
    zone := { top := some (-0.0), right := some (-7) }
    slot := {
      alignment := .finish
      canvas := ⟨"\"\\\u0007\n"⟩
      path := [⟨"é\t"⟩, ⟨""⟩]
      row := 18446744073709551615 } },
  .vertical { x := 1.7976931348623157e308, y := 0, width := 3, height := -0.0 }]

theorem decode_encode_sameSlot_ragged :
    ∃ text hs', encode ragged = .ok text ∧ decode text = .ok hs' ∧
      List.Forall₂ Highlight.SameSlot hs' ragged :=
  decode_encode_sameSlot (by decide +kernel) (by decide +kernel)

/-- Highlights are loaded as they were saved if their numbers are. -/
theorem map_reread_beq_iff {hs : List (Highlight Float)} (hfin : ∀ h ∈ hs, h.isFinite = true)
    (hn : ∀ h ∈ hs, h.Normal) :
    (hs.map Highlight.reread == hs) = true ↔
      ∀ h ∈ hs, ∀ x ∈ h.numbers, (reread x == x) = true := by
  have hall : (hs.map Highlight.reread == hs) = hs.all fun h => h.reread == h := by
    clear hfin hn
    induction hs with
    | nil => rfl
    | cons h hs ih => rw [List.map_cons, List.cons_beq_cons, ih, List.all_cons]
  rw [hall, List.all_eq_true]
  exact forall₂_congr fun h hh => Highlight.reread_beq_iff (hfin h hh) (hn h hh)

/-- A list of normal highlights is loaded, and it is equal to what was saved if and
ONLY if every number survives its digits. -/
theorem decode_encode_beq_iff {hs : List (Highlight Float)} (hfin : ∀ h ∈ hs, h.isFinite = true)
    (hn : ∀ h ∈ hs, h.Normal) (hrow : ∀ h ∈ hs, h.slot.row < Literal.wordLimit) :
    ∃ text hs', encode hs = .ok text ∧ decode text = .ok hs' ∧
      ((hs' == hs) = true ↔ ∀ h ∈ hs, ∀ x ∈ h.numbers, (reread x == x) = true) := by
  obtain ⟨text, hencode, hdecode⟩ := decode_encode hfin hrow
  exact ⟨text, hs.map Highlight.reread, hencode, hdecode, map_reread_beq_iff hfin hn⟩

/-- A bar at a number of seventeen digits. -/
def lossy : List (Highlight Float) :=
  [.vertical { x := 1.9000000000000001, y := 0, width := 4, height := 30 }]

/-- Not every number does: this one comes back with its last digit changed. -/
theorem decode_encode_lossy :
    ∃ text hs', encode lossy = .ok text ∧ decode text = .ok hs' ∧ (hs' == lossy) = false := by
  have hnormal : ∀ h ∈ lossy, h.Normal := by
    intro h hh
    obtain rfl := List.mem_singleton.mp hh
    exact ⟨by decide +kernel, by decide +kernel, nofun⟩
  obtain ⟨text, hs', hencode, hdecode, hiff⟩ :=
    decode_encode_beq_iff (by decide +kernel) hnormal (by decide +kernel)
  refine ⟨text, hs', hencode, hdecode, Bool.eq_false_iff.mpr ?_⟩
  intro heq
  have hlost := hiff.mp heq _ (List.mem_singleton.mpr rfl) 1.9000000000000001 List.mem_cons_self
  exact absurd hlost (by decide +kernel)

/-- Where digits and powers of ten are doubles themselves, saving loses nothing. -/
theorem decode_encode_beq_of_exact {hs : List (Highlight Float)}
    (hfin : ∀ h ∈ hs, h.isFinite = true) (hn : ∀ h ∈ hs, h.Normal)
    (hrow : ∀ h ∈ hs, h.slot.row < Literal.wordLimit)
    (hexact : ∀ h ∈ hs, ∀ x ∈ h.numbers,
      (written x).word.1 < 2 ^ 53 ∧ (written x).word.2.natAbs ≤ 22) :
    ∃ text hs', encode hs = .ok text ∧ decode text = .ok hs' ∧ (hs' == hs) = true := by
  obtain ⟨text, hencode, hdecode⟩ := decode_encode hfin hrow
  refine ⟨text, hs.map Highlight.reread, hencode, hdecode, (map_reread_beq_iff hfin hn).mpr ?_⟩
  intro h hh x hx
  have hx' : x.isFinite = true := List.all_eq_true.mp (hfin h hh) x hx
  obtain ⟨hm, he⟩ := hexact h hh x hx
  exact reread_beq_of_exact hx' hm he

end HighlightList

end DragDrop
