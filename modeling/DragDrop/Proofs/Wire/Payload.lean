import DragDrop.Proofs.Wire.Slot
import DragDrop.Wire.Highlight

/-! The slot that a record holds. A record has the members of a slot among its own, so a
reader of slots gets the SAME slot out of the whole record, and passes over the geometry
whatever it is: a number that has no writing is no obstacle to it. -/

namespace DragDrop

open Json

namespace Slot

variable {s : Slot} {r : Record}

theorem fills_members (hrow : s.row < Literal.wordLimit) :
    shape.Fills shape.blank s.members ⟨some s.alignment, some s.canvas, some s.path, some s.row⟩ :=
  .cons (Shape.act_field rfl rfl s.alignment.as_toJson) <|
    .cons (Shape.act_field rfl rfl s.canvas.as_toJson) <|
    .cons (Shape.act_field rfl rfl (LayoutId.as_path s.path)) <|
    .cons (Shape.act_field rfl rfl (Value.as_natural hrow)) <| .nil _

theorem uniform_shape : ∀ f ∈ shape.fields, f.Uniform := by
  intro f hf
  simp only [shape, List.mem_cons, List.not_mem_nil, or_false] at hf
  rcases hf with rfl | rfl | rfl | rfl
  · exact Field.uniform_of (means_choice _)
  · exact Field.uniform_of (means_text.map _)
  · exact Field.uniform_of (means_list (means_text.map _))
  · exact Field.uniform_of means_natural

theorem means_fromJson : Means fromJson shape.tree? := Shape.means_read uniform_shape

theorem as_toJson (hrow : s.row < Literal.wordLimit) : s.toJson.tree.as fromJson = some s :=
  Shape.as_object uniform_shape (fills_members hrow) rfl

/-- The geometry of a record comes first, and the draft of the slot is still blank after it. -/
theorem as_record (hrow : r.slot.row < Literal.wordLimit) :
    r.toJson.tree.as fromJson = some r.slot := by
  refine Shape.as_object uniform_shape
    (Shape.Fills.append (Shape.fills_unknown ?geometry _) (fills_members hrow)) rfl
  intro m hm
  simp only [List.mem_cons, List.not_mem_nil, or_false] at hm
  rcases hm with rfl | rfl | rfl | rfl | rfl | rfl <;> rfl

/-- Whoever wants a slot gets this one, out of every text of the value. -/
structure ToldBy (s : Slot) (v : Value) : Prop where
  compact : decode fromJson v.compact = .ok s
  indented : decode fromJson v.indented = .ok s
  spelled : ∀ text, v.SpelledBy text → decode fromJson text = .ok s

theorem toldBy_of_as {v : Value} (h : v.tree.as fromJson = some s) : s.ToldBy v where
  compact := means_fromJson.decode_spelledBy h v.spelledBy_compact
  indented := means_fromJson.decode_spelledBy h v.spelledBy_indented
  spelled _ ht := means_fromJson.decode_spelledBy h ht

/-- A slot is read out of its own JSON, and out of that of every highlight that has it. -/
theorem payloads_agree :
    (∀ h : Highlight Float, h.slot.row < Literal.wordLimit → h.slot.ToldBy h.toJson) ∧
      ∀ s : Slot, s.row < Literal.wordLimit → s.ToldBy s.toJson :=
  ⟨fun h hrow => toldBy_of_as (as_record (r := h.toRecord) hrow),
    fun _ hrow => toldBy_of_as (as_toJson hrow)⟩

/-- A bar at no number, in the last of all rows, with names that have to be escaped. -/
def adrift : Highlight Float := .vertical {
  x := 0 / 0
  y := 1 / 0
  width := 4
  height := 30
  zone := { left := some (0 / 0) }
  slot := {
    alignment := .finish
    canvas := ⟨"\"\\"⟩
    path := [⟨"é\t"⟩, ⟨""⟩]
    row := 18446744073709551615 } }

def adriftText : String :=
  "\x7b\"isVertical\":true,\"posX\":null,\"posY\":null,\"width\":4.0,\"height\":30.0," ++
    "\"dropZone\":\x7b\"left\":null\x7d,\"alignment\":\"end\",\"canvasId\":\"\\\"\\\\\"," ++
    "\"layoutOrder\":[\"é\\t\",\"\"],\"rowIndex\":18446744073709551615\x7d"

theorem payloads_agree_adrift :
    decode fromJson adriftText = .ok adrift.slot ∧ adrift.slot.ToldBy adrift.slot.toJson := by
  have hrow : adrift.slot.row < Literal.wordLimit := by decide +kernel
  have htext : adriftText = adrift.toJson.compact := by decide +kernel
  obtain ⟨hrecord, hslot⟩ := payloads_agree
  refine ⟨?_, hslot adrift.slot hrow⟩
  rw [htext]
  exact (hrecord adrift hrow).compact

end Slot

end DragDrop
