/-! Names of the things on a page. Two names are the same exactly when their
texts are; the KIND of a name is kept apart by its type. -/

namespace DragDrop

/-- Names a widget. A canvas is a widget. -/
structure WidgetId where
  text : String
deriving DecidableEq, Repr, Inhabited

/-- Names a layout component: a row or a column. -/
structure LayoutId where
  text : String
deriving DecidableEq, Repr, Inhabited

instance : ToString WidgetId := ⟨WidgetId.text⟩

instance : ToString LayoutId := ⟨LayoutId.text⟩

/-- The name together with its kind. The text is shown as it is. -/
def WidgetId.described (w : WidgetId) : String := "WidgetId(" ++ w.text ++ ")"

@[inherit_doc WidgetId.described]
def LayoutId.described (l : LayoutId) : String := "LayoutId(" ++ l.text ++ ")"

/-- The canvas that every page starts with. -/
def mainCanvas : WidgetId := ⟨"0"⟩

end DragDrop
