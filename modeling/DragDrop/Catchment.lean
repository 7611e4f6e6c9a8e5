import DragDrop.Highlight

/-! Which pointers a highlight catches, and how far it is from one. A vertical
bar is measured from its LEFT edge, a horizontal one from its top edge; across
the run of the bar the pointer has to lie within its span. The two orientations
treat a tolerance of zero differently: to a vertical bar it counts as not
declared, to a horizontal one it is a reach of zero. -/

namespace DragDrop

variable {α : Type} [Scalar α]

/-- What the caller can tune. -/
structure Policy (α : Type) where
  /-- The reach of a side that was not declared, in pixels. -/
  range : α
  /-- What is left of a horizontal bar's reach downward under the bias. -/
  bottomScale : α
  /-- What is left of a horizontal bar's reach upward under the bias. -/
  topScale : α

namespace Policy

def standardRange : α := 10.0

def standardBottomScale : α := 0.2

def standardTopScale : α := 0.3

def standard : Policy α := ⟨standardRange, standardBottomScale, standardTopScale⟩

/-- The reach of a vertical bar to one side. Only a tolerance ABOVE zero takes
the place of the default. -/
def sideReach (c : Policy α) : Option α → α
  | some v => if 0 < v then v else c.range
  | none => c.range

/-- The reach of a horizontal bar upward or downward. Only what was declared is
scaled, and a declared zero stays zero. -/
def biasedReach (c : Policy α) (declared : Option α) (scale : α) (biased : Bool) : α :=
  match declared with
  | some v => if biased then Scalar.nonneg v * scale else Scalar.nonneg v
  | none => c.range

/-- Cutting tolerances off below zero does not change a reach, as long as zero
is not above zero. -/
theorem sideReach_map_nonneg (h₀ : ¬(0 : α) < 0) (c : Policy α) (s : Option α) :
    c.sideReach (s.map Scalar.nonneg) = c.sideReach s := by
  cases s with
  | none => rfl
  | some v =>
    by_cases h : 0 < v
    · simp [sideReach, Scalar.nonneg_of_pos h]
    · simp [sideReach, Scalar.nonneg_of_not_pos h, h, h₀]

@[simp] theorem biasedReach_map_nonneg (c : Policy α) (s : Option α) (scale : α) (biased : Bool) :
    c.biasedReach (s.map Scalar.nonneg) scale biased = c.biasedReach s scale biased := by
  cases s <;> simp [biasedReach]

/-- The reach downward of a horizontal bar with this zone. -/
def reachBelow (c : Policy α) (biased : Bool) (z : DropZone α) : α :=
  c.biasedReach z.bottom c.bottomScale biased

/-- The reach upward of a horizontal bar with this zone. -/
def reachAbove (c : Policy α) (biased : Bool) (z : DropZone α) : α :=
  c.biasedReach z.top c.topScale biased

end Policy

/-- How far a value lies outside a span, with a sign, or zero within it. -/
def overshoot (v lo hi : α) : α :=
  if v < lo then v - lo else if hi < v then v - hi else 0

namespace Highlight

/-- Whether the pointer lies in the catchment. The bias is on when some vertical
bar already catches the pointer, and only horizontal bars look at it. -/
def Catches (c : Policy α) (biased : Bool) (p : Point α) : Highlight α → Prop
  | vertical b =>
    let r := b.bounds
    (r.top ≤ p.y ∧ p.y ≤ r.bottom) ∧
      if r.left ≤ p.x then p.x ≤ r.left + c.sideReach b.zone.right
      else r.left - c.sideReach b.zone.left ≤ p.x
  | horizontal b =>
    let r := b.bounds
    (r.left ≤ p.x ∧ p.x ≤ r.right) ∧
      if r.top ≤ p.y then p.y ≤ r.top + c.reachBelow biased b.zone
      else r.top - c.reachAbove biased b.zone ≤ p.y

instance (c : Policy α) (biased : Bool) (p : Point α) :
    (h : Highlight α) → Decidable (h.Catches c biased p)
  | vertical b => by unfold Catches; infer_instance
  | horizontal b => by unfold Catches; infer_instance

/-- The rectangle around a bar's measuring edge that its reach spans. -/
def catchment (c : Policy α) (biased : Bool) : Highlight α → Rect α
  | vertical b =>
    { b.bounds with
      left := b.bounds.left - c.sideReach b.zone.left
      right := b.bounds.left + c.sideReach b.zone.right }
  | horizontal b =>
    { b.bounds with
      top := b.bounds.top - c.reachAbove biased b.zone
      bottom := b.bounds.top + c.reachBelow biased b.zone }

/-- The distance by which candidates are ranked: away from the measuring edge,
and past the ends of the span. -/
def distance (p : Point α) : Highlight α → α
  | vertical b =>
    let r := b.bounds
    Scalar.norm (p.x - r.left) (overshoot p.y r.top r.bottom)
  | horizontal b =>
    let r := b.bounds
    Scalar.norm (overshoot p.x r.left r.right) (p.y - r.top)

/-- The bias means nothing to a vertical bar. -/
theorem catches_vertical (c : Policy α) (biased biased' : Bool) (p : Point α) (b : Bar α) :
    (vertical b).Catches c biased p ↔ (vertical b).Catches c biased' p := Iff.rfl

end Highlight

end DragDrop
