import DragDrop.Catchment
import DragDrop.Journal

/-! From a pointer and a list of highlights to the one that the drop would go
to. First the highlights that do not catch the pointer are left out; vertical
bars are asked first, and if one answers, the horizontal ones are asked under
the bias. Then the nearest of the rest is taken, the EARLIER of equals.

Each highlight is paired with a tag that the selection never looks at, such as
its place in a list, so that two equal highlights remain two. -/

namespace DragDrop

variable {α : Type} [Scalar α] {κ β : Type}

/-- Ascending distance. What is no number comes after every number. -/
def byDistance (a b : α) : Ordering :=
  if a < b then .lt
  else if b < a then .gt
  else compare (Scalar.isNaN a) (Scalar.isNaN b)

/-- The first of the least elements. -/
def firstLeast (cmp : β → β → Ordering) : List β → Option β
  | [] => none
  | b :: l => some (l.foldl (fun least b => if cmp least b = .gt then b else least) b)

theorem firstLeast_eq_none_iff {cmp : β → β → Ordering} {l : List β} :
    firstLeast cmp l = none ↔ l = [] := by
  cases l <;> simp [firstLeast]

theorem mem_of_firstLeast {cmp : β → β → Ordering} {l : List β} {b : β}
    (h : firstLeast cmp l = some b) : b ∈ l := by
  cases l with
  | nil => simp [firstLeast] at h
  | cons a l =>
    simp only [firstLeast, Option.some.injEq] at h
    subst h
    induction l generalizing a with
    | nil => simp
    | cons b l ih =>
      rw [List.foldl_cons]
      split
      · exact List.mem_cons_of_mem a (ih b)
      · rcases List.mem_cons.mp (ih a) with h | h
        · rw [h]; exact List.mem_cons_self
        · exact List.mem_cons_of_mem a (List.mem_cons_of_mem b h)

namespace Selection

/-- The vertical bars that catch the pointer. -/
def verticals (c : Policy α) (p : Point α) (l : List (Highlight α × κ)) :
    List (Highlight α × κ) :=
  l.filter fun h => h.1.isVertical ∧ h.1.Catches c false p

/-- The horizontal bars that catch the pointer. -/
def horizontals (c : Policy α) (p : Point α) (biased : Bool) (l : List (Highlight α × κ)) :
    List (Highlight α × κ) :=
  l.filter fun h => ¬h.1.isVertical ∧ h.1.Catches c biased p

/-- The bias is on when a vertical bar catches the pointer. -/
def biased (c : Policy α) (p : Point α) (l : List (Highlight α × κ)) : Bool :=
  !(verticals c p l).isEmpty

/-- The highlights that catch the pointer: vertical bars, then horizontal ones,
each in the order of the list. -/
def viable (c : Policy α) (p : Point α) (l : List (Highlight α × κ)) : List (Highlight α × κ) :=
  verticals c p l ++ horizontals c p (biased c p l) l

/-- The viable highlight nearest to the pointer. -/
def closest (c : Policy α) (p : Point α) (l : List (Highlight α × κ)) :
    Option (Highlight α × κ) :=
  firstLeast (fun a b => byDistance (a.1.distance p) (b.1.distance p)) (viable c p l)

/-- The nearest viable highlight of a list, and its place there. -/
def pick (c : Policy α) (p : Point α) (hs : List (Highlight α)) : Option (Highlight α × Nat) :=
  closest c p hs.zipIdx

/-- What a selection remarks on. An empty list is passed over in silence. -/
def notes (c : Policy α) (p : Point α) (hs : List (Highlight α)) : List (Note α) :=
  if hs.isEmpty then []
  else
    .viable (viable c p hs.zipIdx).length hs.length p (biased c p hs.zipIdx) ::
      ((pick c p hs).map fun h => Note.closest h.1.slot.row h.1.slot.parent (h.1.distance p)).toList

theorem mem_verticals {c : Policy α} {p : Point α} {l : List (Highlight α × κ)}
    {h : Highlight α × κ} :
    h ∈ verticals c p l ↔ h ∈ l ∧ h.1.isVertical ∧ h.1.Catches c false p := by
  simp [verticals]

theorem mem_horizontals {c : Policy α} {p : Point α} {b : Bool} {l : List (Highlight α × κ)}
    {h : Highlight α × κ} :
    h ∈ horizontals c p b l ↔ h ∈ l ∧ ¬h.1.isVertical ∧ h.1.Catches c b p := by
  simp [horizontals]

theorem viable_subset (c : Policy α) (p : Point α) (l : List (Highlight α × κ)) :
    viable c p l ⊆ l := by
  intro h hm
  rcases List.mem_append.mp hm with hv | hh
  · exact (mem_verticals.mp hv).1
  · exact (mem_horizontals.mp hh).1

theorem mem_of_pick {c : Policy α} {p : Point α} {hs : List (Highlight α)}
    {h : Highlight α × Nat} (hp : pick c p hs = some h) : hs[h.2]? = some h.1 :=
  List.mem_zipIdx_iff_getElem?.mp (viable_subset c p _ (mem_of_firstLeast hp))

end Selection

end DragDrop
