import DragDrop.Layout

/-! Questions to a source of highlights, apart from any source. An inquiry puts one
question after the other and goes on from the answers. Nothing else of the source is in its
reach, so what was asked on the way to a result is ALL that the result can depend on. -/

namespace DragDrop

variable {α β γ : Type}

/-- A result that takes the answers of a source. -/
inductive Inquiry (α β : Type) where
  /-- There is nothing left to ask. -/
  | done (result : β)
  /-- Asks this, and goes on from the answer. -/
  | ask (query : Query α) (next : List (Highlight α) → Inquiry α β)

/-- A result, with the questions that led to it. -/
structure Answered (α β : Type) where
  result : β
  queries : List (Query α) := []

namespace Inquiry

/-- The same questions, and something made of the result. -/
def map (f : β → γ) : Inquiry α β → Inquiry α γ
  | done b => done (f b)
  | ask q next => ask q fun hs => (next hs).map f

/-- Puts each question to the source once, and writes it down. -/
def putTo (source : Source α) : Inquiry α β → Answered α β
  | done b => { result := b }
  | ask q next =>
    let later := (next (source q)).putTo source
    { later with queries := q :: later.queries }

theorem putTo_map (source : Source α) (f : β → γ) (i : Inquiry α β) :
    (i.map f).putTo source = { i.putTo source with result := f (i.putTo source).result } := by
  induction i with
  | done b => rfl
  | ask q next ih => simp only [map, putTo, ih]

/-- Sources that agree on what is asked cannot be told apart. -/
theorem putTo_congr {source source' : Source α} {i : Inquiry α β}
    (h : ∀ q ∈ (i.putTo source).queries, source' q = source q) :
    i.putTo source' = i.putTo source := by
  induction i with
  | done b => rfl
  | ask q next ih =>
    have hq : source' q = source q := h q List.mem_cons_self
    have hnext := ih (source q) fun q' hq' => h q' (List.mem_cons_of_mem q hq')
    simp only [putTo, hq, hnext]

end Inquiry

end DragDrop
