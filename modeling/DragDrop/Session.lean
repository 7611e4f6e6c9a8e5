import DragDrop.Inquiry
import DragDrop.Selection

/-! A drag over one canvas, from the moment the widgets are picked up to the
drop. Each event that carries a position asks a source for fresh highlights, so
NOTHING of an earlier list is kept but a copy of the current target. What to ask is
settled before the source is there to answer it. The first drop ends the session,
whatever it hits. -/

namespace DragDrop

variable {α : Type} [Scalar α]

/-- What the pointer does. -/
inductive Event (α : Type) where
  /-- It moves over the canvas. -/
  | hover (pointer : Point α)
  /-- It lets go over the canvas. -/
  | drop (pointer : Point α)
  /-- It leaves the canvas. -/
  | leave

/-- The position that the event carries. -/
def Event.position {α : Type} : Event α → Option (Point α)
  | hover p | drop p => some p
  | leave => none

/-- What there is to do after a drop: put these widgets there. -/
structure Drop (α : Type) where
  dragged : List DraggedWidget
  highlight : Highlight α

namespace Drop

def canvas {α : Type} (d : Drop α) : WidgetId := d.highlight.slot.canvas

def parent {α : Type} (d : Drop α) : Option LayoutId := d.highlight.slot.parent

def row {α : Type} (d : Drop α) : Nat := d.highlight.slot.row

end Drop

/-- What an event comes to. -/
inductive Update (α : Type) where
  /-- The target under the pointer, if there is one. -/
  | target (highlight : Option (Highlight α))
  /-- The drag ended on a target. -/
  | committed (drop : Drop α)
  /-- The pointer is gone, or the drag has ended without a target. -/
  | cancelled

/-- A drag in progress, or over. -/
structure Session (α : Type) where
  canvas : WidgetId
  dragged : List DraggedWidget
  policy : Policy α
  positions : Arrangement α := ∅
  /-- The target of the latest move, to be painted. -/
  current : Option (Highlight α) := none
  finished : Bool := false

/-- What an event leaves behind: the session after it, the update, and the remarks made. -/
structure Outcome (α : Type) where
  session : Session α
  update : Option (Update α) := none
  notes : List (Note α) := []

/-- What a step gives back, with the questions that were put to the source. -/
structure Reply (α : Type) extends Outcome α where
  queries : List (Query α) := []

/-- What is picked where the pointer is, with the remarks on it. -/
structure Pick (α : Type) where
  highlight : Option (Highlight α)
  notes : List (Note α)

/-- What can happen to a session. Each event brings the source that is in force. -/
inductive Step (α : Type) where
  | event (event : Event α) (source : Source α)
  | measure (positions : Arrangement α)

namespace Session

def isActive {α : Type} (s : Session α) : Bool := !s.finished

/-- A drag that has just begun. -/
def start (canvas : WidgetId) (dragged : List DraggedWidget) (policy : Policy α := .standard) :
    Session α := { canvas, dragged, policy }

/-- Replaces the measured places for the events to come. -/
def measure {α : Type} (s : Session α) (positions : Arrangement α) : Session α :=
  { s with positions }

/-- What this session asks its source. -/
def query {α : Type} (s : Session α) : Query α := ⟨s.canvas, s.positions, s.dragged⟩

/-- Looks for the highlight nearest to the pointer, as things are now. -/
def pick (s : Session α) (p : Point α) : Inquiry α (Pick α) :=
  .ask s.query fun hs => .done
    { highlight := (Selection.pick s.policy p hs).map Prod.fst
      notes := Selection.notes s.policy p hs }

/-- The pointer has moved over this. -/
def hovered [BEq α] (s : Session α) (picked : Pick α) : Outcome α where
  session := { s with current := picked.highlight }
  update := some (.target picked.highlight)
  notes := picked.notes ++ if picked.highlight == s.current then []
    else [.target s.canvas (picked.highlight.map (·.slot.row))]

/-- The pointer has let go over this. -/
def dropped {α : Type} (s : Session α) (picked : Pick α) : Outcome α :=
  match picked.highlight with
  | some h =>
    { session := { s with finished := true, current := none, dragged := [] }
      update := some (.committed ⟨s.dragged, h⟩)
      notes := picked.notes ++ [.dropping s.dragged.length s.canvas h.slot.row] }
  | none =>
    { session := { s with finished := true, current := none }
      update := some .cancelled
      notes := picked.notes ++ [.nothing s.canvas] }

variable [BEq α]

/-- What an event comes to, and what has to be asked for that. After the drop nothing is
asked and nothing changes. -/
def respond (s : Session α) (e : Event α) : Inquiry α (Outcome α) :=
  if s.finished then .done { session := s, update := some .cancelled }
  else match e with
    | .hover p => (s.pick p).map s.hovered
    | .drop p => (s.pick p).map s.dropped
    | .leave => .done { session := { s with current := none }, update := some .cancelled }

/-- Takes one event, and puts to the source what there is to ask. -/
def handle (s : Session α) (source : Source α) (e : Event α) : Reply α :=
  let answered := (s.respond e).putTo source
  { toOutcome := answered.result, queries := answered.queries }

/-- Takes one step. -/
def step (s : Session α) : Step α → Reply α
  | .event e source => s.handle source e
  | .measure positions => { session := s.measure positions }

/-- Takes the steps in order, and keeps every reply. -/
def run (s : Session α) : List (Step α) → List (Reply α)
  | [] => []
  | a :: rest => s.step a :: (s.step a).session.run rest

/-- The session after the steps. -/
def after (s : Session α) (steps : List (Step α)) : Session α :=
  steps.foldl (fun s a => (s.step a).session) s

@[simp] theorem length_run (s : Session α) (steps : List (Step α)) :
    (s.run steps).length = steps.length := by
  induction steps generalizing s with
  | nil => rfl
  | cons a rest ih => simp [run, ih]

section

variable {s : Session α} {e : Event α}

theorem respond_of_finished (h : s.finished = true) (e : Event α) :
    s.respond e = .done { session := s, update := some .cancelled } := if_pos h

theorem respond_hover (h : s.finished = false) (p : Point α) :
    s.respond (.hover p) = (s.pick p).map s.hovered := by
  rw [respond, h]
  rfl

theorem respond_drop (h : s.finished = false) (p : Point α) :
    s.respond (.drop p) = (s.pick p).map s.dropped := by
  rw [respond, h]
  rfl

theorem respond_leave (h : s.finished = false) :
    s.respond .leave =
      .done { session := { s with current := none }, update := some .cancelled } := by
  rw [respond, h]
  rfl

/-- Where nothing is asked, any source will do. -/
theorem handle_of_done {o : Outcome α} (h : s.respond e = .done o) (source : Source α) :
    s.handle source e = { toOutcome := o } := by
  rw [handle, h]
  rfl

theorem handle_of_finished (h : s.finished = true) (source : Source α) (e : Event α) :
    s.handle source e = { session := s, update := some .cancelled } :=
  handle_of_done (respond_of_finished h e) source

end

theorem run_append (s : Session α) (l r : List (Step α)) :
    s.run (l ++ r) = s.run l ++ (s.after l).run r := by
  induction l generalizing s with
  | nil => rfl
  | cons a l ih => simpa [run, after] using ih _

end Session

end DragDrop
