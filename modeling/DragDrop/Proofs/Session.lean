import DragDrop.Session

/-! What becomes of a drag over a whole run of events and measurements. `Answers`
says once what a step can do; all that a run preserves follows from it by induction
on the steps. The first drop ends the session for good, at most one drop is
committed, and the dragged widgets leave the session with it and with nothing else.
Before that drop, a session differs from a fresh one in its measured places and its
painted target ONLY, so no drop depends on what came before it. Of the source, a reply
takes the answer to one question, and no reply asks a second one. -/

namespace DragDrop

variable {α : Type}

namespace Step

/-- Whether the pointer lets go in this step. -/
def isDrop : Step α → Bool
  | event (.drop _) _ => true
  | _ => false

/-- Whether the pointer is somewhere in this step, so that highlights are wanted. -/
def isPointed : Step α → Bool
  | event e _ => e.position.isSome
  | measure _ => false

/-- The places that the step brings in. -/
def measured? : Step α → Option (Arrangement α)
  | measure positions => some positions
  | event .. => none

/-- The places that were measured last. A drag begins with none. -/
def latest (steps : List (Step α)) : Arrangement α :=
  (steps.filterMap measured?).getLast?.getD ∅

end Step

/-- The drop that was committed by the step, if there was one. -/
def Reply.drop? (r : Reply α) : Option (Drop α) :=
  match r.update with
  | some (.committed d) => some d
  | _ => none

namespace Session

variable [Scalar α]

/-- The highlight nearest to the pointer, of those that the source has for the session. -/
def picked (s : Session α) (source : Source α) (p : Point α) : Option (Highlight α) :=
  (Selection.pick s.policy p (source s.query)).map Prod.fst

/-- What was found by asking the source once. -/
def found (s : Session α) (source : Source α) (p : Point α) : Pick α where
  highlight := s.picked source p
  notes := Selection.notes s.policy p (source s.query)

theorem putTo_pick (s : Session α) (source : Source α) (p : Point α) :
    (s.pick p).putTo source = { result := s.found source p, queries := [s.query] } := rfl

/-- All that a step can come to. Only the remarks are left open. -/
inductive Answers (s : Session α) : Step α → Reply α → Prop where
  | measures (positions : Arrangement α) :
    Answers s (.measure positions) { session := s.measure positions }
  | ignores (e : Event α) (source : Source α) (ended : s.finished = true) :
    Answers s (.event e source) { session := s, update := some .cancelled }
  | hovers (p : Point α) (source : Source α) (notes : List (Note α))
    (running : s.finished = false) :
    Answers s (.event (.hover p) source)
      { session := { s with current := s.picked source p }
        update := some (.target (s.picked source p))
        queries := [s.query], notes }
  | commits (p : Point α) (source : Source α) (notes : List (Note α)) (h : Highlight α)
    (running : s.finished = false) (hits : s.picked source p = some h) :
    Answers s (.event (.drop p) source)
      { session := { s with finished := true, current := none, dragged := [] }
        update := some (.committed ⟨s.dragged, h⟩)
        queries := [s.query], notes }
  | misses (p : Point α) (source : Source α) (notes : List (Note α))
    (running : s.finished = false) (hits : s.picked source p = none) :
    Answers s (.event (.drop p) source)
      { session := { s with finished := true, current := none }
        update := some .cancelled
        queries := [s.query], notes }
  | leaves (source : Source α) (running : s.finished = false) :
    Answers s (.event .leave source)
      { session := { s with current := none }, update := some .cancelled }

namespace Answers

variable {s : Session α} {a : Step α} {r : Reply α}

theorem canvas_eq (h : Answers s a r) : r.session.canvas = s.canvas := by
  cases h <;> rfl

theorem policy_eq (h : Answers s a r) : r.session.policy = s.policy := by
  cases h <;> rfl

/-- Only a measurement moves the places. -/
theorem positions_eq (h : Answers s a r) :
    r.session.positions = a.measured?.getD s.positions := by
  cases h <;> rfl

/-- A drop ends the session, whatever it hits. -/
theorem finished_eq (h : Answers s a r) : r.session.finished = (s.finished || a.isDrop) := by
  cases h with
  | measures => exact (Bool.or_false _).symm
  | ignores e source ended => simp [ended]
  | hovers | leaves => exact (Bool.or_false _).symm
  | commits | misses => exact (Bool.or_true _).symm

/-- No step leaves a target painted in a session that is over. -/
theorem current_eq_none (h : Answers s a r) (hs : s.finished = true → s.current = none)
    (hr : r.session.finished = true) : r.session.current = none := by
  cases h with
  | measures => exact hs hr
  | ignores e source ended => exact hs ended
  | hovers p source notes running => exact absurd hr (by simp [running])
  | commits | misses | leaves => rfl

/-- The widgets go with the drop that is committed, and else they stay. -/
theorem dragged_eq (h : Answers s a r) :
    r.session.dragged = if r.drop?.isSome then [] else s.dragged := by
  cases h <;> rfl

theorem dragged_of_drop? (h : Answers s a r) {d : Drop α} (hd : r.drop? = some d) :
    d.dragged = s.dragged := by
  cases h <;> cases hd
  rfl

theorem finished_of_drop? (h : Answers s a r) {d : Drop α} (hd : r.drop? = some d) :
    r.session.finished = true := by
  cases h <;> cases hd
  rfl

/-- It takes a session that runs, and the pointer to let go, to commit anything. -/
theorem drop?_eq_none (h : Answers s a r) (ha : s.finished = true ∨ a.isDrop = false) :
    r.drop? = none := by
  cases h with
  | commits p source notes h running => simp [running, Step.isDrop] at ha
  | _ => rfl

/-- The source is asked once where there is a pointer, and else not at all. -/
theorem queries_eq (h : Answers s a r) :
    r.queries = if s.isActive && a.isPointed then [s.query] else [] := by
  cases h with
  | measures => simp [Step.isPointed]
  | ignores e source ended => simp [isActive, ended]
  | hovers p source notes running => simp [isActive, Step.isPointed, Event.position, running]
  | commits p source notes h running => simp [isActive, Step.isPointed, Event.position, running]
  | misses p source notes running => simp [isActive, Step.isPointed, Event.position, running]
  | leaves => simp [Step.isPointed, Event.position]

end Answers

variable [BEq α]

section

variable {s : Session α} {e : Event α} {p : Point α}

/-- What is answered by picking a highlight is answered by ONE question. -/
theorem handle_of_pick {f : Pick α → Outcome α} (h : s.respond e = (s.pick p).map f)
    (source : Source α) :
    s.handle source e = { toOutcome := f (s.found source p), queries := [s.query] } := by
  rw [handle, h, Inquiry.putTo_map, putTo_pick]

theorem handle_hover (running : s.finished = false) (source : Source α) (p : Point α) :
    s.handle source (.hover p) =
      { toOutcome := s.hovered (s.found source p), queries := [s.query] } :=
  handle_of_pick (respond_hover running p) source

theorem handle_drop (running : s.finished = false) (source : Source α) (p : Point α) :
    s.handle source (.drop p) =
      { toOutcome := s.dropped (s.found source p), queries := [s.query] } :=
  handle_of_pick (respond_drop running p) source

theorem handle_leave (running : s.finished = false) (source : Source α) :
    s.handle source .leave =
      { session := { s with current := none }, update := some .cancelled } :=
  handle_of_done (respond_leave running) source

/-- Wherever there is a position, a highlight is picked there. -/
theorem exists_respond_eq_pick (running : s.finished = false) (he : e.position = some p) :
    ∃ f, s.respond e = (s.pick p).map f := by
  cases e with
  | hover p' =>
    obtain rfl := Option.some.inj he
    exact ⟨_, respond_hover running p'⟩
  | drop p' =>
    obtain rfl := Option.some.inj he
    exact ⟨_, respond_drop running p'⟩
  | leave => cases he

/-- Without a position, or after the drop, there is nothing to ask. -/
theorem exists_respond_eq_done (h : s.finished = true ∨ e.position = none) :
    ∃ o, s.respond e = .done o := by
  cases ended : s.finished with
  | true => exact ⟨_, respond_of_finished ended e⟩
  | false =>
    cases e with
    | hover p | drop p => simp [ended, Event.position] at h
    | leave => exact ⟨_, respond_leave ended⟩

end

theorem answers_step (s : Session α) (a : Step α) : Answers s a (s.step a) := by
  cases a with
  | measure positions => exact .measures positions
  | event e source =>
    rw [step]
    cases running : s.finished with
    | true =>
      rw [handle_of_finished running]
      exact .ignores e source running
    | false =>
      cases e with
      | hover p =>
        rw [handle_hover running]
        exact .hovers p source _ running
      | drop p =>
        rw [handle_drop running]
        cases hits : s.picked source p with
        | none =>
          simp only [dropped, found, hits]
          exact .misses p source _ running hits
        | some h =>
          simp only [dropped, found, hits]
          exact .commits p source _ h running hits
      | leave =>
        rw [handle_leave running]
        exact .leaves source running

@[simp] theorem after_nil (s : Session α) : s.after [] = s := rfl

@[simp] theorem after_cons (s : Session α) (a : Step α) (steps : List (Step α)) :
    s.after (a :: steps) = (s.step a).session.after steps := rfl

/-- The drops that are committed in a run. -/
def drops (s : Session α) (steps : List (Step α)) : List (Drop α) :=
  (s.run steps).filterMap Reply.drop?

theorem drops_append (s : Session α) (l r : List (Step α)) :
    s.drops (l ++ r) = s.drops l ++ (s.after l).drops r := by
  rw [drops, run_append, List.filterMap_append]
  rfl

theorem drops_cons (s : Session α) (a : Step α) (steps : List (Step α)) :
    s.drops (a :: steps) = (s.step a).drop?.toList ++ (s.step a).session.drops steps := by
  rw [drops, run, List.filterMap_cons]
  cases (s.step a).drop? <;> rfl

/-! ## Whole runs -/

variable (s : Session α) (steps : List (Step α))

theorem canvas_after : (s.after steps).canvas = s.canvas := by
  induction steps generalizing s with
  | nil => rfl
  | cons a steps ih => rw [after_cons, ih, (s.answers_step a).canvas_eq]

theorem policy_after : (s.after steps).policy = s.policy := by
  induction steps generalizing s with
  | nil => rfl
  | cons a steps ih => rw [after_cons, ih, (s.answers_step a).policy_eq]

theorem positions_after :
    (s.after steps).positions = (steps.filterMap Step.measured?).getLast?.getD s.positions := by
  induction steps generalizing s with
  | nil => rfl
  | cons a steps ih =>
    rw [after_cons, ih, (s.answers_step a).positions_eq, List.filterMap_cons]
    cases a.measured? with
    | none => rfl
    | some positions => simp [List.getLast?_cons]

theorem finished_after : (s.after steps).finished = (s.finished || steps.any Step.isDrop) := by
  induction steps generalizing s with
  | nil => exact (Bool.or_false _).symm
  | cons a steps ih =>
    rw [after_cons, ih, (s.answers_step a).finished_eq, List.any_cons, Bool.or_assoc]

theorem current_after (hs : s.finished = true → s.current = none)
    (hf : (s.after steps).finished = true) : (s.after steps).current = none := by
  induction steps generalizing s with
  | nil => exact hs hf
  | cons a steps ih => exact ih _ ((s.answers_step a).current_eq_none hs) hf

theorem drops_cons_of_none {a : Step α} (hd : (s.step a).drop? = none) :
    s.drops (a :: steps) = (s.step a).session.drops steps := by
  rw [drops_cons, hd]
  rfl

/-- Nothing is committed once the session is over. -/
theorem drops_of_finished (hs : s.finished = true) : s.drops steps = [] := by
  induction steps generalizing s with
  | nil => rfl
  | cons a steps ih =>
    have h := s.answers_step a
    rw [drops_cons_of_none s steps (h.drop?_eq_none (.inl hs))]
    exact ih _ (by rw [h.finished_eq, hs, Bool.true_or])

/-- A step that commits a drop is the last one that does. -/
theorem drops_cons_of_drop? {a : Step α} {d : Drop α} (hd : (s.step a).drop? = some d) :
    s.drops (a :: steps) = [d] := by
  have hended := (s.answers_step a).finished_of_drop? hd
  rw [drops_cons, hd, drops_of_finished _ _ hended]
  rfl

theorem length_drops_le_one : (s.drops steps).length ≤ 1 := by
  induction steps generalizing s with
  | nil => exact Nat.zero_le 1
  | cons a steps ih =>
    cases hd : (s.step a).drop? with
    | none =>
      rw [drops_cons_of_none s steps hd]
      exact ih _
    | some d =>
      rw [drops_cons_of_drop? s steps hd]
      exact Nat.le_refl 1

/-- What is committed is what was being dragged from the start. -/
theorem dragged_of_mem_drops {d : Drop α} (hd : d ∈ s.drops steps) : d.dragged = s.dragged := by
  induction steps generalizing s with
  | nil => cases hd
  | cons a steps ih =>
    have h := s.answers_step a
    cases hc : (s.step a).drop? with
    | none =>
      rw [drops_cons_of_none s steps hc] at hd
      rw [ih _ hd, h.dragged_eq, hc]
      rfl
    | some d' =>
      rw [drops_cons_of_drop? s steps hc, List.mem_singleton] at hd
      rw [hd, h.dragged_of_drop? hc]

/-- The widgets stay in the session until a drop takes them all. -/
theorem dragged_after :
    (s.after steps).dragged = if s.drops steps = [] then s.dragged else [] := by
  induction steps generalizing s with
  | nil => rfl
  | cons a steps ih =>
    have h := s.answers_step a
    rw [after_cons, ih, h.dragged_eq]
    cases hc : (s.step a).drop? with
    | none => rw [drops_cons_of_none s steps hc]; rfl
    | some d => rw [drops_cons_of_drop? s steps hc]; simp

variable {s steps}

/-- Without a drop in it, a run commits nothing. -/
theorem drops_of_no_drop (h : ∀ a ∈ steps, a.isDrop = false) : s.drops steps = [] := by
  induction steps generalizing s with
  | nil => rfl
  | cons a steps ih =>
    obtain ⟨ha, hsteps⟩ := List.forall_mem_cons.mp h
    rw [drops_cons_of_none s steps ((s.answers_step a).drop?_eq_none (.inr ha))]
    exact ih hsteps

/-- Without a drop in it, a run changes nothing but the places and the target. -/
theorem after_of_no_drop (running : s.finished = false) (h : ∀ a ∈ steps, a.isDrop = false) :
    s.after steps =
      { s with positions := (s.after steps).positions, current := (s.after steps).current } := by
  have hcanvas := canvas_after s steps
  have hpolicy := policy_after s steps
  have hdragged : (s.after steps).dragged = s.dragged := by
    rw [dragged_after, if_pos (drops_of_no_drop h)]
  have hfinished : (s.after steps).finished = s.finished := by
    rw [finished_after, List.any_eq_false.mpr (by simpa using h), Bool.or_false]
  cases hs : s.after steps
  simp_all

/-- After a drop that hits nothing, nothing is committed any more. -/
theorem drops_of_miss {source : Source α} {p : Point α} {later : List (Step α)}
    (hmiss : (s.handle source (.drop p)).update = some .cancelled) :
    s.drops (.event (.drop p) source :: later) = [] := by
  have hdrop : (s.step (.event (.drop p) source)).drop? = none := by
    simp only [Reply.drop?, step, hmiss]
  have hended := (s.answers_step (.event (.drop p) source)).finished_eq
  rw [drops_cons_of_none _ _ hdrop, drops_of_finished _ _ (by rw [hended]; exact Bool.or_true _)]

theorem no_drop_of_running (running : (s.after steps).finished = false) :
    ∀ a ∈ steps, a.isDrop = false := by
  rw [finished_after, Bool.or_eq_false_iff, List.any_eq_false] at running
  intro a ha
  exact Bool.eq_false_iff.mpr (running.2 a ha)

/-- As long as a session runs, it asks for all that it was started with. -/
theorem query_after (running : (s.after steps).finished = false) :
    (s.after steps).query =
      { canvas := s.canvas
        positions := (steps.filterMap Step.measured?).getLast?.getD s.positions
        dragged := s.dragged } := by
  rw [query, canvas_after, positions_after, dragged_after,
    if_pos (drops_of_no_drop (no_drop_of_running running))]

/-- A reply depends on the source ONLY through its answers to what it was asked. -/
theorem handle_congr {source source' : Source α} {e : Event α}
    (h : ∀ q ∈ (s.handle source e).queries, source' q = source q) :
    s.handle source' e = s.handle source e := by
  rw [handle, handle, Inquiry.putTo_congr h]

/-- The target that was painted means nothing to a drop. -/
theorem handle_drop_current (running : s.finished = false) (source : Source α) (p : Point α)
    (current : Option (Highlight α)) :
    { s with current }.handle source (.drop p) = s.handle source (.drop p) := by
  have running' : { s with current }.finished = false := running
  rw [handle_drop running, handle_drop running']
  rfl

theorem update_hover (running : s.finished = false) (source : Source α) (p : Point α) :
    (s.handle source (.hover p)).update = some (.target (s.picked source p)) := by
  rw [handle_hover running]
  rfl

theorem update_drop (running : s.finished = false) (source : Source α) (p : Point α) :
    (s.handle source (.drop p)).update =
      some ((s.picked source p).elim .cancelled fun h => .committed ⟨s.dragged, h⟩) := by
  rw [handle_drop running]
  simp only [dropped, found]
  cases s.picked source p <;> rfl

/-- In a drag that goes on, what is picked is picked for all that it was started with, and
for the places measured last. -/
theorem picked_after (running : (s.after steps).finished = false) (source : Source α)
    (p : Point α) :
    (s.after steps).picked source p =
      (Selection.pick s.policy p (source
        { canvas := s.canvas
          positions := (steps.filterMap Step.measured?).getLast?.getD s.positions
          dragged := s.dragged })).map Prod.fst := by
  rw [picked, policy_after, query_after running]

/-! ## The life of a drag -/

/-- A drag lasts until the first drop, and not a step longer. -/
structure LifeCycle (s : Session α) (steps : List (Step α)) : Prop where
  /-- At most one drop is committed in the whole run. -/
  length_drops_le : (s.drops steps).length ≤ 1
  /-- A drop ends the session, whatever it hits, and nothing else does. -/
  ended_iff : (s.after steps).isActive = false ↔ ∃ a ∈ steps, a.isDrop = true
  /-- Nothing is painted once the session is over. -/
  unpainted : (s.after steps).isActive = false → (s.after steps).current = none
  /-- From then on every event is refused, with no change and NO question. -/
  refuses : (s.after steps).isActive = false → ∀ source e, (s.after steps).handle source e =
    { session := s.after steps, update := some .cancelled, queries := [], notes := [] }
  /-- While it lasts, the source is asked once for each position, and else never. -/
  asks : ∀ a, ((s.after steps).step a).queries =
    if (s.after steps).isActive && a.isPointed then [(s.after steps).query] else []
  /-- All that counts of the source is what it answers to that. -/
  heeds : ∀ e (source source' : Source α),
    (∀ q ∈ ((s.after steps).handle source e).queries, source' q = source q) →
      (s.after steps).handle source' e = (s.after steps).handle source e
  /-- A position takes one question, and the reply comes out of the answer to it. -/
  once : (s.after steps).isActive = true → ∀ e, e.position.isSome = true →
    ∃ outcome : List (Highlight α) → Outcome α,
      (s.after steps).respond e = .ask (s.after steps).query (fun hs => .done (outcome hs)) ∧
      ∀ source, (s.after steps).handle source e =
        { toOutcome := outcome (source (s.after steps).query)
          queries := [(s.after steps).query] }
  /-- Without a position, or after the drop, the reply is there before anyone is asked. -/
  unasked : ∀ e, (s.after steps).isActive = false ∨ e.position = none →
    ∃ outcome, (s.after steps).respond e = .done outcome ∧
      ∀ source, (s.after steps).handle source e = { toOutcome := outcome, queries := [] }

variable (canvas : WidgetId) (dragged : List DraggedWidget) (policy : Policy α)
  (steps : List (Step α))

theorem lifeCycle_start : LifeCycle (start canvas dragged policy) steps where
  length_drops_le := length_drops_le_one _ steps
  ended_iff := by
    rw [isActive, finished_after, Bool.not_eq_false', ← List.any_eq_true]
    rfl
  unpainted ended := current_after _ steps (fun _ => rfl) ((Bool.not_eq_false' ..).mp ended)
  refuses ended := handle_of_finished ((Bool.not_eq_false' ..).mp ended)
  asks a := (answers_step _ a).queries_eq
  heeds _ _ _ := handle_congr
  once active e he := by
    obtain ⟨p, hp⟩ := Option.isSome_iff_exists.mp he
    obtain ⟨f, h⟩ := exists_respond_eq_pick ((Bool.not_eq_true' _).mp active) hp
    exact ⟨fun hs => f _, h, handle_of_pick h⟩
  unasked e he := by
    obtain ⟨o, h⟩ := exists_respond_eq_done (he.imp_left (Bool.not_eq_false' ..).mp)
    exact ⟨o, h, handle_of_done h⟩

/-- The dragged widgets are neither lost nor doubled. The session holds all of them
until a drop is committed, which takes them ALL, in their order; a drop that hits
nothing leaves them there for good. Whoever is asked for highlights is told of all of
them, of the canvas, and of the places measured last, and what is painted or committed is
picked out of the answer to THAT. -/
theorem dragged_conserved :
    ((start canvas dragged policy).after steps).dragged =
        (if (start canvas dragged policy).drops steps = [] then dragged else []) ∧
      (∀ d ∈ (start canvas dragged policy).drops steps, d.dragged = dragged) ∧
      (∀ source p later, (start canvas dragged policy).drops steps = [] →
        (((start canvas dragged policy).after steps).handle source (.drop p)).update =
            some .cancelled →
          ((start canvas dragged policy).after
            (steps ++ .event (.drop p) source :: later)).dragged = dragged) ∧
      (∀ a, ∀ q ∈ (((start canvas dragged policy).after steps).step a).queries,
        q = ⟨canvas, Step.latest steps, dragged⟩) ∧
      (((start canvas dragged policy).after steps).isActive = true → ∀ source p,
        (((start canvas dragged policy).after steps).handle source (.hover p)).update =
            some (.target ((Selection.pick policy p
              (source ⟨canvas, Step.latest steps, dragged⟩)).map Prod.fst)) ∧
          (((start canvas dragged policy).after steps).handle source (.drop p)).update =
            some (((Selection.pick policy p
              (source ⟨canvas, Step.latest steps, dragged⟩)).map Prod.fst).elim .cancelled
                fun h => .committed ⟨dragged, h⟩)) := by
  refine ⟨dragged_after _ steps, fun d => dragged_of_mem_drops _ steps, ?_, ?_, ?_⟩
  · intro source p later hnone hmiss
    rw [dragged_after, drops_append, hnone, drops_of_miss hmiss]
    rfl
  · intro a q hq
    rw [(answers_step _ a).queries_eq] at hq
    split at hq
    · rename_i hasked
      have running : ((start canvas dragged policy).after steps).finished = false :=
        (Bool.not_eq_true' _).mp (Bool.and_eq_true_iff.mp hasked).1
      rw [List.mem_singleton.mp hq, query_after running]
      rfl
    · cases hq
  · intro active source p
    have running : ((start canvas dragged policy).after steps).finished = false :=
      (Bool.not_eq_true' _).mp active
    have hdragged : ((start canvas dragged policy).after steps).dragged = dragged := by
      rw [dragged_after, if_pos (drops_of_no_drop (no_drop_of_running running))]
      rfl
    rw [update_hover running, update_drop running, picked_after running, hdragged]
    exact ⟨rfl, rfl⟩

/-- A drop depends on the present alone: what the pointer did before, and what was
measured before, is as if it had not been. It takes what a hover at the same point
would have painted, and it fails where a hover would have painted nothing. -/
theorem drop_of_present (h : ∀ a ∈ steps, a.isDrop = false) (source : Source α) (p : Point α) :
    ((start canvas dragged policy).after steps).handle source (.drop p) =
        ((start canvas dragged policy).measure (Step.latest steps)).handle source (.drop p) ∧
      (∀ d, (((start canvas dragged policy).after steps).handle source (.drop p)).update =
          some (.committed d) ↔
        d.dragged = dragged ∧
          (((start canvas dragged policy).after steps).handle source (.hover p)).update =
            some (.target (some d.highlight))) ∧
      ((((start canvas dragged policy).after steps).handle source (.drop p)).update =
          some .cancelled ↔
        (((start canvas dragged policy).after steps).handle source (.hover p)).update =
          some (.target none)) := by
  have hs : (start canvas dragged policy).after steps =
      { (start canvas dragged policy).measure (Step.latest steps) with
        current := ((start canvas dragged policy).after steps).current } := by
    have hafter := after_of_no_drop (s := start canvas dragged policy) rfl h
    rwa [positions_after] at hafter
  generalize (start canvas dragged policy).after steps = s at hs ⊢
  have running : s.finished = false := by rw [hs]; rfl
  have hdragged : s.dragged = dragged := by rw [hs]; rfl
  refine ⟨?_, ?_, ?_⟩
  · rw [hs]
    exact handle_drop_current rfl source p s.current
  · intro d
    rw [update_drop running, update_hover running, hdragged]
    cases s.picked source p with
    | none => simp
    | some h =>
      obtain ⟨carried, highlight⟩ := d
      simp [eq_comm]
  · rw [update_drop running, update_hover running]
    cases s.picked source p <;> simp

/-- Two buttons side by side. -/
def toolbar : Layout where
  canvas := mainCanvas
  kind := .row
  path := [⟨"toolbar"⟩]
  children := [⟨"cut"⟩, ⟨"copy"⟩]

/-- One of them is picked up. -/
def held : List DraggedWidget := [⟨⟨"cut"⟩, "BUTTON", .hug⟩]

/-- A target is painted and left, and then all that is on screen moves. -/
def wandering : List (Step Float) := [
  .measure (.ofList [(⟨"cut"⟩, ⟨0, 0, 40, 20⟩), (⟨"copy"⟩, ⟨50, 0, 40, 20⟩)]),
  .event (.hover ⟨88, 5⟩) toolbar.highlights,
  .event .leave toolbar.highlights,
  .measure (.ofList [(⟨"copy"⟩, ⟨0, 0, 40, 20⟩)]),
  .event (.hover ⟨3, 5⟩) toolbar.highlights]

theorem drop_of_present_wandering :
    (∀ a ∈ wandering, a.isDrop = false) ∧
      ((start mainCanvas held).after wandering).handle toolbar.highlights (.drop ⟨38, 5⟩) =
        ((start mainCanvas held).measure (Step.latest wandering)).handle toolbar.highlights
          (.drop ⟨38, 5⟩) ∧
      (((start mainCanvas held).after wandering).handle toolbar.highlights
        (.drop ⟨38, 5⟩)).drop?.map Drop.row = some 1 := by
  have h : ∀ a ∈ wandering, a.isDrop = false := by decide
  exact ⟨h, (drop_of_present mainCanvas held .standard wandering h toolbar.highlights ⟨38, 5⟩).1,
    by decide +kernel⟩

end Session

end DragDrop
