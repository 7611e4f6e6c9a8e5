import DragDrop.Proofs.Session
import Mathlib.Data.List.Induction

/-! The target that is painted is never out of date. Whatever happened before, it is the one
that the LATEST event came to, and it stays painted while the widgets are measured anew. The
statements follow a run from its end, where that event is. -/

namespace DragDrop

variable {α : Type}

namespace Step

/-- The run ends with this event, measurements apart, and these are the steps before it. -/
inductive LastEvent : List (Step α) → List (Step α) → Event α → Source α → Prop
  | event (before : List (Step α)) (e : Event α) (source : Source α) :
    LastEvent (before ++ [.event e source]) before e source
  | measure {steps before : List (Step α)} {e : Event α} {source : Source α}
    (positions : Arrangement α) (h : LastEvent steps before e source) :
    LastEvent (steps ++ [.measure positions]) before e source

/-- There is such an event, unless there is no event at all. -/
theorem exists_lastEvent (steps : List (Step α)) :
    (∃ before e source, LastEvent steps before e source) ∨
      ∀ a ∈ steps, ∃ positions, a = .measure positions := by
  induction steps using List.reverseRecOn with
  | nil => exact .inr fun a ha => absurd ha List.not_mem_nil
  | append_singleton steps a ih =>
    cases a with
    | event e source => exact .inl ⟨steps, e, source, .event steps e source⟩
    | measure positions =>
      rcases ih with ⟨before, e, source, h⟩ | h
      · exact .inl ⟨before, e, source, .measure positions h⟩
      · refine .inr fun a ha => ?_
        rcases List.mem_append.mp ha with ha | ha
        · exact h a ha
        · exact ⟨positions, List.mem_singleton.mp ha⟩

end Step

/-- The target that an event came to, if it came to one. -/
def Reply.target? (r : Reply α) : Option (Highlight α) :=
  match r.update with
  | some (.target h) => h
  | _ => none

theorem Reply.target?_eq_some_iff {r : Reply α} {h : Highlight α} :
    r.target? = some h ↔ r.update = some (.target (some h)) := by
  unfold target?
  split
  · rename_i g hg
    rw [hg]
    simp
  · rename_i hnone
    constructor
    · intro h
      cases h
    · intro hu
      exact absurd hu (hnone _)

namespace Session

variable [Scalar α]

namespace Answers

variable {s : Session α} {e : Event α} {source : Source α} {r : Reply α}

/-- After an event, what it came to is painted, and NOTHING if it came to no target. -/
theorem current_eq_target? (h : Answers s (.event e source) r)
    (hs : s.finished = true → s.current = none) : r.session.current = r.target? := by
  cases h with
  | ignores e source ended => exact hs ended
  | hovers | commits | misses | leaves => rfl

/-- Only a session that runs comes to a target, and only where the pointer hovers. -/
theorem hover_of_target? (h : Answers s (.event e source) r) {g : Highlight α}
    (ht : r.target? = some g) :
    ∃ p, e = .hover p ∧ s.finished = false ∧ s.picked source p = some g := by
  cases h with
  | hovers p source notes running => exact ⟨p, rfl, running, ht⟩
  | ignores | commits | misses | leaves => cases ht

end Answers

variable [BEq α] {s : Session α} {steps before : List (Step α)} {e : Event α} {source : Source α}

theorem after_concat (s : Session α) (steps : List (Step α)) (a : Step α) :
    s.after (steps ++ [a]) = ((s.after steps).step a).session := by
  rw [after, List.foldl_append]
  rfl

theorem current_after_measurements (h : ∀ a ∈ steps, ∃ positions, a = .measure positions) :
    (s.after steps).current = s.current := by
  induction steps generalizing s with
  | nil => rfl
  | cons a steps ih =>
    obtain ⟨⟨positions, rfl⟩, hsteps⟩ := List.forall_mem_cons.mp h
    exact ih hsteps

/-- What is painted at the end of a run is what its last event came to. -/
theorem current_of_lastEvent (hs : s.finished = true → s.current = none)
    (h : Step.LastEvent steps before e source) :
    (s.after steps).current = ((s.after before).handle source e).target? := by
  induction h with
  | event before e source =>
    rw [after_concat]
    exact (answers_step _ (.event e source)).current_eq_target? (current_after s before hs)
  | measure positions h ih =>
    rw [after_concat]
    exact ih

/-- What is painted is a target of the event before the measurements, and of a hover. -/
theorem exists_hover_of_current (hs : s.current = none) {h : Highlight α}
    (hcurrent : (s.after steps).current = some h) :
    ∃ before p source, Step.LastEvent steps before (.hover p) source ∧
      ((s.after before).handle source (.hover p)).update = some (.target (some h)) := by
  rcases Step.exists_lastEvent steps with ⟨before, e, source, hlast⟩ | hnone
  · rw [current_of_lastEvent (fun _ => hs) hlast] at hcurrent
    obtain ⟨p, rfl, -⟩ := ((s.after before).answers_step (.event e source)).hover_of_target? hcurrent
    exact ⟨before, p, source, hlast, Reply.target?_eq_some_iff.mp hcurrent⟩
  · rw [current_after_measurements hnone, hs] at hcurrent
    cases hcurrent

theorem isActive_of_current (hs : s.current = none) {h : Highlight α}
    (hcurrent : (s.after steps).current = some h) : (s.after steps).isActive = true := by
  cases hf : (s.after steps).finished with
  | false => rw [isActive, hf]; rfl
  | true =>
    rw [current_after s steps (fun _ => hs) hf] at hcurrent
    cases hcurrent

variable (canvas : WidgetId) (dragged : List DraggedWidget) (policy : Policy α)
  (steps : List (Step α))

/-- What is painted after the steps of a drag, and what the next step makes of it. -/
structure UpToDate : Prop where
  /-- It is the target that the last event came to, in a drag that still goes on. -/
  current_iff : ∀ h, ((start canvas dragged policy).after steps).current = some h ↔
    ((start canvas dragged policy).after steps).isActive = true ∧
      ∃ before p source, Step.LastEvent steps before (.hover p) source ∧
        (((start canvas dragged policy).after before).handle source (.hover p)).update =
          some (.target (some h))
  /-- It was picked out of what was offered for the places that were in force THEN. -/
  picked : ∀ before p source h, Step.LastEvent steps before (.hover p) source →
    ((start canvas dragged policy).after steps).current = some h →
      ∃ i, Selection.pick policy p (source ⟨canvas, Step.latest before, dragged⟩) = some (h, i)
  /-- New places do not change it. -/
  kept : ∀ positions,
    ((start canvas dragged policy).after (steps ++ [.measure positions])).current =
      ((start canvas dragged policy).after steps).current
  /-- Leaving and letting go clear it, and so does a hover over nothing. -/
  cleared : ∀ e source, (∀ p, e ≠ .hover p) ∨
      (((start canvas dragged policy).after steps).handle source e).update =
        some (.target none) →
    ((start canvas dragged policy).after (steps ++ [.event e source])).current = none

theorem upToDate_start : UpToDate canvas dragged policy steps where
  current_iff h := by
    constructor
    · intro hcurrent
      exact ⟨isActive_of_current rfl hcurrent, exists_hover_of_current rfl hcurrent⟩
    · rintro ⟨-, before, p, source, hlast, hupdate⟩
      rw [current_of_lastEvent (fun _ => rfl) hlast]
      exact Reply.target?_eq_some_iff.mpr hupdate
  picked before p source h hlast hcurrent := by
    rw [current_of_lastEvent (fun _ => rfl) hlast] at hcurrent
    obtain ⟨_, ⟨⟩, running, hpick⟩ :=
      (answers_step _ (.event (.hover p) source)).hover_of_target? hcurrent
    rw [picked_after running] at hpick
    obtain ⟨⟨_, i⟩, hi, rfl⟩ := Option.map_eq_some_iff.mp hpick
    exact ⟨i, hi⟩
  kept positions := by
    rw [after_concat]
    rfl
  cleared e source hnone := by
    rw [current_of_lastEvent (fun _ => rfl) (.event steps e source)]
    rcases hnone with hleaves | hmiss
    · rw [Option.eq_none_iff_forall_ne_some]
      intro h ht
      obtain ⟨p, rfl, -⟩ := (answers_step _ (.event e source)).hover_of_target? ht
      exact hleaves p rfl
    · rw [Reply.target?, hmiss]

/-- What is under the pointer is gone before it moves again. -/
def slipping : List (Step Float) :=
  wandering ++ [.measure (.ofList [(⟨"copy"⟩, ⟨0, 300, 40, 20⟩)])]

/-- It is painted all the same, and not any more once the pointer leaves. -/
theorem upToDate_slipping :
    ∃ h, ((start mainCanvas held).after slipping).current = some h ∧ h.slot.row = 0 ∧
      (∃ before p source i, Step.LastEvent slipping before (.hover p) source ∧
        Selection.pick .standard p (source ⟨mainCanvas, Step.latest before, held⟩) =
          some (h, i)) ∧
      ((start mainCanvas held).after
        (slipping ++ [.event .leave toolbar.highlights])).current = none := by
  have hup := upToDate_start (α := Float) mainCanvas held .standard slipping
  have hrow : ((start mainCanvas held).after slipping).current.map (·.slot.row) = some 0 := by
    decide +kernel
  obtain ⟨h, hcurrent, hzero⟩ := Option.map_eq_some_iff.mp hrow
  obtain ⟨-, before, p, source, hlast, -⟩ := (hup.current_iff h).mp hcurrent
  obtain ⟨i, hpick⟩ := hup.picked before p source h hlast hcurrent
  exact ⟨h, hcurrent, hzero, ⟨before, p, source, i, hlast, hpick⟩,
    hup.cleared .leave toolbar.highlights (.inl fun _ => by simp)⟩

end Session

end DragDrop
