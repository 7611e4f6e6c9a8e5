import DragDrop.Proofs.Json.Meaning

/-! Which objects a record reader cannot tell apart. Two fields that stay APART may be
filled in either order; what fills no field, or fills it with what would be there anyhow,
may as well be left out. -/

namespace DragDrop.Json

variable {α β γ δ : Type}

namespace Field

/-- The field is full behind a value that it has taken. -/
def Once (f : Field δ) : Prop :=
  ∀ (d : δ) (t : Tree) (e : δ), t.as (f.read d) = some e → f.isSet e = true

/-- Neither field has to do with the other one's value. -/
structure Apart (f g : Field δ) : Prop where
  isSet_left : ∀ (d : δ) (t : Tree) (e : δ), t.as (g.read d) = some e → f.isSet e = f.isSet d
  isSet_right : ∀ (d : δ) (t : Tree) (e : δ), t.as (f.read d) = some e → g.isSet e = g.isSet d
  comm : ∀ (d : δ) (t u : Tree), ((t.as (f.read d)).bind fun e => u.as (g.read e)) =
    (u.as (g.read d)).bind fun e => t.as (f.read e)

theorem Apart.symm {f g : Field δ} (h : Apart f g) : Apart g f where
  isSet_left := h.isSet_right
  isSet_right := h.isSet_left
  comm d t u := (h.comm d u t).symm

instance : Std.Symm (@Apart δ) := ⟨fun _ _ h => h.symm⟩

theorem get_eq_none {name : String} {get : δ → Option β} {set : δ → β → δ} {read : Reader β}
    {d : δ} (h : (Field.of name get set read).isSet d = false) : get d = none :=
  Option.not_isSome_iff_eq_none.mp (ne_true_of_eq_false h)

theorem once_of {name : String} {get : δ → Option β} {set : δ → β → δ} {read : Reader β}
    (h : ∀ d b, (get (set d b)).isSome = true) : (Field.of name get set read).Once := by
  intro d t e he
  rw [as_of] at he
  obtain ⟨b, -, rfl⟩ := Option.map_eq_some_iff.mp he
  exact h d b

/-- Fields are apart if they keep their values in different places. -/
theorem apart_of {name name' : String} {get : δ → Option β} {get' : δ → Option γ}
    {set : δ → β → δ} {set' : δ → γ → δ} {read : Reader β} {read' : Reader γ}
    (hget : ∀ d c, get (set' d c) = get d) (hget' : ∀ d b, get' (set d b) = get' d)
    (hset : ∀ d b c, set' (set d b) c = set (set' d c) b) :
    Apart (.of name get set read) (.of name' get' set' read') where
  isSet_left d t e he := by
    rw [as_of] at he
    obtain ⟨c, -, rfl⟩ := Option.map_eq_some_iff.mp he
    exact congrArg Option.isSome (hget d c)
  isSet_right d t e he := by
    rw [as_of] at he
    obtain ⟨b, -, rfl⟩ := Option.map_eq_some_iff.mp he
    exact congrArg Option.isSome (hget' d b)
  comm d t u := by
    simp only [as_of]
    cases t.as read with
    | none => cases u.as read' <;> rfl
    | some b =>
      cases u.as read' with
      | none => rfl
      | some c => exact congrArg some (hset d b c)

theorem as_of_act {f : Field δ} {d e : δ} {t : Tree} (h : f.act d t = some e) :
    t.as (f.read d) = some e := by
  unfold act at h
  split at h
  · cases h
  · exact h

theorem act_of_isSet {f : Field δ} {d : δ} (h : f.isSet d = true) (t : Tree) :
    f.act d t = none :=
  if_pos h

/-- No field is filled twice. -/
theorem Once.act_act {f : Field δ} (h : f.Once) (d : δ) (t u : Tree) :
    ((f.act d t).bind fun e => f.act e u) = none := by
  cases he : f.act d t with
  | none => rfl
  | some e => exact act_of_isSet (h d t e (as_of_act he)) u

theorem Apart.act_comm {f g : Field δ} (h : Apart f g) (d : δ) (t u : Tree) :
    ((f.act d t).bind fun e => g.act e u) = (g.act d u).bind fun e => f.act e t := by
  have full {f g : Field δ} (h : Apart f g) {d : δ} (hf : f.isSet d = true) (t u : Tree) :
      ((g.act d u).bind fun e => f.act e t) = none := by
    cases he : g.act d u with
    | none => rfl
    | some e => exact act_of_isSet ((h.isSet_left d u e (as_of_act he)).trans hf) t
  cases hf : f.isSet d with
  | true =>
    rw [act_of_isSet hf, full h hf t u]
    rfl
  | false =>
    cases hg : g.isSet d with
    | true =>
      rw [act_of_isSet hg, full h.symm hg u t]
      rfl
    | false =>
      rw [act_of_not_isSet hf, act_of_not_isSet hg]
      have hleft : ∀ e, t.as (f.read d) = some e → g.act e u = u.as (g.read e) := fun e he =>
        act_of_not_isSet ((h.isSet_right d t e he).trans hg) u
      have hright : ∀ e, u.as (g.read d) = some e → f.act e t = t.as (f.read e) := fun e he =>
        act_of_not_isSet ((h.isSet_left d u e he).trans hf) t
      rw [Option.bind_congr hleft, Option.bind_congr hright, h.comm]

end Field

namespace Shape

/-- A shape whose members can come in any order. -/
structure Orderless (sh : Shape δ α) : Prop where
  uniform : ∀ f ∈ sh.fields, f.Uniform
  once : ∀ f ∈ sh.fields, f.Once
  apart : sh.fields.Pairwise Field.Apart
  blank : ∀ f ∈ sh.fields, f.isSet sh.blank = false

namespace Orderless

variable {sh : Shape δ α}

theorem apart_of_ne (h : sh.Orderless) {f g : Field δ} (hf : f ∈ sh.fields) (hg : g ∈ sh.fields)
    (hne : f ≠ g) : f.Apart g :=
  h.apart.forall hf hg hne

theorem name_of_find? {name : String} {f : Field δ}
    (h : sh.fields.find? (·.name == name) = some f) : f.name = name := by
  have hname := List.find?_some h
  exact eq_of_beq hname

/-- Two members go into the draft in either order. If they go into the same field, NEITHER
order will do. -/
theorem act_comm (h : sh.Orderless) (n n' : String) (d : δ) (t u : Tree) :
    ((sh.act n d t).bind fun e => sh.act n' e u) = (sh.act n' d u).bind fun e => sh.act n e t := by
  unfold act
  cases hf : sh.fields.find? (·.name == n) with
  | none => dsimp only; rw [Option.bind_some, Option.bind_fun_some]
  | some f =>
    cases hg : sh.fields.find? (·.name == n') with
    | none => dsimp only; rw [Option.bind_some, Option.bind_fun_some]
    | some g =>
      dsimp only
      have hfmem := List.mem_of_find?_eq_some hf
      have hgmem := List.mem_of_find?_eq_some hg
      by_cases hfg : f = g
      · subst hfg
        rw [(h.once f hfmem).act_act, (h.once f hfmem).act_act]
      · exact (h.apart_of_ne hfmem hgmem hfg).act_comm d t u

theorem step_comm (h : sh.Orderless) (o : Option δ) (m m' : Tree.Member) :
    sh.step (sh.step o m) m' = sh.step (sh.step o m') m := by
  cases o with
  | none => rfl
  | some d =>
    simp only [step, Option.bind_some]
    cases Piece.text? m.1 with
    | none => cases Piece.text? m'.1 <;> simp
    | some n =>
      cases Piece.text? m'.1 with
      | none => simp
      | some n' => exact h.act_comm n n' d m.2 m'.2

/-- The order of the members does not matter. -/
theorem fill_perm (h : sh.Orderless) {ms ms' : List Tree.Member} (hms : ms.Perm ms')
    (o : Option δ) : sh.fill o ms = sh.fill o ms' :=
  hms.foldl_eq' (fun m _ m' _ o => h.step_comm o m m') o

/-- A field stays as it is if no member has its name. -/
theorem isSet_step (h : sh.Orderless) {f : Field δ} (hf : f ∈ sh.fields) {d e : δ}
    {m : Tree.Member} (hm : Piece.text? m.1 ≠ some f.name) (he : sh.step (some d) m = some e) :
    f.isSet e = f.isSet d := by
  replace he : ((Piece.text? m.1).bind fun name => sh.act name d m.2) = some e := he
  obtain ⟨n, hn, hact⟩ := Option.bind_eq_some_iff.mp he
  unfold act at hact
  cases hg : sh.fields.find? (·.name == n) with
  | none =>
    rw [hg] at hact
    obtain rfl := Option.some.inj hact
    rfl
  | some g =>
    rw [hg] at hact
    have hne : f ≠ g := by
      rintro rfl
      exact hm (hn.trans (congrArg some (name_of_find? hg).symm))
    exact (h.apart_of_ne hf (List.mem_of_find?_eq_some hg) hne).isSet_left d m.2 e
      (Field.as_of_act hact)

theorem isSet_fill (h : sh.Orderless) {f : Field δ} (hf : f ∈ sh.fields) {d e : δ}
    {ms : List Tree.Member} (hms : ∀ m ∈ ms, Piece.text? m.1 ≠ some f.name)
    (he : sh.fill (some d) ms = some e) : f.isSet e = f.isSet d := by
  induction ms generalizing d with
  | nil => exact congrArg _ (Option.some.inj he).symm
  | cons m ms ih =>
    obtain ⟨hm, hms⟩ := List.forall_mem_cons.mp hms
    replace he : sh.fill (sh.step (some d) m) ms = some e := he
    cases hstep : sh.step (some d) m with
    | none => rw [hstep, fill_none] at he; cases he
    | some d' =>
      rw [hstep] at he
      rw [ih hms he, isSet_step h hf hm hstep]

end Orderless

end Shape

/-- Two lists of members that say the same to somebody who knows these names. -/
inductive Respelled (known : List String) (isDefault : String → Tree → Prop)
    (alike : Tree.Member → Tree.Member → Prop) : List Tree.Member → List Tree.Member → Prop
  /-- The members can come in any order. -/
  | order {ms ms' : List Tree.Member} (h : ms.Perm ms') : Respelled known isDefault alike ms ms'
  /-- A member of another name can have any value. What is no text is no name. -/
  | extra {ps : List Piece} (name : String) (t : Tree) (ms : List Tree.Member)
    (hname : Piece.text? ps = some name) (hout : name ∉ known) :
    Respelled known isDefault alike ms ((ps, t) :: ms)
  /-- A default can be written out. -/
  | default {ps : List Piece} (name : String) {t : Tree} {ms : List Tree.Member}
    (hname : Piece.text? ps = some name) (hdefault : isDefault name t)
    (habsent : ∀ m ∈ ms, Piece.text? m.1 ≠ some name) :
    Respelled known isDefault alike ms ((ps, t) :: ms)
  /-- The value of a member can be spelled differently. -/
  | value {m m' : Tree.Member} (ms : List Tree.Member) (h : alike m m') :
    Respelled known isDefault alike (m :: ms) (m' :: ms)
  | symm {ms ms' : List Tree.Member} (h : Respelled known isDefault alike ms ms') :
    Respelled known isDefault alike ms' ms
  | trans {ms ms' ms'' : List Tree.Member} (h : Respelled known isDefault alike ms ms')
    (h' : Respelled known isDefault alike ms' ms'') : Respelled known isDefault alike ms ms''

namespace Shape

variable {sh : Shape δ α} {isDefault : String → Tree → Prop}
  {alike : Tree.Member → Tree.Member → Prop}

/-- The names of the fields. -/
def known (sh : Shape δ α) : List String := sh.fields.map (·.name)

/-- A default is what the record would have anyhow. -/
def Defaults (sh : Shape δ α) (isDefault : String → Tree → Prop) : Prop :=
  ∀ name f t d, sh.fields.find? (·.name == name) = some f → isDefault name t →
    f.isSet d = false → ∃ e, t.as (f.read d) = some e ∧ sh.finished? e = sh.finished? d

/-- Members are alike if they do the same to every draft. -/
def Alike (sh : Shape δ α) (alike : Tree.Member → Tree.Member → Prop) : Prop :=
  ∀ m m', alike m m' → ∀ o, sh.step o m = sh.step o m'

theorem step_extra {ps : List Piece} {name : String} (hname : Piece.text? ps = some name)
    (hout : name ∉ sh.known) (t : Tree) (o : Option δ) : sh.step o (ps, t) = o := by
  have hnone : sh.fields.find? (·.name == name) = none := by
    rw [List.find?_eq_none]
    intro f hf hn
    exact hout (List.mem_map.mpr ⟨f, hf, eq_of_beq hn⟩)
  cases o with
  | none => rfl
  | some d =>
    show ((Piece.text? ps).bind fun name => sh.act name d t) = some d
    rw [hname, Option.bind_some, act, hnone]

/-- A default that is written out last changes nothing. -/
theorem finished?_default (h : sh.Orderless) (hdefaults : sh.Defaults isDefault)
    {ps : List Piece} {name : String} {t : Tree} {ms : List Tree.Member}
    (hname : Piece.text? ps = some name) (hdefault : isDefault name t)
    (habsent : ∀ m ∈ ms, Piece.text? m.1 ≠ some name) :
    (sh.step (sh.fill (some sh.blank) ms) (ps, t)).bind sh.finished? =
      (sh.fill (some sh.blank) ms).bind sh.finished? := by
  cases hfill : sh.fill (some sh.blank) ms with
  | none => rfl
  | some d =>
    show (((Piece.text? ps).bind fun name => sh.act name d t).bind sh.finished?) = _
    rw [hname, Option.bind_some, act]
    cases hf : sh.fields.find? (·.name == name) with
    | none => rfl
    | some f =>
      have hmem := List.mem_of_find?_eq_some hf
      rw [← Orderless.name_of_find? hf] at habsent
      have hset : f.isSet d = false := (h.isSet_fill hmem habsent hfill).trans (h.blank f hmem)
      obtain ⟨e, he, hfinish⟩ := hdefaults name f t d hf hdefault hset
      dsimp only
      rw [Field.act_of_not_isSet hset, he]
      exact hfinish

/-- Objects that say the same are read as the same record, or neither is read. -/
theorem tree?_respelled (h : sh.Orderless) (hdefaults : sh.Defaults isDefault)
    (halike : sh.Alike alike) {ms ms' : List Tree.Member}
    (hms : Respelled sh.known isDefault alike ms ms') :
    sh.tree? (.object ms) = sh.tree? (.object ms') := by
  induction hms with
  | order hperm => rw [tree?, tree?, h.fill_perm hperm]
  | extra name t ms hname hout =>
    show _ = (sh.fill (sh.step (some sh.blank) _) ms).bind _
    rw [step_extra hname hout]
    rfl
  | @default ps name t ms hname hdefault habsent =>
    have hlast : sh.fill (some sh.blank) ((ps, t) :: ms) =
        sh.step (sh.fill (some sh.blank) ms) (ps, t) := by
      rw [h.fill_perm (List.perm_append_singleton (ps, t) ms).symm, fill, List.foldl_append]
      rfl
    rw [tree?, tree?, hlast, finished?_default h hdefaults hname hdefault habsent]
  | @value m m' ms hm =>
    show (sh.fill (sh.step (some sh.blank) m) ms).bind _ =
      (sh.fill (sh.step (some sh.blank) m') ms).bind _
    rw [halike m m' hm]
  | symm _ ih => exact ih.symm
  | trans _ _ ih ih' => exact ih.trans ih'

end Shape

end DragDrop.Json
