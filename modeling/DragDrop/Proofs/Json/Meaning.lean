import DragDrop.Json.Compound
import DragDrop.Proofs.Json.Skip

/-! What readers of lists, names and records make of a value, however it is spelled. A
record is FILLED member by member; nothing is said yet about the order of the members. -/

namespace DragDrop.Json

variable {α β δ : Type} {s t u rest : List Char}

/-! ## The plainest spelling -/

theorem endsNumber_nil : EndsNumber [] := fun _ hc => absurd hc (by simp)

/-- What a reader takes the tree for when nothing stands between its tokens. -/
def Tree.as (t : Tree) (read : Reader α) : Option α := (view (read (t.write []))).map Prod.fst

theorem Means.as_eq {read : Reader α} {m : Tree → Option α} (h : Means read m) (t : Tree) :
    t.as read = m t := by
  have hs : Spells (.value t) (t.write [] ++ []) [] := Tree.spells_write (by simp) t []
  rw [List.append_nil] at hs
  rw [Tree.as, h t _ _ hs endsNumber_nil, Option.map_map]
  exact Option.map_id'

/-- The plainest spelling of a tree speaks for all of them. -/
theorem Means.plainest {read : Reader α} {m : Tree → Option α} (h : Means read m) :
    Means read (·.as read) := by
  intro t s rest hs hr
  rw [h t s rest hs hr, ← h.as_eq t]

theorem Tree.as_map (t : Tree) (read : Reader α) (f : α → β) :
    t.as (read.map f) = (t.as read).map f := by
  rw [as, as, Reader.map, view_map (g := f) (fun _ => rfl) (fun _ => rfl), Option.map_map,
    Option.map_map]
  rfl

/-! ## Lists -/

theorem Spells.element? {first : Bool} {v : List Char} {t : Tree} (hcomma : Comma first s u)
    (h : Spells (.value t) u v) :
    ∃ r, element? first s = .ok (some r) ∧ Spells (.value t) r.chars v := by
  obtain ⟨c, w, hpads, hb, hspells⟩ := h.exists_begin
  have hopen := hpads.opens_cons (Tree.isBlank_of_begins hb)
  have hclose : c ≠ ']' := Tree.ne_of_begins hb (by cases t <;> rfl)
  cases first with
  | true =>
    obtain rfl : s = u := hcomma
    obtain ⟨r, hr, hchars⟩ := element?_of_opens hopen hclose
    exact ⟨r, hr, hchars ▸ hspells⟩
  | false =>
    obtain ⟨r, hr, hchars⟩ := element?_of_comma (Pads.opens_cons hcomma rfl) hopen hclose
    exact ⟨r, hr, hchars ▸ hspells⟩

theorem view_elements {read : Reader α} {m : Tree → Option α} (h : Means read m) {first : Bool}
    {ts : List Tree} (hs : Spells (.elements first ts) s rest) :
    view (elements read first s) = (ts.mapM m).map fun as => (as, rest) := by
  induction ts generalizing first s with
  | nil =>
    cases hs with
    | listEnd hs =>
      obtain ⟨c, hc, rfl⟩ := closeList_of_opens (hs.opens_cons rfl)
      rw [elements, element?_end first (hs.opens_cons rfl)]
      show view (do let c ← closeList s; _) = _
      rw [hc]
      rfl
  | cons t ts ih =>
    cases hs with
    | @element _ _ u v _ _ _ hcomma ht hts =>
      obtain ⟨r, hr, hvalue⟩ := Spells.element? hcomma ht
      rw [elements, hr]
      show view (do let a ← read r.chars; _) = _
      rw [view_bind (g := fun a => (view (elements read false a.2)).map fun l => (a.1 :: l.1, l.2)),
        h t _ _ hvalue hts.endsNumber_elements, List.mapM_cons]
      · cases m t with
        | none => rfl
        | some a =>
          rw [Option.map_some, Option.bind_some, ih hts]
          cases ts.mapM m <;> rfl
      · intro a
        rw [view_bind (g := fun l => some (a.value :: l.1, l.2)) (fun _ => rfl)]
        cases view (elements read false a.rest) <;> rfl

def Tree.list? (m : Tree → Option α) : Tree → Option (List α)
  | .list ts => ts.mapM m
  | _ => none

theorem means_list {read : Reader α} {m : Tree → Option α} (h : Means read m) :
    Means (readList read) (Tree.list? m) := by
  intro t s rest hs _
  cases t with
  | list ts =>
    cases hs with
    | list hs hts =>
      apply (hs.opens_cons rfl).view_eq
      intro r hc ht
      rw [if_pos hc, view_after]
      exact view_elements h (ht ▸ hts)
  | null | boolean | number | text | object =>
    apply hs.view_eq_none
    intro r hb
    rw [if_neg (Tree.ne_of_begins hb rfl)]
    exact ⟨_, rfl⟩

/-! ## Names out of a set -/

theorem view_afterColon {w : List Char} (read : Reader α) (h : Pads s (':' :: w)) :
    view (afterColon read s) = view (read w) := by
  obtain ⟨c, hc, rfl⟩ := colon_of_opens (h.opens_cons rfl)
  rw [afterColon, hc]
  show view (do let a ← read c.rest; _) = _
  rw [view_bind (g := some) (fun _ => rfl), Option.bind_fun_some]

theorem view_chosen (names : List (String × α)) (name : Read s String) :
    view (chosen names name) = (names.lookup name.value).map fun a => (a, name.rest) := by
  unfold chosen
  cases names.lookup name.value <;> rfl

/-- The name alone, or an object that has `null` for it and nothing else. -/
def Tree.choice? (names : List (String × α)) : Tree → Option α
  | .text ps => (Piece.text? ps).bind fun name => names.lookup name
  | .object ((ps, t) :: ms) => (Piece.text? ps).bind fun name =>
    (names.lookup name).bind fun a => if ms.isEmpty then t.null?.map fun _ => a else none
  | _ => none

/-- The choice is made, if its object has come to its end. -/
def closing? (a : α) (s : List Char) : Option (α × List Char) :=
  (next? s).bind fun u => if u.value = '\x7d' then some (a, u.rest) else none

theorem closing?_end (a : α) (h : Opens s '\x7d' rest) : closing? a s = some (a, rest) := by
  obtain ⟨r, hr, hc, hrest⟩ := h
  rw [closing?, hr, Option.bind_some, if_pos hc, hrest]

theorem closing?_comma (a : α) (h : Opens s ',' rest) : closing? a s = none := by
  obtain ⟨r, hr, hc, -⟩ := h
  rw [closing?, hr, Option.bind_some, hc, if_neg (by simp)]

/-- Behind a name, the choice is made by a `null` that no further member follows. -/
theorem closing?_null (a : α) {v w x : List Char} {t : Tree} {ms : List Tree.Member}
    (hcolon : Pads v (':' :: w)) (ht : Spells (.value t) w x)
    (hms : Spells (.members false ms) x rest) :
    ((view (afterColon readNull v)).bind fun p => closing? a p.2) =
      (if ms.isEmpty then t.null?.map fun _ => a else none).map fun a => (a, rest) := by
  rw [view_afterColon readNull hcolon, means_null t w x ht hms.endsNumber_members]
  cases hms with
  | objectEnd hend =>
    cases t.null? with
    | none => rfl
    | some _ => exact closing?_end a (hend.opens_cons rfl)
  | member hcomma =>
    cases t.null? with
    | none => rfl
    | some _ => exact closing?_comma a (Pads.opens_cons hcomma rfl)

theorem means_choice (names : List (String × α)) :
    Means (readChoice names) (Tree.choice? names) := by
  intro t s rest h hr
  cases t with
  | text ps =>
    apply h.view_text
    intro t hv htext
    rw [if_pos hv, view_bind (g := fun n => (names.lookup n.1).map fun a => (a, n.2)), htext]
    · rw [Tree.choice?]
      cases Piece.text? ps <;> rfl
    · intro name
      rw [view_bind (g := some) (fun _ => rfl), Option.bind_fun_some, view_chosen]
  | object ms =>
    cases h with
    | object h hms =>
      apply (h.opens_cons rfl).view_eq
      intro r hc ht
      rw [hc, if_neg (by simp), if_pos rfl]
      cases hms with
      | objectEnd hend =>
        rw [← ht] at hend
        obtain ⟨k, hk, hbrace, -⟩ := hend.opens_cons rfl
        rw [hk]
        dsimp only
        rw [hbrace, if_neg (by simp), if_pos rfl]
        rfl
      | @member _ _ _ v w x _ ps t ms hcomma hname hcolon hvalue hms =>
        obtain rfl : r.rest = _ := ht.trans hcomma
        obtain ⟨k, hk, hquote, hkrest⟩ := hname.opens_cons rfl
        rw [hk]
        dsimp only
        rw [if_pos hquote, view_bind (g := fun n => (names.lookup n.1).bind fun a =>
            (view (afterColon readNull n.2)).bind fun p => closing? a p.2), hkrest,
          Piece.view_openText]
        · rw [Tree.choice?]
          cases Piece.text? ps with
          | none => rfl
          | some name =>
            rw [Option.map_some, Option.bind_some, Option.bind_some]
            cases names.lookup name with
            | none => rfl
            | some a => exact closing?_null a hcolon hvalue hms
        · intro name
          rw [view_bind (g := fun a => (view (afterColon readNull a.2)).bind fun p =>
            closing? a.1 p.2), view_chosen]
          · cases names.lookup name.value <;> rfl
          · intro a
            apply view_bind
            intro v
            rw [closing?]
            cases next? v.rest with
            | none => rfl
            | some u =>
              dsimp only
              rw [Option.bind_some]
              split <;> rfl
  | null | boolean | number | list =>
    apply h.view_eq_none
    intro r hb
    rw [if_neg (Tree.ne_of_begins hb rfl), if_neg (Tree.ne_of_begins hb rfl)]
    exact ⟨_, rfl⟩

/-! ## Records -/

/-- What comes next in an open object, as far as it is seen: whether it is a key, and what is
left of the text. -/
def keyView (x : Except Fault (KeyOrEnd s)) : Option (Bool × List Char) :=
  x.toOption.map fun
    | .key k => (true, k.rest)
    | .finish b => (false, b.rest)

/-- The members from a key on, or none where the object has ended. -/
def fromKey (member : Member δ) (d : δ) (k : Bool × List Char) : Option (δ × List Char) :=
  if k.1 then view (members member d k.2) else some (d, k.2)

theorem view_members_eq (member : Member δ) (d : δ) (s : List Char) :
    view (members member d s) = (view (openText s)).bind fun n =>
      (view (member n.1 d n.2)).bind fun e =>
        (keyView (nextKey e.2)).bind (fromKey member e.1) := by
  rw [members]
  apply view_bind
  intro name
  apply view_bind
  intro e
  cases nextKey e.rest with
  | error f => rfl
  | ok k =>
    cases k with
    | finish b => rfl
    | key k =>
      show view (do let l ← members member e.value k.rest; _) = view (members member e.value k.rest)
      rw [view_bind (g := some) (fun _ => rfl), Option.bind_fun_some]

theorem view_openObject_eq (member : Member δ) (d : δ) (s : List Char) :
    view (openObject member d s) = (keyView (firstKey s)).bind (fromKey member d) := by
  rw [openObject]
  cases firstKey s with
  | error f => rfl
  | ok k =>
    cases k with
    | finish b => rfl
    | key k =>
      show view (do let l ← members member d k.rest; _) = view (members member d k.rest)
      rw [view_bind (g := some) (fun _ => rfl), Option.bind_fun_some]

/-- However a value is spelled, the field takes it for the same. -/
def Field.Uniform (f : Field δ) : Prop := ∀ d, Means (f.read d) (·.as (f.read d))

theorem Field.uniform_of {name : String} {get : δ → Option β} {set : δ → β → δ}
    {read : Reader β} {m : Tree → Option β} (h : Means read m) :
    (Field.of name get set read).Uniform :=
  fun d => (h.map (set d)).plainest

theorem Field.as_of (name : String) (get : δ → Option β) (set : δ → β → δ) (read : Reader β) (d : δ)
    (t : Tree) : t.as ((Field.of name get set read).read d) = (t.as read).map (set d) :=
  t.as_map read (set d)

/-- What the field makes of a value, unless it is full. -/
def Field.act (f : Field δ) (d : δ) (t : Tree) : Option δ :=
  if f.isSet d then none else t.as (f.read d)

theorem Field.act_of_not_isSet {f : Field δ} {d : δ} (h : f.isSet d = false) (t : Tree) :
    f.act d t = t.as (f.read d) := by
  rw [act, h, if_neg (by simp)]

namespace Shape

variable (sh : Shape δ α)

/-- What a member of this name makes of the draft. -/
def act (name : String) (d : δ) (t : Tree) : Option δ :=
  match sh.fields.find? (·.name == name) with
  | some f => f.act d t
  | none => some d

/-- A member goes into the draft, if all went well so far and its name is a text. -/
def step (o : Option δ) (m : Tree.Member) : Option δ :=
  o.bind fun d => (Piece.text? m.1).bind fun name => sh.act name d m.2

/-- The members go into the draft, one after the other. -/
def fill (o : Option δ) (ms : List Tree.Member) : Option δ := ms.foldl sh.step o

/-- The elements of a list go into the draft, each into the field that is its turn. -/
def fillList : List (Field δ) → δ → List Tree → Option δ
  | _, d, [] => some d
  | [], _, _ :: _ => none
  | f :: fs, d, t :: ts => (t.as (f.read d)).bind fun e => fillList fs e ts

/-- The record, if nothing is missing. -/
def finished? (d : δ) : Option α := (sh.finish d).toOption

/-- The record that the tree is. -/
def tree? : Tree → Option α
  | .object ms => (sh.fill (some sh.blank) ms).bind sh.finished?
  | .list ts => (fillList sh.fields sh.blank ts).bind sh.finished?
  | _ => none

theorem fill_none (ms : List Tree.Member) : sh.fill none ms = none := by
  induction ms with
  | nil => rfl
  | cons m ms ih => exact ih

variable {sh}

theorem view_member (h : ∀ f ∈ sh.fields, f.Uniform) (name : String) (d : δ) {v w x : List Char}
    {t : Tree} (hcolon : Pads v (':' :: w)) (ht : Spells (.value t) w x) (hx : EndsNumber x) :
    view (sh.member name d v) = (sh.act name d t).map fun e => (e, x) := by
  unfold member act
  cases hf : sh.fields.find? (·.name == name) with
  | some f =>
    dsimp only
    rw [Field.act]
    split
    · rfl
    · rw [view_afterColon _ hcolon]
      exact h f (List.mem_of_find?_eq_some hf) d t w x ht hx
  | none =>
    dsimp only
    rw [view_map (f := Read.map fun _ : Unit => d) (g := fun _ => d) (fun _ => rfl) (fun _ => rfl),
      view_afterColon _ hcolon, means_skipValue t w x ht hx]
    rfl

/-- From within a name on, if what comes behind the member is seen to be right. -/
theorem view_members (h : ∀ f ∈ sh.fields, f.Uniform) (d : δ) {ps : List Piece} {t : Tree}
    {ms : List Tree.Member} {v w x : List Char} (hcolon : Pads v (':' :: w))
    (ht : Spells (.value t) w x) (hx : EndsNumber x)
    (hms : ∀ e, (keyView (nextKey x)).bind (fromKey sh.member e) =
      (sh.fill (some e) ms).map fun e => (e, rest)) :
    view (members sh.member d (Piece.spelled ps ++ '"' :: v)) =
      (sh.fill (some d) ((ps, t) :: ms)).map fun e => (e, rest) := by
  show _ = (sh.fill ((Piece.text? ps).bind fun name => sh.act name d t) ms).map _
  rw [view_members_eq, Piece.view_openText]
  cases Piece.text? ps with
  | none => rw [Option.bind_none, fill_none]; rfl
  | some name =>
    rw [Option.map_some, Option.bind_some, Option.bind_some, view_member h name d hcolon ht hx]
    cases sh.act name d t with
    | none => rw [fill_none]; rfl
    | some e => exact hms e

theorem view_nextKey (h : ∀ f ∈ sh.fields, f.Uniform) {ms : List Tree.Member}
    (hms : Spells (.members false ms) s rest) (d : δ) :
    (keyView (nextKey s)).bind (fromKey sh.member d) =
      (sh.fill (some d) ms).map fun e => (e, rest) := by
  induction ms generalizing d s with
  | nil =>
    cases hms with
    | objectEnd hend =>
      obtain ⟨b, hb, rfl⟩ := nextKey_finish (hend.opens_cons rfl)
      rw [hb]
      rfl
  | cons m ms ih =>
    cases hms with
    | member hcomma hname hcolon ht hms =>
      obtain ⟨k, hk, hrest⟩ := nextKey_further (Pads.opens_cons hcomma rfl) (hname.opens_cons rfl)
      rw [hk]
      show view (members sh.member d k.rest) = _
      rw [hrest]
      exact view_members h d hcolon ht hms.endsNumber_members (ih hms)

theorem view_openObject (h : ∀ f ∈ sh.fields, f.Uniform) {ms : List Tree.Member}
    (hms : Spells (.members true ms) s rest) (d : δ) :
    view (openObject sh.member d s) = (sh.fill (some d) ms).map fun e => (e, rest) := by
  rw [view_openObject_eq]
  cases hms with
  | objectEnd hend =>
    obtain ⟨b, hb, rfl⟩ := firstKey_finish (hend.opens_cons rfl)
    rw [hb]
    rfl
  | member hcomma hname hcolon ht hms =>
    obtain rfl : s = _ := hcomma
    obtain ⟨k, hk, hrest⟩ := firstKey_key (hname.opens_cons rfl)
    rw [hk]
    show view (members sh.member d k.rest) = _
    rw [hrest]
    exact view_members h d hcolon ht hms.endsNumber_members (view_nextKey h hms)

/-- The draft that the elements of an open list have filled, and the end of the list. -/
def closed? (x : Except Fault (δ × Nat × Rest s)) : Option (δ × List Char) :=
  x.toOption.bind fun p => (view (closeList p.2.2.chars)).map fun c => (p.1, c.2)

theorem view_closeList {c : Char} (h : Opens s c t) (hc : c ≠ ']') :
    view (closeList s) = none := by
  obtain ⟨r, hr, hrc, rfl⟩ := h
  apply view_eq_none_iff.mpr
  rw [closeList, hr]
  dsimp only
  rw [if_neg (hrc ▸ hc)]
  split
  · cases next? r.rest with
    | none => exact ⟨_, rfl⟩
    | some q =>
      dsimp only
      split <;> exact ⟨_, rfl⟩
  · exact ⟨_, rfl⟩

/-- NO list is closed where an element stands. -/
theorem view_closeList_element {first : Bool} {t : Tree} {ts : List Tree}
    (h : Spells (.elements first (t :: ts)) s rest) : view (closeList s) = none := by
  cases h with
  | element hcomma ht hts =>
    cases first with
    | true =>
      obtain rfl : s = _ := hcomma
      obtain ⟨c, w, hopen, hb⟩ := ht.opens
      exact view_closeList hopen (Tree.ne_of_begins hb (by cases t <;> rfl))
    | false => exact view_closeList (Pads.opens_cons hcomma rfl) (by simp)

theorem closed?_positional {fields : List (Field δ)} (h : ∀ f ∈ fields, f.Uniform) (first : Bool)
    (d : δ) {ts : List Tree} (hts : Spells (.elements first ts) s rest) :
    closed? (positional fields first d s) = (fillList fields d ts).map fun e => (e, rest) := by
  induction fields generalizing first d s ts with
  | nil =>
    show (view (closeList s)).map _ = _
    cases ts with
    | nil =>
      cases hts with
      | listEnd hend =>
        obtain ⟨c, hc, rfl⟩ := closeList_of_opens (hend.opens_cons rfl)
        rw [hc]
        rfl
    | cons t ts =>
      rw [view_closeList_element hts]
      rfl
  | cons f fields ih =>
    obtain ⟨hf, hfields⟩ := List.forall_mem_cons.mp h
    cases hts with
    | listEnd hend =>
      obtain ⟨c, hc, rfl⟩ := closeList_of_opens (hend.opens_cons rfl)
      rw [positional, element?_end first (hend.opens_cons rfl)]
      show (view (closeList s)).map _ = _
      rw [hc]
      rfl
    | @element _ _ u v _ t ts hcomma ht hts =>
      obtain ⟨r, hr, hvalue⟩ := Spells.element? hcomma ht
      have hread : view (f.read d r.chars) = (t.as (f.read d)).map fun e => (e, v) :=
        hf d t r.chars v hvalue hts.endsNumber_elements
      rw [positional, hr, fillList]
      dsimp only [bind, Except.bind]
      cases hq : f.read d r.chars with
      | error e =>
        rw [hq] at hread
        have hnone : t.as (f.read d) = none := Option.map_eq_none_iff.mp hread.symm
        rw [hnone]
        rfl
      | ok q =>
        rw [hq] at hread
        obtain ⟨e, he, hqe⟩ := Option.map_eq_some_iff.mp hread.symm
        obtain ⟨rfl, rfl⟩ := Prod.mk.inj hqe
        have hlater := ih hfields false q.value hts
        rw [he]
        show _ = (fillList fields q.value ts).map _
        rw [← hlater]
        dsimp only
        cases positional fields false q.value q.rest <;> rfl

/-- A record is what its members, or its elements, make of a blank draft. -/
theorem means_read (h : ∀ f ∈ sh.fields, f.Uniform) : Means sh.read sh.tree? := by
  intro t s rest hs hr
  cases t with
  | object ms =>
    cases hs with
    | object hs hms =>
      apply (hs.opens_cons rfl).view_eq
      intro t hc ht
      rw [if_pos hc, view_bind (g := fun d => (sh.finished? d.1).map fun a => (a, d.2)),
        view_openObject h (ht ▸ hms), tree?]
      · cases sh.fill (some sh.blank) ms <;> rfl
      · intro d
        dsimp only
        rw [finished?]
        cases sh.finish d.value <;> rfl
  | list ts =>
    cases hs with
    | list hs hts =>
      apply (hs.opens_cons rfl).view_eq
      intro t hc ht
      rw [hc, if_neg (by simp), if_pos rfl]
      have hclosed := closed?_positional h true sh.blank (ht ▸ hts)
      have hfinish : (sh.tree? (.list ts)).map (fun a => (a, rest)) =
          (closed? (positional sh.fields true sh.blank t.rest)).bind fun p =>
            (sh.finished? p.1).map fun a => (a, p.2) := by
        rw [hclosed, tree?]
        cases fillList sh.fields sh.blank ts <;> rfl
      rw [hfinish]
      cases positional sh.fields true sh.blank t.rest with
      | error e => rfl
      | ok p =>
        have hclosing : closed? (.ok p) = (view (closeList p.2.2.chars)).map fun c => (p.1, c.2) :=
          rfl
        rw [hclosing]
        dsimp only [bind, Except.bind]
        cases closeList p.2.2.chars with
        | error e => rfl
        | ok c =>
          show _ = (sh.finished? p.1).map fun a => (a, c.rest)
          rw [finished?]
          dsimp only
          cases sh.finish p.1 <;> rfl
  | null | boolean | number | text =>
    apply hs.view_eq_none
    intro r hb
    rw [if_neg (Tree.ne_of_begins hb rfl), if_neg (Tree.ne_of_begins hb rfl)]
    exact ⟨_, rfl⟩

end Shape

/-! ## Whole texts -/

theorem Pads.next?_eq_none (h : Pads s []) : next? s = none := by
  generalize ht : ([] : List Char) = t at h
  induction h with
  | refl => rw [← ht]; rfl
  | cons hb _ ih => rw [next?, hb, ih ht]; rfl

theorem Pads.endsNumber_of_nil (h : Pads s []) : EndsNumber s := by
  cases h with
  | refl => exact endsNumber_nil
  | cons hb _ => exact endsNumber_of_isBlank hb _

/-- However a tree is spelled, a whole text of it is read as what it means, or not at all. -/
theorem Means.readAll {read : Reader α} {m : Tree → Option α} (h : Means read m) {t : Tree}
    {text : String} (ht : t.SpelledBy text) : (readAll read text.toList).toOption = m t := by
  obtain ⟨rest, hs, hrest⟩ := ht
  have hview := h t _ rest hs hrest.endsNumber_of_nil
  rw [Json.readAll]
  cases hr : read text.toList with
  | error e =>
    rw [hr] at hview
    exact (Option.map_eq_none_iff.mp hview.symm).symm
  | ok r =>
    rw [hr] at hview
    obtain ⟨a, ha, hra⟩ := Option.map_eq_some_iff.mp hview.symm
    obtain ⟨rfl, rfl⟩ := Prod.mk.inj hra
    dsimp only [bind, Except.bind]
    rw [hrest.next?_eq_none, ha]
    rfl

end DragDrop.Json
