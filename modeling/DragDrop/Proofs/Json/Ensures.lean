import DragDrop.Json.Compound
import DragDrop.Proofs.Decimal.Finite

/-! What is true of everything that a reader accepts, whatever the text is. A property
of the parts carries over to the whole: to the elements of a list, and to a record if
every field KEEPS what holds of the drafts. Nothing is said here about which texts are
accepted. -/

namespace DragDrop.Json

variable {α β δ ε : Type}

theorem of_bind_eq_ok {x : Except ε α} {f : α → Except ε β} {b : β} (h : x >>= f = .ok b) :
    ∃ a, x = .ok a ∧ f a = .ok b := by
  cases x with
  | error e => cases h
  | ok a => exact ⟨a, rfl, h⟩

theorem of_map_eq_ok {x : Except ε α} {f : α → β} {b : β} (h : x.map f = .ok b) :
    ∃ a, x = .ok a ∧ f a = b := by
  cases x with
  | error e => cases h
  | ok a => exact ⟨a, rfl, Except.ok.inj h⟩

/-- Whatever is read has this property. -/
def Ensures (read : Reader α) (P : α → Prop) : Prop := ∀ s r, read s = .ok r → P r.value

theorem Ensures.map {read : Reader α} {f : α → β} {P : β → Prop}
    (h : Ensures read fun a => P (f a)) : Ensures (read.map f) P := by
  intro s r hr
  obtain ⟨q, hq, rfl⟩ := of_map_eq_ok hr
  exact h s q hq

theorem Ensures.mono {read : Reader α} {P Q : α → Prop} (h : Ensures read P)
    (hPQ : ∀ a, P a → Q a) : Ensures read Q := by
  intro s r hr
  exact hPQ _ (h s r hr)

theorem ensures_true (read : Reader α) : Ensures read fun _ => True := fun _ _ _ => trivial

/-- A reader that looks at the first character ensures what it does from there on. -/
theorem ensures_onValue {read : (s : List Char) → Read s Char → Except Fault (Read s α)}
    {P : α → Prop} (h : ∀ s t r, read s t = .ok r → P r.value) :
    Ensures (fun s => onValue (read s)) P := by
  intro s r hr
  dsimp only [onValue] at hr
  split at hr
  · cases hr
  · exact h s _ r hr

/-! ## Numbers -/

theorem isFinite_of_openNumber {s : List Char} {r : Read s Number} (h : openNumber s = .ok r) :
    r.value.toFloat.isFinite = true := by
  obtain ⟨l, -, hl⟩ := of_bind_eq_ok h
  split at hl
  · rename_i n hn
    obtain rfl := Except.ok.inj hl
    exact Literal.isFinite_number hn
  · cases hl

/-- NO double that is read is infinite, and none is no number. -/
theorem ensures_double : Ensures readDouble fun x => x.isFinite = true := by
  apply ensures_onValue
  intro s t r hr
  split at hr
  · obtain ⟨n, hn, hr⟩ := of_bind_eq_ok hr
    obtain rfl := Except.ok.inj hr
    exact isFinite_of_openNumber hn
  · cases hr

/-! ## Values with parts -/

theorem ensures_optional {read : Reader α} {P : α → Prop} (h : Ensures read P) :
    Ensures (readOptional read) fun o => ∀ a ∈ o, P a := by
  have hsome : Ensures (read.map some) fun o => ∀ a ∈ o, P a := by
    apply Ensures.map
    refine h.mono ?_
    rintro a ha _ ⟨⟩
    exact ha
  intro s r hr
  unfold readOptional at hr
  split at hr
  · split at hr
    · obtain ⟨q, -, rfl⟩ := of_map_eq_ok hr
      rintro a ⟨⟩
    · exact hsome s r hr
  · exact hsome s r hr

theorem all_of_elements {read : Reader α} {P : α → Prop} (h : Ensures read P) {first : Bool}
    {s : List Char} {r : Read s (List α)} (hr : elements read first s = .ok r) :
    ∀ a ∈ r.value, P a := by
  -- The text gets shorter with every element.
  induction hn : s.length using Nat.strong_induction_on generalizing first s with
  | _ n ih =>
    rw [elements] at hr
    obtain ⟨o, -, hr⟩ := of_bind_eq_ok hr
    cases o with
    | none =>
      obtain ⟨c, -, hr⟩ := of_bind_eq_ok hr
      obtain rfl := Except.ok.inj hr
      exact fun a ha => absurd ha List.not_mem_nil
    | some rest =>
      obtain ⟨a, ha, hr⟩ := of_bind_eq_ok hr
      obtain ⟨l, hl, hr⟩ := of_bind_eq_ok hr
      obtain rfl := Except.ok.inj hr
      have hlt : a.rest.length < n := by
        have := a.shorter
        have := rest.notLonger
        omega
      exact List.forall_mem_cons.mpr ⟨h _ a ha, ih _ hlt hl rfl⟩

theorem ensures_list {read : Reader α} {P : α → Prop} (h : Ensures read P) :
    Ensures (readList read) fun as => ∀ a ∈ as, P a := by
  apply ensures_onValue
  intro s t r hr
  split at hr
  · obtain ⟨q, hq, rfl⟩ := of_map_eq_ok hr
    have hall := all_of_elements h hq
    exact hall
  · cases hr

theorem ensures_afterColon {read : Reader α} {P : α → Prop} (h : Ensures read P) :
    Ensures (afterColon read) P := by
  intro s r hr
  obtain ⟨c, -, hr⟩ := of_bind_eq_ok hr
  obtain ⟨v, hv, hr⟩ := of_bind_eq_ok hr
  obtain rfl := Except.ok.inj hr
  exact h _ v hv

/-- What every member keeps is true behind the last one. -/
theorem keeps_members {member : Member δ} {I : δ → Prop}
    (h : ∀ name d, I d → Ensures (member name d) I) {d : δ} {s : List Char} {r : Read s δ}
    (hd : I d) (hr : members member d s = .ok r) : I r.value := by
  -- The text gets shorter with every member.
  induction hn : s.length using Nat.strong_induction_on generalizing d s with
  | _ n ih =>
    rw [members] at hr
    obtain ⟨name, -, hr⟩ := of_bind_eq_ok hr
    obtain ⟨e, he, hr⟩ := of_bind_eq_ok hr
    obtain ⟨k, -, hr⟩ := of_bind_eq_ok hr
    have hkeeps : I e.value := h _ _ hd _ e he
    cases k with
    | finish b =>
      obtain rfl := Except.ok.inj hr
      exact hkeeps
    | key k =>
      obtain ⟨l, hl, hr⟩ := of_bind_eq_ok hr
      obtain rfl := Except.ok.inj hr
      have hlt : k.rest.length < n := by
        have := name.shorter
        have := e.shorter
        have := k.shorter
        omega
      have hlater := ih _ hlt hkeeps hl rfl
      exact hlater

theorem keeps_openObject {member : Member δ} {I : δ → Prop}
    (h : ∀ name d, I d → Ensures (member name d) I) {d : δ} {s : List Char} {r : Read s δ}
    (hd : I d) (hr : openObject member d s = .ok r) : I r.value := by
  obtain ⟨k, -, hr⟩ := of_bind_eq_ok hr
  cases k with
  | finish b =>
    obtain rfl := Except.ok.inj hr
    exact hd
  | key k =>
    obtain ⟨l, hl, hr⟩ := of_bind_eq_ok hr
    obtain rfl := Except.ok.inj hr
    have hlater := keeps_members h hd hl
    exact hlater

/-- A field keeps what holds of the drafts. -/
def Field.Keeps (f : Field δ) (I : δ → Prop) : Prop := ∀ d, I d → Ensures (f.read d) I

theorem Field.keeps_of {name : String} {get : δ → Option β} {set : δ → β → δ} {read : Reader β}
    {P : β → Prop} {I : δ → Prop} (h : Ensures read P) (hset : ∀ d b, I d → P b → I (set d b)) :
    (Field.of name get set read).Keeps I := by
  intro d hd
  apply Ensures.map
  exact h.mono fun b hb => hset d b hd hb

namespace Shape

variable {sh : Shape δ α} {I : δ → Prop}

theorem ensures_member (h : ∀ f ∈ sh.fields, f.Keeps I) (name : String) (d : δ) (hd : I d) :
    Ensures (sh.member name d) I := by
  intro s r hr
  unfold member at hr
  split at hr
  · rename_i f hf
    split at hr
    · cases hr
    · exact ensures_afterColon (h f (List.mem_of_find?_eq_some hf) d hd) s r hr
  · obtain ⟨q, -, rfl⟩ := of_map_eq_ok hr
    exact hd

theorem keeps_positional {fields : List (Field δ)} (h : ∀ f ∈ fields, f.Keeps I) {first : Bool}
    {d : δ} {s : List Char} {r : δ × Nat × Rest s} (hd : I d)
    (hr : positional fields first d s = .ok r) : I r.1 := by
  induction fields generalizing first d s with
  | nil =>
    obtain rfl := Except.ok.inj hr
    exact hd
  | cons f fs ih =>
    obtain ⟨hf, hfs⟩ := List.forall_mem_cons.mp h
    obtain ⟨o, -, hr⟩ := of_bind_eq_ok hr
    cases o with
    | none =>
      obtain rfl := Except.ok.inj hr
      exact hd
    | some rest =>
      obtain ⟨v, hv, hr⟩ := of_bind_eq_ok hr
      obtain ⟨q, hq, hr⟩ := of_bind_eq_ok hr
      obtain rfl := Except.ok.inj hr
      have hlater := ih hfs (hf d hd _ v hv) hq
      exact hlater

/-- A record is made of a draft that was kept by every field, in either form. -/
theorem ensures_read {P : α → Prop} (hblank : I sh.blank) (h : ∀ f ∈ sh.fields, f.Keeps I)
    (hfinish : ∀ d a, I d → sh.finish d = .ok a → P a) : Ensures sh.read P := by
  apply ensures_onValue
  intro s t r hr
  split at hr
  · obtain ⟨d, hd, hr⟩ := of_bind_eq_ok hr
    have hI := keeps_openObject (ensures_member h) hblank hd
    split at hr
    · rename_i a ha
      obtain rfl := Except.ok.inj hr
      exact hfinish _ a hI ha
    · cases hr
  · split at hr
    · obtain ⟨d, hd, hr⟩ := of_bind_eq_ok hr
      obtain ⟨c, -, hr⟩ := of_bind_eq_ok hr
      have hI := keeps_positional h hblank hd
      split at hr
      · rename_i a ha
        obtain rfl := Except.ok.inj hr
        exact hfinish _ a hI ha
      · cases hr
    · cases hr

end Shape

theorem Ensures.readAll {read : Reader α} {P : α → Prop} (h : Ensures read P) {s : List Char}
    {a : α} (ha : readAll read s = .ok a) : P a := by
  obtain ⟨r, hr, ha⟩ := of_bind_eq_ok ha
  split at ha
  · obtain rfl := Except.ok.inj ha
    exact h s r hr
  · cases ha

end DragDrop.Json
