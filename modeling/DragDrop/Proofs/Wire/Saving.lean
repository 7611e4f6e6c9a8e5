import DragDrop.Proofs.Wire.Highlight

/-! What a saved list of highlights says. It is refused for the FIRST highlight that has a
number in it which JSON cannot write, whichever number that is and whether the bar would ever
look at it. What is not refused is a list with an object for each highlight, in which every
number is a number, and nothing stands for a side that was not declared. -/

namespace DragDrop

open Json

/-- The value is a number, with the shortest digits of this double. -/
def Json.Tree.IsDouble (t : Tree) (x : Float) : Prop :=
  ∃ n, t = .number n ∧ n.chars = jsonStyle.text x

theorem Json.Value.isDouble_tree {x : Float} (h : x.isFinite = true) :
    (Value.double x).tree.IsDouble x :=
  ⟨.ofDouble x h, tree_double h, Numeral.chars_ofDouble h⟩

namespace DropZone

/-- The names of the sides that are declared. -/
def declaredNames (z : DropZone Float) : List String :=
  [("top", z.top), ("bottom", z.bottom), ("left", z.left), ("right", z.right)].filterMap
    fun side => side.2.map fun _ => side.1

/-- An object with a number for each side that is declared, and nothing else. -/
structure Recorded (z : DropZone Float) (t : Tree) : Prop where
  names : t.names? = some z.declaredNames
  top : Option.Rel Tree.IsDouble (t.member? "top") z.top
  bottom : Option.Rel Tree.IsDouble (t.member? "bottom") z.bottom
  left : Option.Rel Tree.IsDouble (t.member? "left") z.left
  right : Option.Rel Tree.IsDouble (t.member? "right") z.right

/-- The members of a zone are its declared sides. -/
theorem lookup_members (z : DropZone Float) : ∃ ms, z.toJson = .object ms ∧
    ms.map Prod.fst = z.declaredNames ∧ ms.lookup "top" = z.top.map .double ∧
    ms.lookup "bottom" = z.bottom.map .double ∧ ms.lookup "left" = z.left.map .double ∧
    ms.lookup "right" = z.right.map .double := by
  refine ⟨_, rfl, ?_⟩
  obtain ⟨top, bottom, left, right⟩ := z
  cases top <;> cases bottom <;> cases left <;> cases right <;> exact ⟨rfl, rfl, rfl, rfl, rfl⟩

theorem recorded_toJson {z : DropZone Float} (h : ∀ x ∈ z.declared, x.isFinite = true) :
    z.Recorded z.toJson.tree := by
  have hside {side : Option Float} (hs : ∀ x ∈ side, x.isFinite = true) :
      Option.Rel Tree.IsDouble ((side.map Value.double).map Value.tree) side := by
    cases side with
    | none => exact .none
    | some x => exact .some (Value.isDouble_tree (hs x rfl))
  obtain ⟨htop, hbottom, hleft, hright⟩ := forall_mem_declared.mp h
  obtain ⟨ms, hms, hnames, ht, hb, hl, hr⟩ := z.lookup_members
  rw [hms]
  exact {
    names := by rw [Tree.names?_tree, hnames]
    top := by rw [Tree.member?_tree, ht]; exact hside htop
    bottom := by rw [Tree.member?_tree, hb]; exact hside hbottom
    left := by rw [Tree.member?_tree, hl]; exact hside hleft
    right := by rw [Tree.member?_tree, hr]; exact hside hright }

end DropZone

namespace Highlight

/-- An object that says all of a highlight: its numbers as numbers, and as texts the names
that belong to its slot. -/
structure Recorded (h : Highlight Float) (t : Tree) : Prop where
  names : t.names? = some ["isVertical", "posX", "posY", "width", "height", "dropZone",
    "alignment", "canvasId", "layoutOrder", "rowIndex"]
  orientation : t.member? "isVertical" = some (.boolean h.isVertical)
  x : ∃ v ∈ t.member? "posX", v.IsDouble h.bar.x
  y : ∃ v ∈ t.member? "posY", v.IsDouble h.bar.y
  width : ∃ v ∈ t.member? "width", v.IsDouble h.bar.width
  height : ∃ v ∈ t.member? "height", v.IsDouble h.bar.height
  zone : ∃ v ∈ t.member? "dropZone", h.bar.zone.Recorded v
  alignment : ∃ v ∈ t.member? "alignment", v.choice? Alignment.names = some h.slot.alignment
  canvas : ∃ v ∈ t.member? "canvasId", v.text? = some h.slot.canvas.text
  path : ∃ v ∈ t.member? "layoutOrder", v.list? Tree.text? = some (h.slot.path.map LayoutId.text)
  row : ∃ n, t.member? "rowIndex" = some (.number n) ∧ n.chars = Nat.toDigits 10 h.slot.row

/-- The path in its text is the path, name by name. -/
theorem list?_path (path : List LayoutId) :
    (Value.list (path.map LayoutId.toJson)).tree.list? Tree.text? =
      some (path.map LayoutId.text) := by
  rw [← (means_list means_text).as_eq]
  exact Value.as_list means_text fun l _ => Value.as_text l.text

theorem chars_row (row : Nat) : (Numeral.ofInt row).chars = Nat.toDigits 10 row := by
  rw [Numeral.chars_ofInt, Value.writeInteger, if_neg (by omega)]
  rfl

theorem choice?_alignment (a : Alignment) : a.toJson.tree.choice? Alignment.names = some a :=
  ((means_choice Alignment.names).as_eq _).symm.trans a.as_toJson

theorem recorded_toJson {h : Highlight Float} (hfin : h.isFinite = true) :
    h.Recorded h.toJson.tree := by
  rw [isFinite, List.all_eq_true, forall_mem_numbers] at hfin
  obtain ⟨hx, hy, hw, hh, hz⟩ := hfin
  rw [toJson, Record.toJson]
  exact {
    names := Tree.names?_tree _
    orientation := Tree.member?_tree _ _
    x := ⟨_, Tree.member?_tree _ _, Value.isDouble_tree hx⟩
    y := ⟨_, Tree.member?_tree _ _, Value.isDouble_tree hy⟩
    width := ⟨_, Tree.member?_tree _ _, Value.isDouble_tree hw⟩
    height := ⟨_, Tree.member?_tree _ _, Value.isDouble_tree hh⟩
    zone := ⟨_, Tree.member?_tree _ _, DropZone.recorded_toJson hz⟩
    alignment := ⟨_, Tree.member?_tree _ _, choice?_alignment _⟩
    canvas := ⟨_, Tree.member?_tree _ _, Piece.text?_ofText _⟩
    path := ⟨_, Tree.member?_tree _ _, list?_path _⟩
    row := ⟨_, Tree.member?_tree _ _, chars_row _⟩ }

/-- This is one of the numbers of the highlight. A tolerance is one where it is declared,
on WHICHEVER side of the bar. -/
inductive Carries (h : Highlight Float) : Float → Prop
  | x : Carries h h.bar.x
  | y : Carries h h.bar.y
  | width : Carries h h.bar.width
  | height : Carries h h.bar.height
  | top {t : Float} (declared : h.bar.zone.top = some t) : Carries h t
  | bottom {t : Float} (declared : h.bar.zone.bottom = some t) : Carries h t
  | left {t : Float} (declared : h.bar.zone.left = some t) : Carries h t
  | right {t : Float} (declared : h.bar.zone.right = some t) : Carries h t

/-- Some number of the highlight has no writing. -/
def Unwritable (h : Highlight Float) : Prop :=
  ∃ x, h.Carries x ∧ (x.isNaN = true ∨ x.isInf = true)

theorem forall_mem_numbers_iff_carries {h : Highlight Float} {P : Float → Prop} :
    (∀ x ∈ h.numbers, P x) ↔ ∀ x, h.Carries x → P x := by
  rw [forall_mem_numbers, DropZone.forall_mem_declared]
  constructor
  · rintro ⟨hx, hy, hw, hh, ht, hb, hl, hr⟩ x hc
    cases hc with
    | x => exact hx
    | y => exact hy
    | width => exact hw
    | height => exact hh
    | top declared => exact ht x declared
    | bottom declared => exact hb x declared
    | left declared => exact hl x declared
    | right declared => exact hr x declared
  · intro hall
    exact ⟨hall _ .x, hall _ .y, hall _ .width, hall _ .height, fun _ hs => hall _ (.top hs),
      fun _ hs => hall _ (.bottom hs), fun _ hs => hall _ (.left hs),
      fun _ hs => hall _ (.right hs)⟩

theorem isFinite_eq_true_iff {h : Highlight Float} : h.isFinite = true ↔ ¬h.Unwritable := by
  rw [isFinite, List.all_eq_true, forall_mem_numbers_iff_carries, Unwritable, not_exists]
  refine forall_congr' fun x => ?_
  simp only [Double.isFinite_iff_not_isInf, not_and, not_or, Bool.not_eq_true]

theorem isFinite_eq_false_iff {h : Highlight Float} : h.isFinite = false ↔ h.Unwritable := by
  rw [← Bool.not_eq_true, isFinite_eq_true_iff, not_not]

end Highlight

namespace HighlightList

/-- The highlight that is found is the first that cannot be written. -/
theorem findIdx?_eq_some_iff {hs : List (Highlight Float)} {i : Nat} :
    hs.findIdx? (!·.isFinite) = some i ↔ ∃ h, hs[i]? = some h ∧ h.Unwritable ∧
      ∀ j < i, ∀ g ∈ hs[j]?, ¬g.Unwritable := by
  simp only [List.findIdx?_eq_some_iff_getElem, Bool.not_eq_true',
    Highlight.isFinite_eq_false_iff]
  constructor
  · rintro ⟨hi, hu, hbefore⟩
    refine ⟨hs[i], List.getElem?_eq_getElem hi, hu, ?_⟩
    intro j hj g hg
    obtain ⟨hlt, rfl⟩ := List.getElem?_eq_some_iff.mp hg
    exact hbefore j hj
  · rintro ⟨h, hh, hu, hbefore⟩
    obtain ⟨hi, rfl⟩ := List.getElem?_eq_some_iff.mp hh
    exact ⟨hi, hu, fun j hj => hbefore j hj _ (List.getElem?_eq_getElem (hj.trans hi))⟩

theorem encode_eq_error_iff {hs : List (Highlight Float)} {message : String} :
    encode hs = .error message ↔
      ∃ i, hs.findIdx? (!·.isFinite) = some i ∧ NotFinite.message ⟨i⟩ = message := by
  rw [encode, write]
  cases hs.findIdx? (!·.isFinite) with
  | none =>
    constructor
    · intro h
      cases h
    · rintro ⟨_, h, -⟩
      cases h
  | some i =>
    constructor
    · intro h
      exact ⟨i, rfl, Except.error.inj h⟩
    · rintro ⟨j, hj, rfl⟩
      obtain rfl := Option.some.inj hj
      rfl

/-- There is only one text that a list is saved as. -/
theorem encode_eq_ok_iff {hs : List (Highlight Float)} {text : String} :
    encode hs = .ok text ↔ (∀ h ∈ hs, h.isFinite = true) ∧
      (Value.list (hs.map Highlight.toJson)).indented = text := by
  constructor
  · intro h
    have hnone : hs.findIdx? (!·.isFinite) = none := by
      rw [encode, write] at h
      split at h
      · cases h
      · assumption
    have hfin : ∀ h ∈ hs, h.isFinite = true := by
      simpa only [List.findIdx?_eq_none_iff, Bool.not_eq_false'] using hnone
    rw [encode, write_eq hfin] at h
    exact ⟨hfin, Except.ok.inj h⟩
  · rintro ⟨hfin, rfl⟩
    rw [encode, write_eq hfin]
    rfl

/-- A list of finite highlights stands in its text with all that they are. -/
theorem recorded_list {hs : List (Highlight Float)} (hfin : ∀ h ∈ hs, h.isFinite = true) :
    ∃ ts, (Value.list (hs.map Highlight.toJson)).tree = .list ts ∧
      List.Forall₂ Highlight.Recorded hs ts := by
  refine ⟨_, rfl, ?_⟩
  rw [Value.trees_eq_map, List.map_map, List.forall₂_map_right_iff, List.forall₂_same]
  intro h hh
  exact Highlight.recorded_toJson (hfin h hh)

/-- A list is refused if and only if some highlight cannot be written, and for the first
such highlight. A list that is not refused is written with an object for each highlight,
in their order. -/
theorem encode_spec (hs : List (Highlight Float)) :
    ((∃ message, encode hs = .error message) ↔ ∃ h ∈ hs, h.Unwritable) ∧
    (∀ message, encode hs = .error message → ∃ (i : Nat) (h : Highlight Float),
      hs[i]? = some h ∧ h.Unwritable ∧ (∀ j < i, ∀ g ∈ hs[j]?, ¬g.Unwritable) ∧
      message = s!"highlight {i} has non-finite geometry") ∧
    ∀ text, encode hs = .ok text →
      ∃ ts, (Tree.list ts).SpelledBy text ∧ List.Forall₂ Highlight.Recorded hs ts := by
  refine ⟨⟨?refused, ?refuses⟩, ?first, ?saved⟩
  case refused =>
    rintro ⟨message, herror⟩
    obtain ⟨i, hi, -⟩ := encode_eq_error_iff.mp herror
    obtain ⟨h, hh, hu, -⟩ := findIdx?_eq_some_iff.mp hi
    exact ⟨h, List.mem_of_getElem? hh, hu⟩
  case refuses =>
    rintro ⟨h, hmem, hu⟩
    cases hsaved : encode hs with
    | error message => exact ⟨message, rfl⟩
    | ok text =>
      have hfin := (encode_eq_ok_iff.mp hsaved).1 h hmem
      exact absurd hu (Highlight.isFinite_eq_true_iff.mp hfin)
  case first =>
    intro message herror
    obtain ⟨i, hi, rfl⟩ := encode_eq_error_iff.mp herror
    obtain ⟨h, hh, hu, hbefore⟩ := findIdx?_eq_some_iff.mp hi
    exact ⟨i, h, hh, hu, hbefore, rfl⟩
  case saved =>
    intro text hsaved
    obtain ⟨hfin, rfl⟩ := encode_eq_ok_iff.mp hsaved
    obtain ⟨ts, hts, hrecorded⟩ := recorded_list hfin
    refine ⟨ts, ?_, hrecorded⟩
    rw [← hts]
    exact Value.spelledBy_indented _

/-- The second is a standing bar with a tolerance below it, at which nothing ever looks. -/
def patchy : List (Highlight Float) := [
  .vertical { x := 1, y := 2, width := 4, height := 30 },
  .vertical { x := 1, y := 2, width := 4, height := 30, zone := { bottom := some (0 / 0) } },
  .horizontal { x := 1, y := 2, width := 4, height := 30 },
  .horizontal { x := 1 / 0, y := 2, width := 4, height := 30 }]

/-- It is that tolerance for which the list is refused; a list with the most awkward of finite
highlights in it is not. -/
theorem encode_spec_patchy :
    encode patchy = .error "highlight 1 has non-finite geometry" ∧
    ∃ text, encode ragged = .ok text ∧
      ∃ ts, (Tree.list ts).SpelledBy text ∧ List.Forall₂ Highlight.Recorded ragged ts := by
  obtain ⟨hrefused, hfirst, -⟩ := encode_spec patchy
  have hsecond : Highlight.Unwritable patchy[1] :=
    ⟨0 / 0, .bottom rfl, .inl (by decide +kernel)⟩
  constructor
  · obtain ⟨message, herror⟩ := hrefused.mpr ⟨patchy[1], List.getElem_mem _, hsecond⟩
    obtain ⟨i, h, hh, hu, hbefore, rfl⟩ := hfirst message herror
    rcases Nat.lt_trichotomy i 1 with hi | rfl | hi
    · obtain rfl : i = 0 := by omega
      have hfin : (patchy[0]?.all Highlight.isFinite) = true := by decide +kernel
      rw [hh] at hfin
      exact absurd hu (Highlight.isFinite_eq_true_iff.mp hfin)
    · exact herror
    · exact absurd hsecond (hbefore 1 hi _ rfl)
  · obtain ⟨text, hsaved, -⟩ : ∃ text, encode ragged = .ok text ∧ decode text = .ok _ :=
      decode_encode (by decide +kernel) (by decide +kernel)
    exact ⟨text, hsaved, (encode_spec ragged).2.2 text hsaved⟩

end HighlightList

end DragDrop
