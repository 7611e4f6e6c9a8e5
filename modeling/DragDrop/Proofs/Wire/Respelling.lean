import DragDrop.Proofs.Json.Respelling
import DragDrop.Proofs.Wire.Normal

/-! A list of highlights means the same however it is spelled: blanks, the order of the
members, members that nobody knows, and what is left out because it is the default do not
matter. Whether the list is read at all is part of what it means. -/

namespace DragDrop

open Json

namespace DropZone

/-- The same zone, as objects. A side that is not declared can be there as `null`. -/
def Respelled : List Tree.Member → List Tree.Member → Prop :=
  Json.Respelled shape.known (fun _ t => t = .null) fun _ _ => False

theorem orderless_shape : shape.Orderless where
  uniform := uniform_shape
  once f hf := by
    simp only [shape, List.mem_cons, List.not_mem_nil, or_false] at hf
    rcases hf with rfl | rfl | rfl | rfl <;> exact Field.once_of fun _ _ => rfl
  apart := by
    simp only [shape, List.pairwise_cons, List.forall_mem_cons, List.Pairwise.nil,
      List.not_mem_nil, false_imp_iff, implies_true, and_true]
    and_intros <;> exact Field.apart_of (fun _ _ => rfl) (fun _ _ => rfl) fun _ _ _ => rfl
  blank f hf := by
    simp only [shape, List.mem_cons, List.not_mem_nil, or_false] at hf
    rcases hf with rfl | rfl | rfl | rfl <;> rfl

theorem defaults_shape : shape.Defaults fun _ t => t = .null := by
  rintro name f _ d hf rfl hset
  replace hf := List.mem_of_find?_eq_some hf
  have hnull : Tree.null.as (readOptional readDouble) = some none :=
    (means_optional means_double).as_eq .null
  obtain ⟨top, bottom, left, right⟩ := d
  simp only [shape, List.mem_cons, List.not_mem_nil, or_false] at hf
  rcases hf with rfl | rfl | rfl | rfl <;> rw [Field.as_of, hnull]
  · obtain rfl : top = none := Field.get_eq_none hset
    exact ⟨_, rfl, rfl⟩
  · obtain rfl : bottom = none := Field.get_eq_none hset
    exact ⟨_, rfl, rfl⟩
  · obtain rfl : left = none := Field.get_eq_none hset
    exact ⟨_, rfl, rfl⟩
  · obtain rfl : right = none := Field.get_eq_none hset
    exact ⟨_, rfl, rfl⟩

theorem as_respelled {zs zs' : List Tree.Member} (h : Respelled zs zs') :
    (Tree.object zs).as fromJson = (Tree.object zs').as fromJson := by
  rw [means_fromJson.as_eq, means_fromJson.as_eq]
  exact Shape.tree?_respelled orderless_shape defaults_shape (fun _ _ h => h.elim) h

end DropZone

namespace Record

/-- What can be left out of a record. A default can be spelled in any way that spells it. -/
inductive IsDefault : String → Tree → Prop
  | zone : IsDefault "dropZone" (.object [])
  | alignment {ps : List Piece} (h : Piece.text? ps = some "none") :
    IsDefault "alignment" (.text ps)
  | canvas {ps : List Piece} (h : Piece.text? ps = some "0") : IsDefault "canvasId" (.text ps)
  | path : IsDefault "layoutOrder" (.list [])
  | row {n : Numeral} (h : n.number? = some (.integer 0)) : IsDefault "rowIndex" (.number n)

/-- The same zone in the same place. -/
inductive Alike : Tree.Member → Tree.Member → Prop
  | zone {ps : List Piece} {zs zs' : List Tree.Member} (hname : Piece.text? ps = some "dropZone")
    (h : DropZone.Respelled zs zs') : Alike (ps, .object zs) (ps, .object zs')

/-- The same record, as objects. -/
def Respelled : List Tree.Member → List Tree.Member → Prop :=
  Json.Respelled shape.known IsDefault Alike

theorem orderless_shape : shape.Orderless where
  uniform := uniform_shape
  once f hf := by
    simp only [shape, List.mem_cons, List.not_mem_nil, or_false] at hf
    rcases hf with rfl | rfl | rfl | rfl | rfl | rfl | rfl | rfl | rfl | rfl <;>
      exact Field.once_of fun _ _ => rfl
  apart := by
    simp only [shape, List.pairwise_cons, List.forall_mem_cons, List.Pairwise.nil,
      List.not_mem_nil, false_imp_iff, implies_true, and_true]
    and_intros <;> exact Field.apart_of (fun _ _ => rfl) (fun _ _ => rfl) fun _ _ _ => rfl
  blank f hf := by
    simp only [shape, List.mem_cons, List.not_mem_nil, or_false] at hf
    rcases hf with rfl | rfl | rfl | rfl | rfl | rfl | rfl | rfl | rfl | rfl <;> rfl

theorem defaults_shape : shape.Defaults IsDefault := by
  intro name f t d hf ht hset
  obtain ⟨isVertical, x, y, width, height, zone, alignment, canvas, path, row⟩ := d
  cases ht with
  | zone =>
    obtain rfl := Option.some.inj hf
    obtain rfl : zone = none := Field.get_eq_none hset
    rw [Field.as_of, DropZone.means_fromJson.as_eq]
    exact ⟨_, rfl, rfl⟩
  | @alignment ps h =>
    obtain rfl := Option.some.inj hf
    obtain rfl : alignment = none := Field.get_eq_none hset
    have hread : (Tree.text ps).as Alignment.fromJson = some .none := by
      rw [Alignment.fromJson, (means_choice _).as_eq, Tree.choice?, h]
      rfl
    rw [Field.as_of, hread]
    exact ⟨_, rfl, rfl⟩
  | @canvas ps h =>
    obtain rfl := Option.some.inj hf
    obtain rfl : canvas = none := Field.get_eq_none hset
    have hread : (Tree.text ps).as WidgetId.fromJson = some mainCanvas := by
      rw [WidgetId.fromJson, Tree.as_map, means_text.as_eq, Tree.text?, h]
      rfl
    rw [Field.as_of, hread]
    exact ⟨_, rfl, rfl⟩
  | path =>
    obtain rfl := Option.some.inj hf
    obtain rfl : path = none := Field.get_eq_none hset
    have hread : (Tree.list []).as (readList LayoutId.fromJson) = some [] :=
      (means_list (means_text.map LayoutId.mk)).as_eq _
    rw [Field.as_of, hread]
    exact ⟨_, rfl, rfl⟩
  | @row n h =>
    obtain rfl := Option.some.inj hf
    obtain rfl : row = none := Field.get_eq_none hset
    have hread : (Tree.number n).as readNatural = some 0 := by
      rw [means_natural.as_eq, Tree.natural?, h]
      rfl
    rw [Field.as_of, hread]
    exact ⟨_, rfl, rfl⟩

theorem alike_shape : shape.Alike Alike := by
  rintro _ _ ⟨hname, h⟩ o
  cases o with
  | none => rfl
  | some d =>
    simp only [Shape.step, Option.bind_some, hname]
    show Field.act (.of "dropZone" (·.zone) _ DropZone.fromJson) d _ =
      Field.act (.of "dropZone" (·.zone) _ DropZone.fromJson) d _
    rw [Field.act, Field.act, Field.as_of, Field.as_of, DropZone.as_respelled h]

theorem tree?_respelled {ms ms' : List Tree.Member} (h : Respelled ms ms') :
    shape.tree? (.object ms) = shape.tree? (.object ms') :=
  Shape.tree?_respelled orderless_shape defaults_shape alike_shape h

end Record

namespace HighlightList

/-- The highlights that a tree stands for. -/
def tree? (t : Tree) : Option (List (Highlight Float)) :=
  t.list? fun t => (Record.shape.tree? t).map Record.toHighlight

theorem decode_eq_ok_iff {t : Tree} {text : String} (ht : t.SpelledBy text)
    (hs : List (Highlight Float)) : decode text = .ok hs ↔ tree? t = some hs := by
  have hread : (read text.toList).toOption = tree? t :=
    (means_list Highlight.means_fromJson).readAll ht
  rw [← hread, decode]
  cases read text.toList with
  | error e =>
    constructor <;> intro h
    · cases h
    · cases h
  | ok hs' =>
    constructor <;> intro h
    · exact congrArg some (Except.ok.inj h)
    · exact congrArg Except.ok (Option.some.inj h)

theorem tree?_respelled {rs rs' : List (List Tree.Member)}
    (h : List.Forall₂ Record.Respelled rs rs') :
    tree? (.list (rs.map .object)) = tree? (.list (rs'.map .object)) := by
  show (rs.map Tree.object).mapM _ = (rs'.map Tree.object).mapM _
  induction h with
  | nil => rfl
  | cons hr _ ih =>
    simp only [List.map_cons, List.mapM_cons]
    rw [Record.tree?_respelled hr, ih]

/-- Two spellings of the same records are both loaded, as the SAME highlights, or neither
is loaded. All the numbers are finite, so the lists are equal for a comparison too. -/
theorem decode_respelled {rs rs' : List (List Tree.Member)} {text text' : String}
    (h : List.Forall₂ Record.Respelled rs rs')
    (ht : (Tree.list (rs.map .object)).SpelledBy text)
    (ht' : (Tree.list (rs'.map .object)).SpelledBy text') :
    (∀ hs, decode text = .ok hs ↔ decode text' = .ok hs) ∧
      ∀ hs, decode text = .ok hs → ∀ h ∈ hs, h.isFinite = true := by
  refine ⟨fun hs => ?_, fun hs hdecode h hh => (settled_of_decode hdecode h hh).1⟩
  rw [decode_eq_ok_iff ht, decode_eq_ok_iff ht', tree?_respelled h]

/-- One side, and a record with no more said in it than has to be. -/
def bareZone : List Tree.Member := [(Piece.plainly "top", .number (.ofNat 5))]

def bare : List Tree.Member := [
  (Piece.plainly "dropZone", .object bareZone),
  (Piece.plainly "isVertical", .boolean false),
  (Piece.plainly "posX", .number (.ofNat 1)),
  (Piece.plainly "posY", .number (.ofNat 2)),
  (Piece.plainly "width", .number (.ofNat 30)),
  (Piece.plainly "height", .number (.ofNat 4))]

/-- The same the other way round, with a side and a row written out that are as they would
be anyhow, and with a member that nobody knows. It holds HALF of a pair. -/
def ornateZone : List Tree.Member := (Piece.plainly "left", .null) :: bareZone

def ornate : List Tree.Member := List.reverse <|
  (Piece.plainly "note", .list [.null, .text [.unit ⟨'d', rfl⟩ ⟨'e', rfl⟩ ⟨'a', rfl⟩ ⟨'D', rfl⟩]]) ::
  (Piece.plainly "rowIndex", .number (.ofNat 0)) ::
  (Piece.plainly "dropZone", .object ornateZone) :: bare.tail

theorem respelled_ornate : Record.Respelled bare ornate := by
  have hzone : DropZone.Respelled bareZone ornateZone :=
    .default "left" (by decide +kernel) rfl (by decide +kernel)
  have hrow : (Numeral.ofNat 0).number? = some (.integer 0) := by
    rw [Numeral.number?, Numeral.ofNat, Literal.number_ofNat (by decide)]
    rfl
  exact .trans (.value _ (.zone (by decide +kernel) hzone))
    (.trans (.default "rowIndex" (by decide +kernel) (.row hrow) (by decide +kernel))
      (.trans (.extra "note" _ _ (by decide +kernel) (by decide +kernel))
        (.order (List.reverse_perm _).symm)))

/-- A text for each of them. -/
def bareText : String :=
  "[\x7b\"dropZone\":\x7b\"top\":5\x7d,\"isVertical\":false,\"posX\":1,\"posY\":2," ++
    "\"width\":30,\"height\":4\x7d]"

def ornateText : String :=
  " [ \x7b \"height\" : 4 , \"width\" : 30 , \"posY\" : 2 , \"posX\" : 1 ," ++
    " \"isVertical\" : false , \"dropZone\" : \x7b \"left\" : null , \"top\" : 5 \x7d ," ++
    " \"rowIndex\" : 0 , \"note\" : [ null , \"\\udeaD\" ] \x7d ]"

theorem decode_respelled_ornate :
    ∃ h, decode bareText = .ok [h] ∧ decode ornateText = .ok [h] ∧ h.isFinite = true := by
  have hbare : (Tree.list [.object bare]).SpelledBy bareText := by
    have htext : bareText = String.ofList ((Tree.list [.object bare]).write []) := by
      decide +kernel
    rw [htext]
    exact Tree.spelledBy_write (by simp) _
  have hornate : (Tree.list [.object ornate]).SpelledBy ornateText := by
    have htext : ornateText = String.ofList ((Tree.list [.object ornate]).write [' ']) := by
      decide +kernel
    rw [htext]
    exact Tree.spelledBy_write (by simp [isBlank]) _
  obtain ⟨hiff, hfinite⟩ := decode_respelled (.cons respelled_ornate .nil) hbare hornate
  have hone : (decode bareText).toOption.map List.length = some 1 := by decide +kernel
  cases hdecode : decode bareText with
  | error e =>
    rw [hdecode] at hone
    cases hone
  | ok hs =>
    rw [hdecode] at hone
    obtain ⟨h, rfl⟩ := List.length_eq_one_iff.mp (Option.some.inj hone)
    exact ⟨h, rfl, (hiff _).mp hdecode, hfinite _ hdecode h List.mem_cons_self⟩

end HighlightList

end DragDrop
