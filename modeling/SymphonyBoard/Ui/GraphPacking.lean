import Mathlib.Data.Rat.Defs
import Mathlib.Data.Set.Prod
import Mathlib.Order.CompletePartialOrder
import Mathlib.Order.Interval.Set.Basic
import Mathlib.Tactic.NormNum
import SymphonyBoard.Common.OrdMap
import SymphonyBoard.Common.Shelves
/-!
# Packing the components of a graph

`packGraphComponentLayouts` of `packages/ui/src/model.ts`: components that
were laid out one by one, put on shelves by the boxes they fill. Pixels are
exact rationals. How wide a shelf may get is read off a square root, a
parameter here, and the order the components come in off `localeCompare`,
another one; neither matters to `wellPacked_packRows`.
-/

namespace SymphonyBoard

/-- Where a node is. -/
structure GraphLayoutPoint where
  x : ℚ
  y : ℚ
deriving DecidableEq

/-- How large a node is. -/
structure GraphNodeSize where
  w : ℚ
  h : ℚ

/-- A component with its nodes placed. -/
structure GraphComponentLayout where
  key : String
  positions : OrdMap String GraphLayoutPoint

/-- A rectangle. -/
structure Box where
  minX : ℚ
  minY : ℚ
  maxX : ℚ
  maxY : ℚ
deriving DecidableEq

/-- `Math.min(...xs)`, of a list that is not empty. -/
def minOf : List ℚ → ℚ
  | [] => 0
  | x :: xs => xs.foldl min x

/-- `Math.max(...xs)`, of a list that is not empty. -/
def maxOf : List ℚ → ℚ
  | [] => 0
  | x :: xs => xs.foldl max x

/-- The box of nodes at their positions, their sizes included. -/
def boundingBox (sizeOf : String → GraphNodeSize) (entries : List (String × GraphLayoutPoint)) :
    Box where
  minX := minOf (entries.map (·.2.x))
  minY := minOf (entries.map (·.2.y))
  maxX := maxOf (entries.map fun e => e.2.x + (sizeOf e.1).w)
  maxY := maxOf (entries.map fun e => e.2.y + (sizeOf e.1).h)

/-- A component with the rectangle around it. -/
structure BoundedLayout where
  layout : GraphComponentLayout
  minX : ℚ
  minY : ℚ
  width : ℚ
  height : ℚ

/-- The nodes and their places. -/
def BoundedLayout.entries (c : BoundedLayout) : List (String × GraphLayoutPoint) :=
  c.layout.positions.entries

/-- A layout of no nodes has no bounds. -/
def boundedLayout (sizeOf : String → GraphNodeSize) (layout : GraphComponentLayout) :
    Option BoundedLayout :=
  if layout.positions.entries = [] then none
  else
    let box := boundingBox sizeOf layout.positions.entries
    some
      { layout, minX := box.minX, minY := box.minY
        width := box.maxX - box.minX, height := box.maxY - box.minY }

/-- The layouts with nodes, by key. -/
def sortedLayouts (localeCompare : String → String → Ordering) (sizeOf : String → GraphNodeSize)
    (layouts : List GraphComponentLayout) : List BoundedLayout :=
  (layouts.filterMap (boundedLayout sizeOf)).mergeSort fun a b =>
    (localeCompare a.layout.key b.layout.key).isLE

/-- How wide a row may get, by the area there is. -/
def targetRowWidth (sqrt : ℚ → ℚ) (gap : ℚ) (bounded : List BoundedLayout) : ℚ :=
  let totalPaddedArea := bounded.foldl (fun sum c => sum + (c.width + gap) * (c.height + gap)) 0
  maxOf (bounded.map (·.width) ++ [sqrt totalPaddedArea * (135 / 100)])

/-- The row being filled, and what is placed. -/
structure PackState where
  shelf : Shelf ℚ
  packed : OrdMap String GraphLayoutPoint

/-- Where a node of a component goes that is put at a cursor. -/
def packedAt (x y : ℚ) (c : BoundedLayout) (point : GraphLayoutPoint) : GraphLayoutPoint :=
  ⟨x + point.x - c.minX, y + point.y - c.minY⟩

/-- The next component, in this row or on a new one. -/
def packStep (target gap : ℚ) (s : PackState) (c : BoundedLayout) : PackState :=
  let shelf := s.shelf.wrap target gap c.width
  { shelf := shelf.put gap c.width c.height
    packed := c.entries.foldl
      (fun packed e => packed.set e.1 (packedAt shelf.cursorX shelf.cursorY c e.2)) s.packed }

/-- The first row, and nothing placed. -/
def packStart : PackState := ⟨⟨0, 0, 0⟩, .empty⟩

/-- The loop over the components, on shelves of a given width. -/
def packRows (target gap : ℚ) (bounded : List BoundedLayout) : OrdMap String GraphLayoutPoint :=
  (bounded.foldl (packStep target gap) packStart).packed

/-- `packGraphComponentLayouts`: the components in rows, none over another. -/
def packGraphComponentLayouts (sqrt : ℚ → ℚ) (localeCompare : String → String → Ordering)
    (layouts : List GraphComponentLayout) (sizeOf : String → GraphNodeSize) (gap : ℚ) :
    OrdMap String GraphLayoutPoint :=
  let bounded := sortedLayouts localeCompare sizeOf layouts
  if bounded = [] then .empty else packRows (targetRowWidth sqrt gap bounded) gap bounded

/-! ## Bounding boxes -/

variable {xs : List ℚ} {x d : ℚ}

theorem foldl_min_add (xs : List ℚ) (x d : ℚ) :
    (xs.map (d + ·)).foldl min (d + x) = d + xs.foldl min x := by
  induction xs generalizing x with
  | nil => rfl
  | cons a xs ih => rw [List.map_cons, List.foldl_cons, List.foldl_cons, ← ih, min_add_add_left]

theorem foldl_max_add (xs : List ℚ) (x d : ℚ) :
    (xs.map (d + ·)).foldl max (d + x) = d + xs.foldl max x := by
  induction xs generalizing x with
  | nil => rfl
  | cons a xs ih => rw [List.map_cons, List.foldl_cons, List.foldl_cons, ← ih, max_add_add_left]

theorem minOf_add (h : xs ≠ []) : minOf (xs.map (d + ·)) = d + minOf xs := by
  obtain ⟨a, xs, rfl⟩ := List.exists_cons_of_ne_nil h
  exact foldl_min_add xs a d

theorem maxOf_add (h : xs ≠ []) : maxOf (xs.map (d + ·)) = d + maxOf xs := by
  obtain ⟨a, xs, rfl⟩ := List.exists_cons_of_ne_nil h
  exact foldl_max_add xs a d

theorem foldl_min_le (xs : List ℚ) (a : ℚ) : xs.foldl min a ≤ a ∧ ∀ x ∈ xs, xs.foldl min a ≤ x := by
  induction xs generalizing a with
  | nil => exact ⟨le_rfl, fun x hx => absurd hx List.not_mem_nil⟩
  | cons b xs ih =>
    obtain ⟨hstart, hrest⟩ := ih (min a b)
    refine ⟨le_trans hstart (min_le_left a b), fun x hx => ?_⟩
    rcases List.mem_cons.mp hx with rfl | hx
    · exact le_trans hstart (min_le_right a x)
    · exact hrest x hx

theorem le_foldl_maxOf (xs : List ℚ) (a : ℚ) : a ≤ xs.foldl max a ∧ ∀ x ∈ xs, x ≤ xs.foldl max a := by
  induction xs generalizing a with
  | nil => exact ⟨le_rfl, fun x hx => absurd hx List.not_mem_nil⟩
  | cons b xs ih =>
    obtain ⟨hstart, hrest⟩ := ih (max a b)
    refine ⟨le_trans (le_max_left a b) hstart, fun x hx => ?_⟩
    rcases List.mem_cons.mp hx with rfl | hx
    · exact le_trans (le_max_right a x) hstart
    · exact hrest x hx

theorem minOf_le (h : x ∈ xs) : minOf xs ≤ x := by
  cases xs with
  | nil => exact absurd h List.not_mem_nil
  | cons a xs =>
    rcases List.mem_cons.mp h with rfl | h
    · exact (foldl_min_le xs x).1
    · exact (foldl_min_le xs a).2 x h

theorem le_maxOf (h : x ∈ xs) : x ≤ maxOf xs := by
  cases xs with
  | nil => exact absurd h List.not_mem_nil
  | cons a xs =>
    rcases List.mem_cons.mp h with rfl | h
    · exact (le_foldl_maxOf xs x).1
    · exact (le_foldl_maxOf xs a).2 x h

/-- **A box moves with its nodes.** -/
theorem boundingBox_moved (sizeOf : String → GraphNodeSize)
    {entries : List (String × GraphLayoutPoint)} (hne : entries ≠ []) (dx dy : ℚ) :
    boundingBox sizeOf (entries.map fun e => (e.1, ⟨dx + e.2.x, dy + e.2.y⟩)) =
      let box := boundingBox sizeOf entries
      ⟨dx + box.minX, dy + box.minY, dx + box.maxX, dy + box.maxY⟩ := by
  have hmap : ∀ f : String × GraphLayoutPoint → ℚ, entries.map f ≠ [] := fun f h =>
    hne (List.map_eq_nil_iff.mp h)
  have hx := minOf_add (d := dx) (hmap (·.2.x))
  have hy := minOf_add (d := dy) (hmap (·.2.y))
  have hw := maxOf_add (d := dx) (hmap fun e => e.2.x + (sizeOf e.1).w)
  have hh := maxOf_add (d := dy) (hmap fun e => e.2.y + (sizeOf e.1).h)
  simp only [List.map_map, Function.comp_def, ← add_assoc] at hx hy hw hh
  simp only [boundingBox, List.map_map, Function.comp_def, hx, hy, hw, hh]

/-! ## The components and where they go -/

variable {sizeOf : String → GraphNodeSize} {localeCompare : String → String → Ordering}
variable {layouts : List GraphComponentLayout} {c : BoundedLayout} {target gap : ℚ}

theorem boundedLayout_eq_some_iff {layout : GraphComponentLayout} :
    boundedLayout sizeOf layout = some c ↔
      c.layout = layout ∧ c.entries ≠ [] ∧
        let box := boundingBox sizeOf c.entries
        c.minX = box.minX ∧ c.minY = box.minY ∧ c.width = box.maxX - box.minX ∧
          c.height = box.maxY - box.minY := by
  unfold boundedLayout BoundedLayout.entries
  split
  · rename_i hnil
    constructor
    · intro h
      exact absurd h (by simp)
    · rintro ⟨rfl, hne, -⟩
      exact absurd hnil hne
  · rename_i hne
    constructor
    · intro h
      obtain rfl := Option.some.inj h
      exact ⟨rfl, hne, rfl, rfl, rfl, rfl⟩
    · rintro ⟨rfl, -, hx, hy, hw, hh⟩
      obtain ⟨layout, minX, minY, width, height⟩ := c
      simp only at hx hy hw hh
      rw [hx, hy, hw, hh]

theorem mem_sortedLayouts :
    c ∈ sortedLayouts localeCompare sizeOf layouts ↔
      ∃ layout ∈ layouts, boundedLayout sizeOf layout = some c := by
  rw [sortedLayouts, (List.mergeSort_perm _ _).mem_iff, List.mem_filterMap]

/-- The components are the layouts that have nodes. -/
theorem layouts_sortedLayouts :
    ((sortedLayouts localeCompare sizeOf layouts).map (·.layout)).Perm
      (layouts.filter fun layout => layout.positions.entries ≠ []) := by
  refine ((List.mergeSort_perm _ _).map BoundedLayout.layout).trans (List.Perm.of_eq ?_)
  induction layouts with
  | nil => rfl
  | cons layout layouts ih =>
    rw [List.filterMap_cons, List.filter_cons]
    unfold boundedLayout at ih ⊢
    by_cases hnil : layout.positions.entries = []
    · simpa [hnil] using ih
    · simpa [hnil] using ih

/-- Two layouts that share no node. -/
def DisjointIds (a b : GraphComponentLayout) : Prop :=
  ∀ e ∈ a.positions.entries, ∀ e' ∈ b.positions.entries, e.1 ≠ e'.1

theorem DisjointIds.symm {a b : GraphComponentLayout} (h : DisjointIds a b) : DisjointIds b a :=
  fun e he e' he' heq => h e' he' e he heq.symm

theorem disjointIds_sortedLayouts (h : layouts.Pairwise DisjointIds) :
    (sortedLayouts localeCompare sizeOf layouts).Pairwise fun a b =>
      DisjointIds a.layout b.layout := by
  have hfilter : (layouts.filter fun layout => layout.positions.entries ≠ []).Pairwise
      DisjointIds := List.Pairwise.filter _ h
  rw [← List.pairwise_map (f := BoundedLayout.layout)]
  exact (layouts_sortedLayouts.pairwise_iff fun h => DisjointIds.symm h).mpr hfilter

/-- Every component, with the cursor it is put at. -/
def placedLayouts (target gap : ℚ) (bounded : List BoundedLayout) : List (BoundedLayout × ℚ × ℚ) :=
  placements (·.width) (·.height) target gap ⟨0, 0, 0⟩ bounded

/-- The positions a component put at a cursor writes. -/
def packedWrites (p : BoundedLayout × ℚ × ℚ) : List (String × GraphLayoutPoint) :=
  p.1.entries.map fun e => (e.1, packedAt p.2.1 p.2.2 p.1 e.2)

/-- The loop writes the positions of every component at its cursor. -/
theorem packed_foldl (target gap : ℚ) (bounded : List BoundedLayout) (s : PackState) :
    (bounded.foldl (packStep target gap) s).packed =
      ((placements (·.width) (·.height) target gap s.shelf bounded).flatMap packedWrites).foldl
        (fun packed w => packed.set w.1 w.2) s.packed := by
  induction bounded generalizing s with
  | nil => rfl
  | cons c bounded ih =>
    rw [List.foldl_cons, ih, placements, List.flatMap_cons, List.foldl_append]
    congr 1
    rw [packedWrites, List.foldl_map]
    rfl

/-- **Every node goes where its component's cursor takes it.** -/
theorem get?_packRows {bounded : List BoundedLayout}
    (hdisjoint : bounded.Pairwise fun a b => DisjointIds a.layout b.layout)
    {p : BoundedLayout × ℚ × ℚ} (hp : p ∈ placedLayouts target gap bounded)
    {e : String × GraphLayoutPoint} (he : e ∈ p.1.entries) :
    (packRows target gap bounded).get? e.1 = some (packedAt p.2.1 p.2.2 p.1 e.2) := by
  have hplaced : (placedLayouts target gap bounded).Pairwise fun p q =>
      DisjointIds p.1.layout q.1.layout := by
    rw [← List.pairwise_map (f := Prod.fst) (R := fun a b : BoundedLayout =>
      DisjointIds a.layout b.layout), placedLayouts, map_fst_placements]
    exact hdisjoint
  unfold packRows
  rw [packed_foldl]
  refine OrdMap.get?_foldl_set_of (fun w hw hkey => ?_) (Or.inl ?_)
  · -- only this entry of this component has the id
    obtain ⟨q, hq, hwq⟩ := List.mem_flatMap.mp hw
    obtain ⟨e', he', rfl⟩ := List.mem_map.mp hwq
    have hpq : q = p := by
      by_contra hne
      have hsymm : Std.Symm fun p q : BoundedLayout × ℚ × ℚ =>
          DisjointIds p.1.layout q.1.layout := ⟨fun _ _ h => h.symm⟩
      have hids := hplaced.forall hq hp hne
      exact hids e' he' e he hkey
    subst hpq
    have hee : e' = e := List.inj_on_of_nodup_map q.1.layout.positions.nodup he' he hkey
    rw [hee]
  · exact ⟨_, List.mem_flatMap.mpr ⟨p, hp, List.mem_map.mpr ⟨e, he, rfl⟩⟩, rfl⟩

/-! ## No two components overlap -/

/-- The box a component fills where its nodes have gone. -/
def packedBox (sizeOf : String → GraphNodeSize) (packed : OrdMap String GraphLayoutPoint)
    (layout : GraphComponentLayout) : Box :=
  boundingBox sizeOf (layout.positions.entries.filterMap fun e =>
    (packed.get? e.1).map fun point => (e.1, point))

/-- The points inside a rectangle. -/
def Box.interior (box : Box) : Set (ℚ × ℚ) :=
  Set.Ioo box.minX box.maxX ×ˢ Set.Ioo box.minY box.maxY

/-- The second box is to the right of the first on one shelf, or on a shelf
below, with the gap between. -/
def Box.Apart (gap : ℚ) (a b : Box) : Prop :=
  (a.minY = b.minY ∧ a.maxX + gap ≤ b.minX) ∨ a.maxY + gap ≤ b.minY

theorem Box.Apart.disjoint {a b : Box} (hgap : 0 ≤ gap) (h : a.Apart gap b) :
    Disjoint a.interior b.interior := by
  rw [Set.disjoint_left]
  rintro ⟨x, y⟩ ⟨⟨-, hax⟩, -, hay⟩ ⟨⟨hbx, -⟩, hby, -⟩
  simp only at hax hay hbx hby
  rcases h with ⟨-, hx⟩ | hy
  · linarith
  · linarith

/-- Components well packed at their cursors: every node moves with its
component, a component's box stands at its cursor, and any two boxes are
apart and have disjoint interiors. -/
structure WellPacked (sizeOf : String → GraphNodeSize) (gap : ℚ)
    (placed : List (BoundedLayout × ℚ × ℚ)) (packed : OrdMap String GraphLayoutPoint) : Prop where
  rigid : ∀ p ∈ placed, ∀ e ∈ p.1.layout.positions.entries,
    packed.get? e.1 = some ⟨p.2.1 - p.1.minX + e.2.x, p.2.2 - p.1.minY + e.2.y⟩
  atCursor : ∀ p ∈ placed, packedBox sizeOf packed p.1.layout =
    ⟨p.2.1, p.2.2, p.2.1 + p.1.width, p.2.2 + p.1.height⟩
  apart : placed.Pairwise fun p q =>
    (packedBox sizeOf packed p.1.layout).Apart gap (packedBox sizeOf packed q.1.layout)
  disjoint : placed.Pairwise fun p q =>
    Disjoint (packedBox sizeOf packed p.1.layout).interior
      (packedBox sizeOf packed q.1.layout).interior

theorem packedAt_eq (x y : ℚ) (c : BoundedLayout) (point : GraphLayoutPoint) :
    packedAt x y c point = ⟨x - c.minX + point.x, y - c.minY + point.y⟩ := by
  rw [packedAt, add_sub_right_comm, add_sub_right_comm y]

/-- A component's box is as wide as its nodes reach. -/
theorem width_nonneg (hsize : ∀ id, 0 < (sizeOf id).w ∧ 0 < (sizeOf id).h)
    (hc : c ∈ sortedLayouts localeCompare sizeOf layouts) : 0 ≤ c.width := by
  obtain ⟨layout, -, hbounded⟩ := mem_sortedLayouts.mp hc
  obtain ⟨-, hne, -, -, hwidth, -⟩ := boundedLayout_eq_some_iff.mp hbounded
  obtain ⟨e, he⟩ := List.exists_mem_of_ne_nil _ hne
  have hmin : (boundingBox sizeOf c.entries).minX ≤ e.2.x :=
    minOf_le (List.mem_map.mpr ⟨e, he, rfl⟩)
  have hmax : e.2.x + (sizeOf e.1).w ≤ (boundingBox sizeOf c.entries).maxX :=
    le_maxOf (List.mem_map.mpr ⟨e, he, rfl⟩)
  have hw := (hsize e.1).1
  rw [hwidth]
  linarith

theorem wellPacked_sortedLayouts (hsize : ∀ id, 0 < (sizeOf id).w ∧ 0 < (sizeOf id).h)
    (hgap : 0 ≤ gap) (hdisjoint : layouts.Pairwise DisjointIds) (target : ℚ) :
    let bounded := sortedLayouts localeCompare sizeOf layouts
    WellPacked sizeOf gap (placedLayouts target gap bounded) (packRows target gap bounded) := by
  intro bounded
  have hids : bounded.Pairwise fun a b => DisjointIds a.layout b.layout :=
    disjointIds_sortedLayouts hdisjoint
  have hmem : ∀ p ∈ placedLayouts target gap bounded, p.1 ∈ bounded := by
    intro p hp
    have hfst := List.mem_map_of_mem (f := Prod.fst) hp
    rwa [placedLayouts, map_fst_placements] at hfst
  -- a component is moved as a whole, so its box moves with it
  have hrigid : ∀ p ∈ placedLayouts target gap bounded, ∀ e ∈ p.1.layout.positions.entries,
      (packRows target gap bounded).get? e.1 =
        some ⟨p.2.1 - p.1.minX + e.2.x, p.2.2 - p.1.minY + e.2.y⟩ := by
    intro p hp e he
    rw [get?_packRows hids hp he, packedAt_eq]
  have hbox : ∀ p ∈ placedLayouts target gap bounded,
      packedBox sizeOf (packRows target gap bounded) p.1.layout =
        ⟨p.2.1, p.2.2, p.2.1 + p.1.width, p.2.2 + p.1.height⟩ := by
    intro p hp
    obtain ⟨layout, -, hbounded⟩ := mem_sortedLayouts.mp (hmem p hp)
    obtain ⟨-, hne, hx, hy, hw, hh⟩ := boundedLayout_eq_some_iff.mp hbounded
    have hmoved : p.1.layout.positions.entries.filterMap (fun e =>
        ((packRows target gap bounded).get? e.1).map fun point => (e.1, point)) =
          p.1.entries.map fun e =>
            (e.1, ⟨p.2.1 - p.1.minX + e.2.x, p.2.2 - p.1.minY + e.2.y⟩) := by
      rw [← List.filterMap_eq_map]
      refine List.filterMap_congr fun e he => ?_
      rw [hrigid p hp e he]
      rfl
    rw [packedBox, hmoved, boundingBox_moved sizeOf hne]
    simp only [Box.mk.injEq]
    refine ⟨by linarith, by linarith, by linarith, by linarith⟩
  have hwidth : ∀ c ∈ bounded, 0 ≤ c.width := fun c hc => width_nonneg hsize hc
  have hseparated : (placedLayouts target gap bounded).Pairwise
      (Separated (·.width) (·.height) gap) := separated_placements hgap hwidth
  have hapart : (placedLayouts target gap bounded).Pairwise fun p q =>
      (packedBox sizeOf (packRows target gap bounded) p.1.layout).Apart gap
        (packedBox sizeOf (packRows target gap bounded) q.1.layout) := by
    refine List.Pairwise.imp_of_mem (fun {p q} hp hq h => ?_) hseparated
    rw [hbox p hp, hbox q hq]
    exact h
  exact ⟨hrigid, hbox, hapart, hapart.imp fun h => h.disjoint hgap⟩

theorem packGraphComponentLayouts_eq (sqrt : ℚ → ℚ) (localeCompare : String → String → Ordering)
    (layouts : List GraphComponentLayout) (sizeOf : String → GraphNodeSize) (gap : ℚ) :
    let bounded := sortedLayouts localeCompare sizeOf layouts
    packGraphComponentLayouts sqrt localeCompare layouts sizeOf gap =
      packRows (targetRowWidth sqrt gap bounded) gap bounded := by
  intro bounded
  unfold packGraphComponentLayouts
  by_cases hnil : sortedLayouts localeCompare sizeOf layouts = []
  · have hbounded : bounded = [] := hnil
    rw [hbounded]
    simp only [hnil]
    rfl
  · exact if_neg hnil

/-- **Packed components never overlap**, on shelves of any width. The
components are the layouts with nodes, and the shelves' width is no less
than the widest of them. -/
theorem wellPacked_packRows (hsize : ∀ id, 0 < (sizeOf id).w ∧ 0 < (sizeOf id).h)
    (hgap : 0 ≤ gap) (hdisjoint : layouts.Pairwise DisjointIds) (sqrt : ℚ → ℚ)
    (localeCompare : String → String → Ordering) :
    let bounded := sortedLayouts localeCompare sizeOf layouts
    ((bounded.map (·.layout)).Perm
        (layouts.filter fun layout => layout.positions.entries ≠ [])) ∧
      (∀ target, WellPacked sizeOf gap (placedLayouts target gap bounded)
        (packRows target gap bounded)) ∧
      packGraphComponentLayouts sqrt localeCompare layouts sizeOf gap =
        packRows (targetRowWidth sqrt gap bounded) gap bounded ∧
      ∀ c ∈ bounded, c.width ≤ targetRowWidth sqrt gap bounded := by
  intro bounded
  refine ⟨layouts_sortedLayouts, wellPacked_sortedLayouts hsize hgap hdisjoint,
    packGraphComponentLayouts_eq sqrt localeCompare layouts sizeOf gap, fun c hc => ?_⟩
  exact le_maxOf (List.mem_append_left _ (List.mem_map.mpr ⟨c, hc, rfl⟩))

namespace TwoShelves

/-- A component of one node. -/
def oneNode (id : String) : GraphComponentLayout := ⟨id, .set .empty id ⟨-4, 7⟩⟩

/-- The sizes of two nodes. -/
def nodeSize (id : String) : GraphNodeSize := if id = "a" then ⟨13, 3⟩ else ⟨13, 5⟩

/-- Right of 324, the padded area of the two components. -/
def sqrt (q : ℚ) : ℚ := if q = 324 then 18 else 0

theorem nodeSize_pos (id : String) : 0 < (nodeSize id).w ∧ 0 < (nodeSize id).h := by
  unfold nodeSize
  split
  · exact ⟨by norm_num, by norm_num⟩
  · exact ⟨by norm_num, by norm_num⟩

theorem disjointIds : [oneNode "a", oneNode "b"].Pairwise DisjointIds := by
  refine List.pairwise_pair.mpr fun e he e' he' => ?_
  obtain rfl := List.mem_singleton.mp he
  obtain rfl := List.mem_singleton.mp he'
  exact by decide

theorem wellPacked :
    let bounded := sortedLayouts compare nodeSize [oneNode "a", oneNode "b"]
    WellPacked nodeSize 5 (placedLayouts (targetRowWidth sqrt 5 bounded) 5 bounded)
      (packGraphComponentLayouts sqrt compare [oneNode "a", oneNode "b"] nodeSize 5) := by
  obtain ⟨-, hpacked, heq, -⟩ :=
    wellPacked_packRows nodeSize_pos (by norm_num : (0 : ℚ) ≤ 5) disjointIds sqrt compare
  rw [heq]
  exact hpacked _

end TwoShelves

end SymphonyBoard
