import SymphonyBoard.Common.OrdMap
import SymphonyBoard.Contract.Types
import SymphonyBoard.Db.ReviewThreads
/-!
# Program progress

`packages/ui/src/program.ts`: a tracker's children and how far each is,
from the loaded items and edges in one pass over the edges. The pass keeps,
of each child, the state its first `parent` edge gives, and which refs are
blocked and under review (`mem_blocked_foldl`, `mem_inReview_foldl`).
`mem_progress_programRollup` says what a rollup lists.
-/

namespace SymphonyBoard

/-- Where a child of a program stands. -/
inductive ProgramChildStatus
  | done
  | blocked
  | inReview
  | ready
deriving DecidableEq, Repr

/-- A child of a program. -/
structure ProgramChild where
  id : Ref
  item : Option ItemDTO
  state : Option ItemState
  status : ProgramChildStatus
deriving DecidableEq

/-- What a program's node sums up. -/
structure ProgramRollup where
  total : Nat
  done : Nat
  ready : List ProgramChild
  inReview : List ProgramChild
  blocked : Nat
  children : List ProgramChild
deriving DecidableEq

/-- A state that needs no more work. -/
def isDone (state : Option ItemState) : Bool := state = some .closed ∨ state = some .merged

/-- By iid, then title, then ref; a child without a row comes last, by
ref. -/
def compareChildren (localeCompare : String → String → Ordering) (a b : ProgramChild) : Ordering :=
  match a.item, b.item with
  | some ia, some ib =>
    (withNulls .last numberOrder ia.iid ib.iid).then
      ((localeCompare (ia.title.getD "") (ib.title.getD "")).then (localeCompare a.id b.id))
  | some _, none => .lt
  | none, some _ => .gt
  | none, none => localeCompare a.id b.id

/-- The loaded items by ref. -/
abbrev ItemsById := OrdMap Ref ItemDTO

/-- What the pass over the edges has found. -/
structure ProgramScan where
  childStates : OrdMap Ref (OrdMap Ref (Option ItemState))
  blocked : List Ref
  inReview : List Ref

section Rollups

variable (itemsById : ItemsById)

/-- The loaded item's state, or else the edge's. -/
def stateOf (id : Ref) (edgeState : Option ItemState) : Option ItemState :=
  ((itemsById.get? id).map (·.state)).or edgeState

/-- An edge whose `from` end still blocks. -/
def Blocking (e : EdgeDTO) : Prop :=
  e.type = .blocks ∧ isDone (stateOf itemsById e.fromRef e.fromState) = false

/-- An edge whose `from` end is still open. -/
def Reviewing (e : EdgeDTO) : Prop :=
  e.type = .closes ∧ (stateOf itemsById e.fromRef e.fromState).getD .opened = .opened

instance : DecidablePred (Blocking itemsById) := fun _ => inferInstanceAs (Decidable (_ ∧ _))

instance : DecidablePred (Reviewing itemsById) := fun _ => inferInstanceAs (Decidable (_ ∧ _))

/-- One edge of the scan: parents make children, blocks and closes mark them. -/
def scanEdge (scan : ProgramScan) (edge : EdgeDTO) : ProgramScan :=
  if edge.type = .parent then
    if edge.fromRef = edge.toRef then scan
    else
      { scan with
        childStates := scan.childStates.upsert edge.fromRef fun children =>
          (children.getD .empty).upsert edge.toRef fun state =>
            state.getD (stateOf itemsById edge.toRef edge.toState) }
  else if Blocking itemsById edge then { scan with blocked := edge.toRef :: scan.blocked }
  else if Reviewing itemsById edge then { scan with inReview := edge.toRef :: scan.inReview }
  else scan

/-- The edges one after another. -/
def scanEdges (edges : List EdgeDTO) : ProgramScan :=
  edges.foldl (scanEdge itemsById) ⟨.empty, [], []⟩

/-- Where a child stands: what is done stays done, and blocked comes before in review. -/
def childStatus (scan : ProgramScan) (id : Ref) (state : Option ItemState) : ProgramChildStatus :=
  if isDone state then .done
  else if id ∈ scan.blocked then .blocked
  else if id ∈ scan.inReview then .inReview
  else .ready

variable (localeCompare : String → String → Ordering)

/-- What the scan of a node comes to. -/
def rollupOf (scan : ProgramScan) (states : OrdMap Ref (Option ItemState)) : ProgramRollup :=
  let children := sortBy (compareChildren localeCompare) (states.entries.map fun s =>
    { id := s.1, item := itemsById.get? s.1, state := s.2, status := childStatus scan s.1 s.2 })
  let withStatus (status : ProgramChildStatus) := children.filter fun child => child.status = status
  { total := children.length
    done := (withStatus .done).length
    ready := withStatus .ready
    inReview := withStatus .inReview
    blocked := (withStatus .blocked).length
    children }

/-- Every tracker's rollup, by tracker. -/
def programRollups (edges : List EdgeDTO) : OrdMap Ref ProgramRollup :=
  let scan := scanEdges itemsById edges
  scan.childStates.mapValues (rollupOf itemsById localeCompare scan)

/-- One tracker's rollup; none without children. -/
def programRollup (trackerId : Ref) (edges : List EdgeDTO) : Option ProgramRollup :=
  (programRollups itemsById localeCompare edges).get? trackerId

/-! ## What the pass finds -/

/-- A `parent` edge from a tracker to another item. -/
def ParentEdge (trackerId id : Ref) (e : EdgeDTO) : Prop :=
  e.type = .parent ∧ e.fromRef = trackerId ∧ e.toRef = id ∧ trackerId ≠ id

instance (trackerId id : Ref) : DecidablePred (ParentEdge trackerId id) :=
  fun _ => inferInstanceAs (Decidable (_ ∧ _ ∧ _ ∧ _))

/-- A child's state, if it is one: by its row, or its first `parent`
edge. -/
def childState (edges : List EdgeDTO) (trackerId id : Ref) : Option (Option ItemState) :=
  (edges.find? fun e => ParentEdge trackerId id e).map fun e => stateOf itemsById id e.toState

/-- A child's status, from the edges into it. -/
def statusIn (edges : List EdgeDTO) (id : Ref) (state : Option ItemState) : ProgramChildStatus :=
  if isDone state then .done
  else if ∃ e ∈ edges, Blocking itemsById e ∧ e.toRef = id then .blocked
  else if ∃ e ∈ edges, Reviewing itemsById e ∧ e.toRef = id then .inReview
  else .ready

variable {itemsById localeCompare} {edges : List EdgeDTO} {trackerId id : Ref}

theorem childStates_scanEdge (scan : ProgramScan) (e : EdgeDTO) (trackerId id : Ref) :
    ((scanEdge itemsById scan e).childStates.get? trackerId).bind (·.get? id) =
      ((scan.childStates.get? trackerId).bind (·.get? id)).or
        (if ParentEdge trackerId id e then some (stateOf itemsById id e.toState) else none) := by
  unfold scanEdge
  by_cases htype : e.type = .parent
  · rw [if_pos htype]
    by_cases hself : e.fromRef = e.toRef
    · have hnot : ¬ParentEdge trackerId id e :=
        fun ⟨_, hfrom, hto, hne⟩ => hne (hfrom.symm.trans (hself.trans hto))
      rw [if_pos hself, if_neg hnot, Option.or_none]
    · rw [if_neg hself]
      simp only [OrdMap.get?_upsert]
      by_cases hfrom : e.fromRef = trackerId
      · subst hfrom
        rw [if_pos rfl, Option.bind_some, OrdMap.get?_upsert]
        by_cases hto : e.toRef = id
        · subst hto
          have hparent : ParentEdge e.fromRef e.toRef e := ⟨htype, rfl, rfl, hself⟩
          rw [if_pos rfl, if_pos hparent]
          cases hold : scan.childStates.get? e.fromRef with
          | none => simp
          | some states =>
            cases hstate : states.get? e.toRef with
            | none => simp [hstate]
            | some state => simp [hstate]
        · have hnot : ¬ParentEdge e.fromRef id e := fun h => hto h.2.2.1
          rw [if_neg hto, if_neg hnot, Option.or_none]
          cases hold : scan.childStates.get? e.fromRef with
          | none => simp
          | some states => simp
      · have hnot : ¬ParentEdge trackerId id e := fun h => hfrom h.2.1
        rw [if_neg hfrom, if_neg hnot, Option.or_none]
  · have hnot : ¬ParentEdge trackerId id e := fun h => htype h.1
    rw [if_neg htype, if_neg hnot, Option.or_none]
    split
    · rfl
    · split
      · rfl
      · rfl

theorem childStates_foldl (edges : List EdgeDTO) (scan : ProgramScan) (trackerId id : Ref) :
    ((edges.foldl (scanEdge itemsById) scan).childStates.get? trackerId).bind (·.get? id) =
      ((scan.childStates.get? trackerId).bind (·.get? id)).or
        (childState itemsById edges trackerId id) := by
  induction edges generalizing scan with
  | nil => simp [childState]
  | cons e edges ih =>
    rw [List.foldl_cons, ih, childStates_scanEdge, Option.or_assoc]
    congr 1
    unfold childState
    by_cases h : ParentEdge trackerId id e
    · simp [h]
    · simp [h]

theorem mem_blocked_foldl (edges : List EdgeDTO) (scan : ProgramScan) :
    id ∈ (edges.foldl (scanEdge itemsById) scan).blocked ↔
      id ∈ scan.blocked ∨ ∃ e ∈ edges, Blocking itemsById e ∧ e.toRef = id := by
  induction edges generalizing scan with
  | nil => simp
  | cons e edges ih =>
    rw [List.foldl_cons, ih, List.exists_mem_cons_iff, ← or_assoc]
    refine or_congr_left ?_
    unfold scanEdge
    by_cases htype : e.type = .parent
    · have hnot : ¬Blocking itemsById e := fun h => by
        rw [h.1] at htype
        cases htype
      rw [if_pos htype]
      split <;> simp [hnot]
    · rw [if_neg htype]
      by_cases hblocking : Blocking itemsById e
      · rw [if_pos hblocking, List.mem_cons]
        simp [hblocking, or_comm, eq_comm]
      · rw [if_neg hblocking]
        split <;> simp [hblocking]

theorem mem_inReview_foldl (edges : List EdgeDTO) (scan : ProgramScan) :
    id ∈ (edges.foldl (scanEdge itemsById) scan).inReview ↔
      id ∈ scan.inReview ∨ ∃ e ∈ edges, Reviewing itemsById e ∧ e.toRef = id := by
  induction edges generalizing scan with
  | nil => simp
  | cons e edges ih =>
    rw [List.foldl_cons, ih, List.exists_mem_cons_iff, ← or_assoc]
    refine or_congr_left ?_
    unfold scanEdge
    by_cases hreviewing : Reviewing itemsById e
    · have hparent : e.type ≠ .parent := by
        rw [hreviewing.1]
        decide
      have hblocking : ¬Blocking itemsById e := fun h => by
        have htype := h.1
        rw [hreviewing.1] at htype
        cases htype
      rw [if_neg hparent, if_neg hblocking, if_pos hreviewing, List.mem_cons]
      simp [hreviewing, or_comm, eq_comm]
    · rw [if_neg hreviewing]
      split
      · split <;> simp [hreviewing]
      · split <;> simp [hreviewing]

theorem childStatus_scanEdges (edges : List EdgeDTO) (id : Ref) (state : Option ItemState) :
    childStatus (scanEdges itemsById edges) id state = statusIn itemsById edges id state := by
  unfold childStatus statusIn scanEdges
  simp only [mem_blocked_foldl, mem_inReview_foldl, List.not_mem_nil, false_or]

/-! ## What a rollup lists -/

/-- The children of a rollup with their statuses. -/
def progress (rollup : Option ProgramRollup) : List (Ref × ProgramChildStatus) :=
  (rollup.map (·.children)).getD [] |>.map fun child => (child.id, child.status)

/-- Two readings of a program's progress: the same children, each with the
same status. -/
def SameProgress (r r' : Option ProgramRollup) : Prop :=
  ∀ child, child ∈ progress r ↔ child ∈ progress r'

theorem childState_eq_bind (edges : List EdgeDTO) (trackerId id : Ref) :
    ((scanEdges itemsById edges).childStates.get? trackerId).bind (·.get? id) =
      childState itemsById edges trackerId id := by
  unfold scanEdges
  rw [childStates_foldl]
  rfl

/-- **A rollup lists each child once with its status.** -/
theorem mem_progress_programRollup {status : ProgramChildStatus} :
    (id, status) ∈ progress (programRollup itemsById localeCompare trackerId edges) ↔
      ∃ state, childState itemsById edges trackerId id = some state ∧
        statusIn itemsById edges id state = status := by
  unfold programRollup programRollups
  rw [← childState_eq_bind, OrdMap.get?_mapValues]
  cases (scanEdges itemsById edges).childStates.get? trackerId with
  | none => simp [progress]
  | some states =>
    unfold progress rollupOf
    simp only [Option.map_some, Option.getD_some, List.mem_map, mem_sortBy, Option.bind_some,
      ← childStatus_scanEdges, ← OrdMap.mem_entries_iff]
    constructor
    · rintro ⟨child, ⟨⟨id', state⟩, hstate, rfl⟩, heq⟩
      simp only [Prod.mk.injEq] at heq
      obtain ⟨rfl, rfl⟩ := heq
      exact ⟨state, hstate, rfl⟩
    · rintro ⟨state, hstate, rfl⟩
      exact ⟨_, ⟨(id, state), hstate, rfl⟩, rfl⟩

theorem isSome_childState {edges : List EdgeDTO} {trackerId id : Ref} :
    (childState itemsById edges trackerId id).isSome ↔ ∃ e ∈ edges, ParentEdge trackerId id e := by
  unfold childState
  simp [List.find?_isSome]

/-- Two readings agree when they have the same children in the same states
and statuses. -/
theorem sameProgress_of {itemsById itemsById' : ItemsById} {edges edges' : List EdgeDTO}
    (hstate : ∀ id, childState itemsById edges trackerId id =
      childState itemsById' edges' trackerId id)
    (hstatus : ∀ id state, childState itemsById' edges' trackerId id = some state →
      statusIn itemsById edges id state = statusIn itemsById' edges' id state) :
    SameProgress (programRollup itemsById localeCompare trackerId edges)
      (programRollup itemsById' localeCompare trackerId edges') := by
  rintro ⟨id, status⟩
  rw [mem_progress_programRollup, mem_progress_programRollup]
  refine exists_congr fun state => ?_
  rw [hstate]
  refine and_congr_right fun h => ?_
  rw [hstatus id state h]

end Rollups

end SymphonyBoard
