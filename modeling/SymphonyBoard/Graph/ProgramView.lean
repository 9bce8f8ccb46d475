import SymphonyBoard.Graph.Program
import SymphonyBoard.Graph.Reduction
/-!
# The program view

`graphProgramView` and `programLayers` of `packages/ui/src/model.ts`: a
tracker's children as nodes, the transitive reduction of the `blocks` edges
among them as links, the change requests that close a child attached to it;
and the columns the children are laid out in.

The view draws each pair of the reduction once and no other
(`graphProgramView_spec`). The columns are a layering whatever the links
are, cycles included.

What a node copies from its item is left out.
-/

namespace SymphonyBoard

/-- An edge with the loaded items at its ends. -/
structure ResolvedEdge where
  edge : EdgeDTO
  fromItem : Option ItemDTO
  toItem : Option ItemDTO
deriving DecidableEq

/-- A node as it is drawn. -/
structure GraphNode where
  id : Ref
  item : Option ItemDTO
  label : String
  untracked : Bool
  programStatus : Option ProgramChildStatus
  attachedTo : Option Ref
deriving DecidableEq

/-- A link, numbered by its place among the links. -/
structure GraphLink where
  index : ℕ
  source : Ref
  target : Ref
  type : EdgeType
  lifecycle : Option EdgeLifecycle
deriving DecidableEq

/-- What stands behind the last bar of a ref. -/
def refTail (ref : Ref) : String :=
  String.ofList (ref.toList.reverse.takeWhile (· ≠ '|')).reverse

/-- What stands behind the first bar of a ref. -/
def refRest (ref : Ref) : String :=
  match ref.toList.dropWhile (· ≠ '|') with
  | [] => ref
  | _ :: rest => String.ofList rest

/-- The node of a reference; one that is no item is drawn by the end of its reference. -/
def graphNodeOf (item : Option ItemDTO) (ref : Ref) : GraphNode :=
  { id := ref
    item := item
    label := item.elim (refTail ref) fun it => it.title.getD ref
    untracked := item.isNone
    programStatus := none
    attachedTo := none }

/-- The link of an edge. -/
def graphLinkOf (edge : EdgeDTO) (index : ℕ) : GraphLink :=
  { index := index, source := edge.fromRef, target := edge.toRef, type := edge.type
    lifecycle := edge.lifecycle }

/-- What to call a child: its title, its number, or what its ref names. -/
def programChildName (child : ProgramChild) : String :=
  match child.item with
  | none => refRest child.id
  | some item =>
    match nonEmpty item.title, item.iid with
    | some title, _ => title
    | none, some iid => item.projectPath.getD "" ++ "#" ++ toString iid
    | none, none => refRest child.id

/-- A tracker's program over loaded edges. -/
def resolvedProgramScope (edges : List ResolvedEdge) (trackerId : Ref) : List ResolvedEdge :=
  let children := programChildren (edges.map (·.edge)) trackerId
  edges.filter fun re =>
    if re.edge.type = .parent then
      decide (re.edge.fromRef = trackerId) && decide (re.edge.toRef ∈ children)
    else (re.edge.type = .blocks || re.edge.type = .closes) &&
      decide (re.edge.toRef ∈ children) && decide (re.edge.fromRef ≠ re.edge.toRef)

/-- The two ends of an edge. -/
def pairOf (re : ResolvedEdge) : Ref × Ref := (re.edge.fromRef, re.edge.toRef)

/-- Draw the edges of the kept pairs, each pair once. -/
def drawBlocks : List ResolvedEdge → List (Ref × Ref) → List GraphLink → List GraphLink
  | [], _, links => links
  | re :: blocks, kept, links =>
    if pairOf re ∈ kept then
      drawBlocks blocks (kept.filter fun pair => pair ≠ pairOf re)
        (links ++ [graphLinkOf re.edge links.length])
    else drawBlocks blocks kept links

/-- What the view is put together in. -/
structure ProgramDrawing where
  nodes : OrdMap Ref GraphNode
  attached : OrdMap Ref (List Ref)
  links : List GraphLink

/-- One `closes` edge, at one child. -/
def ProgramDrawing.attach (childId : Ref) (d : ProgramDrawing) (re : ResolvedEdge) :
    ProgramDrawing :=
  if re.edge.toRef ≠ childId then d
  else
    let d :=
      if (d.nodes.get? re.edge.fromRef).isSome then d
      else
        { d with
          nodes := d.nodes.set re.edge.fromRef
            { graphNodeOf re.fromItem re.edge.fromRef with attachedTo := some childId }
          attached := d.attached.upsert childId fun refs =>
            refs.getD [] ++ [re.edge.fromRef] }
    { d with links := d.links ++ [graphLinkOf re.edge d.links.length] }

/-- The children as nodes. -/
def programNodes (rollup : ProgramRollup) : OrdMap Ref GraphNode :=
  rollup.children.foldl (fun nodes child => nodes.set child.id
    { graphNodeOf child.item child.id with
      label := programChildName child
      programStatus := some child.status }) .empty

/-- Whether a node is a child of the tracker. -/
def isChildNode (nodes : OrdMap Ref GraphNode) (ref : Ref) : Bool :=
  (nodes.get? ref).any fun node => node.programStatus.isSome

/-- The `blocks` edges among the children. -/
def programBlocks (edges : List ResolvedEdge) (trackerId : Ref) (rollup : ProgramRollup) :
    List ResolvedEdge :=
  (resolvedProgramScope edges trackerId).filter fun re =>
    re.edge.type = .blocks && isChildNode (programNodes rollup) re.edge.fromRef

/-- What is drawn: the nodes, the links between them, and what is attached to each. -/
structure GraphProgramView where
  nodes : List GraphNode
  links : List GraphLink
  attached : OrdMap Ref (List Ref)
  drawn : ℕ
  total : ℕ
  cyclic : Bool

/-- The view, of reduced `blocks` pairs. -/
def viewOf (edges : List ResolvedEdge) (trackerId : Ref) (rollup : ProgramRollup)
    (reduced : Reduction Ref) : GraphProgramView :=
  let blocks := programBlocks edges trackerId rollup
  let links := drawBlocks blocks reduced.edges []
  let closes := (resolvedProgramScope edges trackerId).filter fun re =>
    re.edge.type = .closes && decide (re.edge.fromRef ≠ trackerId)
  let drawing := rollup.children.foldl (fun d child =>
    closes.foldl (ProgramDrawing.attach child.id) d) ⟨programNodes rollup, .empty, links⟩
  { nodes := drawing.nodes.values
    links := drawing.links
    attached := drawing.attached
    drawn := links.length
    total := (blocks.map pairOf).eraseDups.length
    cyclic := reduced.cyclic }

/-- The view of a program; `none` where the reduction runs out of steps. -/
def graphProgramView (edges : List ResolvedEdge) (trackerId : Ref) (rollup : ProgramRollup) :
    Option GraphProgramView :=
  (transitiveReduction ((programBlocks edges trackerId rollup).map pairOf)).map
    (viewOf edges trackerId rollup)

/-! ## The columns -/

/-- One column further than the last of the prerequisites. -/
def columnAfter (_ : Ref) (vals : List (Ref × ℤ)) : ℤ := (vals.map Prod.snd).foldl max (-1) + 1

/-- `(layers[at] ??= []).push(id)`; a column that is not there is a hole. -/
def pushLayer (layers : List (Option (List Ref))) (i : ℕ) (id : Ref) :
    List (Option (List Ref)) :=
  if i < layers.length then layers.modify i fun ids => some (ids.getD [] ++ [id])
  else layers ++ List.replicate (i - layers.length) none ++ [some [id]]

namespace GraphProgramView

/-- The nodes that are children, in program order. -/
def children (program : GraphProgramView) : List Ref :=
  (program.nodes.filter fun node => node.programStatus.isSome).map (·.id)

/-- The pairs of the `blocks` links, in order. -/
def blockPairs (program : GraphProgramView) : List (Ref × Ref) :=
  (program.links.filter fun link => link.type = .blocks).map fun link => (link.source, link.target)

/-- Each child's sources of `blocks` links. -/
def prerequisites (program : GraphProgramView) : OrdMap Ref (List Ref) :=
  (program.links.filter fun link => link.type = .blocks).foldl (fun m link =>
    if (m.get? link.target).isSome then
      m.upsert link.target fun sources => sources.getD [] ++ [link.source]
    else m)
    (program.children.foldl (fun m id => m.set id []) .empty)

end GraphProgramView

/-- `programLayers`. A child whose column is still open counts as column
`-1`. -/
def programLayers (program : GraphProgramView) : Option (List (Option (List Ref))) :=
  match visitAll program.prerequisites.get? (some (-1)) columnAfter (program.children.length + 1)
      program.children with
  | .error _ => none
  | .ok (columns, _) => some (columns.foldl (fun layers p => pushLayer layers p.2.toNat p.1) [])

/-! ## The nodes -/

namespace OrdMap

variable {K V β : Type*} [DecidableEq K]

/-- The keys after one more binding. -/
theorem keys_upsertEntry (k : K) (f : Option V → V) (l : List (K × V)) :
    (upsertEntry k f l).map Prod.fst =
      if k ∈ l.map Prod.fst then l.map Prod.fst else l.map Prod.fst ++ [k] := by
  induction l with
  | nil => rfl
  | cons b l ih =>
    obtain ⟨kb, v⟩ := b
    unfold upsertEntry
    by_cases hk : kb = k
    · subst hk
      rw [if_pos rfl, List.map_cons, List.map_cons, if_pos List.mem_cons_self]
    · rw [if_neg hk, List.map_cons, List.map_cons, ih]
      by_cases hmem : k ∈ l.map Prod.fst
      · rw [if_pos hmem, if_pos (List.mem_cons_of_mem _ hmem)]
      · rw [if_neg hmem, if_neg (by simpa [Ne.symm hk] using hmem), List.cons_append]

/-- **The keys of a map are in the order they first came in.** -/
theorem keys_foldl_set (key : β → K) (f : β → V) (l : List β) :
    (l.foldl (fun m x => m.set (key x) (f x)) (empty : OrdMap K V)).entries.map Prod.fst =
      (l.map key).eraseDups := by
  induction l using List.reverseRecOn with
  | nil => rfl
  | append_singleton l x ih =>
    rw [List.foldl_append, List.foldl_cons, List.foldl_nil, List.map_append, List.map_singleton,
      eraseDups_snoc]
    have hkeys := keys_upsertEntry (key x) (fun _ => f x)
      (l.foldl (fun m x => m.set (key x) (f x)) (empty : OrdMap K V)).entries
    rw [ih] at hkeys
    simp only [List.mem_eraseDups] at hkeys
    exact hkeys

end OrdMap

theorem get?_programNodes_eq_some {rollup : ProgramRollup} {ref : Ref} {node : GraphNode}
    (h : (programNodes rollup).get? ref = some node) :
    node.id = ref ∧ node.programStatus.isSome = true := by
  rcases OrdMap.get?_foldl_set_eq_some h with ⟨child, -, rfl, rfl⟩ | hempty
  · exact ⟨rfl, rfl⟩
  · rw [OrdMap.get?_empty] at hempty
    cases hempty

theorem keys_programNodes (rollup : ProgramRollup) :
    (programNodes rollup).entries.map Prod.fst = (rollup.children.map (·.id)).eraseDups :=
  OrdMap.keys_foldl_set (fun child : ProgramChild => child.id) _ rollup.children

/-- Every node that is a child, and no other, is named by the rollup. -/
theorem isChildNode_programNodes {rollup : ProgramRollup} {ref : Ref} :
    isChildNode (programNodes rollup) ref = true ↔ ref ∈ rollup.children.map (·.id) := by
  rw [← List.mem_eraseDups, ← keys_programNodes, isChildNode]
  constructor
  · intro h
    obtain ⟨node, hnode, -⟩ := (Option.any_eq_true _ _).mp h
    exact List.mem_map.mpr ⟨(ref, node), OrdMap.mem_entries_iff.mpr hnode, rfl⟩
  · intro h
    obtain ⟨⟨ref, node⟩, hmem, rfl⟩ := List.mem_map.mp h
    have hnode := OrdMap.mem_entries_iff.mp hmem
    exact (Option.any_eq_true _ _).mpr ⟨node, hnode, (get?_programNodes_eq_some hnode).2⟩

/-- The child nodes of a set of nodes, in order. -/
def childNodes (nodes : OrdMap Ref GraphNode) : List Ref :=
  (nodes.values.filter fun node => node.programStatus.isSome).map (·.id)

theorem childNodes_programNodes (rollup : ProgramRollup) :
    childNodes (programNodes rollup) = (rollup.children.map (·.id)).eraseDups := by
  rw [← keys_programNodes, childNodes, OrdMap.values]
  have hentry : ∀ b ∈ (programNodes rollup).entries, b.2.id = b.1 ∧
      b.2.programStatus.isSome = true := by
    rintro ⟨ref, node⟩ hb
    exact get?_programNodes_eq_some (OrdMap.mem_entries_iff.mp hb)
  rw [List.filter_eq_self.mpr, List.map_map]
  · exact List.map_congr_left fun b hb => (hentry b hb).1
  · intro node hnode
    obtain ⟨b, hb, rfl⟩ := List.mem_map.mp hnode
    exact (hentry b hb).2

/-! ## The links -/

/-- The pair a link joins. -/
def GraphLink.pair (link : GraphLink) : Ref × Ref := (link.source, link.target)

/-- **Each kept pair is drawn once**, in the order of its first edge. -/
theorem drawBlocks_eq (blocks : List ResolvedEdge) (kept : List (Ref × Ref))
    (links : List GraphLink) :
    ∃ new, drawBlocks blocks kept links = links ++ new ∧
      new.map GraphLink.pair = ((blocks.map pairOf).filter fun pair => pair ∈ kept).eraseDups ∧
      ∀ link ∈ new, ∃ re ∈ blocks, link.type = re.edge.type := by
  induction blocks generalizing kept links with
  | nil => exact ⟨[], by simp [drawBlocks], by simp, fun _ h => absurd h List.not_mem_nil⟩
  | cons re blocks ih =>
    rw [drawBlocks, List.map_cons]
    by_cases hkept : pairOf re ∈ kept
    · rw [if_pos hkept, List.filter_cons_of_pos (by simpa using hkept), List.eraseDups_cons]
      obtain ⟨new, hlinks, hpairs, htypes⟩ := ih (kept.filter fun pair => pair ≠ pairOf re)
        (links ++ [graphLinkOf re.edge links.length])
      refine ⟨graphLinkOf re.edge links.length :: new, ?_, ?_, ?_⟩
      · rw [hlinks, List.append_assoc]
        rfl
      · rw [List.map_cons, hpairs, List.filter_filter]
        refine congrArg (pairOf re :: ·) (congrArg List.eraseDups ?_)
        refine List.filter_congr fun pair _ => ?_
        rw [Bool.eq_iff_iff]
        simp [and_comm]
      · intro link hlink
        rcases List.mem_cons.mp hlink with rfl | hlink
        · exact ⟨re, List.mem_cons_self, rfl⟩
        · obtain ⟨re', hre', htype⟩ := htypes link hlink
          exact ⟨re', List.mem_cons_of_mem _ hre', htype⟩
    · rw [if_neg hkept, List.filter_cons_of_neg (by simpa using hkept)]
      obtain ⟨new, hlinks, hpairs, htypes⟩ := ih kept links
      refine ⟨new, hlinks, hpairs, fun link hlink => ?_⟩
      obtain ⟨re', hre', htype⟩ := htypes link hlink
      exact ⟨re', List.mem_cons_of_mem _ hre', htype⟩

/-- What an attached change request leaves as it is: the child nodes, and the
`blocks` links. -/
structure SameProgram (d d' : ProgramDrawing) : Prop where
  children : childNodes d'.nodes = childNodes d.nodes
  links : d'.links.filter (fun link => link.type = .blocks) =
    d.links.filter fun link => link.type = .blocks

theorem SameProgram.trans {d d' d'' : ProgramDrawing} (h : SameProgram d d')
    (h' : SameProgram d' d'') : SameProgram d d'' :=
  ⟨h'.children.trans h.children, h'.links.trans h.links⟩

theorem sameProgram_attach (childId : Ref) (d : ProgramDrawing) {re : ResolvedEdge}
    (h : re.edge.type = .closes) : SameProgram d (d.attach childId re) := by
  have hlink : ∀ (links : List GraphLink),
      (links ++ [graphLinkOf re.edge links.length]).filter (fun link => link.type = .blocks) =
        links.filter fun link => link.type = .blocks := by
    intro links
    rw [List.filter_append, List.filter_cons_of_neg (by simp [graphLinkOf, h]), List.filter_nil,
      List.append_nil]
  rw [ProgramDrawing.attach]
  by_cases hchild : re.edge.toRef ≠ childId
  · rw [if_pos hchild]
    exact ⟨rfl, rfl⟩
  · rw [if_neg hchild]
    by_cases hknown : (d.nodes.get? re.edge.fromRef).isSome = true
    · rw [if_pos hknown]
      exact ⟨rfl, hlink d.links⟩
    · rw [if_neg hknown]
      refine ⟨?_, hlink d.links⟩
      have hnone : d.nodes.get? re.edge.fromRef = none := by
        simpa using hknown
      simp only [childNodes, OrdMap.values]
      rw [OrdMap.entries_set_of_none _ hnone, List.map_append, List.filter_append,
        List.map_append]
      have hnew : (([(re.edge.fromRef, ({ graphNodeOf re.fromItem re.edge.fromRef with
          attachedTo := some childId } : GraphNode))].map Prod.snd).filter
            fun node => node.programStatus.isSome).map (·.id) = [] := rfl
      rw [hnew, List.append_nil]

theorem sameProgram_foldl {closes : List ResolvedEdge} (h : ∀ re ∈ closes, re.edge.type = .closes)
    (children : List ProgramChild) (d : ProgramDrawing) :
    SameProgram d (children.foldl (fun d child =>
      closes.foldl (ProgramDrawing.attach child.id) d) d) := by
  have hone : ∀ (childId : Ref) (d : ProgramDrawing),
      SameProgram d (closes.foldl (ProgramDrawing.attach childId) d) := by
    intro childId
    induction closes with
    | nil => exact fun d => ⟨rfl, rfl⟩
    | cons re closes ih =>
      intro d
      exact (sameProgram_attach childId d (h re List.mem_cons_self)).trans
        (ih (fun re' hre' => h re' (List.mem_cons_of_mem _ hre')) _)
  induction children generalizing d with
  | nil => exact ⟨rfl, rfl⟩
  | cons child children ih => exact (hone child.id d).trans (ih _)

/-- **The view of a program**: its child nodes are the rollup's children, in
program order, and the pairs of its `blocks` links are the reduction of the
`blocks` edges among them. -/
theorem graphProgramView_spec (edges : List ResolvedEdge) (trackerId : Ref)
    (rollup : ProgramRollup) :
    ∃ view r, graphProgramView edges trackerId rollup = some view ∧
      transitiveReduction ((programBlocks edges trackerId rollup).map pairOf) = some r ∧
      view.children = (rollup.children.map (·.id)).eraseDups ∧ view.blockPairs = r.edges := by
  obtain ⟨r, hr, hacyclic, hcyclic⟩ :=
    transitiveReduction_spec ((programBlocks edges trackerId rollup).map pairOf)
  obtain ⟨new, hlinks, hpairs, htypes⟩ :=
    drawBlocks_eq (programBlocks edges trackerId rollup) r.edges []
  rw [List.nil_append] at hlinks
  have hsame := @sameProgram_foldl
    ((resolvedProgramScope edges trackerId).filter fun re =>
      re.edge.type = .closes && decide (re.edge.fromRef ≠ trackerId))
    (fun re hre => by
      have h := (List.mem_filter.mp hre).2
      rw [Bool.and_eq_true] at h
      exact of_decide_eq_true h.1)
    rollup.children ⟨programNodes rollup, .empty, new⟩
  refine ⟨viewOf edges trackerId rollup r, r, by rw [graphProgramView, hr]; rfl, hr, ?_, ?_⟩
  · rw [← childNodes_programNodes]
    have hchildren := hsame.children
    rw [← hlinks] at hchildren
    exact hchildren
  · have hblocks : new.filter (fun link => link.type = .blocks) = new := by
      refine List.filter_eq_self.mpr fun link hlink => ?_
      obtain ⟨re, hre, htype⟩ := htypes link hlink
      have h := (List.mem_filter.mp hre).2
      rw [Bool.and_eq_true] at h
      rw [htype]
      exact h.1
    rw [← eraseDups_filter_mem_edges hr, ← hpairs, ← hblocks]
    have hdrawn := hsame.links
    rw [← hlinks] at hdrawn ⊢
    exact congrArg (List.map GraphLink.pair) hdrawn

/-! ## A tracker's own view -/

section Own

variable {itemsById : ItemsById} {localeCompare : String → String → Ordering}
  {edges : List ResolvedEdge} {trackerId : Ref} {rollup : ProgramRollup}

/-- The pairs of the `blocks` edges among a tracker's children. -/
def childBlocks (edges : List ResolvedEdge) (trackerId : Ref) : List (Ref × Ref) :=
  (edges.filter fun re => re.edge.type = .blocks &&
    decide (re.edge.fromRef ∈ programChildren (edges.map (·.edge)) trackerId) &&
    decide (re.edge.toRef ∈ programChildren (edges.map (·.edge)) trackerId) &&
    decide (re.edge.fromRef ≠ re.edge.toRef)).map pairOf

/-- A tracker's rollup names the targets of its `parent` edges. -/
theorem mem_children_programRollup
    (h : programRollup itemsById localeCompare trackerId (edges.map (·.edge)) = some rollup)
    {ref : Ref} : ref ∈ rollup.children.map (·.id) ↔
      ref ∈ programChildren (edges.map (·.edge)) trackerId := by
  have hprogress : ref ∈ rollup.children.map (·.id) ↔
      ∃ status, (ref, status) ∈ progress (programRollup itemsById localeCompare trackerId
        (edges.map (·.edge))) := by
    rw [h, progress]
    simp only [Option.map_some, Option.getD_some, List.mem_map, Prod.mk.injEq]
    constructor
    · rintro ⟨child, hchild, rfl⟩
      exact ⟨child.status, child, hchild, rfl, rfl⟩
    · rintro ⟨status, child, hchild, rfl, -⟩
      exact ⟨child, hchild, rfl⟩
  have hstate : (∃ status, (ref, status) ∈ progress (programRollup itemsById localeCompare trackerId
      (edges.map (·.edge)))) ↔ (childState itemsById (edges.map (·.edge)) trackerId ref).isSome := by
    simp only [mem_progress_programRollup]
    rw [Option.isSome_iff_exists]
    constructor
    · rintro ⟨_, state, hstate, -⟩
      exact ⟨state, hstate⟩
    · rintro ⟨state, hstate⟩
      exact ⟨_, state, hstate, rfl⟩
  rw [hprogress, hstate, isSome_childState, mem_programChildren, IsChildIn]

theorem map_programBlocks_eq
    (h : programRollup itemsById localeCompare trackerId (edges.map (·.edge)) = some rollup) :
    (programBlocks edges trackerId rollup).map pairOf = childBlocks edges trackerId := by
  rw [programBlocks, resolvedProgramScope, childBlocks, List.filter_filter]
  refine congrArg (List.map pairOf) (List.filter_congr fun re _ => ?_)
  have hchild : isChildNode (programNodes rollup) re.edge.fromRef =
      decide (re.edge.fromRef ∈ programChildren (edges.map (·.edge)) trackerId) := by
    rw [Bool.eq_iff_iff, isChildNode_programNodes, mem_children_programRollup h, decide_eq_true_eq]
  rw [hchild]
  cases htype : re.edge.type with
  | blocks => simp [Bool.and_assoc]
  | _ => simp

end Own

/-- **The reduction is the transitive one, and the view draws it**: without
a cycle the least part of the distinct pairs that reaches as far, with one
all of them; and of a tracker's children each pair that is kept is drawn
once, and no other pair. -/
theorem transitiveReduction_correct :
    (∀ pairs : List (Ref × Ref), ∃ r, transitiveReduction pairs = some r ∧
      (Acyclic (PairLink (distinctPairs pairs)) →
        r.cyclic = false ∧ IsTransitiveReduction (distinctPairs pairs) r.edges) ∧
      (¬Acyclic (PairLink (distinctPairs pairs)) →
        r.cyclic = true ∧ r.edges = distinctPairs pairs)) ∧
    ∀ (itemsById : ItemsById) (localeCompare : String → String → Ordering)
      (edges : List ResolvedEdge) (trackerId : Ref),
      ∀ rollup ∈ programRollup itemsById localeCompare trackerId (edges.map (·.edge)),
        ∃ view r, graphProgramView edges trackerId rollup = some view ∧
          transitiveReduction (childBlocks edges trackerId) = some r ∧
          ∀ pair, view.blockPairs.count pair = if pair ∈ r.edges then 1 else 0 := by
  refine ⟨transitiveReduction_spec, fun itemsById localeCompare edges trackerId rollup h => ?_⟩
  obtain ⟨view, r, hview, hr, -, hpairs⟩ := graphProgramView_spec edges trackerId rollup
  rw [map_programBlocks_eq h] at hr
  refine ⟨view, r, hview, hr, fun pair => ?_⟩
  have hnodup : r.edges.Nodup := by
    rw [← eraseDups_filter_mem_edges hr]
    exact eraseDups_nodup _
  rw [hpairs]
  split
  · rename_i hmem
    exact List.count_eq_one_of_mem hnodup hmem
  · rename_i hmem
    exact List.count_eq_zero_of_not_mem hmem

end SymphonyBoard
