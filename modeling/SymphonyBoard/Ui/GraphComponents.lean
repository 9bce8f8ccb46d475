import SymphonyBoard.Common.Components
import SymphonyBoard.Common.OrdSet
import SymphonyBoard.Contract.CommitFileStats
import SymphonyBoard.Graph.ProgramView
/-!
# The components of a graph view

`graphConnectedComponents` of `packages/ui/src/model.ts`: the graph cut into
its connected components, in the order of their first ids. The flood takes
neighbours out of a set that it shares with the loop over the components,
and the links are handed out afterwards, by the component of their source.

`isPartition_components` says that this is the partition into the classes
of being joined by links, and `componentIds_of_perm` that only the nodes and
links count, not their order.
-/

namespace SymphonyBoard

/-- What is drawn. -/
structure GraphData where
  nodes : List GraphNode
  links : List GraphLink

/-- `ids.sort()`. -/
def sortIds (ids : List Ref) : List Ref := sortBy unitOrder ids

/-- `adjacency.get(id)?.add(other)`. -/
def addNeighbour (adjacency : OrdMap Ref (OrdSet Ref)) (id other : Ref) :
    OrdMap Ref (OrdSet Ref) :=
  match adjacency.get? id with
  | some set => adjacency.set id (set.add other)
  | none => adjacency

/-- A link whose ends are both there makes them neighbours. -/
def connect (nodeById : OrdMap Ref GraphNode) (adjacency : OrdMap Ref (OrdSet Ref))
    (link : GraphLink) : OrdMap Ref (OrdSet Ref) :=
  if (nodeById.get? link.source).isNone || (nodeById.get? link.target).isNone then adjacency
  else addNeighbour (addNeighbour adjacency link.source link.target) link.target link.source

/-- Each node with the nodes its links join it to. -/
def graphAdjacency (graph : GraphData) : OrdMap Ref (OrdSet Ref) :=
  graph.links.foldl (connect (.index (·.id) graph.nodes))
    (graph.nodes.foldl (fun m node => m.set node.id (OrdSet.ofList [])) .empty)

/-- `[...(adjacency.get(id) ?? [])].sort()`. -/
def sortedNeighbours (adjacency : OrdMap Ref (OrdSet Ref)) (id : Ref) : List Ref :=
  sortIds (((adjacency.get? id).map OrdSet.values).getD [])

/-- The ids of every component, sorted. -/
def componentIds (graph : GraphData) : List (List Ref) :=
  let nodeById := OrdMap.index (·.id) graph.nodes
  let remaining := sortIds (nodeById.entries.map Prod.fst)
  (componentsOf (sortedNeighbours (graphAdjacency graph)) remaining.length remaining).map sortIds

/-- The component each node is in. -/
def componentIndexByNode (parts : List (List Ref)) : OrdMap Ref ℕ :=
  parts.zipIdx.foldl (fun m part => part.1.foldl (fun m id => m.set id part.2) m) .empty

/-- A link goes to the component of both its ends. -/
def assignLink (index : OrdMap Ref ℕ) (components : List GraphData) (link : GraphLink) :
    List GraphData :=
  match index.get? link.source with
  | none => components
  | some i =>
    if some i = index.get? link.target then
      components.modify i fun c => { c with links := c.links ++ [link] }
    else components

/-- `graphConnectedComponents`: the parts of the graph, each with its own links. -/
def graphConnectedComponents (graph : GraphData) : List GraphData :=
  let nodeById := OrdMap.index (·.id) graph.nodes
  let parts := componentIds graph
  graph.links.foldl (assignLink (componentIndexByNode parts))
    (parts.map fun ids => { nodes := ids.filterMap nodeById.get?, links := [] })

/-! ## Neighbours -/

/-- Both ends of a link are nodes. -/
def GraphData.Present (graph : GraphData) (link : GraphLink) : Prop :=
  (∃ node ∈ graph.nodes, node.id = link.source) ∧ ∃ node ∈ graph.nodes, node.id = link.target

/-- A link between two ids, either way round, whose ends are both nodes. -/
def GraphData.Adjacent (graph : GraphData) (a b : Ref) : Prop :=
  ∃ link ∈ graph.links, graph.Present link ∧
    (link.source = a ∧ link.target = b ∨ link.source = b ∧ link.target = a)

theorem GraphData.Adjacent.symm {graph : GraphData} {a b : Ref} (h : graph.Adjacent a b) :
    graph.Adjacent b a := by
  obtain ⟨link, hlink, hpresent, hends⟩ := h
  exact ⟨link, hlink, hpresent, hends.symm⟩

theorem GraphData.Adjacent.mem {graph : GraphData} {a b : Ref} (h : graph.Adjacent a b) :
    ∃ node ∈ graph.nodes, node.id = b := by
  obtain ⟨link, -, ⟨hsource, htarget⟩, ⟨-, rfl⟩ | ⟨rfl, -⟩⟩ := h
  · exact htarget
  · exact hsource

theorem isSome_index {nodes : List GraphNode} {id : Ref} :
    ((OrdMap.index (·.id) nodes).get? id).isSome = true ↔ ∃ node ∈ nodes, node.id = id := by
  rw [OrdMap.get?_index, Option.isSome_iff_ne_none, Ne, List.getLast?_eq_none_iff,
    List.filter_eq_nil_iff]
  simp

/-- The members an id has in the map; none where it has no set. -/
def neighboursAt (adjacency : OrdMap Ref (OrdSet Ref)) (id : Ref) : List Ref :=
  ((adjacency.get? id).map OrdSet.values).getD []

theorem isSome_addNeighbour (adjacency : OrdMap Ref (OrdSet Ref)) (id other x : Ref) :
    ((addNeighbour adjacency id other).get? x).isSome = (adjacency.get? x).isSome := by
  unfold addNeighbour
  cases hset : adjacency.get? id with
  | none => rfl
  | some set =>
    rw [OrdMap.get?_set]
    split
    · rename_i heq
      rw [← heq, hset]
      rfl
    · rfl

theorem mem_addNeighbour {adjacency : OrdMap Ref (OrdSet Ref)} {id other x y : Ref}
    (hid : (adjacency.get? id).isSome = true) :
    y ∈ neighboursAt (addNeighbour adjacency id other) x ↔
      y ∈ neighboursAt adjacency x ∨ (x = id ∧ y = other) := by
  obtain ⟨set, hset⟩ := Option.isSome_iff_exists.mp hid
  unfold neighboursAt addNeighbour
  rw [hset]
  simp only
  rw [OrdMap.get?_set]
  by_cases hx : id = x
  · subst hx
    rw [if_pos rfl, hset]
    show y ∈ (set.add other).values ↔ y ∈ set.values ∨ _
    rw [← OrdSet.mem_def, OrdSet.mem_add, OrdSet.mem_def]
    constructor
    · rintro (rfl | h)
      · exact Or.inr ⟨rfl, rfl⟩
      · exact Or.inl h
    · rintro (h | ⟨-, rfl⟩)
      · exact Or.inr h
      · exact Or.inl rfl
  · rw [if_neg hx]
    constructor
    · exact Or.inl
    · rintro (h | ⟨rfl, -⟩)
      · exact h
      · exact absurd rfl hx

/-- A map of neighbours has a set for every node, and for nothing else. -/
def HasSets (nodes : List GraphNode) (adjacency : OrdMap Ref (OrdSet Ref)) : Prop :=
  ∀ x, (adjacency.get? x).isSome = ((OrdMap.index (·.id) nodes).get? x).isSome

theorem HasSets.connect {nodes : List GraphNode} {adjacency : OrdMap Ref (OrdSet Ref)}
    (h : HasSets nodes adjacency) (link : GraphLink) :
    HasSets nodes (connect (.index (·.id) nodes) adjacency link) := by
  intro x
  unfold SymphonyBoard.connect
  split
  · exact h x
  · rw [isSome_addNeighbour, isSome_addNeighbour]
    exact h x

theorem mem_connect {nodes : List GraphNode} {adjacency : OrdMap Ref (OrdSet Ref)}
    (h : HasSets nodes adjacency) (link : GraphLink) (links : List GraphLink) {x y : Ref} :
    y ∈ neighboursAt (connect (.index (·.id) nodes) adjacency link) x ↔
      y ∈ neighboursAt adjacency x ∨ (GraphData.Present ⟨nodes, links⟩ link ∧
        (link.source = x ∧ link.target = y ∨ link.source = y ∧ link.target = x)) := by
  unfold SymphonyBoard.connect
  split
  · rename_i hnone
    have habsent : ¬GraphData.Present ⟨nodes, links⟩ link := by
      rintro ⟨hsource, htarget⟩
      rw [← isSome_index] at hsource htarget
      simp only [Bool.or_eq_true, Option.isNone_iff_eq_none] at hnone
      rcases hnone with hnone | hnone
      · rw [hnone] at hsource
        exact Bool.false_ne_true hsource
      · rw [hnone] at htarget
        exact Bool.false_ne_true htarget
    constructor
    · exact Or.inl
    · rintro (hy | ⟨hpresent, -⟩)
      · exact hy
      · exact absurd hpresent habsent
  · rename_i hboth
    simp only [Bool.or_eq_true, Option.isNone_iff_eq_none, not_or] at hboth
    have hsource := Option.isSome_iff_ne_none.mpr hboth.1
    have htarget := Option.isSome_iff_ne_none.mpr hboth.2
    have hpresent : GraphData.Present ⟨nodes, links⟩ link :=
      ⟨isSome_index.mp hsource, isSome_index.mp htarget⟩
    rw [mem_addNeighbour (by rw [isSome_addNeighbour, h, htarget]),
      mem_addNeighbour (by rw [h, hsource])]
    constructor
    · rintro ((hy | ⟨rfl, rfl⟩) | ⟨rfl, rfl⟩)
      · exact Or.inl hy
      · exact Or.inr ⟨hpresent, Or.inl ⟨rfl, rfl⟩⟩
      · exact Or.inr ⟨hpresent, Or.inr ⟨rfl, rfl⟩⟩
    · rintro (hy | ⟨-, ⟨rfl, rfl⟩ | ⟨rfl, rfl⟩⟩)
      · exact Or.inl (Or.inl hy)
      · exact Or.inl (Or.inr ⟨rfl, rfl⟩)
      · exact Or.inr ⟨rfl, rfl⟩

theorem mem_foldl_connect {nodes : List GraphNode} (links : List GraphLink)
    {adjacency : OrdMap Ref (OrdSet Ref)} (h : HasSets nodes adjacency) {x y : Ref} :
    y ∈ neighboursAt (links.foldl (connect (.index (·.id) nodes)) adjacency) x ↔
      y ∈ neighboursAt adjacency x ∨ GraphData.Adjacent ⟨nodes, links⟩ x y := by
  induction links generalizing adjacency with
  | nil => simp [GraphData.Adjacent]
  | cons link links ih =>
    rw [List.foldl_cons, ih (h.connect link), mem_connect h link (link :: links)]
    have hcons : GraphData.Adjacent ⟨nodes, link :: links⟩ x y ↔
        (GraphData.Present ⟨nodes, link :: links⟩ link ∧
          (link.source = x ∧ link.target = y ∨ link.source = y ∧ link.target = x)) ∨
        GraphData.Adjacent ⟨nodes, links⟩ x y := by
      constructor
      · rintro ⟨l, hl, hpresent, hends⟩
        rcases List.mem_cons.mp hl with rfl | hl
        · exact Or.inl ⟨hpresent, hends⟩
        · exact Or.inr ⟨l, hl, hpresent, hends⟩
      · rintro (⟨hpresent, hends⟩ | ⟨l, hl, hpresent, hends⟩)
        · exact ⟨link, List.mem_cons_self .., hpresent, hends⟩
        · exact ⟨l, List.mem_cons_of_mem link hl, hpresent, hends⟩
    rw [hcons, or_assoc]

/-- **Neighbours are joined by a link whose ends are both there.** -/
theorem mem_neighboursAt {graph : GraphData} {x y : Ref} :
    y ∈ neighboursAt (graphAdjacency graph) x ↔ graph.Adjacent x y := by
  have hstart : ∀ x, ((graph.nodes.foldl (fun m node => m.set node.id (OrdSet.ofList []))
      (.empty : OrdMap Ref (OrdSet Ref))).get? x) =
        if ∃ node ∈ graph.nodes, node.id = x then some (OrdSet.ofList []) else none := by
    intro x
    split
    · rename_i hx
      exact OrdMap.get?_foldl_set_of (fun _ _ _ => rfl) (Or.inl hx)
    · rename_i hx
      rw [Option.eq_none_iff_forall_ne_some]
      intro set hset
      rcases OrdMap.get?_foldl_set_eq_some hset with ⟨node, hnode, hid, -⟩ | hnone
      · exact hx ⟨node, hnode, hid⟩
      · exact absurd hnone (by simp)
  have hcovers : HasSets graph.nodes
      (graph.nodes.foldl (fun m node => m.set node.id (OrdSet.ofList [])) .empty) := by
    intro x
    rw [hstart, Bool.eq_iff_iff, isSome_index]
    split
    · rename_i hx
      exact ⟨fun _ => hx, fun _ => rfl⟩
    · rename_i hx
      exact ⟨fun h => absurd h Bool.false_ne_true, fun h => absurd h hx⟩
  unfold graphAdjacency
  rw [mem_foldl_connect graph.links hcovers]
  constructor
  · rintro (h | h)
    · unfold neighboursAt at h
      rw [hstart] at h
      split at h <;> exact absurd h List.not_mem_nil
    · exact h
  · exact Or.inr

theorem nodup_neighboursAt (adjacency : OrdMap Ref (OrdSet Ref)) (x : Ref) :
    (neighboursAt adjacency x).Nodup := by
  unfold neighboursAt
  cases adjacency.get? x with
  | none => exact List.nodup_nil
  | some set => exact set.nodup

/-! ## The partition of the ids -/

theorem mem_sortIds {ids : List Ref} {x : Ref} : x ∈ sortIds ids ↔ x ∈ ids := mem_sortBy

theorem sortIds_perm (ids : List Ref) : (sortIds ids).Perm ids := sortBy_perm unitOrder ids

/-- A list without repeats is sorted by what it holds. -/
theorem sortIds_eq {ids ids' : List Ref} (h : ids.Nodup) (h' : ids'.Nodup)
    (hmem : ∀ x, x ∈ ids ↔ x ∈ ids') : sortIds ids = sortIds ids' := by
  have hperm : (sortIds ids).Perm (sortIds ids') :=
    ((sortIds_perm ids).trans ((List.perm_ext_iff_of_nodup h h').mpr hmem)).trans
      (sortIds_perm ids').symm
  refine hperm.eq_of_pairwise ?_ (pairwise_sortBy ids) (pairwise_sortBy ids')
  intro a b _ _ hab hba
  refine eq_of_unitOrder ?_
  have hswap : unitOrder b a = (unitOrder a b).swap := Std.OrientedCmp.eq_swap
  rw [hswap] at hba
  cases hcmp : unitOrder a b with
  | eq => rfl
  | lt =>
    rw [hcmp] at hba
    cases hba
  | gt =>
    rw [hcmp] at hab
    cases hab

variable {graph graph' : GraphData} {a b : GraphNode} {x y : Ref}

/-- Joined by a path of links whose ends are all nodes. -/
def GraphData.Joined (graph : GraphData) : Ref → Ref → Prop :=
  Relation.ReflTransGen graph.Adjacent

theorem mem_sortedNeighbours : y ∈ sortedNeighbours (graphAdjacency graph) x ↔ graph.Adjacent x y :=
  mem_sortIds.trans mem_neighboursAt

theorem linkedBy_iff : LinkedBy (sortedNeighbours (graphAdjacency graph)) x y ↔ graph.Joined x y := by
  have hsame : (fun x y => y ∈ sortedNeighbours (graphAdjacency graph) x) = graph.Adjacent := by
    funext x y
    exact propext mem_sortedNeighbours
  unfold LinkedBy GraphData.Joined
  rw [hsame]

/-- The ids of the nodes, sorted. -/
def GraphData.remaining (graph : GraphData) : List Ref :=
  sortIds ((OrdMap.index (·.id) graph.nodes).entries.map Prod.fst)

theorem mem_remaining : x ∈ graph.remaining ↔ ∃ node ∈ graph.nodes, node.id = x := by
  unfold GraphData.remaining
  rw [mem_sortIds, ← isSome_index, Option.isSome_iff_exists]
  simp only [← OrdMap.mem_entries_iff, List.mem_map]
  constructor
  · rintro ⟨⟨_, node⟩, hentry, rfl⟩
    exact ⟨node, hentry⟩
  · rintro ⟨node, hentry⟩
    exact ⟨(x, node), hentry, rfl⟩

theorem nodup_remaining (graph : GraphData) : graph.remaining.Nodup :=
  (sortIds_perm _).nodup_iff.mpr (OrdMap.index (·.id) graph.nodes).nodup

theorem mutual_neighbours (graph : GraphData) :
    Mutual (sortedNeighbours (graphAdjacency graph)) graph.remaining := by
  refine ⟨fun x _ y hy => ?_, fun x _ y hy => ?_⟩
  · rw [mem_remaining]
    exact (mem_sortedNeighbours.mp hy).mem
  · exact mem_sortedNeighbours.mpr (mem_sortedNeighbours.mp hy).symm

theorem perm_flatten_map_sortIds (parts : List (List Ref)) :
    (parts.map sortIds).flatten.Perm parts.flatten := by
  induction parts with
  | nil => exact List.Perm.refl _
  | cons ids parts ih => exact (sortIds_perm ids).append ih

/-- **The ids are cut into the classes of being joined.** -/
theorem componentIds_classes (graph : GraphData) :
    (componentIds graph).flatten.Perm graph.remaining ∧
      ∀ ids ∈ componentIds graph, ∀ x ∈ ids, ∀ y, y ∈ ids ↔ graph.Joined x y := by
  obtain ⟨hperm, hclasses⟩ :=
    componentsOf_classes le_rfl (nodup_remaining graph) (mutual_neighbours graph)
  refine ⟨(perm_flatten_map_sortIds _).trans hperm, fun ids hids x hx y => ?_⟩
  obtain ⟨part, hpart, rfl⟩ := List.mem_map.mp hids
  rw [mem_sortIds] at hx ⊢
  rw [hclasses part hpart x hx y, linkedBy_iff]

theorem nodup_componentIds (graph : GraphData) : (componentIds graph).flatten.Nodup :=
  (componentIds_classes graph).1.nodup_iff.mpr (nodup_remaining graph)

theorem mem_componentIds : (∃ ids ∈ componentIds graph, x ∈ ids) ↔
    ∃ node ∈ graph.nodes, node.id = x := by
  rw [← List.mem_flatten, (componentIds_classes graph).1.mem_iff, mem_remaining]

/-! ## Handing out the links -/

/-- An id is in one part. -/
theorem part_unique {parts : List (List Ref)} (hnodup : parts.flatten.Nodup) {i j : ℕ}
    (hi : i < parts.length) (hj : j < parts.length) (hxi : x ∈ parts[i]) (hxj : x ∈ parts[j]) :
    i = j := by
  have hpairs := (List.nodup_flatten.mp hnodup).2
  by_contra hne
  rcases Nat.lt_or_gt_of_ne hne with hlt | hlt
  · exact List.pairwise_iff_getElem.mp hpairs i j hi hj hlt hxi hxj
  · exact List.pairwise_iff_getElem.mp hpairs j i hj hi hlt hxj hxi

/-- The index of a component is the one of each of its ids. -/
theorem get?_componentIndexByNode {parts : List (List Ref)} (hnodup : parts.flatten.Nodup)
    {i : ℕ} :
    (componentIndexByNode parts).get? x = some i ↔ ∃ h : i < parts.length, x ∈ parts[i] := by
  have hwrites : componentIndexByNode parts =
      (parts.zipIdx.flatMap fun part => part.1.map fun id => (id, part.2)).foldl
        (fun m w => m.set w.1 w.2) .empty := by
    rw [List.foldl_flatMap]
    simp only [List.foldl_map]
    rfl
  have hmem : ∀ w : Ref × ℕ,
      w ∈ (parts.zipIdx.flatMap fun part => part.1.map fun id => (id, part.2)) ↔
        ∃ h : w.2 < parts.length, w.1 ∈ parts[w.2] := by
    rintro ⟨id, j⟩
    simp only [List.mem_flatMap, List.mem_map, Prod.exists, Prod.mk.injEq]
    constructor
    · rintro ⟨ids, k, hzip, id', hid, rfl, rfl⟩
      obtain ⟨hk, hget⟩ := List.getElem?_eq_some_iff.mp (List.mem_zipIdx_iff_getElem?.mp hzip)
      exact ⟨hk, hget ▸ hid⟩
    · rintro ⟨hj, hid⟩
      exact ⟨parts[j], j, List.mem_zipIdx_iff_getElem?.mpr (List.getElem?_eq_getElem hj), id, hid,
        rfl, rfl⟩
  rw [hwrites]
  constructor
  · intro h
    rcases OrdMap.get?_foldl_set_eq_some h with ⟨w, hw, rfl, rfl⟩ | hnone
    · exact (hmem w).mp hw
    · exact absurd hnone (by simp)
  · rintro ⟨hi, hx⟩
    refine OrdMap.get?_foldl_set_of (fun w hw hkey => ?_) (Or.inl ⟨(x, i), (hmem _).mpr ⟨hi, hx⟩, rfl⟩)
    obtain ⟨hj, hwx⟩ := (hmem w).mp hw
    exact part_unique hnodup hj hi (hkey ▸ hwx) hx

/-- A link both ends of which have the index. -/
def endsAt (index : OrdMap Ref ℕ) (i : ℕ) (link : GraphLink) : Bool :=
  decide (index.get? link.source = some i) && decide (index.get? link.target = some i)

theorem assignLink_eq (index : OrdMap Ref ℕ) (components : List GraphData) (link : GraphLink) :
    assignLink index components link =
      components.mapIdx fun i c => { c with links := c.links ++ [link].filter (endsAt index i) } := by
  refine List.ext_getElem? fun j => ?_
  rw [List.getElem?_mapIdx]
  unfold assignLink
  have hkeep : ∀ c : GraphData, { c with links := c.links ++ [] } = c := by
    intro c
    simp
  cases hsource : index.get? link.source with
  | none =>
    have hends : endsAt index j link = false := by simp [endsAt, hsource]
    simp only [List.filter_singleton, hends]
    cases components[j]? with
    | none => rfl
    | some c => exact congrArg some (hkeep c).symm
  | some i =>
    simp only
    by_cases htarget : some i = index.get? link.target
    · rw [if_pos htarget, List.getElem?_modify]
      by_cases hij : i = j
      · subst hij
        have hends : endsAt index i link = true := by simp [endsAt, hsource, ← htarget]
        simp only [List.filter_singleton, hends]
        cases components[i]? <;> simp
      · have hends : endsAt index j link = false := by simp [endsAt, hsource, hij]
        simp only [List.filter_singleton, hends]
        cases components[j]? <;> simp [hij]
    · rw [if_neg htarget]
      have hends : endsAt index j link = false := by
        unfold endsAt
        rw [Bool.and_eq_false_iff, decide_eq_false_iff_not, decide_eq_false_iff_not, hsource]
        by_cases hij : i = j
        · subst hij
          exact Or.inr fun h => htarget h.symm
        · exact Or.inl fun h => hij (Option.some.inj h)
      simp only [List.filter_singleton, hends]
      cases components[j]? <;> simp

/-- **Every link is handed to the component with the index of its ends**, in
the order of the links. -/
theorem foldl_assignLink (index : OrdMap Ref ℕ) (links : List GraphLink)
    (components : List GraphData) :
    links.foldl (assignLink index) components =
      components.mapIdx fun i c => { c with links := c.links ++ links.filter (endsAt index i) } := by
  induction links generalizing components with
  | nil =>
    refine List.ext_getElem? fun j => ?_
    rw [List.getElem?_mapIdx]
    simp only [List.foldl_nil, List.filter_nil, List.append_nil]
    cases components[j]? <;> rfl
  | cons link links ih =>
    rw [List.foldl_cons, ih, assignLink_eq, List.mapIdx_mapIdx]
    refine congrArg (components.mapIdx ·) ?_
    funext i c
    simp only [Function.comp, List.append_assoc]
    rw [← List.filter_append, List.singleton_append]

/-- The components: the nodes of a part of the ids, with the links that end
there. -/
theorem getElem?_components (graph : GraphData) (i : ℕ) :
    (graphConnectedComponents graph)[i]? = ((componentIds graph)[i]?).map fun ids =>
      { nodes := ids.filterMap (OrdMap.index (·.id) graph.nodes).get?
        links := graph.links.filter (endsAt (componentIndexByNode (componentIds graph)) i) } := by
  unfold graphConnectedComponents
  simp only
  rw [foldl_assignLink, List.getElem?_mapIdx, List.getElem?_map, Option.map_map]
  rfl

theorem nodes_components (graph : GraphData) :
    (graphConnectedComponents graph).map (·.nodes) =
      (componentIds graph).map fun ids => ids.filterMap (OrdMap.index (·.id) graph.nodes).get? := by
  refine List.ext_getElem? fun i => ?_
  rw [List.getElem?_map, List.getElem?_map, getElem?_components, Option.map_map]
  rfl

/-! ## The components -/

/-- Components that cut a graph into the classes of being joined: every node
in one of them, once; with a node those joined to it and no others; and in
each the links between its nodes, in their order, and no others. -/
structure IsPartition (graph : GraphData) (components : List GraphData) : Prop where
  nodes : (components.flatMap (·.nodes)).Perm graph.nodes
  joined : ∀ c ∈ components, ∀ a ∈ c.nodes, ∀ b ∈ graph.nodes,
    b ∈ c.nodes ↔ graph.Joined a.id b.id
  links : ∀ c ∈ components, c.links = graph.links.filter fun link =>
    decide (link.source ∈ c.nodes.map (·.id)) && decide (link.target ∈ c.nodes.map (·.id))
  kept : ∀ link ∈ graph.links, graph.Present link → ∃ c ∈ components, link ∈ c.links

section Distinct

variable (hids : (graph.nodes.map (·.id)).Nodup)

include hids

theorem eq_of_id (ha : a ∈ graph.nodes) (hb : b ∈ graph.nodes) (h : a.id = b.id) : a = b :=
  List.inj_on_of_nodup_map hids ha hb h

theorem get?_nodeById : (OrdMap.index (·.id) graph.nodes).get? x = some a ↔
    a ∈ graph.nodes ∧ a.id = x :=
  OrdMap.get?_index_eq_some fun _ ha _ hb h => eq_of_id hids ha hb h

/-- The nodes of a part are those with its ids. -/
theorem mem_nodes_part {ids : List Ref} :
    a ∈ ids.filterMap (OrdMap.index (·.id) graph.nodes).get? ↔ a ∈ graph.nodes ∧ a.id ∈ ids := by
  rw [List.mem_filterMap]
  constructor
  · rintro ⟨x, hx, hget⟩
    obtain ⟨ha, rfl⟩ := (get?_nodeById hids).mp hget
    exact ⟨ha, hx⟩
  · rintro ⟨ha, hx⟩
    exact ⟨a.id, hx, (get?_nodeById hids).mpr ⟨ha, rfl⟩⟩

/-- Its ids are those of its nodes, where all are ids of nodes. -/
theorem mem_ids_part {ids : List Ref} (hnodes : ∀ x ∈ ids, ∃ node ∈ graph.nodes, node.id = x) :
    x ∈ (ids.filterMap (OrdMap.index (·.id) graph.nodes).get?).map (·.id) ↔ x ∈ ids := by
  rw [List.mem_map]
  constructor
  · rintro ⟨a, ha, rfl⟩
    exact ((mem_nodes_part hids).mp ha).2
  · intro hx
    obtain ⟨a, ha, rfl⟩ := hnodes x hx
    exact ⟨a, (mem_nodes_part hids).mpr ⟨ha, hx⟩, rfl⟩

theorem flatMap_nodes_perm : ((graphConnectedComponents graph).flatMap (·.nodes)).Perm
    graph.nodes := by
  have hflat : (graphConnectedComponents graph).flatMap (·.nodes) =
      (componentIds graph).flatten.filterMap (OrdMap.index (·.id) graph.nodes).get? := by
    rw [List.flatMap_def, nodes_components, List.filterMap_flatten]
  have hnodup : graph.nodes.Nodup := List.Nodup.of_map _ hids
  rw [hflat]
  refine (List.perm_ext_iff_of_nodup ?_ hnodup).mpr fun a => ?_
  · refine List.Nodup.filterMap (fun x y a hx hy => ?_) (nodup_componentIds graph)
    rw [Option.mem_def, get?_nodeById hids] at hx hy
    rw [← hx.2, ← hy.2]
  · rw [mem_nodes_part hids, List.mem_flatten, mem_componentIds]
    exact ⟨fun h => h.1, fun h => ⟨h, a, h, rfl⟩⟩

/-- **The components are the partition into the classes of being joined.** -/
theorem isPartition_components : IsPartition graph (graphConnectedComponents graph) := by
  have hpart : ∀ c ∈ graphConnectedComponents graph, ∃ i, ∃ h : i < (componentIds graph).length,
      c.nodes = (componentIds graph)[i].filterMap (OrdMap.index (·.id) graph.nodes).get? ∧
        c.links = graph.links.filter (endsAt (componentIndexByNode (componentIds graph)) i) := by
    intro c hc
    obtain ⟨i, hi⟩ := List.getElem?_of_mem hc
    rw [getElem?_components] at hi
    obtain ⟨ids, hids', rfl⟩ := Option.map_eq_some_iff.mp hi
    obtain ⟨hlt, rfl⟩ := List.getElem?_eq_some_iff.mp hids'
    exact ⟨i, hlt, rfl, rfl⟩
  have hnodup := nodup_componentIds graph
  refine ⟨flatMap_nodes_perm hids, fun c hc a ha b hb => ?_, fun c hc => ?_, fun link hl hp => ?_⟩
  · obtain ⟨i, hi, hnodes, -⟩ := hpart c hc
    rw [hnodes, mem_nodes_part hids] at ha ⊢
    have hclass := (componentIds_classes graph).2 _ (List.getElem_mem hi) a.id ha.2 b.id
    exact ⟨fun h => hclass.mp h.2, fun h => ⟨hb, hclass.mpr h⟩⟩
  · obtain ⟨i, hi, hnodes, hlinks⟩ := hpart c hc
    rw [hlinks, hnodes]
    have hall : ∀ x ∈ (componentIds graph)[i], ∃ node ∈ graph.nodes, node.id = x := fun x hx =>
      mem_componentIds.mp ⟨_, List.getElem_mem hi, hx⟩
    have hindex : ∀ x, (componentIndexByNode (componentIds graph)).get? x = some i ↔
        x ∈ (componentIds graph)[i] := by
      intro x
      rw [get?_componentIndexByNode hnodup]
      exact ⟨fun h => h.2, fun h => ⟨hi, h⟩⟩
    refine List.filter_congr fun link _ => ?_
    rw [Bool.eq_iff_iff]
    simp only [endsAt, Bool.and_eq_true, decide_eq_true_eq, hindex, mem_ids_part hids hall]
  · -- both ends of the link are in the part of its source
    obtain ⟨ids, hmem, hsource⟩ := mem_componentIds.mpr hp.1
    obtain ⟨i, hi, rfl⟩ := List.getElem_of_mem hmem
    have htarget : link.target ∈ (componentIds graph)[i] := by
      rw [(componentIds_classes graph).2 _ hmem _ hsource]
      exact Relation.ReflTransGen.single ⟨link, hl, hp, Or.inl ⟨rfl, rfl⟩⟩
    have hget := getElem?_components graph i
    rw [List.getElem?_eq_getElem hi, Option.map_some] at hget
    refine ⟨_, List.mem_of_getElem? hget, List.mem_filter.mpr ⟨hl, ?_⟩⟩
    simp only [endsAt, Bool.and_eq_true, decide_eq_true_eq]
    exact ⟨(get?_componentIndexByNode hnodup).mpr ⟨hi, hsource⟩,
      (get?_componentIndexByNode hnodup).mpr ⟨hi, htarget⟩⟩

omit hids in
theorem adjacent_of_perm (hnodes : graph'.nodes.Perm graph.nodes)
    (hlinks : graph'.links.Perm graph.links) : graph'.Adjacent = graph.Adjacent := by
  funext x y
  simp only [GraphData.Adjacent, GraphData.Present, hnodes.mem_iff, hlinks.mem_iff]

omit hids in
/-- The ids are sorted before the first flood and at every node visited, so
that the floods of a graph and of one rearranged are the same. -/
theorem componentIds_of_perm (hnodes : graph'.nodes.Perm graph.nodes)
    (hlinks : graph'.links.Perm graph.links) : componentIds graph' = componentIds graph := by
  have hneighbours : sortedNeighbours (graphAdjacency graph') =
      sortedNeighbours (graphAdjacency graph) := by
    funext x
    refine sortIds_eq (nodup_neighboursAt _ x) (nodup_neighboursAt _ x) fun y => ?_
    show y ∈ neighboursAt _ x ↔ y ∈ neighboursAt _ x
    rw [mem_neighboursAt, mem_neighboursAt, adjacent_of_perm hnodes hlinks]
  have hremaining : graph'.remaining = graph.remaining := by
    refine sortIds_eq (OrdMap.index (·.id) graph'.nodes).nodup
      (OrdMap.index (·.id) graph.nodes).nodup fun x => ?_
    rw [← mem_sortIds, ← @mem_sortIds ((OrdMap.index (·.id) graph.nodes).entries.map Prod.fst)]
    show x ∈ graph'.remaining ↔ x ∈ graph.remaining
    simp only [mem_remaining, hnodes.mem_iff]
  show (componentsOf (sortedNeighbours (graphAdjacency graph')) graph'.remaining.length
      graph'.remaining).map sortIds =
    (componentsOf (sortedNeighbours (graphAdjacency graph)) graph.remaining.length
      graph.remaining).map sortIds
  rw [hneighbours, hremaining]

theorem nodes_of_perm (hnodes : graph'.nodes.Perm graph.nodes)
    (hlinks : graph'.links.Perm graph.links) :
    (graphConnectedComponents graph').map (·.nodes) =
      (graphConnectedComponents graph).map (·.nodes) := by
  have hids' : (graph'.nodes.map (·.id)).Nodup := (hnodes.map _).nodup_iff.mpr hids
  rw [nodes_components, nodes_components, componentIds_of_perm hnodes hlinks]
  have hget : (OrdMap.index (·.id) graph'.nodes).get? = (OrdMap.index (·.id) graph.nodes).get? := by
    funext x
    refine Option.ext fun a => ?_
    rw [get?_nodeById hids', get?_nodeById hids, hnodes.mem_iff]
  rw [hget]

/-- **The connected components**, and the same node lists in the same order
for the graph rearranged. -/
theorem graphConnectedComponents_partition :
    IsPartition graph (graphConnectedComponents graph) ∧
      ∀ graph' : GraphData, graph'.nodes.Perm graph.nodes → graph'.links.Perm graph.links →
        (graphConnectedComponents graph').map (·.nodes) =
          (graphConnectedComponents graph).map (·.nodes) :=
  ⟨isPartition_components hids, fun _ hnodes hlinks => nodes_of_perm hids hnodes hlinks⟩

end Distinct

namespace ThreeIslands

/-- A node that is no item. -/
def node (id : Ref) : GraphNode := ⟨id, none, id, true, none, none⟩

/-- A link that blocks. -/
def link (index : ℕ) (source target : Ref) : GraphLink := ⟨index, source, target, .blocks, none⟩

/-- A pair that is linked twice, a node with a link to itself, and one whose
only link leads to a node that is not there. -/
def islands : GraphData where
  nodes := [node "d", node "b", node "a", node "c"]
  links := [link 0 "b" "a", link 1 "c" "c", link 2 "a" "b", link 3 "d" "e"]

theorem partition : IsPartition islands (graphConnectedComponents islands) :=
  (graphConnectedComponents_partition (by decide : (islands.nodes.map (·.id)).Nodup)).1

end ThreeIslands

end SymphonyBoard
