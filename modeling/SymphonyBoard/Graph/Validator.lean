import SymphonyBoard.Ui.HashRoute
import SymphonyBoard.Common.Json
import SymphonyBoard.Graph.Neighborhood
/-!
# What the client accepts of a graph response

The response as it is sent, and `isGraphNeighborhood` of
`packages/ui/src/contract.ts`, which reads it back as an unknown value and
turns the whole of it away over one part that is wrong. Of an item and of an
edge only the fields it reads are written here. `isGraphNeighborhood_iff`
says what it asks of a response.
-/

namespace SymphonyBoard

/-! ## The response as it is sent -/

/-- `GRAPH_NEIGHBORHOOD_MAX_DEPTH` of the client. -/
def graphNeighborhoodMaxDepth : ℕ := 5

/-- The reason, as the response spells it. -/
def GraphNeighborhoodLimitReason.text : GraphNeighborhoodLimitReason → String
  | depth => "depth"
  | nodes => "nodes"
  | edges => "edges"

/-- A number without fraction. -/
def wholeJson (n : ℕ) : Json := .num n 0

/-- A value, or null. -/
def optionJson {α : Type} (json : α → Json) : Option α → Json
  | none => .null
  | some a => json a

/-- An item, in the fields the client reads. -/
def itemJson (item : ItemDTO) : Json :=
  .obj [("id", .str item.id), ("source_id", .str item.sourceId.val),
    ("project_path", optionJson .str item.projectPath)]

/-- A node of the response. -/
def nodeJson (n : GraphNeighborhoodNode) : Json :=
  .obj [("ref", .str n.ref), ("hop", wholeJson n.hop), ("item", optionJson itemJson n.item)]

/-- An edge of the response. -/
def edgeJson (e : EdgeDTO) : Json :=
  .obj [("type", .str e.type.text), ("from", .str e.fromRef), ("to", .str e.toRef)]

/-- The response as a document. -/
def GraphNeighborhoodResponse.json (r : GraphNeighborhoodResponse) (maxNodes maxEdges : ℕ) : Json :=
  .obj [
    ("schema", .str "symphony-board-graph-neighborhood/1"),
    ("generated_at", .str r.generatedAt),
    ("focus_ref", .str r.focusRef),
    ("requested_depth", wholeJson r.requestedDepth),
    ("reached_depth", wholeJson r.reachedDepth),
    ("complete", .bool r.complete),
    ("limit_reasons", .arr (r.limitReasons.map fun reason => .str reason.text)),
    ("limits", .obj [("max_depth", wholeJson graphNeighborhoodMaxDepth),
      ("max_nodes", wholeJson maxNodes), ("max_edges", wholeJson maxEdges)]),
    ("counts", .obj [("nodes", wholeJson r.nodes.length), ("edges", wholeJson r.edges.length)]),
    ("nodes", .arr (r.nodes.map nodeJson)),
    ("edges", .arr (r.edges.map edgeJson))]

/-! ## The validator -/

/-- `GRAPH_NEIGHBORHOOD_CLIENT_MAX_NODES` -/
def graphNeighborhoodClientMaxNodes : ℤ := 200

/-- `GRAPH_NEIGHBORHOOD_CLIENT_MAX_EDGES` -/
def graphNeighborhoodClientMaxEdges : ℤ := 500

/-- The number of a property that is a whole one. -/
def whole? : Option Json → Option ℤ
  | some (.num mantissa scale) =>
    if mantissa % 10 ^ scale = 0 then some (mantissa / 10 ^ scale) else none
  | _ => none

/-- A field that is a text. -/
def string? (j : Option Json) : Option String := j.bind Json.str?

/-- A field that is an array. -/
def array? (j : Option Json) : Option (List Json) := j.bind Json.arr?

/-- What the checks of the parts need of the rest. -/
structure GraphEnvelope where
  focusRef : String
  requestedDepth : ℤ
  reachedDepth : ℤ
  nodes : List Json
  edges : List Json

/-- The fields around nodes and edges, each of its type. -/
def readGraphEnvelope (value : Json) : Option GraphEnvelope := do
  let schema ← string? (value.field? "schema")
  let _ ← string? (value.field? "generated_at")
  let focusRef ← string? (value.field? "focus_ref")
  let requestedDepth ← whole? (value.field? "requested_depth")
  let reachedDepth ← whole? (value.field? "reached_depth")
  let complete ← (value.field? "complete").bind Json.bool?
  let limitReasons ← (array? (value.field? "limit_reasons")).bind fun l => l.mapM Json.str?
  let limits ← value.field? "limits"
  let maxDepth ← whole? (limits.field? "max_depth")
  let maxNodes ← whole? (limits.field? "max_nodes")
  let maxEdges ← whole? (limits.field? "max_edges")
  let counts ← value.field? "counts"
  let countNodes ← whole? (counts.field? "nodes")
  let countEdges ← whole? (counts.field? "edges")
  let nodes ← array? (value.field? "nodes")
  let edges ← array? (value.field? "edges")
  if schema = "symphony-board-graph-neighborhood/1" ∧ focusRef ≠ "" ∧
      (1 ≤ requestedDepth ∧ requestedDepth ≤ graphFocusMaxDepth) ∧
      (0 ≤ reachedDepth ∧ reachedDepth ≤ requestedDepth) ∧
      (∀ reason ∈ limitReasons, reason ∈ ["depth", "nodes", "edges"]) ∧ limitReasons.Nodup ∧
      complete = limitReasons.isEmpty ∧
      (1 ≤ maxDepth ∧ maxDepth ≤ graphFocusMaxDepth) ∧
      (1 ≤ maxNodes ∧ maxNodes ≤ graphNeighborhoodClientMaxNodes) ∧
      (1 ≤ maxEdges ∧ maxEdges ≤ graphNeighborhoodClientMaxEdges) ∧
      requestedDepth ≤ maxDepth ∧ (1 ≤ countNodes ∧ countNodes ≤ maxNodes) ∧
      (0 ≤ countEdges ∧ countEdges ≤ maxEdges) ∧
      countNodes = nodes.length ∧ countEdges = edges.length
  then some { focusRef, requestedDepth, reachedDepth, nodes, edges }
  else none

/-- A node's item: none, or one of its ref with a source and a project. -/
def nodeItemOk (ref : String) : Option Json → Bool
  | some .null => true
  | some item => string? (item.field? "id") = some ref &&
    (string? (item.field? "source_id")).isSome && (string? (item.field? "project_path")).isSome
  | none => false

/-- The refs of the nodes, and the depth they reach. -/
def readNodes (requestedDepth : ℤ) : List Json → List String → ℤ → Option (List String × ℤ)
  | [], refs, depth => some (refs, depth)
  | node :: nodes, refs, depth =>
    match string? (node.field? "ref"), whole? (node.field? "hop") with
    | some ref, some hop =>
      if ref ≠ "" ∧ ref ∉ refs ∧ (0 ≤ hop ∧ hop ≤ requestedDepth) ∧
          nodeItemOk ref (node.field? "item") = true then
        readNodes requestedDepth nodes (refs ++ [ref]) (max depth hop)
      else none
    | _, _ => none

/-- Every edge is between nodes, and of a key no edge before it has. -/
def edgesOk (refs : List String) : List Json → List (String × String × String) → Bool
  | [], _ => true
  | edge :: edges, keys =>
    match string? (edge.field? "type"), string? (edge.field? "from"),
      string? (edge.field? "to") with
    | some type, some fromRef, some toRef =>
      decide (type ≠ "") && decide (fromRef ∈ refs) && decide (toRef ∈ refs) &&
        decide ((type, fromRef, toRef) ∉ keys) &&
        edgesOk refs edges (keys ++ [(type, fromRef, toRef)])
    | _, _, _ => false

/-- `isGraphNeighborhood`: whether the client takes a document for a response. -/
def isGraphNeighborhood (body : Json) : Bool :=
  match readGraphEnvelope body with
  | none => false
  | some value =>
    match readNodes value.requestedDepth value.nodes [] 0 with
    | none => false
    | some (refs, reachedDepth) =>
      decide (value.focusRef ∈ refs) &&
        (value.nodes.any fun node => string? (node.field? "ref") = some value.focusRef &&
          whole? (node.field? "hop") = some 0) &&
        decide (reachedDepth = value.reachedDepth) && edgesOk refs value.edges []

/-! ## What it asks of a response -/

/-- A node the client accepts. -/
structure AcceptedNode (requestedDepth : ℕ) (n : GraphNeighborhoodNode) : Prop where
  ref : n.ref ≠ ""
  hop : n.hop ≤ requestedDepth
  item : ∀ item, n.item = some item → item.id = n.ref ∧ item.projectPath.isSome

/-- A response the client accepts, under some limits. -/
structure AcceptedResponse (r : GraphNeighborhoodResponse) (maxNodes maxEdges : ℕ) : Prop where
  focusRef : r.focusRef ≠ ""
  requestedDepth : 1 ≤ r.requestedDepth ∧ r.requestedDepth ≤ 5
  limitReasons : r.limitReasons.Nodup
  nodeLimit : 1 ≤ maxNodes ∧ maxNodes ≤ 200
  edgeLimit : 1 ≤ maxEdges ∧ maxEdges ≤ 500
  nodeCount : r.nodes.length ≤ maxNodes
  edgeCount : r.edges.length ≤ maxEdges
  refs : (r.nodes.map (·.ref)).Nodup
  nodes : ∀ n ∈ r.nodes, AcceptedNode r.requestedDepth n
  focus : ∃ n ∈ r.nodes, n.ref = r.focusRef ∧ n.hop = 0
  reachedDepth : r.reachedDepth = SymphonyBoard.reachedDepth r.nodes
  ends : ∀ e ∈ r.edges, ∀ ref, e.fromRef = ref ∨ e.toRef = ref → ∃ n ∈ r.nodes, n.ref = ref
  keys : (r.edges.map edgeKey).Nodup

@[simp] theorem whole?_wholeJson (n : ℕ) : whole? (some (wholeJson n)) = some (n : ℤ) := by
  simp [whole?, wholeJson]

@[simp] theorem string?_str (s : String) : string? (some (.str s)) = some s := rfl

@[simp] theorem array?_arr (l : List Json) : array? (some (.arr l)) = some l := rfl

theorem mapM_str?_map {α : Type} (text : α → String) (l : List α) :
    (l.map fun a => Json.str (text a)).mapM Json.str? = some (l.map text) := by
  rw [mapM_eq_some_iff, List.forall₂_map_left_iff, List.forall₂_map_right_iff]
  exact List.forall₂_same.mpr fun a _ => rfl

theorem limitReason_text_injective : Function.Injective GraphNeighborhoodLimitReason.text := by
  intro a b h
  cases a <;> cases b <;> first | rfl | exact absurd h (by decide)

theorem edgeType_text_injective : Function.Injective EdgeType.text := by
  intro a b h
  cases a <;> cases b <;> first | rfl | exact absurd h (by decide)

theorem edgeType_text_ne (type : EdgeType) : type.text ≠ "" := by
  cases type <;> decide

theorem nodeItemOk_nodeJson (n : GraphNeighborhoodNode) :
    nodeItemOk n.ref ((nodeJson n).field? "item") = true ↔
      ∀ item, n.item = some item → item.id = n.ref ∧ item.projectPath.isSome := by
  obtain ⟨ref, hop, item⟩ := n
  cases item with
  | none => exact iff_of_true rfl fun item h => absurd h.symm (Option.some_ne_none item)
  | some item =>
    have hid : string? ((itemJson item).field? "id") = some item.id := rfl
    have hsource : string? ((itemJson item).field? "source_id") = some item.sourceId.val := rfl
    have hpath : (string? ((itemJson item).field? "project_path")).isSome =
        item.projectPath.isSome := by
      change (string? (some (optionJson Json.str item.projectPath))).isSome = _
      cases item.projectPath <;> rfl
    have hcheck : nodeItemOk ref ((nodeJson ⟨ref, hop, some item⟩).field? "item") =
        (decide (item.id = ref) && item.projectPath.isSome) := by
      change (decide (string? ((itemJson item).field? "id") = some ref) &&
        (string? ((itemJson item).field? "source_id")).isSome &&
        (string? ((itemJson item).field? "project_path")).isSome) = _
      rw [hid, hsource, hpath, Option.isSome_some, Bool.and_true]
      simp
    rw [hcheck, Bool.and_eq_true, decide_eq_true_eq]
    constructor
    · rintro h item' heq
      obtain rfl := Option.some.inj heq
      exact h
    · exact fun h => h item rfl

theorem readNodes_cons {requestedDepth depth : ℕ} {n : GraphNeighborhoodNode} {nodes : List Json}
    {refs : List String} :
    readNodes requestedDepth (nodeJson n :: nodes) refs depth =
      if n.ref ≠ "" ∧ n.ref ∉ refs ∧ ((0 : ℤ) ≤ n.hop ∧ (n.hop : ℤ) ≤ requestedDepth) ∧
          nodeItemOk n.ref ((nodeJson n).field? "item") = true then
        readNodes requestedDepth nodes (refs ++ [n.ref]) ((max depth n.hop : ℕ) : ℤ)
      else none := by
  have href : string? ((nodeJson n).field? "ref") = some n.ref := rfl
  have hhop : whole? ((nodeJson n).field? "hop") = some (n.hop : ℤ) := whole?_wholeJson n.hop
  have hmax : ((max depth n.hop : ℕ) : ℤ) = max (depth : ℤ) n.hop := by omega
  rw [readNodes, href, hhop, hmax]

theorem readNodes_eq_some {requestedDepth depth : ℕ} {ns : List GraphNeighborhoodNode}
    {refs : List String} (hrefs : refs.Nodup) {out : List String × ℤ} :
    readNodes requestedDepth (ns.map nodeJson) refs depth = some out ↔
      (∀ n ∈ ns, AcceptedNode requestedDepth n) ∧ (refs ++ ns.map (·.ref)).Nodup ∧
        out = (refs ++ ns.map (·.ref), ((ns.foldl (fun d n => max d n.hop) depth : ℕ) : ℤ)) := by
  induction ns generalizing refs depth with
  | nil =>
    rw [List.map_nil, List.map_nil, List.append_nil, readNodes, Option.some.injEq]
    constructor
    · exact fun h => ⟨List.forall_mem_nil _, hrefs, h.symm⟩
    · exact fun h => h.2.2.symm
  | cons n ns ih =>
    rw [List.map_cons, readNodes_cons, List.map_cons, List.foldl_cons, List.forall_mem_cons,
      List.append_cons refs n.ref (ns.map _)]
    by_cases hnew : n.ref ∈ refs
    · rw [if_neg fun h => h.2.1 hnew]
      refine iff_of_false (Option.some_ne_none out).symm ?_
      rintro ⟨-, hnodup, -⟩
      rw [List.append_assoc] at hnodup
      exact (List.nodup_append.mp hnodup).2.2 n.ref hnew n.ref List.mem_cons_self rfl
    · have hgrown : (refs ++ [n.ref]).Nodup := by
        rw [List.nodup_append]
        refine ⟨hrefs, List.nodup_singleton _, fun a ha b hb heq => hnew ?_⟩
        rw [← List.mem_singleton.mp hb, ← heq]
        exact ha
      have haccepted : (n.ref ≠ "" ∧ n.ref ∉ refs ∧ ((0 : ℤ) ≤ n.hop ∧ (n.hop : ℤ) ≤ requestedDepth) ∧
          nodeItemOk n.ref ((nodeJson n).field? "item") = true) ↔ AcceptedNode requestedDepth n := by
        rw [nodeItemOk_nodeJson]
        constructor
        · rintro ⟨href, -, ⟨-, hhop⟩, hitem⟩
          exact ⟨href, Int.ofNat_le.mp hhop, hitem⟩
        · rintro ⟨href, hhop, hitem⟩
          exact ⟨href, hnew, ⟨Int.natCast_nonneg _, Int.ofNat_le.mpr hhop⟩, hitem⟩
      by_cases hn : AcceptedNode requestedDepth n
      · rw [if_pos (haccepted.mpr hn), ih hgrown]
        simp only [hn, true_and]
      · rw [if_neg (mt haccepted.mp hn)]
        exact iff_of_false (Option.some_ne_none out).symm fun h => hn h.1.1

theorem edgesOk_edgeJson {refs : List String} {es : List EdgeDTO}
    {keys : List (String × String × String)} (hkeys : keys.Nodup) :
    edgesOk refs (es.map edgeJson) keys = true ↔
      (∀ e ∈ es, e.fromRef ∈ refs ∧ e.toRef ∈ refs) ∧
        (keys ++ es.map fun e => (e.type.text, e.fromRef, e.toRef)).Nodup := by
  induction es generalizing keys with
  | nil =>
    rw [List.map_nil, List.map_nil, List.append_nil]
    exact iff_of_true rfl ⟨List.forall_mem_nil _, hkeys⟩
  | cons e es ih =>
    have hstep : edgesOk refs (edgeJson e :: es.map edgeJson) keys =
        (decide (e.type.text ≠ "") && decide (e.fromRef ∈ refs) && decide (e.toRef ∈ refs) &&
          decide ((e.type.text, e.fromRef, e.toRef) ∉ keys) &&
          edgesOk refs (es.map edgeJson) (keys ++ [(e.type.text, e.fromRef, e.toRef)])) := rfl
    rw [List.map_cons, hstep, List.map_cons, List.forall_mem_cons,
      List.append_cons keys _ (es.map _)]
    simp only [Bool.and_eq_true, decide_eq_true_eq]
    by_cases hnew : (e.type.text, e.fromRef, e.toRef) ∈ keys
    · refine iff_of_false (fun h => h.1.2 hnew) ?_
      rintro ⟨-, hnodup⟩
      rw [List.append_assoc] at hnodup
      exact (List.nodup_append.mp hnodup).2.2 _ hnew _ List.mem_cons_self rfl
    · have hgrown : (keys ++ [(e.type.text, e.fromRef, e.toRef)]).Nodup := by
        rw [List.nodup_append]
        refine ⟨hkeys, List.nodup_singleton _, fun a ha b hb heq => hnew ?_⟩
        rw [← List.mem_singleton.mp hb, ← heq]
        exact ha
      rw [ih hgrown]
      have htype := edgeType_text_ne e.type
      tauto

/-- What is asked of the response apart from its parts. -/
def AcceptedEnvelope (r : GraphNeighborhoodResponse) (maxNodes maxEdges : ℕ) : Prop :=
  r.focusRef ≠ "" ∧ (1 ≤ r.requestedDepth ∧ r.requestedDepth ≤ 5) ∧
    r.reachedDepth ≤ r.requestedDepth ∧ r.limitReasons.Nodup ∧
    (1 ≤ maxNodes ∧ maxNodes ≤ 200) ∧ (1 ≤ maxEdges ∧ maxEdges ≤ 500) ∧
    (1 ≤ r.nodes.length ∧ r.nodes.length ≤ maxNodes) ∧ r.edges.length ≤ maxEdges

variable {r : GraphNeighborhoodResponse} {maxNodes maxEdges : ℕ}

theorem readGraphEnvelope_eq_some {value : GraphEnvelope} :
    readGraphEnvelope (r.json maxNodes maxEdges) = some value ↔
      AcceptedEnvelope r maxNodes maxEdges ∧
        value = ⟨r.focusRef, r.requestedDepth, r.reachedDepth, r.nodes.map nodeJson,
          r.edges.map edgeJson⟩ := by
  have hreasons : (array? ((r.json maxNodes maxEdges).field? "limit_reasons")).bind
      (fun l => l.mapM Json.str?) = some (r.limitReasons.map (·.text)) :=
    mapM_str?_map GraphNeighborhoodLimitReason.text r.limitReasons
  have hcomplete : ((r.json maxNodes maxEdges).field? "complete").bind Json.bool? =
      some r.complete := rfl
  have hknown : ∀ reason ∈ r.limitReasons,
      reason.text = "depth" ∨ reason.text = "nodes" ∨ reason.text = "edges" := by
    intro reason _
    cases reason
    · exact Or.inl rfl
    · exact Or.inr (Or.inl rfl)
    · exact Or.inr (Or.inr rfl)
  have hnodup : (r.limitReasons.map (·.text)).Nodup ↔ r.limitReasons.Nodup :=
    List.nodup_map_iff limitReason_text_injective
  unfold readGraphEnvelope
  rw [hreasons, hcomplete]
  simp only [Json.field?, GraphNeighborhoodResponse.json, List.lookup_cons, BEq.rfl, string?_str,
    String.reduceBEq, whole?_wholeJson, array?_arr, ne_eq, List.mem_cons, List.not_mem_nil, or_false,
    Option.bind_eq_bind, Option.bind_some, List.length_map, Int.natCast_nonneg, true_and, and_true,
    Nat.one_le_cast, Nat.cast_le, List.mem_map, forall_exists_index, and_imp,
    forall_apply_eq_imp_iff₂, List.isEmpty_map, Option.ite_none_right_eq_some, Option.some.injEq,
    hnodup]
  unfold AcceptedEnvelope graphFocusMaxDepth graphNeighborhoodMaxDepth
    graphNeighborhoodClientMaxNodes graphNeighborhoodClientMaxEdges
  constructor
  · rintro ⟨⟨hfocus, ⟨hlow, hhigh⟩, hreached, -, hdistinct, -, -, ⟨hn, hn'⟩, ⟨he, he'⟩, -, hnodes,
      hedges⟩, rfl⟩
    exact ⟨⟨hfocus, ⟨hlow, by omega⟩, hreached, hdistinct, ⟨hn, by omega⟩, ⟨he, by omega⟩, hnodes,
      hedges⟩, rfl⟩
  · rintro ⟨⟨hfocus, ⟨hlow, hhigh⟩, hreached, hdistinct, ⟨hn, hn'⟩, ⟨he, he'⟩, hnodes, hedges⟩, rfl⟩
    exact ⟨⟨hfocus, ⟨hlow, by omega⟩, hreached, hknown, hdistinct, rfl, by omega, ⟨hn, by omega⟩,
      ⟨he, by omega⟩, by omega, hnodes, hedges⟩, rfl⟩

theorem le_foldl_max {bound : ℕ} {ns : List GraphNeighborhoodNode} {depth : ℕ}
    (hdepth : depth ≤ bound) (h : ∀ n ∈ ns, n.hop ≤ bound) :
    ns.foldl (fun d n => max d n.hop) depth ≤ bound := by
  induction ns generalizing depth with
  | nil => exact hdepth
  | cons n ns ih =>
    obtain ⟨hn, hrest⟩ := List.forall_mem_cons.mp h
    exact ih (Nat.max_le.mpr ⟨hdepth, hn⟩) hrest

/-- The key the client tells edges apart by. -/
theorem nodup_map_edgeKey (es : List EdgeDTO) :
    (es.map fun e => (e.type.text, e.fromRef, e.toRef)).Nodup ↔ (es.map edgeKey).Nodup := by
  have hcomp : (es.map fun e => (e.type.text, e.fromRef, e.toRef)) =
      (es.map edgeKey).map fun key => (key.1.text, key.2.1, key.2.2) := by
    rw [List.map_map]
    rfl
  rw [hcomp]
  refine List.nodup_map_iff fun key key' h => ?_
  obtain ⟨htype, hends⟩ := Prod.mk.inj h
  exact Prod.ext (edgeType_text_injective htype) hends

/-- **What the client asks of a response.** -/
theorem isGraphNeighborhood_iff :
    isGraphNeighborhood (r.json maxNodes maxEdges) = true ↔
      AcceptedResponse r maxNodes maxEdges := by
  have hrefs : ∀ ref, ref ∈ r.nodes.map (·.ref) ↔ ∃ n ∈ r.nodes, n.ref = ref :=
    fun ref => List.mem_map
  -- what each fold of the validator accepts
  have hread : ∀ out, readNodes r.requestedDepth (r.nodes.map nodeJson) [] ((0 : ℕ) : ℤ) = some out ↔
      (∀ n ∈ r.nodes, AcceptedNode r.requestedDepth n) ∧ (r.nodes.map (·.ref)).Nodup ∧
        out = (r.nodes.map (·.ref), (reachedDepth r.nodes : ℤ)) :=
    fun out => readNodes_eq_some List.nodup_nil
  have hedges : edgesOk (r.nodes.map (·.ref)) (r.edges.map edgeJson) [] = true ↔
      (∀ e ∈ r.edges, e.fromRef ∈ r.nodes.map (·.ref) ∧ e.toRef ∈ r.nodes.map (·.ref)) ∧
        (r.edges.map edgeKey).Nodup := by
    rw [edgesOk_edgeJson List.nodup_nil, List.nil_append, nodup_map_edgeKey]
  have hfocus : ((r.nodes.map nodeJson).any fun node =>
      string? (node.field? "ref") = some r.focusRef && whole? (node.field? "hop") = some 0) = true ↔
      ∃ n ∈ r.nodes, n.ref = r.focusRef ∧ n.hop = 0 := by
    rw [List.any_map, List.any_eq_true]
    refine exists_congr fun n => and_congr_right fun _ => ?_
    have href : string? ((nodeJson n).field? "ref") = some n.ref := rfl
    have hhop : whole? ((nodeJson n).field? "hop") = some (n.hop : ℤ) := whole?_wholeJson n.hop
    simp [href, hhop]
  unfold isGraphNeighborhood
  constructor
  · intro h
    cases hvalue : readGraphEnvelope (r.json maxNodes maxEdges) with
    | none => simp [hvalue] at h
    | some value =>
      obtain ⟨⟨hne, hdepth, hreached, hreasons, hmaxNodes, hmaxEdges, hnodeCount, hedgeCount⟩, rfl⟩ :=
        readGraphEnvelope_eq_some.mp hvalue
      rw [hvalue] at h
      simp only at h
      cases hout : readNodes r.requestedDepth (r.nodes.map nodeJson) [] ((0 : ℕ) : ℤ) with
      | none =>
        rw [Nat.cast_zero] at hout
        simp [hout] at h
      | some out =>
        obtain ⟨hnodes, hdistinct, rfl⟩ := (hread out).mp hout
        rw [Nat.cast_zero] at hout
        simp only [hout, Bool.and_eq_true, decide_eq_true_eq, hedges, hfocus] at h
        obtain ⟨⟨⟨-, hat⟩, hdepths⟩, hends, hkeys⟩ := h
        refine ⟨hne, hdepth, hreasons, hmaxNodes, hmaxEdges, hnodeCount.2, hedgeCount, hdistinct,
          hnodes, hat, (Int.ofNat_inj.mp hdepths).symm, fun e he ref hend => ?_, hkeys⟩
        rcases hend with rfl | rfl
        · exact (hrefs _).mp (hends e he).1
        · exact (hrefs _).mp (hends e he).2
  · intro h
    obtain ⟨n, hn, hfocusRef, hhop⟩ := h.focus
    have hreached : r.reachedDepth ≤ r.requestedDepth := by
      rw [h.reachedDepth]
      exact le_foldl_max (Nat.zero_le _) fun m hm => (h.nodes m hm).hop
    have hvalue := readGraphEnvelope_eq_some.mpr ⟨⟨h.focusRef, h.requestedDepth, hreached,
      h.limitReasons, h.nodeLimit, h.edgeLimit, ⟨List.length_pos_of_mem hn, h.nodeCount⟩,
      h.edgeCount⟩, rfl⟩
    have hout := (hread _).mpr ⟨h.nodes, h.refs, rfl⟩
    rw [Nat.cast_zero] at hout
    rw [hvalue]
    simp only [hout, Bool.and_eq_true, decide_eq_true_eq, hedges, hfocus, h.reachedDepth]
    refine ⟨⟨⟨(hrefs _).mpr ⟨n, hn, hfocusRef⟩, h.focus⟩, trivial⟩, fun e he => ?_, h.keys⟩
    exact ⟨(hrefs _).mpr (h.ends e he _ (Or.inl rfl)), (hrefs _).mpr (h.ends e he _ (Or.inr rfl))⟩

/-! ## What the rows give the client -/

section Rows

variable {configuredRepos : List RepoRef} {items : List ItemRecord} {labels : List LabelRecord}
variable {edgeRows : List EdgeRecord}

theorem refOfEndpoint_ne_empty (e : ItemEndpoint) : refOfEndpoint e ≠ "" := by
  intro h
  have hbar : '|' ∈ (refOfEndpoint e).toList := by simp [refOfEndpoint, refOf]
  rw [h] at hbar
  cases hbar

theorem ends_ne_empty {e : EdgeDTO} (he : e ∈ mapEdges (some configuredRepos) items edgeRows) :
    e.fromRef ≠ "" ∧ e.toRef ≠ "" := by
  obtain ⟨row, -, -, -, rfl⟩ := mem_mapEdges.mp he
  exact ⟨refOfEndpoint_ne_empty _, refOfEndpoint_ne_empty _⟩

/-- The item of a ref is of that ref, and of a configured project. -/
theorem item_of_index {ref : Ref} {item : ItemDTO}
    (h : (OrdMap.index (·.id) (mapItems (some configuredRepos) items labels)).get? ref = some item) :
    item.id = ref ∧ item.projectPath.isSome ∧ ref ≠ "" := by
  rw [OrdMap.get?_index] at h
  obtain ⟨hmem, hid⟩ := List.mem_filter.mp (List.mem_of_getLast? h)
  obtain rfl := of_decide_eq_true hid
  obtain ⟨row, -, hallowed, rfl⟩ := mem_mapItems.mp hmem
  refine ⟨rfl, ?_, refOfEndpoint_ne_empty row.1⟩
  obtain ⟨repo, -, hrepo⟩ := List.any_eq_true.mp hallowed
  have hpath := of_decide_eq_true (Bool.and_eq_true_iff.mp hrepo).2
  exact Option.isSome_iff_exists.mpr ⟨_, hpath.symm⟩

/-- Rows of distinct keys give edges of distinct keys. -/
theorem nodup_keys_mapEdges (h : (edgeRows.map Prod.fst).Nodup) :
    ((mapEdges (some configuredRepos) items edgeRows).map edgeKey).Nodup := by
  have hkeys : ((edgeRows.map toEdgeDTO).map edgeKey).Nodup := by
    have hcomp : (edgeRows.map toEdgeDTO).map edgeKey = (edgeRows.map Prod.fst).map
        fun key => (key.1, refOfEndpoint key.2.1, refOfEndpoint key.2.2) := by
      rw [List.map_map, List.map_map]
      rfl
    rw [hcomp]
    refine h.map fun key key' heq => ?_
    obtain ⟨htype, hends⟩ := Prod.mk.inj heq
    obtain ⟨hfrom, hto⟩ := Prod.mk.inj hends
    exact Prod.ext htype
      (Prod.ext (refOfEndpoint_injective hfrom) (refOfEndpoint_injective hto))
  refine hkeys.sublist (List.Sublist.map _ ?_)
  unfold mapEdges
  exact List.filter_sublist.trans (List.filter_sublist.map _)

end Rows

end SymphonyBoard
