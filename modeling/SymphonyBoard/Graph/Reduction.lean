import Mathlib.Data.Finset.Basic
import SymphonyBoard.Common.Covering
import SymphonyBoard.Common.PostOrder
/-!
# The transitive reduction

`transitiveReduction` of `packages/ui/src/model.ts`: the links implied by a
longer way are left out, unless the links form a cycle. Its traversal
computes what each node reaches, and is one of `Common/PostOrder.lean`;
what it keeps are the covering pairs of `Common/Covering.lean`
(`transitiveReduction_spec`).
-/

namespace SymphonyBoard

variable {α : Type*} [DecidableEq α]

/-- The pairs read so far: who links to whom, and the pairs themselves. -/
structure PairGraph (α : Type*) where
  successors : OrdMap α (List α)
  unique : List (α × α)

/-- One pair; a self pair and a repeat are passed over. -/
def PairGraph.add (g : PairGraph α) (p : α × α) : PairGraph α :=
  if p.1 = p.2 ∨ p.2 ∈ (g.successors.get? p.1).getD [] then g
  else
    let successors := g.successors.upsert p.1 fun old => old.getD []
    let successors := successors.upsert p.2 fun old => old.getD []
    { successors := successors.upsert p.1 fun old => old.getD [] ++ [p.2]
      unique := g.unique ++ [p] }

/-- The graph of a list of pairs. -/
def pairGraph (pairs : List (α × α)) : PairGraph α := pairs.foldl PairGraph.add ⟨.empty, []⟩

/-- The edges that are left, and whether there was a cycle. -/
structure Reduction (α : Type*) where
  edges : List (α × α)
  cyclic : Bool
deriving DecidableEq

/-- What a node reaches: its successors, and what these reach. -/
def reachedBy (_ : α) (vals : List (α × Finset α)) : Finset α :=
  vals.foldl (fun reached p => insert p.1 (reached ∪ p.2)) ∅

/-- A pair that another first step makes up for. -/
def PairGraph.implied (g : PairGraph α) (reachable : List (α × Finset α)) (p : α × α) : Bool :=
  ((g.successors.get? p.1).getD []).any fun via =>
    via ≠ p.2 && decide (p.2 ∈ (OrdMap.lookupEntry via reachable).getD ∅)

/-- `transitiveReduction`. The traversal goes as deep as there are nodes at
most, and one level is to spare. -/
def transitiveReduction (pairs : List (α × α)) : Option (Reduction α) :=
  let g := pairGraph pairs
  let nodes := g.successors.entries.map Prod.fst
  match visitAll g.successors.get? none reachedBy (nodes.length + 1) nodes with
  | .ok (_, s) => some { edges := g.unique.filter fun p => !g.implied s.done p, cyclic := false }
  | .error .cycle => some { edges := g.unique, cyclic := true }
  | .error _ => none

/-! ## The pairs -/

/-- One element links to another in a list of pairs. -/
def PairLink (pairs : List (α × α)) (x y : α) : Prop := (x, y) ∈ pairs

/-- What a node links to in a list of pairs. -/
def targets (pairs : List (α × α)) (x : α) : List α :=
  (pairs.filter fun p => p.1 = x).map Prod.snd

/-- A node of a list of pairs. -/
def IsEnd (pairs : List (α × α)) (x : α) : Prop := ∃ p ∈ pairs, x = p.1 ∨ x = p.2

instance (pairs : List (α × α)) (x : α) : Decidable (IsEnd pairs x) :=
  inferInstanceAs (Decidable (∃ p ∈ pairs, x = p.1 ∨ x = p.2))

theorem mem_targets {pairs : List (α × α)} {x y : α} : y ∈ targets pairs x ↔ PairLink pairs x y := by
  rw [targets, PairLink, List.mem_map]
  constructor
  · rintro ⟨p, hp, rfl⟩
    obtain ⟨hmem, hx⟩ := List.mem_filter.mp hp
    rw [← of_decide_eq_true hx]
    exact hmem
  · exact fun h => ⟨(x, y), List.mem_filter.mpr ⟨h, decide_eq_true rfl⟩, rfl⟩

theorem targets_of_not_isEnd {pairs : List (α × α)} {x : α} (h : ¬IsEnd pairs x) :
    targets pairs x = [] := by
  refine List.eq_nil_iff_forall_not_mem.mpr fun y hy => h ?_
  exact ⟨(x, y), mem_targets.mp hy, Or.inl rfl⟩

theorem targets_snoc (pairs : List (α × α)) (p : α × α) (x : α) :
    targets (pairs ++ [p]) x = targets pairs x ++ if p.1 = x then [p.2] else [] := by
  unfold targets
  rw [List.filter_append, List.map_append]
  by_cases hx : p.1 = x
  · rw [if_pos hx, List.filter_cons_of_pos (by simpa using hx)]
    rfl
  · rw [if_neg hx, List.filter_cons_of_neg (by simpa using hx)]
    rfl

omit [DecidableEq α] in
theorem isEnd_snoc (pairs : List (α × α)) (p : α × α) (x : α) :
    IsEnd (pairs ++ [p]) x ↔ IsEnd pairs x ∨ x = p.1 ∨ x = p.2 := by
  constructor
  · rintro ⟨q, hq, hx⟩
    rcases List.mem_append.mp hq with hq | hq
    · exact Or.inl ⟨q, hq, hx⟩
    · rw [List.mem_singleton.mp hq] at hx
      exact Or.inr hx
  · rintro (⟨q, hq, hx⟩ | hx)
    · exact ⟨q, List.mem_append_left _ hq, hx⟩
    · exact ⟨p, List.mem_append_right _ List.mem_cons_self, hx⟩

/-- The successors of a node are what it is paired with; a node is one that
some pair has. -/
theorem pairGraph_spec (pairs : List (α × α)) :
    (pairGraph pairs).unique = distinctPairs pairs ∧
      ∀ x, (pairGraph pairs).successors.get? x =
        if IsEnd (distinctPairs pairs) x then some (targets (distinctPairs pairs) x) else none := by
  induction pairs using List.reverseRecOn with
  | nil => exact ⟨rfl, fun x => rfl⟩
  | append_singleton pairs p ih =>
    obtain ⟨hunique, hsucc⟩ := ih
    have hadd : pairGraph (pairs ++ [p]) = (pairGraph pairs).add p := by
      rw [pairGraph, pairGraph, List.foldl_append]
      rfl
    have hgetD : ∀ x, ((pairGraph pairs).successors.get? x).getD [] =
        targets (distinctPairs pairs) x := by
      intro x
      rw [hsucc]
      split
      · rfl
      · rename_i hend
        rw [targets_of_not_isEnd hend]
        rfl
    have hknown : p.2 ∈ ((pairGraph pairs).successors.get? p.1).getD [] ↔
        p ∈ distinctPairs pairs := by
      rw [hgetD, mem_targets]
      rfl
    rw [hadd, distinctPairs_snoc, PairGraph.add]
    -- a loop or a pair met before adds nothing
    by_cases hskip : p.1 = p.2 ∨ p ∈ distinctPairs pairs
    · rw [if_pos hskip, if_pos (hskip.imp_right hknown.mpr)]
      exact ⟨hunique, hsucc⟩
    · rw [if_neg hskip, if_neg (fun h => hskip (h.imp_right hknown.mp))]
      obtain ⟨hself, -⟩ := not_or.mp hskip
      refine ⟨by rw [hunique], fun x => ?_⟩
      simp only [OrdMap.get?_upsert, hgetD, Option.getD_some, Ne.symm hself, if_false, if_true]
      rw [targets_snoc]
      by_cases h1 : p.1 = x
      · have hend : IsEnd (distinctPairs pairs ++ [p]) x :=
          (isEnd_snoc _ p x).mpr (Or.inr (Or.inl h1.symm))
        rw [if_pos h1, if_pos hend, if_pos h1, h1]
      · simp only [h1, if_false, List.append_nil]
        by_cases h2 : p.2 = x
        · have hend : IsEnd (distinctPairs pairs ++ [p]) x :=
            (isEnd_snoc _ p x).mpr (Or.inr (Or.inr h2.symm))
          rw [if_pos h2, if_pos hend, if_neg hself, hgetD, h2]
        · have hend : IsEnd (distinctPairs pairs ++ [p]) x ↔ IsEnd (distinctPairs pairs) x := by
            rw [isEnd_snoc, or_iff_left]
            rintro (h | h)
            · exact h1 h.symm
            · exact h2 h.symm
          rw [if_neg h2, hsucc]
          by_cases hold : IsEnd (distinctPairs pairs) x
          · rw [if_pos hold, if_pos (hend.mpr hold)]
          · rw [if_neg hold, if_neg (fun h => hold (hend.mp h))]

/-! ## The traversal -/

section Nodes

variable (pairs : List (α × α))

theorem successor_iff {x y : α} :
    Successor (pairGraph pairs).successors.get? x y ↔ PairLink (distinctPairs pairs) x y := by
  rw [Successor, ← mem_targets, (pairGraph_spec pairs).2]
  constructor
  · rintro ⟨xs, hxs, hy⟩
    split at hxs
    · rw [Option.some.inj hxs]
      exact hy
    · cases hxs
  · intro hy
    have hend : IsEnd (distinctPairs pairs) x := ⟨(x, y), mem_targets.mp hy, Or.inl rfl⟩
    exact ⟨_, if_pos hend, hy⟩

theorem mem_nodes_iff {x : α} :
    x ∈ (pairGraph pairs).successors.entries.map Prod.fst ↔ IsEnd (distinctPairs pairs) x := by
  have hget := (pairGraph_spec pairs).2 x
  constructor
  · intro hx
    obtain ⟨⟨x, xs⟩, hmem, rfl⟩ := List.mem_map.mp hx
    rw [OrdMap.mem_entries_iff] at hmem
    by_contra hend
    rw [if_neg hend, hmem] at hget
    cases hget
  · intro hend
    rw [if_pos hend] at hget
    exact List.mem_map.mpr ⟨_, OrdMap.mem_entries_iff.mpr hget, rfl⟩

theorem closedNodes_pairGraph : ClosedNodes (pairGraph pairs).successors.get?
    ((pairGraph pairs).successors.entries.map Prod.fst) := by
  intro x hx
  rw [mem_nodes_iff] at hx
  refine ⟨_, by rw [(pairGraph_spec pairs).2, if_pos hx], fun y hy => ?_⟩
  rw [mem_nodes_iff]
  exact ⟨(x, y), mem_targets.mp hy, Or.inr rfl⟩

theorem successor_eq : Successor (pairGraph pairs).successors.get? =
    PairLink (distinctPairs pairs) := by
  funext x y
  exact propext (successor_iff pairs)

theorem not_cyclic_iff : ¬Cyclic (pairGraph pairs).successors.get?
    ((pairGraph pairs).successors.entries.map Prod.fst) ↔ Acyclic (PairLink (distinctPairs pairs)) := by
  rw [Cyclic, successor_eq]
  constructor
  · intro h x hx
    obtain ⟨y, hxy, -⟩ := Relation.TransGen.head'_iff.mp hx
    exact h ⟨x, (mem_nodes_iff pairs).mpr ⟨(x, y), hxy, Or.inl rfl⟩, hx⟩
  · rintro h ⟨x, -, hx⟩
    exact h x hx

end Nodes

theorem mem_reachedBy {x y : α} {vals : List (α × Finset α)} :
    y ∈ reachedBy x vals ↔ ∃ p ∈ vals, y = p.1 ∨ y ∈ p.2 := by
  have aux : ∀ reached : Finset α,
      y ∈ vals.foldl (fun reached p => insert p.1 (reached ∪ p.2)) reached ↔
        y ∈ reached ∨ ∃ p ∈ vals, y = p.1 ∨ y ∈ p.2 := by
    induction vals with
    | nil => simp
    | cons p vals ih =>
      intro reached
      rw [List.foldl_cons, ih, Finset.mem_insert, Finset.mem_union]
      simp only [List.mem_cons, exists_eq_or_imp, or_assoc, or_left_comm]
  rw [reachedBy, aux]
  simp

/-- **What is remembered of a node is what it reaches.** -/
theorem mem_reachable_iff {succ : α → Option (List α)} {done : List (α × Finset α)}
    (h : Remembered succ none reachedBy done) :
    ∀ p ∈ done, ∀ y, y ∈ p.2 ↔ Relation.TransGen (Successor succ) p.1 y := by
  refine h.value (P := fun x reached => ∀ y, y ∈ reached ↔
    Relation.TransGen (Successor succ) x y) fun x vals hsucc hvals y => ?_
  rw [mem_reachedBy, Relation.TransGen.head'_iff]
  constructor
  · rintro ⟨p, hp, hy⟩
    refine ⟨p.1, ⟨_, hsucc, List.mem_map_of_mem hp⟩, ?_⟩
    rcases hy with rfl | hy
    · exact Relation.ReflTransGen.refl
    · exact ((hvals p hp y).mp hy).to_reflTransGen
  · rintro ⟨z, ⟨xs, hxs, hz⟩, hzy⟩
    rw [hsucc] at hxs
    rw [← Option.some.inj hxs] at hz
    obtain ⟨p, hp, rfl⟩ := List.mem_map.mp hz
    refine ⟨p, hp, ?_⟩
    rcases Relation.reflTransGen_iff_eq_or_transGen.mp hzy with rfl | hzy
    · exact Or.inl rfl
    · exact Or.inr ((hvals p hp y).mpr hzy)

/-! ## What is kept -/

/-- The least of a list of pairs that reaches as far, and the only one as
small. -/
structure IsTransitiveReduction (pairs result : List (α × α)) : Prop where
  sublist : result.Sublist pairs
  reach : ∀ x y, Relation.TransGen (PairLink result) x y ↔ Relation.TransGen (PairLink pairs) x y
  smallest : ∀ l : List (α × α), l.Sublist pairs →
    (∀ x y, Relation.TransGen (PairLink l) x y ↔ Relation.TransGen (PairLink pairs) x y) →
      result.length ≤ l.length
  only : ∀ l : List (α × α), l.Sublist pairs →
    (∀ x y, Relation.TransGen (PairLink l) x y ↔ Relation.TransGen (PairLink pairs) x y) →
      l.length = result.length → l = result

/-- **The covering pairs are the transitive reduction.** -/
theorem isTransitiveReduction_covers {pairs : List (α × α)} {keep : α × α → Bool}
    (hnodup : pairs.Nodup) (hacyclic : Acyclic (PairLink pairs))
    (hkeep : ∀ p ∈ pairs, keep p = true ↔ Covers (PairLink pairs) p.1 p.2) :
    IsTransitiveReduction pairs (pairs.filter keep) := by
  have hcovers : PairLink (pairs.filter keep) = Covers (PairLink pairs) := by
    funext x y
    refine propext ⟨fun h => ?_, fun h => ?_⟩
    · obtain ⟨hmem, hp⟩ := List.mem_filter.mp h
      exact (hkeep (x, y) hmem).mp hp
    · exact List.mem_filter.mpr ⟨h.1, (hkeep (x, y) h.1).mpr h⟩
  have hsub : ∀ l : List (α × α), l.Sublist pairs →
      (∀ x y, Relation.TransGen (PairLink l) x y ↔ Relation.TransGen (PairLink pairs) x y) →
        (pairs.filter keep).Sublist l := by
    intro l hl hreach
    have hmem : ∀ p ∈ pairs, keep p = true → p ∈ l := fun p hp hkept =>
      covers_of_transGen (R := PairLink pairs) (S := PairLink l) (fun x y hxy => hl.subset hxy) (hreach p.1 p.2).mpr
        ((hkeep p hp).mp hkept)
    have heq : pairs.filter keep = l.filter keep := by
      rw [eq_filter_of_sublist hl hnodup, List.filter_filter]
      refine List.filter_congr fun p hp => ?_
      cases hkept : keep p with
      | false => rfl
      | true => simp [hmem p hp hkept]
    rw [heq]
    exact List.filter_sublist
  have hends : ∀ x y, PairLink pairs x y → x ∈ pairs.map Prod.fst ++ pairs.map Prod.snd ∧
      y ∈ pairs.map Prod.fst ++ pairs.map Prod.snd := by
    intro x y h
    exact ⟨List.mem_append_left _ (List.mem_map.mpr ⟨(x, y), h, rfl⟩),
      List.mem_append_right _ (List.mem_map.mpr ⟨(x, y), h, rfl⟩)⟩
  refine ⟨List.filter_sublist, fun x y => ?_, fun l hl hreach => (hsub l hl hreach).length_le,
    fun l hl hreach hlength => ?_⟩
  · rw [hcovers]
    exact transGen_covers hacyclic hends
  · exact ((hsub l hl hreach).eq_of_length hlength.symm).symm

/-- **`transitiveReduction`**: the transitive reduction of pairs without a
cycle, and all of them where there is one. -/
theorem transitiveReduction_spec (pairs : List (α × α)) :
    ∃ r, transitiveReduction pairs = some r ∧
      (Acyclic (PairLink (distinctPairs pairs)) →
        r.cyclic = false ∧ IsTransitiveReduction (distinctPairs pairs) r.edges) ∧
      (¬Acyclic (PairLink (distinctPairs pairs)) →
        r.cyclic = true ∧ r.edges = distinctPairs pairs) := by
  have hclosed := closedNodes_pairGraph pairs
  have hok := @visitAll_ok_iff _ _ _ _ reachedBy _ _ hclosed (Nat.lt_succ_self _)
  rw [not_cyclic_iff] at hok
  unfold transitiveReduction
  simp only
  by_cases hacyclic : Acyclic (PairLink (distinctPairs pairs))
  · obtain ⟨⟨vals, s⟩, hrun⟩ := hok.mpr hacyclic
    rw [hrun]
    refine ⟨_, rfl, fun _ => ⟨rfl, ?_⟩, fun h => absurd hacyclic h⟩
    rw [(pairGraph_spec pairs).1]
    refine isTransitiveReduction_covers (nodup_distinctPairs pairs) hacyclic fun p hp => ?_
    obtain ⟨hsettled, hkeys, hvals⟩ := settled_visitAll hrun
    rw [Bool.not_eq_true', ← not_iff_not, Bool.not_eq_false, not_covers_iff hacyclic hp,
      PairGraph.implied, List.any_eq_true]
    have hvia : ((pairGraph pairs).successors.get? p.1).getD [] =
        targets (distinctPairs pairs) p.1 := by
      rw [(pairGraph_spec pairs).2, if_pos ⟨p, hp, Or.inl rfl⟩, Option.getD_some]
    rw [hvia]
    refine exists_congr fun via => ?_
    rw [mem_targets]
    refine and_congr_right fun hlink => ?_
    have hnode : via ∈ vals.map Prod.fst := by
      rw [hkeys, mem_nodes_iff]
      exact ⟨(p.1, via), hlink, Or.inr rfl⟩
    obtain ⟨q, hq, rfl⟩ := List.mem_map.mp hnode
    have hreach := mem_reachable_iff hsettled q
      ((OrdMap.mem_iff_lookupEntry hsettled.nodup).mpr (hvals q hq)) p.2
    rw [successor_eq] at hreach
    rw [hvals q hq, Option.getD_some, Bool.and_eq_true, decide_eq_true_eq, decide_eq_true_eq, hreach]
  · cases hrun : visitAll (pairGraph pairs).successors.get? none reachedBy
      (((pairGraph pairs).successors.entries.map Prod.fst).length + 1)
      ((pairGraph pairs).successors.entries.map Prod.fst) with
    | ok r => exact absurd (hok.mp ⟨r, hrun⟩) hacyclic
    | error e =>
      obtain ⟨rfl, -, -⟩ := visitAll_error hclosed (fun _ hx => hx) (Nat.lt_succ_self _) hrun
      exact ⟨_, rfl, fun h => absurd h hacyclic, fun _ => ⟨rfl, (pairGraph_spec pairs).1⟩⟩

/-- What is kept, as the first occurrences of the pairs that are kept. -/
theorem eraseDups_filter_mem_edges {pairs : List (α × α)} {r : Reduction α}
    (h : transitiveReduction pairs = some r) :
    (pairs.filter fun p => p ∈ r.edges).eraseDups = r.edges := by
  obtain ⟨r', hr', hacyclic, hcyclic⟩ := transitiveReduction_spec pairs
  obtain rfl := Option.some.inj (hr'.symm.trans h)
  have hsub : r'.edges.Sublist (distinctPairs pairs) := by
    by_cases hcase : Acyclic (PairLink (distinctPairs pairs))
    · exact (hacyclic hcase).2.sublist
    · rw [(hcyclic hcase).2]
  have hkept := eq_filter_of_sublist hsub (nodup_distinctPairs pairs)
  rw [distinctPairs, eraseDups_filter, List.filter_filter] at hkept
  rw [eraseDups_filter]
  refine Eq.trans (List.filter_congr fun p _ => ?_) hkept.symm
  rw [Bool.eq_iff_iff]
  simp only [Bool.and_eq_true, decide_eq_true_eq]
  exact ⟨fun hp => ⟨hp, ne_of_mem_distinctPairs (hsub.subset hp)⟩, fun hp => hp.1⟩

end SymphonyBoard
