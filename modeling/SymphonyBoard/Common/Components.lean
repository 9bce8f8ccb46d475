import Mathlib.Data.List.Nodup
import Mathlib.Data.List.Perm.Basic
import Mathlib.Logic.Relation
import Mathlib.Tactic.Common
/-!
# The components of a graph

A flood from a node takes its neighbours out of the nodes that remain, then
theirs, until it is done; a component is what one flood takes, and the next
flood starts at the first node that is left. Where neighbours are mutual
and among the nodes, a flood takes exactly what its start is joined to
(`mem_ids_flood`), so the components are the classes of being joined
(`componentsOf_classes`).
-/

namespace SymphonyBoard

variable {α : Type*} [DecidableEq α]

/-- A flood under way: found and not yet visited, visited, not found. -/
structure Flood (α : Type*) where
  pending : List α
  ids : List α
  remaining : List α

/-- A neighbour is found if it remains. -/
def Flood.meet (s : Flood α) (y : α) : Flood α :=
  if y ∈ s.remaining then
    { s with pending := s.pending ++ [y], remaining := s.remaining.erase y }
  else s

variable (next : α → List α)

/-- Visit the first node found. -/
def Flood.step (s : Flood α) : Flood α :=
  match s.pending with
  | [] => s
  | x :: pending => (next x).foldl Flood.meet { s with pending, ids := s.ids ++ [x] }

/-- So many steps of the flood. -/
def Flood.run : ℕ → Flood α → Flood α
  | 0, s => s
  | n + 1, s => Flood.run n (s.step next)

/-- The flood from a node into those that remain; every node is visited
once at most. -/
def flood (start : α) (remaining : List α) : Flood α :=
  Flood.run next (remaining.length + 1) ⟨[start], [], remaining⟩

/-- The floods, one after the other. -/
def componentsOf : ℕ → List α → List (List α)
  | 0, _ => []
  | _ + 1, [] => []
  | n + 1, start :: remaining =>
    (flood next start remaining).ids ::
      componentsOf n (flood next start remaining).remaining

/-- LinkedBy by steps from neighbour to neighbour. -/
abbrev LinkedBy : α → α → Prop := Relation.ReflTransGen fun x y => y ∈ next x

/-! ## A flood -/

/-- What a flood from `start` keeps: it loses none of the nodes `nodes` it
set out with, has found the neighbours of what it visited, and found only
what is joined to the start. -/
structure Flooding (nodes : List α) (start : α) (s : Flood α) : Prop where
  perm : (s.ids ++ s.pending ++ s.remaining).Perm nodes
  started : start ∈ s.ids ++ s.pending
  closed : ∀ x ∈ s.ids, ∀ y ∈ next x, y ∈ nodes → y ∈ s.ids ++ s.pending
  joined : ∀ x ∈ s.ids ++ s.pending, LinkedBy next start x
  order : s.remaining.Sublist nodes

variable {next} {nodes : List α} {start : α} {s : Flood α}

theorem meet_ids (s : Flood α) (y : α) : (s.meet y).ids = s.ids := by
  unfold Flood.meet
  split <;> rfl

theorem mem_pending_meet {s : Flood α} {x : α} (y : α) (h : x ∈ s.pending) :
    x ∈ (s.meet y).pending := by
  unfold Flood.meet
  split
  · exact List.mem_append_left _ h
  · exact h

theorem ids_foldl_meet (ys : List α) (s : Flood α) : (ys.foldl Flood.meet s).ids = s.ids := by
  induction ys generalizing s with
  | nil => rfl
  | cons y ys ih => rw [List.foldl_cons, ih, meet_ids]

theorem mem_pending_foldl {x : α} (ys : List α) {s : Flood α} (h : x ∈ s.pending) :
    x ∈ (ys.foldl Flood.meet s).pending := by
  induction ys generalizing s with
  | nil => exact h
  | cons y ys ih => exact ih (mem_pending_meet y h)

theorem length_meet (s : Flood α) (y : α) :
    (s.meet y).pending.length + (s.meet y).remaining.length =
      s.pending.length + s.remaining.length := by
  unfold Flood.meet
  split
  · rename_i hy
    have hlength := List.length_erase_of_mem hy
    have hpos := List.length_pos_of_mem hy
    simp only [List.length_append, List.length_singleton, hlength]
    omega
  · rfl

theorem length_foldl_meet (ys : List α) (s : Flood α) :
    (ys.foldl Flood.meet s).pending.length + (ys.foldl Flood.meet s).remaining.length =
      s.pending.length + s.remaining.length := by
  induction ys generalizing s with
  | nil => rfl
  | cons y ys ih => rw [List.foldl_cons, ih, length_meet]

/-- A neighbour of a node that was found is found, if it is a node at all. -/
theorem mem_of_met {y : α} (hperm : (s.ids ++ s.pending ++ s.remaining).Perm nodes)
    (hy : y ∈ nodes) : y ∈ s.ids ++ (s.meet y).pending := by
  have hmem := hperm.mem_iff.mpr hy
  unfold Flood.meet
  split
  · exact List.mem_append_right _ (List.mem_append_right _ (List.mem_singleton_self y))
  · rename_i hnot
    rcases List.mem_append.mp hmem with h | h
    · exact h
    · exact absurd h hnot

theorem perm_meet (y : α) (hperm : (s.ids ++ s.pending ++ s.remaining).Perm nodes) :
    ((s.meet y).ids ++ (s.meet y).pending ++ (s.meet y).remaining).Perm nodes := by
  unfold Flood.meet
  split
  · rename_i hy
    refine List.Perm.trans ?_ hperm
    simp only [List.append_assoc, List.singleton_append]
    exact ((List.perm_cons_erase hy).symm.append_left _).append_left _
  · exact hperm

theorem order_meet (y : α) (h : s.remaining.Sublist nodes) : (s.meet y).remaining.Sublist nodes := by
  unfold Flood.meet
  split
  · exact List.erase_sublist.trans h
  · exact h

theorem joined_meet {y : α} (hy : LinkedBy next start y)
    (h : ∀ x ∈ s.ids ++ s.pending, LinkedBy next start x) :
    ∀ x ∈ (s.meet y).ids ++ (s.meet y).pending, LinkedBy next start x := by
  intro x hx
  unfold Flood.meet at hx
  split at hx
  · simp only [List.mem_append, List.mem_singleton] at hx
    rcases hx with hx | hx | rfl
    · exact h x (List.mem_append_left _ hx)
    · exact h x (List.mem_append_right _ hx)
    · exact hy
  · exact h x hx

/-- The neighbours of a visited node are met one after the other. -/
theorem flooding_foldl (ys : List α) (hjoined : ∀ y ∈ ys, LinkedBy next start y)
    (hperm : (s.ids ++ s.pending ++ s.remaining).Perm nodes)
    (hreach : ∀ x ∈ s.ids ++ s.pending, LinkedBy next start x) (horder : s.remaining.Sublist nodes) :
    let t := ys.foldl Flood.meet s
    (t.ids ++ t.pending ++ t.remaining).Perm nodes ∧
      (∀ x ∈ t.ids ++ t.pending, LinkedBy next start x) ∧ t.remaining.Sublist nodes ∧
      ∀ y ∈ ys, y ∈ nodes → y ∈ t.ids ++ t.pending := by
  induction ys generalizing s with
  | nil => exact ⟨hperm, hreach, horder, fun y hy => absurd hy List.not_mem_nil⟩
  | cons y ys ih =>
    have hy := hjoined y (List.mem_cons_self ..)
    have hys : ∀ z ∈ ys, LinkedBy next start z := fun z hz => hjoined z (List.mem_cons_of_mem y hz)
    obtain ⟨hperm', hreach', horder', hmet⟩ :=
      ih hys (perm_meet y hperm) (joined_meet hy hreach) (order_meet y horder)
    refine ⟨hperm', hreach', horder', fun z hz hnode => ?_⟩
    rcases List.mem_cons.mp hz with rfl | hz
    · rw [List.foldl_cons, ids_foldl_meet, meet_ids]
      rcases List.mem_append.mp (mem_of_met hperm hnode) with h | h
      · exact List.mem_append_left _ h
      · exact List.mem_append_right _ (mem_pending_foldl ys h)
    · exact hmet z hz hnode

/-- **One visit keeps all of it.** -/
theorem Flooding.step (h : Flooding next nodes start s) :
    Flooding next nodes start (s.step next) := by
  unfold Flood.step
  cases hpending : s.pending with
  | nil => exact h
  | cons x pending =>
    simp only
    have hx : x ∈ s.pending := hpending ▸ List.mem_cons_self ..
    have hjx : LinkedBy next start x := h.joined x (List.mem_append_right _ hx)
    have hsame : s.ids ++ [x] ++ pending = s.ids ++ s.pending := by
      rw [hpending, List.append_assoc, List.singleton_append]
    obtain ⟨hperm, hjoined, horder, hmet⟩ :=
      flooding_foldl (s := ⟨pending, s.ids ++ [x], s.remaining⟩)
        (next x) (fun y hy => hjx.tail hy) (by rw [hsame]; exact h.perm)
        (by rw [hsame]; exact h.joined) h.order
    have hkeeps : ∀ y ∈ s.ids ++ s.pending, y ∈
        ((next x).foldl Flood.meet ⟨pending, s.ids ++ [x], s.remaining⟩).ids ++
          ((next x).foldl Flood.meet ⟨pending, s.ids ++ [x], s.remaining⟩).pending := by
      intro y hy
      rw [← hsame] at hy
      rw [ids_foldl_meet]
      rcases List.mem_append.mp hy with hy | hy
      · exact List.mem_append_left _ hy
      · exact List.mem_append_right _ (mem_pending_foldl _ hy)
    refine ⟨hperm, hkeeps start h.started, fun y hy z hz hnode => ?_, hjoined, horder⟩
    rw [ids_foldl_meet] at hy
    rcases List.mem_append.mp hy with hy | hy
    · exact hkeeps z (h.closed y hy z hz hnode)
    · obtain rfl := List.mem_singleton.mp hy
      exact hmet z hz hnode

theorem Flooding.run (n : ℕ) (h : Flooding next nodes start s) :
    Flooding next nodes start (s.run next n) := by
  induction n generalizing s with
  | zero => exact h
  | succ n ih => exact ih h.step

theorem length_step (next : α → List α) (s : Flood α) (h : s.pending ≠ []) :
    (s.step next).pending.length + (s.step next).remaining.length + 1 =
      s.pending.length + s.remaining.length := by
  obtain ⟨x, pending, hpending⟩ := List.exists_cons_of_ne_nil h
  unfold Flood.step
  rw [hpending]
  simp only [length_foldl_meet, List.length_cons]
  omega

/-- As many visits as nodes are enough. -/
theorem Flood.pending_run (n : ℕ) (h : s.pending.length + s.remaining.length ≤ n) :
    (s.run next n).pending = [] := by
  induction n generalizing s with
  | zero => exact List.eq_nil_of_length_eq_zero (show s.pending.length = 0 by omega)
  | succ n ih =>
    unfold Flood.run
    by_cases hpending : s.pending = []
    · have hstep : s.step next = s := by
        unfold Flood.step
        rw [hpending]
      rw [hstep]
      by_cases hle : s.pending.length + s.remaining.length ≤ n
      · exact ih hle
      · have hrun : ∀ m, s.run next m = s := by
          intro m
          induction m with
          | zero => rfl
          | succ m ihm => rw [Flood.run, hstep, ihm]
        rw [hrun n, hpending]
    · have hlength := length_step next s hpending
      exact ih (by omega)

/-! ## Components -/

/-- Neighbours of nodes are nodes, and are mutual. -/
structure Mutual (next : α → List α) (nodes : List α) : Prop where
  closed : ∀ x ∈ nodes, ∀ y ∈ next x, y ∈ nodes
  symm : ∀ x ∈ nodes, ∀ y ∈ next x, x ∈ next y

omit [DecidableEq α] in
theorem Mutual.mem_of_linkedBy {x y : α} (h : Mutual next nodes) (hx : x ∈ nodes)
    (hxy : LinkedBy next x y) : y ∈ nodes := by
  induction hxy with
  | refl => exact hx
  | tail _ hstep ih => exact h.closed _ ih _ hstep

omit [DecidableEq α] in
theorem Mutual.linkedBy_symm {x y : α} (h : Mutual next nodes) (hx : x ∈ nodes)
    (hxy : LinkedBy next x y) : LinkedBy next y x := by
  induction hxy with
  | refl => exact .refl
  | tail hhead hstep ih => exact .head (h.symm _ (h.mem_of_linkedBy hx hhead) _ hstep) ih

variable {remaining : List α}

theorem flooding_flood (h : Mutual next (start :: remaining)) :
    Flooding next (start :: remaining) start (flood next start remaining) ∧
      (flood next start remaining).pending = [] := by
  have hstart : Flooding next (start :: remaining) start ⟨[start], [], remaining⟩ := by
    refine ⟨List.Perm.refl _, List.mem_singleton_self start, fun x hx => absurd hx List.not_mem_nil,
      fun x hx => ?_, List.sublist_cons_self start remaining⟩
    obtain rfl := List.mem_singleton.mp hx
    exact .refl
  refine ⟨hstart.run _, Flood.pending_run _ ?_⟩
  simp only [List.length_singleton]
  omega

theorem perm_flood (h : Mutual next (start :: remaining)) :
    ((flood next start remaining).ids ++ (flood next start remaining).remaining).Perm
      (start :: remaining) := by
  obtain ⟨hflooding, hpending⟩ := flooding_flood h
  have hperm := hflooding.perm
  rwa [hpending, List.append_nil] at hperm

/-- **A flood takes what its start is joined to.** -/
theorem mem_ids_flood (h : Mutual next (start :: remaining)) (x : α) :
    x ∈ (flood next start remaining).ids ↔ LinkedBy next start x := by
  obtain ⟨hflooding, hpending⟩ := flooding_flood h
  have hstarted := hflooding.started
  have hjoined := hflooding.joined
  have hclosed := hflooding.closed
  rw [hpending, List.append_nil] at hstarted hjoined hclosed
  constructor
  · exact hjoined x
  · intro hx
    induction hx with
    | refl => exact hstarted
    | tail hhead hstep ih =>
      exact hclosed _ ih _ hstep (h.closed _ (h.mem_of_linkedBy (List.mem_cons_self ..) hhead) _ hstep)

/-- What a flood leaves has its neighbours left too. -/
theorem Mutual.left (h : Mutual next (start :: remaining))
    (hnodup : (start :: remaining).Nodup) :
    Mutual next (flood next start remaining).remaining := by
  have hperm := perm_flood h
  have hnodup' := hperm.nodup_iff.mpr hnodup
  have hnode : ∀ x ∈ (flood next start remaining).remaining, x ∈ start :: remaining := fun x hx =>
    hperm.mem_iff.mp (List.mem_append_right _ hx)
  refine ⟨fun x hx y hy => ?_, fun x hx y hy => h.symm x (hnode x hx) y hy⟩
  have hy' := hperm.mem_iff.mpr (h.closed x (hnode x hx) y hy)
  rcases List.mem_append.mp hy' with hids | hrem
  · -- a neighbour that was taken would have taken the node as well
    have hxids : x ∈ (flood next start remaining).ids := by
      rw [mem_ids_flood h] at hids ⊢
      exact hids.tail (h.symm x (hnode x hx) y hy)
    exact absurd hx (List.disjoint_of_nodup_append hnodup' hxids)
  · exact hrem

/-- **The components are the classes of being joined**, and hold every node
once. -/
theorem componentsOf_classes {n : ℕ} (hn : nodes.length ≤ n) (hnodup : nodes.Nodup)
    (h : Mutual next nodes) :
    (componentsOf next n nodes).flatten.Perm nodes ∧
      ∀ c ∈ componentsOf next n nodes, ∀ x ∈ c, ∀ y, y ∈ c ↔ LinkedBy next x y := by
  induction n generalizing nodes with
  | zero =>
    obtain rfl := List.eq_nil_of_length_eq_zero (Nat.le_zero.mp hn)
    exact ⟨List.Perm.refl _, fun c hc => absurd hc List.not_mem_nil⟩
  | succ n ih =>
    cases nodes with
    | nil => exact ⟨List.Perm.refl _, fun c hc => absurd hc List.not_mem_nil⟩
    | cons start remaining =>
      have hperm := perm_flood h
      have hnodup' := hperm.nodup_iff.mpr hnodup
      have hstart : start ∈ (flood next start remaining).ids := (mem_ids_flood h start).mpr .refl
      have hlength := hperm.length_eq
      have hpos := List.length_pos_of_mem hstart
      rw [List.length_append, List.length_cons] at hlength
      rw [List.length_cons] at hn
      obtain ⟨hrest, hclasses⟩ := ih (show (flood next start remaining).remaining.length ≤ n by omega)
        (List.Nodup.of_append_right hnodup') (h.left hnodup)
      refine ⟨(hrest.append_left _).trans hperm, fun c hc x hx y => ?_⟩
      rcases List.mem_cons.mp hc with rfl | hc
      · rw [mem_ids_flood h] at hx ⊢
        have hback := h.linkedBy_symm (List.mem_cons_self ..) hx
        exact ⟨fun hy => hback.trans hy, fun hy => hx.trans hy⟩
      · exact hclasses c hc x hx y

end SymphonyBoard
