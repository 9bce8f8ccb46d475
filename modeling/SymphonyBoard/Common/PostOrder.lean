import Mathlib.Logic.Relation
import SymphonyBoard.Common.OrdMap
/-!
# Values computed depth-first, in post-order

A node's value is made of its successors' values. The traversal remembers
what it has computed and which nodes are still open; an open node that is
met again has a provisional value, or ends the traversal.

`Remembered` says what the remembered values are made of: the value of a
successor, remembered before, or a provisional one, of a successor the
node can be reached from. `settled_visitAll` is the rule for whole
traversals, for which as many levels as there are nodes are enough
(`visitAll_error`). Without provisional values the traversal ends early
exactly where there is a cycle (`visitAll_ok_iff`).
-/

namespace SymphonyBoard

/-- Why a traversal ends early. -/
inductive Halt
  | fuel
  | cycle
  | missing
deriving DecidableEq, Repr

/-- The values computed, latest first, and the nodes that are open. -/
structure PostOrder (α V : Type*) where
  done : List (α × V)
  opened : List α

/-- Nothing has been visited. -/
def PostOrder.start {α V : Type*} : PostOrder α V := ⟨[], []⟩

section Traversal

variable {α V : Type*} [DecidableEq α] (succ : α → Option (List α)) (provisional : Option V)
  (combine : α → List (α × V) → V)

/-- Visit one node after the other. -/
def visitEach (visit : α → PostOrder α V → Except Halt (V × PostOrder α V)) :
    List α → PostOrder α V → Except Halt (List (α × V) × PostOrder α V)
  | [], s => .ok ([], s)
  | x :: xs, s =>
    match visit x s with
    | .error e => .error e
    | .ok (v, s) =>
      match visitEach visit xs s with
      | .error e => .error e
      | .ok (vals, s) => .ok ((x, v) :: vals, s)

/-- The value of a node, going down so many levels at most. -/
def visit : ℕ → α → PostOrder α V → Except Halt (V × PostOrder α V)
  | 0, _, _ => .error .fuel
  | n + 1, x, s =>
    match OrdMap.lookupEntry x s.done with
    | some v => .ok (v, s)
    | none =>
      if x ∈ s.opened then
        match provisional with
        | none => .error .cycle
        | some v => .ok (v, s)
      else
        match succ x with
        | none => .error .missing
        | some xs =>
          match visitEach (visit n) xs { s with opened := x :: s.opened } with
          | .error e => .error e
          | .ok (vals, s) =>
            let v := combine x vals
            .ok (v, { done := (x, v) :: s.done, opened := s.opened.erase x })

/-- A traversal from a list of nodes. -/
def visitAll (n : ℕ) (roots : List α) : Except Halt (List (α × V) × PostOrder α V) :=
  visitEach (visit succ provisional combine n) roots .start

/-- `y` is a successor of `x`. -/
def Successor (x y : α) : Prop := ∃ xs, succ x = some xs ∧ y ∈ xs

/-- What the values remembered are made of. -/
inductive Remembered : List (α × V) → Prop
  | nil : Remembered []
  | cons {x : α} {vals : List (α × V)} {done : List (α × V)} : Remembered done →
      x ∉ done.map Prod.fst → succ x = some (vals.map Prod.fst) →
      (∀ p ∈ vals, OrdMap.lookupEntry p.1 done = some p.2 ∨
        provisional = some p.2 ∧ Relation.ReflTransGen (Successor succ) p.1 x) →
      Remembered ((x, combine x vals) :: done)

variable {succ provisional combine} {done : List (α × V)} {n : ℕ} {x : α} {v : V}
  {s s' : PostOrder α V}

theorem Remembered.nodup (h : Remembered succ provisional combine done) :
    (done.map Prod.fst).Nodup := by
  induction h with
  | nil => exact List.nodup_nil
  | cons _ hx _ _ ih => exact List.nodup_cons.mpr ⟨hx, ih⟩

/-- A remembered value stays what it is. -/
theorem lookupEntry_append {new : List (α × V)} (hnodup : ((new ++ done).map Prod.fst).Nodup)
    (h : OrdMap.lookupEntry x done = some v) : OrdMap.lookupEntry x (new ++ done) = some v := by
  have hdone : (done.map Prod.fst).Nodup := by
    rw [List.map_append] at hnodup
    exact (List.nodup_append.mp hnodup).2.1
  refine (OrdMap.mem_iff_lookupEntry hnodup).mp (List.mem_append_right _ ?_)
  exact (OrdMap.mem_iff_lookupEntry hdone).mpr h

theorem mem_keys_of_lookupEntry (h : OrdMap.lookupEntry x done = some v) :
    x ∈ done.map Prod.fst := by
  induction done with
  | nil => cases h
  | cons b done ih =>
    rw [OrdMap.lookupEntry] at h
    rw [List.map_cons, List.mem_cons]
    by_cases hb : b.1 = x
    · exact Or.inl hb.symm
    · rw [if_neg hb] at h
      exact Or.inr (ih h)

theorem not_mem_keys_of_lookupEntry (h : OrdMap.lookupEntry x done = none) :
    x ∉ done.map Prod.fst := by
  induction done with
  | nil => exact List.not_mem_nil
  | cons b done ih =>
    rw [OrdMap.lookupEntry] at h
    by_cases hb : b.1 = x
    · rw [if_pos hb] at h
      cases h
    · rw [if_neg hb] at h
      rw [List.map_cons, List.mem_cons, not_or]
      exact ⟨Ne.symm hb, ih h⟩

variable (succ provisional combine) in
/-- What a visit of the nodes leaves behind: it adds values, of nodes that
are not open, and closes what it opens. -/
structure Visited (s s' : PostOrder α V) : Prop where
  opened : s'.opened = s.opened
  grows : ∃ new, s'.done = new ++ s.done
  fresh : ∀ y ∈ s.opened, y ∈ s'.done.map Prod.fst → y ∈ s.done.map Prod.fst
  settled : Remembered succ provisional combine s.done → Remembered succ provisional combine s'.done

theorem Visited.refl (s : PostOrder α V) : Visited succ provisional combine s s :=
  ⟨rfl, ⟨[], rfl⟩, fun _ _ h => h, fun h => h⟩

theorem Visited.trans {s'' : PostOrder α V} (h : Visited succ provisional combine s s')
    (h' : Visited succ provisional combine s' s'') : Visited succ provisional combine s s'' := by
  obtain ⟨new, hnew⟩ := h.grows
  obtain ⟨new', hnew'⟩ := h'.grows
  refine ⟨h'.opened.trans h.opened, ⟨new' ++ new, ?_⟩, ?_, fun hs => h'.settled (h.settled hs)⟩
  · rw [hnew', hnew, List.append_assoc]
  · intro y hy hmem
    exact h.fresh y hy (h'.fresh y (h.opened.symm ▸ hy) hmem)

/-- A value that was returned: remembered, or provisional for an open
node. -/
def Returned (provisional : Option V) (opened : List α) (done : List (α × V)) (x : α) (v : V) :
    Prop :=
  OrdMap.lookupEntry x done = some v ∨ provisional = some v ∧ x ∈ opened

theorem Returned.later (h : Returned provisional s.opened s.done x v)
    (hvisited : Visited succ provisional combine s s')
    (hs : Remembered succ provisional combine s.done) :
    Returned provisional s'.opened s'.done x v := by
  obtain ⟨new, hnew⟩ := hvisited.grows
  rcases h with h | ⟨hv, hx⟩
  · refine Or.inl ?_
    have hnodup := (hvisited.settled hs).nodup
    rw [hnew] at hnodup ⊢
    exact lookupEntry_append hnodup h
  · exact Or.inr ⟨hv, hvisited.opened.symm ▸ hx⟩

/-- What is promised of visiting nodes one after the other, where each visit
keeps its promise. -/
theorem visitEach_spec {f : α → PostOrder α V → Except Halt (V × PostOrder α V)}
    {xs opened : List α} {vals : List (α × V)}
    (hf : ∀ y ∈ xs, ∀ (s s' : PostOrder α V) (v : V), s.opened = opened →
      Remembered succ provisional combine s.done → f y s = .ok (v, s') →
        Visited succ provisional combine s s' ∧ Returned provisional s'.opened s'.done y v)
    (hopened : s.opened = opened) (hs : Remembered succ provisional combine s.done)
    (h : visitEach f xs s = .ok (vals, s')) :
    Visited succ provisional combine s s' ∧ vals.map Prod.fst = xs ∧
      ∀ p ∈ vals, Returned provisional s'.opened s'.done p.1 p.2 := by
  induction xs generalizing s vals with
  | nil =>
    obtain ⟨rfl, rfl⟩ := Prod.mk.inj (Except.ok.inj h)
    exact ⟨Visited.refl s, rfl, fun p hp => absurd hp List.not_mem_nil⟩
  | cons y xs ih =>
    rw [visitEach] at h
    cases hy : f y s with
    | error e =>
      rw [hy] at h
      cases h
    | ok r =>
      obtain ⟨v, mid⟩ := r
      rw [hy] at h
      simp only at h
      cases hrest : visitEach f xs mid with
      | error e =>
        rw [hrest] at h
        cases h
      | ok r =>
        obtain ⟨rest, last⟩ := r
        rw [hrest] at h
        obtain ⟨rfl, rfl⟩ := Prod.mk.inj (Except.ok.inj h)
        obtain ⟨hvisited, hreturned⟩ := hf y List.mem_cons_self s mid v hopened hs hy
        have hmid := hvisited.settled hs
        obtain ⟨hvisited', hkeys, hall⟩ := ih (fun z hz => hf z (List.mem_cons_of_mem _ hz))
          (hvisited.opened.trans hopened) hmid hrest
        refine ⟨hvisited.trans hvisited', by rw [List.map_cons, hkeys], ?_⟩
        intro p hp
        rcases List.mem_cons.mp hp with rfl | hp
        · exact hreturned.later hvisited' hmid
        · exact hall p hp

/-- Closing a node whose successors have their values. -/
theorem visited_close {vals : List (α × V)} {mid : PostOrder α V} (hx : x ∉ s.done.map Prod.fst)
    (hclosed : x ∉ s.opened) (hsucc : succ x = some (vals.map Prod.fst))
    (hpath : ∀ o ∈ s.opened, Relation.TransGen (Successor succ) o x)
    (hs : Remembered succ provisional combine s.done)
    (h : Visited succ provisional combine { s with opened := x :: s.opened } mid)
    (hvals : ∀ p ∈ vals, Returned provisional mid.opened mid.done p.1 p.2) :
    Visited succ provisional combine s
      { done := (x, combine x vals) :: mid.done, opened := mid.opened.erase x } := by
  have hopened : mid.opened = x :: s.opened := h.opened
  obtain ⟨new, hnew⟩ := h.grows
  have hfresh : x ∉ mid.done.map Prod.fst := fun hmem =>
    hx (h.fresh x List.mem_cons_self hmem)
  refine ⟨?_, ⟨(x, combine x vals) :: new, by rw [hnew]; rfl⟩, ?_, fun _ => ?_⟩
  · rw [hopened, List.erase_cons_head]
  · intro y hy hmem
    rcases List.mem_cons.mp hmem with rfl | hmem
    · exact absurd hy hclosed
    · exact h.fresh y (List.mem_cons_of_mem _ hy) hmem
  · refine Remembered.cons (h.settled hs) hfresh hsucc fun p hp => ?_
    rcases hvals p hp with hknown | ⟨hprov, hmem⟩
    · exact Or.inl hknown
    · refine Or.inr ⟨hprov, ?_⟩
      rw [hopened] at hmem
      rcases List.mem_cons.mp hmem with heq | hmem
      · rw [heq]
      · exact (hpath _ hmem).to_reflTransGen

/-- **What a visit leaves and returns**, where the open nodes are on the way
to the one that is visited. -/
theorem visit_spec (hpath : ∀ o ∈ s.opened, Relation.TransGen (Successor succ) o x)
    (hs : Remembered succ provisional combine s.done)
    (h : visit succ provisional combine n x s = .ok (v, s')) :
    Visited succ provisional combine s s' ∧ Returned provisional s'.opened s'.done x v := by
  induction n generalizing x s v s' with
  | zero => cases h
  | succ n ih =>
    unfold visit at h
    cases hknown : OrdMap.lookupEntry x s.done with
    | some w =>
      rw [hknown] at h
      obtain ⟨rfl, rfl⟩ := Prod.mk.inj (Except.ok.inj h)
      exact ⟨Visited.refl s, Or.inl hknown⟩
    | none =>
      rw [hknown] at h
      simp only at h
      by_cases hopened : x ∈ s.opened
      · rw [if_pos hopened] at h
        cases provisional with
        | none => cases h
        | some w =>
          obtain ⟨rfl, rfl⟩ := Prod.mk.inj (Except.ok.inj h)
          exact ⟨Visited.refl s, Or.inr ⟨rfl, hopened⟩⟩
      · rw [if_neg hopened] at h
        cases hsucc : succ x with
        | none =>
          rw [hsucc] at h
          cases h
        | some xs =>
          rw [hsucc] at h
          simp only at h
          cases hall : visitEach (visit succ provisional combine n) xs
              { s with opened := x :: s.opened } with
          | error e =>
            rw [hall] at h
            cases h
          | ok r =>
            obtain ⟨vals, mid⟩ := r
            rw [hall] at h
            obtain ⟨rfl, rfl⟩ := Prod.mk.inj (Except.ok.inj h)
            -- every open node, the new one too, is on the way to each successor
            have hpath' : ∀ y ∈ xs, ∀ o ∈ x :: s.opened,
                Relation.TransGen (Successor succ) o y := by
              intro y hy o ho
              have hstep : Successor succ x y := ⟨xs, hsucc, hy⟩
              rcases List.mem_cons.mp ho with rfl | ho
              · exact Relation.TransGen.single hstep
              · exact (hpath o ho).tail hstep
            have hstart : ({ s with opened := x :: s.opened } : PostOrder α V).opened =
                x :: s.opened := rfl
            obtain ⟨hvisited, rfl, hvals⟩ := visitEach_spec (fun y hy t t' w ht hsettled hyv =>
              ih (by rw [ht]; exact hpath' y hy) hsettled hyv) hstart hs hall
            refine ⟨visited_close (not_mem_keys_of_lookupEntry hknown) hopened hsucc hpath hs
              hvisited hvals, Or.inl ?_⟩
            rw [OrdMap.lookupEntry, if_pos rfl]

/-- **A whole traversal**: every root has the value that is remembered of
it. -/
theorem settled_visitAll {roots : List α} {vals : List (α × V)}
    (h : visitAll succ provisional combine n roots = .ok (vals, s)) :
    Remembered succ provisional combine s.done ∧ vals.map Prod.fst = roots ∧
      ∀ p ∈ vals, OrdMap.lookupEntry p.1 s.done = some p.2 := by
  have hempty : (PostOrder.start : PostOrder α V).opened = [] := rfl
  obtain ⟨hvisited, hkeys, hvals⟩ := visitEach_spec (fun y _ t t' w ht hsettled hyv =>
    visit_spec (by rw [ht]; exact fun o ho => absurd ho List.not_mem_nil) hsettled hyv)
    hempty Remembered.nil h
  refine ⟨hvisited.settled Remembered.nil, hkeys, fun p hp => ?_⟩
  rcases hvals p hp with hknown | ⟨-, hmem⟩
  · exact hknown
  · rw [hvisited.opened] at hmem
    exact absurd hmem List.not_mem_nil

/-! ## Enough levels -/

/-- The nodes that are not open. -/
def unopened (nodes opened : List α) : List α := nodes.filter fun y => y ∉ opened

theorem length_unopened_lt {nodes opened : List α} (hx : x ∈ nodes) (hclosed : x ∉ opened) :
    (unopened nodes (x :: opened)).length < (unopened nodes opened).length := by
  have hrest : unopened nodes (x :: opened) = (unopened nodes opened).filter fun y => y ≠ x := by
    rw [unopened, unopened, List.filter_filter]
    refine List.filter_congr fun y _ => ?_
    rw [Bool.eq_iff_iff]
    simp [not_or]
  rw [hrest]
  refine List.length_filter_lt_length_iff_exists.mpr ⟨x, ?_, by simp⟩
  exact List.mem_filter.mpr ⟨hx, decide_eq_true hclosed⟩

/-- A set of nodes that every successor of a node of it is in. -/
def ClosedNodes (succ : α → Option (List α)) (nodes : List α) : Prop :=
  ∀ y ∈ nodes, ∃ ys, succ y = some ys ∧ ∀ z ∈ ys, z ∈ nodes

/-- There is a way from a node back to itself. -/
def Cyclic (succ : α → Option (List α)) (nodes : List α) : Prop :=
  ∃ y ∈ nodes, Relation.TransGen (Successor succ) y y

theorem visitEach_error {f : α → PostOrder α V → Except Halt (V × PostOrder α V)}
    {xs opened : List α} {e : Halt}
    (hf : ∀ y ∈ xs, ∀ (s s' : PostOrder α V) (v : V), s.opened = opened →
      Remembered succ provisional combine s.done → f y s = .ok (v, s') →
        Visited succ provisional combine s s')
    (hopened : s.opened = opened) (hs : Remembered succ provisional combine s.done)
    (h : visitEach f xs s = .error e) :
    ∃ y ∈ xs, ∃ t, t.opened = opened ∧ Remembered succ provisional combine t.done ∧
      f y t = .error e := by
  induction xs generalizing s with
  | nil => cases h
  | cons y xs ih =>
    rw [visitEach] at h
    cases hy : f y s with
    | error e' =>
      rw [hy] at h
      obtain rfl := Except.error.inj h
      exact ⟨y, List.mem_cons_self, s, hopened, hs, hy⟩
    | ok r =>
      obtain ⟨v, mid⟩ := r
      rw [hy] at h
      simp only at h
      have hvisited := hf y List.mem_cons_self s mid v hopened hs hy
      cases hrest : visitEach f xs mid with
      | ok r =>
        rw [hrest] at h
        cases h
      | error e' =>
        rw [hrest] at h
        obtain rfl := Except.error.inj h
        obtain ⟨z, hz, t, ht⟩ := ih (fun z hz => hf z (List.mem_cons_of_mem _ hz))
          (hvisited.opened.trans hopened) (hvisited.settled hs) hrest
        exact ⟨z, List.mem_cons_of_mem _ hz, t, ht⟩

/-- With more levels than nodes left to open, a visit ends early at a cycle
only. -/
theorem visit_error {nodes : List α} {e : Halt} (hnodes : ClosedNodes succ nodes)
    (hx : x ∈ nodes) (hpath : ∀ o ∈ s.opened, Relation.TransGen (Successor succ) o x)
    (hs : Remembered succ provisional combine s.done) (hn : (unopened nodes s.opened).length < n)
    (h : visit succ provisional combine n x s = .error e) :
    e = .cycle ∧ provisional = none ∧ Cyclic succ nodes := by
  induction n generalizing x s with
  | zero => exact absurd hn (Nat.not_lt_zero _)
  | succ n ih =>
    unfold visit at h
    cases hknown : OrdMap.lookupEntry x s.done with
    | some w =>
      rw [hknown] at h
      cases h
    | none =>
      rw [hknown] at h
      simp only at h
      -- an open node closes a cycle; any other has an unopened one fewer below it
      by_cases hopened : x ∈ s.opened
      · rw [if_pos hopened] at h
        cases provisional with
        | some w => cases h
        | none =>
          obtain rfl := Except.error.inj h
          exact ⟨rfl, rfl, x, hx, hpath x hopened⟩
      · rw [if_neg hopened] at h
        obtain ⟨xs, hsucc, hxs⟩ := hnodes x hx
        rw [hsucc] at h
        simp only at h
        have hpath' : ∀ y ∈ xs, ∀ o ∈ x :: s.opened,
            Relation.TransGen (Successor succ) o y := by
          intro y hy o ho
          have hstep : Successor succ x y := ⟨xs, hsucc, hy⟩
          rcases List.mem_cons.mp ho with rfl | ho
          · exact Relation.TransGen.single hstep
          · exact (hpath o ho).tail hstep
        cases hall : visitEach (visit succ provisional combine n) xs
            { s with opened := x :: s.opened } with
        | ok r =>
          rw [hall] at h
          cases h
        | error e' =>
          rw [hall] at h
          obtain rfl := Except.error.inj h
          have hstart : ({ s with opened := x :: s.opened } : PostOrder α V).opened =
              x :: s.opened := rfl
          obtain ⟨y, hy, t, ht, hsettled, herror⟩ := visitEach_error
            (fun y hy t t' w ht hsettled hyv =>
              (visit_spec (by rw [ht]; exact hpath' y hy) hsettled hyv).1) hstart hs hall
          have hlt := length_unopened_lt hx hopened
          refine ih (hxs y hy) (by rw [ht]; exact hpath' y hy) hsettled ?_ herror
          rw [ht]
          omega

/-- **A traversal ends**: with more levels than there are nodes, early only
if no provisional value is given and there is a cycle. -/
theorem visitAll_error {nodes roots : List α} {e : Halt} (hnodes : ClosedNodes succ nodes)
    (hroots : ∀ x ∈ roots, x ∈ nodes) (hn : nodes.length < n)
    (h : visitAll succ provisional combine n roots = .error e) :
    e = .cycle ∧ provisional = none ∧ Cyclic succ nodes := by
  have hempty : (PostOrder.start : PostOrder α V).opened = [] := rfl
  have hpath : ∀ {t : PostOrder α V} {y : α}, t.opened = [] →
      ∀ o ∈ t.opened, Relation.TransGen (Successor succ) o y := by
    intro t y ht o ho
    rw [ht] at ho
    exact absurd ho List.not_mem_nil
  obtain ⟨y, hy, t, ht, hsettled, herror⟩ := visitEach_error
    (fun y _ t t' w ht hsettled hyv => (visit_spec (hpath ht) hsettled hyv).1) hempty Remembered.nil h
  refine visit_error hnodes (hroots y hy) (hpath ht) hsettled ?_ herror
  exact Nat.lt_of_le_of_lt (List.length_filter_le _ _) hn

/-! ## Without provisional values -/

/-- The remembered nodes are closed under successors. -/
theorem Remembered.mem_keys_of_successor (h : Remembered succ none combine done) {y : α}
    (hx : x ∈ done.map Prod.fst) (hstep : Successor succ x y) : y ∈ done.map Prod.fst := by
  induction h with
  | nil => exact absurd hx List.not_mem_nil
  | cons hdone hfresh hsucc hvals ih =>
    rw [List.map_cons, List.mem_cons] at hx ⊢
    rcases hx with rfl | hx
    · obtain ⟨xs, hxs, hy⟩ := hstep
      rw [hsucc] at hxs
      rw [← Option.some.inj hxs] at hy
      obtain ⟨p, hp, rfl⟩ := List.mem_map.mp hy
      rcases hvals p hp with hknown | ⟨hprov, -⟩
      · exact Or.inr (mem_keys_of_lookupEntry hknown)
      · cases hprov
    · exact Or.inr (ih hx)

theorem Remembered.mem_keys_of_transGen (h : Remembered succ none combine done) {y : α}
    (hx : x ∈ done.map Prod.fst) (hpath : Relation.TransGen (Successor succ) x y) :
    y ∈ done.map Prod.fst := by
  induction hpath with
  | single hstep => exact h.mem_keys_of_successor hx hstep
  | tail _ hstep ih => exact h.mem_keys_of_successor ih hstep

/-- **No remembered node is on a cycle**: a node is remembered after all it
reaches. -/
theorem Remembered.not_cyclic (h : Remembered succ none combine done) :
    ∀ x ∈ done.map Prod.fst, ¬Relation.TransGen (Successor succ) x x := by
  induction h with
  | nil => exact fun x hx => absurd hx List.not_mem_nil
  | @cons z vals done hdone hfresh hsucc hvals ih =>
    have hall := Remembered.cons hdone hfresh hsucc hvals
    intro x hx hcycle
    rw [List.map_cons, List.mem_cons] at hx
    rcases hx with rfl | hx
    · obtain ⟨y, hstep, hback⟩ := Relation.TransGen.head'_iff.mp hcycle
      have hy : y ∈ done.map Prod.fst := by
        obtain ⟨xs, hxs, hy⟩ := hstep
        rw [hsucc] at hxs
        rw [← Option.some.inj hxs] at hy
        obtain ⟨p, hp, rfl⟩ := List.mem_map.mp hy
        rcases hvals p hp with hknown | ⟨hprov, -⟩
        · exact mem_keys_of_lookupEntry hknown
        · cases hprov
      rcases Relation.reflTransGen_iff_eq_or_transGen.mp hback with heq | hback
      · exact hfresh (heq ▸ hy)
      · exact hfresh (hdone.mem_keys_of_transGen hy hback)
    · exact ih x hx hcycle

/-- **A property of values**, from those of the successors to that of the
node. -/
theorem Remembered.value {P : α → V → Prop} (h : Remembered succ none combine done)
    (hstep : ∀ x vals, succ x = some (vals.map Prod.fst) → (∀ p ∈ vals, P p.1 p.2) →
      P x (combine x vals)) : ∀ p ∈ done, P p.1 p.2 := by
  induction h with
  | nil => exact fun p hp => absurd hp List.not_mem_nil
  | cons hdone hfresh hsucc hvals ih =>
    intro p hp
    rcases List.mem_cons.mp hp with rfl | hp
    · refine hstep _ _ hsucc fun q hq => ?_
      rcases hvals q hq with hknown | ⟨hprov, -⟩
      · exact ih q ((OrdMap.mem_iff_lookupEntry hdone.nodup).mpr hknown)
      · cases hprov
    · exact ih p hp

/-- **Every node gets its value unless there is a cycle.** -/
theorem visitAll_ok_iff {nodes : List α} (hnodes : ClosedNodes succ nodes)
    (hn : nodes.length < n) :
    (∃ r, visitAll succ none combine n nodes = .ok r) ↔ ¬Cyclic succ nodes := by
  constructor
  · rintro ⟨⟨vals, s⟩, h⟩ ⟨y, hy, hcycle⟩
    obtain ⟨hsettled, hkeys, hvals⟩ := settled_visitAll h
    rw [← hkeys] at hy
    obtain ⟨p, hp, rfl⟩ := List.mem_map.mp hy
    exact hsettled.not_cyclic p.1 (mem_keys_of_lookupEntry (hvals p hp)) hcycle
  · intro hacyclic
    cases h : visitAll succ none combine n nodes with
    | ok r => exact ⟨r, rfl⟩
    | error e =>
      exact absurd (visitAll_error hnodes (fun _ hx => hx) hn h).2.2 hacyclic

/-! ## With provisional values -/

/-- **What a remembered value is made of**: the remembered values of the
successors, or the provisional one where the node can be reached from the
successor. -/
theorem Remembered.entry (h : Remembered succ provisional combine done)
    (hx : OrdMap.lookupEntry x done = some v) :
    ∃ vals : List (α × V), succ x = some (vals.map Prod.fst) ∧ v = combine x vals ∧
      ∀ p ∈ vals, OrdMap.lookupEntry p.1 done = some p.2 ∨
        provisional = some p.2 ∧ Relation.ReflTransGen (Successor succ) p.1 x := by
  have hmem := (OrdMap.mem_iff_lookupEntry h.nodup).mpr hx
  clear hx
  induction h with
  | nil => exact absurd hmem List.not_mem_nil
  | @cons z vals done hdone hfresh hsucc hvals ih =>
    have hnodup := (Remembered.cons hdone hfresh hsucc hvals).nodup
    have hlater : ∀ p : α × V, OrdMap.lookupEntry p.1 done = some p.2 →
        OrdMap.lookupEntry p.1 ((z, combine z vals) :: done) = some p.2 := by
      intro p hp
      have hnodup' : (([(z, combine z vals)] ++ done).map Prod.fst).Nodup := hnodup
      exact lookupEntry_append hnodup' hp
    rcases List.mem_cons.mp hmem with heq | hmem
    · obtain ⟨rfl, rfl⟩ := Prod.mk.inj heq
      exact ⟨vals, hsucc, rfl, fun p hp => (hvals p hp).imp_left (hlater p)⟩
    · obtain ⟨vals', hsucc', hv, hvals'⟩ := ih hmem
      exact ⟨vals', hsucc', hv, fun p hp => (hvals' p hp).imp_left (hlater p)⟩

end Traversal

end SymphonyBoard
