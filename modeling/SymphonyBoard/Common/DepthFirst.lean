import Mathlib.Data.List.Nodup
import Mathlib.Tactic.Common
import SymphonyBoard.Common.Covering
/-!
# Depth-first walks through inner nodes

A walk over a list of nodes enters the inner ones, each once, and walks
their children before it goes on; the others it finds, each once and in the
order it first meets them. The nodes entered so far are what ends a cycle.

`Walks.mem_found_iff` says that a walk finds exactly what is reached through
inner nodes, `walk_isSome` that as many levels as there are inner nodes are
enough, and `Walks.found_eq_ways` that it finds in the order in which the ways
lead there, although it enters no node a second time.
-/

namespace SymphonyBoard

/-- The inner nodes entered and the others found, both in order. -/
structure Walk (α : Type*) where
  entered : List α
  found : List α

section Walk

variable {α : Type*} [DecidableEq α] (children : α → List α) (inner : α → Bool)

/-- A node has been found; it is kept once. -/
def Walk.find (w : Walk α) (x : α) : Walk α :=
  { w with found := if x ∈ w.found then w.found else w.found ++ [x] }

/-- Meet one node, where `recur` walks the children of a node that is
entered. -/
def Walk.meet (recur : List α → Walk α → Option (Walk α)) (w : Walk α) (x : α) :
    Option (Walk α) :=
  if inner x then
    if x ∈ w.entered then some w
    else recur (children x) { w with entered := w.entered ++ [x] }
  else some (w.find x)

/-- The walk over a list of nodes, entering at most so many levels. -/
def walk : ℕ → List α → Walk α → Option (Walk α)
  | 0, xs, w => xs.foldlM (Walk.meet children inner fun _ _ => none) w
  | n + 1, xs, w => xs.foldlM (Walk.meet children inner (walk n)) w

/-- The same as a relation, whatever the number of levels. -/
inductive Walks : List α → Walk α → Walk α → Prop
  | nil (w : Walk α) : Walks [] w w
  | leaf {x : α} {xs : List α} {w w' : Walk α} : inner x = false → Walks xs (w.find x) w' →
      Walks (x :: xs) w w'
  | again {x : α} {xs : List α} {w w' : Walk α} : inner x = true → x ∈ w.entered →
      Walks xs w w' → Walks (x :: xs) w w'
  | enter {x : α} {xs : List α} {w mid w' : Walk α} : inner x = true → x ∉ w.entered →
      Walks (children x) { w with entered := w.entered ++ [x] } mid → Walks xs mid w' →
      Walks (x :: xs) w w'

/-- Reached from a list of nodes through inner ones. -/
inductive ReachedFrom (xs : List α) : α → Prop
  | here {x : α} : x ∈ xs → ReachedFrom xs x
  | through {x y : α} : ReachedFrom xs y → inner y = true → x ∈ children y → ReachedFrom xs x

variable {children inner} {xs : List α} {w w' : Walk α} {x y : α} {n : ℕ}

/-! ## The relation -/

theorem walks_of_foldlM {recur : List α → Walk α → Option (Walk α)}
    (hrecur : ∀ ys v v', recur ys v = some v' → Walks children inner ys v v')
    (h : xs.foldlM (Walk.meet children inner recur) w = some w') :
    Walks children inner xs w w' := by
  induction xs generalizing w with
  | nil =>
    obtain rfl := Option.some.inj h
    exact .nil w
  | cons x xs ih =>
    rw [List.foldlM_cons] at h
    obtain ⟨mid, hmeet, hrest⟩ := Option.bind_eq_some_iff.mp h
    unfold Walk.meet at hmeet
    cases hx : inner x with
    | false =>
      rw [hx, if_neg Bool.false_ne_true] at hmeet
      obtain rfl := Option.some.inj hmeet
      exact .leaf hx (ih hrest)
    | true =>
      rw [hx, if_pos rfl] at hmeet
      by_cases hentered : x ∈ w.entered
      · rw [if_pos hentered] at hmeet
        obtain rfl := Option.some.inj hmeet
        exact .again hx hentered (ih hrest)
      · rw [if_neg hentered] at hmeet
        exact .enter hx hentered (hrecur _ _ _ hmeet) (ih hrest)

theorem walks_of_walk (h : walk children inner n xs w = some w') :
    Walks children inner xs w w' := by
  induction n generalizing xs w w' with
  | zero => exact walks_of_foldlM (fun _ _ _ hnone => by cases hnone) h
  | succ n ih => exact walks_of_foldlM (fun _ _ _ hrec => ih hrec) h

/-! ## What is found -/

theorem Walk.mem_find : y ∈ (w.find x).found ↔ y ∈ w.found ∨ y = x := by
  unfold Walk.find
  by_cases hx : x ∈ w.found
  · rw [if_pos hx]
    refine ⟨Or.inl, ?_⟩
    rintro (hy | rfl)
    · exact hy
    · exact hx
  · rw [if_neg hx]
    simp

theorem Walk.nodup_find (h : w.found.Nodup) : (w.find x).found.Nodup := by
  unfold Walk.find
  by_cases hx : x ∈ w.found
  · rw [if_pos hx]
    exact h
  · rw [if_neg hx]
    refine List.nodup_append.mpr ⟨h, List.nodup_singleton x, fun a ha b hb hab => ?_⟩
    rw [List.mem_singleton.mp hb] at hab
    exact hx (hab ▸ ha)

theorem Walks.nodup (h : Walks children inner xs w w') (hnodup : w.found.Nodup) :
    w'.found.Nodup := by
  induction h with
  | nil => exact hnodup
  | leaf _ _ ih => exact ih (Walk.nodup_find hnodup)
  | again _ _ _ ih => exact ih hnodup
  | enter _ _ _ _ ihchildren ihrest => exact ihrest (ihchildren hnodup)

/-- Nothing entered or found is given up. -/
theorem Walks.mono (h : Walks children inner xs w w') :
    (∀ x ∈ w.entered, x ∈ w'.entered) ∧ ∀ x ∈ w.found, x ∈ w'.found := by
  induction h with
  | nil => exact ⟨fun _ => id, fun _ => id⟩
  | leaf _ _ ih => exact ⟨ih.1, fun y hy => ih.2 y (Walk.mem_find.mpr (Or.inl hy))⟩
  | again _ _ _ ih => exact ih
  | enter _ _ _ _ ihchildren ihrest =>
    exact ⟨fun y hy => ihrest.1 y (ihchildren.1 y (List.mem_append_left _ hy)),
      fun y hy => ihrest.2 y (ihchildren.2 y hy)⟩

omit [DecidableEq α] in
theorem ReachedFrom.mono {ys : List α} (h : ReachedFrom children inner xs y) (hsub : ∀ x ∈ xs, x ∈ ys) :
    ReachedFrom children inner ys y := by
  induction h with
  | here hx => exact .here (hsub _ hx)
  | through _ hinner hchild ih => exact .through ih hinner hchild

omit [DecidableEq α] in
theorem ReachedFrom.of_children (h : ReachedFrom children inner (children x) y) (hx : x ∈ xs)
    (hinner : inner x = true) : ReachedFrom children inner xs y := by
  induction h with
  | here hy => exact .through (.here hx) hinner hy
  | through _ hz hchild ih => exact .through ih hz hchild

theorem Walks.sound (h : Walks children inner xs w w') :
    ∀ y ∈ w'.found, y ∈ w.found ∨ (inner y = false ∧ ReachedFrom children inner xs y) := by
  induction h with
  | nil => exact fun y hy => Or.inl hy
  | leaf hx _ ih =>
    intro y hy
    rcases ih y hy with hfound | ⟨hleaf, hreach⟩
    · rcases Walk.mem_find.mp hfound with hfound | rfl
      · exact Or.inl hfound
      · exact Or.inr ⟨hx, .here List.mem_cons_self⟩
    · exact Or.inr ⟨hleaf, hreach.mono fun z hz => List.mem_cons_of_mem _ hz⟩
  | again _ _ _ ih =>
    intro y hy
    exact (ih y hy).imp_right fun h => ⟨h.1, h.2.mono fun z hz => List.mem_cons_of_mem _ hz⟩
  | enter hx _ _ _ ihchildren ihrest =>
    intro y hy
    rcases ihrest y hy with hfound | ⟨hleaf, hreach⟩
    · exact (ihchildren y hfound).imp_right fun h => ⟨h.1, h.2.of_children List.mem_cons_self hx⟩
    · exact Or.inr ⟨hleaf, hreach.mono fun z hz => List.mem_cons_of_mem _ hz⟩

/-- Every node of the list has been dealt with. -/
def Walk.Covers (inner : α → Bool) (w : Walk α) (xs : List α) : Prop :=
  ∀ x ∈ xs, if inner x then x ∈ w.entered else x ∈ w.found

omit [DecidableEq α] in
theorem Walk.Covers.mono (h : w.Covers inner xs) (hentered : ∀ x ∈ w.entered, x ∈ w'.entered)
    (hfound : ∀ x ∈ w.found, x ∈ w'.found) : w'.Covers inner xs := by
  intro x hx
  have hcovered := h x hx
  cases hinner : inner x with
  | true =>
    rw [hinner, if_pos rfl] at hcovered
    rw [if_pos rfl]
    exact hentered x hcovered
  | false =>
    rw [hinner, if_neg Bool.false_ne_true] at hcovered
    rw [if_neg Bool.false_ne_true]
    exact hfound x hcovered

omit [DecidableEq α] in
theorem Walk.Covers.cons (h : w.Covers inner xs)
    (hx : if inner x then x ∈ w.entered else x ∈ w.found) : w.Covers inner (x :: xs) := by
  intro y hy
  rcases List.mem_cons.mp hy with rfl | hy
  · exact hx
  · exact h y hy

/-- **A walk deals with its list, and with the children of all it enters.** -/
theorem Walks.covers (h : Walks children inner xs w w') :
    w'.Covers inner xs ∧
      ∀ y ∈ w'.entered, y ∉ w.entered → w'.Covers inner (children y) := by
  induction h with
  | nil => exact ⟨fun _ hx => absurd hx List.not_mem_nil, fun y hy hnot => absurd hy hnot⟩
  | leaf hx hrest ih =>
    refine ⟨ih.1.cons ?_, ih.2⟩
    rw [hx, if_neg Bool.false_ne_true]
    exact hrest.mono.2 _ (Walk.mem_find.mpr (Or.inr rfl))
  | again hx hentered hrest ih =>
    refine ⟨ih.1.cons ?_, ih.2⟩
    rw [hx, if_pos rfl]
    exact hrest.mono.1 _ hentered
  | @enter x xs w mid w' hx hnot hchildren hrest ihchildren ihrest =>
    have hmid : x ∈ mid.entered :=
      hchildren.mono.1 x (List.mem_append_right _ List.mem_cons_self)
    refine ⟨ihrest.1.cons ?_, fun y hy hold => ?_⟩
    · rw [hx, if_pos rfl]
      exact hrest.mono.1 x hmid
    · by_cases hymid : y ∈ mid.entered
      · by_cases hyx : y = x
        · subst hyx
          exact ihchildren.1.mono hrest.mono.1 hrest.mono.2
        · have hnew : y ∉ w.entered ++ [x] := by
            simp [hold, hyx]
          exact (ihchildren.2 y hymid hnew).mono hrest.mono.1 hrest.mono.2
      · exact ihrest.2 y hy hymid

/-- **A walk finds exactly what is reached through inner nodes.** -/
theorem Walks.mem_found_iff (h : Walks children inner xs ⟨[], []⟩ w') :
    y ∈ w'.found ↔ inner y = false ∧ ReachedFrom children inner xs y := by
  constructor
  · intro hy
    rcases h.sound y hy with hnil | hreach
    · cases hnil
    · exact hreach
  · rintro ⟨hleaf, hreach⟩
    -- whatever is reached has been entered or found
    have hcovered : ∀ z, ReachedFrom children inner xs z →
        if inner z then z ∈ w'.entered else z ∈ w'.found := by
      intro z hz
      induction hz with
      | here hx => exact h.covers.1 _ hx
      | through _ hinner hchild ih =>
        rw [hinner, if_pos rfl] at ih
        exact h.covers.2 _ ih List.not_mem_nil _ hchild
    have hy := hcovered y hreach
    rw [hleaf, if_neg Bool.false_ne_true] at hy
    exact hy

/-! ## How many levels are enough -/

/-- The inner nodes that are not entered yet, out of a list of nodes. -/
def Walk.unentered (nodes : List α) (w : Walk α) : List α :=
  nodes.filter fun x => decide (x ∉ w.entered)

theorem Walk.length_unentered_le {nodes : List α} (h : ∀ x ∈ w.entered, x ∈ w'.entered) :
    (w'.unentered nodes).length ≤ (w.unentered nodes).length := by
  have hsub : w'.unentered nodes = (w.unentered nodes).filter fun x => decide (x ∉ w'.entered) := by
    unfold Walk.unentered
    rw [List.filter_filter]
    refine List.filter_congr fun x _ => ?_
    rw [Bool.eq_iff_iff, Bool.and_eq_true, decide_eq_true_eq, decide_eq_true_eq]
    exact ⟨fun hx => ⟨hx, fun hold => hx (h x hold)⟩, fun hx => hx.1⟩
  rw [hsub]
  exact List.length_filter_le _ _

theorem Walk.length_unentered_lt {nodes : List α} (hx : x ∈ nodes) (hnot : x ∉ w.entered) :
    (Walk.unentered nodes { w with entered := w.entered ++ [x] }).length <
      (w.unentered nodes).length := by
  have hsub : Walk.unentered nodes { w with entered := w.entered ++ [x] } =
      (w.unentered nodes).filter fun y => decide (y ≠ x) := by
    unfold Walk.unentered
    rw [List.filter_filter]
    refine List.filter_congr fun y _ => ?_
    simp [and_comm, not_or]
  rw [hsub]
  refine List.length_filter_lt_length_iff_exists.mpr ⟨x, ?_, by simp⟩
  exact List.mem_filter.mpr ⟨hx, decide_eq_true hnot⟩

/-- A list is walked where the children of what it enters are. -/
theorem foldlM_meet_isSome {nodes : List α} {recur : List α → Walk α → Option (Walk α)}
    (hnodes : ∀ x, inner x = true → x ∈ nodes)
    (hwalks : ∀ ys v v', recur ys v = some v' → Walks children inner ys v v')
    (hrecur : ∀ (x : α) (v : Walk α), inner x = true → x ∉ v.entered → (v.unentered nodes).length ≤ n →
      (recur (children x) { v with entered := v.entered ++ [x] }).isSome = true)
    (hw : (w.unentered nodes).length ≤ n) :
    (xs.foldlM (Walk.meet children inner recur) w).isSome = true := by
  induction xs generalizing w with
  | nil => rfl
  | cons x xs ih =>
    rw [List.foldlM_cons]
    have hmeet : ∃ mid, Walk.meet children inner recur w x = some mid ∧
        (mid.unentered nodes).length ≤ n := by
      unfold Walk.meet
      cases hx : inner x with
      | false => exact ⟨w.find x, rfl, hw⟩
      | true =>
        rw [if_pos rfl]
        by_cases hentered : x ∈ w.entered
        · exact ⟨w, if_pos hentered, hw⟩
        · obtain ⟨mid, hmid⟩ := Option.isSome_iff_exists.mp (hrecur x w hx hentered hw)
          refine ⟨mid, (if_neg hentered).trans hmid, ?_⟩
          have hle : (mid.unentered nodes).length ≤
              (Walk.unentered nodes { w with entered := w.entered ++ [x] }).length :=
            Walk.length_unentered_le (hwalks _ _ _ hmid).mono.1
          have hlt := Walk.length_unentered_lt (hnodes x hx) hentered
          omega
    obtain ⟨mid, hmid, hle⟩ := hmeet
    rw [hmid]
    exact ih hle

/-- **As many levels as there are inner nodes left are enough.** -/
theorem walk_isSome {nodes : List α} (hnodes : ∀ x, inner x = true → x ∈ nodes)
    (hn : (w.unentered nodes).length ≤ n) : (walk children inner n xs w).isSome = true := by
  induction n generalizing xs w with
  | zero =>
    refine foldlM_meet_isSome hnodes (fun _ _ _ hnone => by cases hnone)
      (fun x v hx hnot hv => ?_) hn
    -- no inner node is left to enter
    have hmem : x ∈ v.unentered nodes := List.mem_filter.mpr ⟨hnodes x hx, decide_eq_true hnot⟩
    exact absurd (List.length_pos_of_mem hmem) (by omega)
  | succ n ih =>
    refine foldlM_meet_isSome hnodes (fun _ _ _ hrec => walks_of_walk hrec)
      (fun x v hx hnot hv => ih ?_) hn
    have hlt := Walk.length_unentered_lt (hnodes x hx) hnot
    omega

/-! ## The order of what is found -/

/-- Where one node leads, where `recur` follows the children of a node that
is not on the way yet. -/
def waysVia (children : α → List α) (inner : α → Bool) (recur : List α → List α → List α)
    (path : List α) (x : α) : List α :=
  if inner x then if x ∈ path then [] else recur (x :: path) (children x) else [x]

/-- Where the ways from a list of nodes lead, read depth first: each through
inner nodes, none twice on one way, of at most so many levels. -/
def ways (children : α → List α) (inner : α → Bool) : ℕ → List α → List α → List α
  | 0, path, xs => xs.flatMap (waysVia children inner (fun _ _ => []) path)
  | n + 1, path, xs => xs.flatMap (waysVia children inner (ways children inner n) path)

theorem ways_cons (path : List α) :
    ways children inner n path (x :: xs) =
      ways children inner n path [x] ++ ways children inner n path xs := by
  cases n with
  | zero => simp [ways]
  | succ n => simp [ways]

theorem ways_leaf (path : List α) (hx : inner x = false) : ways children inner n path [x] = [x] := by
  cases n with
  | zero => simp [ways, waysVia, hx]
  | succ n => simp [ways, waysVia, hx]

theorem ways_enter {path : List α} (hx : inner x = true) (hpath : x ∉ path) :
    ways children inner (n + 1) path [x] = ways children inner n (x :: path) (children x) := by
  simp [ways, waysVia, hx, hpath]

/-- What has been entered off a way has been dealt with, children and all. -/
def Walk.Finished (children : α → List α) (inner : α → Bool) (w : Walk α) (path : List α) : Prop :=
  ∀ y ∈ w.entered, y ∉ path → w.Covers inner (children y)

theorem Walks.finished {path : List α} (h : Walks children inner xs w w')
    (hw : w.Finished children inner path) : w'.Finished children inner path := by
  intro y hy hpath
  by_cases hold : y ∈ w.entered
  · exact (hw y hold hpath).mono h.mono.1 h.mono.2
  · exact h.covers.2 y hy hold

/-- Ways from what has been dealt with lead to what has been found. -/
theorem Walk.Finished.mem_found {path path' : List α} (h : w.Finished children inner path)
    (hsub : ∀ y ∈ path, y ∈ path') (hxs : w.Covers inner xs) :
    ∀ y ∈ ways children inner n path' xs, y ∈ w.found := by
  induction n generalizing path' xs with
  | zero =>
    intro y hy
    obtain ⟨x, hx, hvia⟩ := List.mem_flatMap.mp hy
    have hcovered := hxs x hx
    unfold waysVia at hvia
    cases hinner : inner x with
    | true => simp [hinner] at hvia
    | false =>
      rw [hinner, if_neg Bool.false_ne_true] at hvia hcovered
      exact List.mem_singleton.mp hvia ▸ hcovered
  | succ n ih =>
    intro y hy
    obtain ⟨x, hx, hvia⟩ := List.mem_flatMap.mp hy
    have hcovered := hxs x hx
    unfold waysVia at hvia
    cases hinner : inner x with
    | true =>
      rw [hinner, if_pos rfl] at hvia hcovered
      by_cases hpath : x ∈ path'
      · rw [if_pos hpath] at hvia
        cases hvia
      · rw [if_neg hpath] at hvia
        refine ih (fun z hz => List.mem_cons_of_mem x (hsub z hz)) ?_ y hvia
        exact h x hcovered fun hold => hpath (hsub x hold)
    | false =>
      rw [hinner, if_neg Bool.false_ne_true] at hvia hcovered
      exact List.mem_singleton.mp hvia ▸ hcovered

theorem foldl_find_of_mem (l : List α) (h : ∀ x ∈ l, x ∈ w.found) : l.foldl Walk.find w = w := by
  induction l with
  | nil => rfl
  | cons x l ih =>
    have hfind : w.find x = w := by
      unfold Walk.find
      rw [if_pos (h x List.mem_cons_self)]
    rw [List.foldl_cons, hfind]
    exact ih fun y hy => h y (List.mem_cons_of_mem x hy)

theorem foldl_find_found {v : Walk α} (l : List α) (h : w.found = v.found) :
    (l.foldl Walk.find w).found = (l.foldl Walk.find v).found := by
  induction l generalizing w v with
  | nil => exact h
  | cons x l ih =>
    refine ih ?_
    unfold Walk.find
    rw [h]

theorem ways_nil (path : List α) : ways children inner n path [] = [] := by
  cases n <;> rfl

/-- **A walk finds what the ways lead to, in their order**, whatever it skips
for having entered it before. -/
theorem Walks.found_eq {nodes path : List α} (hnodes : ∀ x, inner x = true → x ∈ nodes)
    (h : Walks children inner xs w w') (hw : w.Finished children inner path)
    (hpath : ∀ y ∈ path, y ∈ w.entered)
    (hn : (nodes.filter fun x => decide (x ∉ path)).length ≤ n) :
    w'.found = ((ways children inner n path xs).foldl Walk.find w).found := by
  induction h generalizing path n with
  | nil => rw [ways_nil, List.foldl_nil]
  | @leaf x xs w w' hx hrest ih =>
    rw [ways_cons, ways_leaf path hx, List.foldl_append]
    exact ih (fun y hy hoff => (hw y hy hoff).mono (fun _ => id)
      fun z hz => Walk.mem_find.mpr (Or.inl hz)) hpath hn
  | @again x xs w w' hx hentered hrest ih =>
    have hcovers : w.Covers inner [x] := by
      intro y hy
      obtain rfl := List.mem_singleton.mp hy
      rw [hx, if_pos rfl]
      exact hentered
    rw [ways_cons, List.foldl_append, foldl_find_of_mem _ (hw.mem_found (fun _ => id) hcovers)]
    exact ih hw hpath hn
  | @enter x xs w mid w' hx hnot hchildren hrest ihchildren ihrest =>
    have hoff : x ∉ path := fun hx => hnot (hpath x hx)
    have hmem : x ∈ nodes.filter fun x => decide (x ∉ path) :=
      List.mem_filter.mpr ⟨hnodes x hx, decide_eq_true hoff⟩
    obtain ⟨m, rfl⟩ : ∃ m, n = m + 1 :=
      ⟨n - 1, by have := List.length_pos_of_mem hmem; omega⟩
    -- below `x` one node fewer is off the path, which pays for the level
    have hlevels : (nodes.filter fun y => decide (y ∉ x :: path)).length ≤ m := by
      have hsub : (nodes.filter fun y => decide (y ∉ x :: path)) =
          (nodes.filter fun y => decide (y ∉ path)).filter fun y => decide (y ≠ x) := by
        rw [List.filter_filter]
        refine List.filter_congr fun y _ => ?_
        simp [not_or]
      have hlt : (nodes.filter fun y => decide (y ∉ x :: path)).length <
          (nodes.filter fun y => decide (y ∉ path)).length := by
        rw [hsub]
        exact List.length_filter_lt_length_iff_exists.mpr ⟨x, hmem, by simp⟩
      omega
    have hentered : Walk.Finished children inner { w with entered := w.entered ++ [x] } (x :: path) := by
      intro y hy hyoff
      obtain ⟨hne, hypath⟩ := not_or.mp (List.mem_cons.not.mp hyoff)
      refine (hw y ?_ hypath).mono (fun z hz => List.mem_append_left _ hz) fun _ => id
      exact (List.mem_append.mp hy).resolve_right fun h => hne (List.mem_singleton.mp h)
    -- what was entered below `x` is finished when the walk is back
    have hmid : mid.Finished children inner path := by
      intro y hy hypath
      by_cases hyx : y = x
      · exact hyx ▸ hchildren.covers.1
      · exact hchildren.finished hentered y hy (List.mem_cons.not.mpr (not_or.mpr ⟨hyx, hypath⟩))
    have hfound := ihchildren hentered (fun y hy => ?_) hlevels
    · rw [ways_cons, ways_enter hx hoff, List.foldl_append, ihrest hmid
        (fun y hy => hchildren.mono.1 y (List.mem_append_left _ (hpath y hy))) hn]
      refine foldl_find_found _ (hfound.trans ?_)
      exact foldl_find_found _ rfl
    · rcases List.mem_cons.mp hy with rfl | hy
      · exact List.mem_append_right _ (List.mem_singleton_self _)
      · exact List.mem_append_left _ (hpath y hy)

theorem foldl_find_eq (l : List α) : (l.foldl Walk.find ⟨[], []⟩).found = l.eraseDups := by
  induction l using List.reverseRecOn with
  | nil => rfl
  | append_singleton l x ih =>
    have hfind : ∀ v : Walk α, (v.find x).found = if x ∈ v.found then v.found else v.found ++ [x] :=
      fun _ => rfl
    rw [List.foldl_append, List.foldl_cons, List.foldl_nil, hfind, eraseDups_snoc, ih]
    simp only [List.mem_eraseDups]

/-- **A walk from nothing finds what the ways lead to, each once.** -/
theorem Walks.found_eq_ways {nodes : List α} (hnodes : ∀ x, inner x = true → x ∈ nodes)
    (h : Walks children inner xs ⟨[], []⟩ w') (hn : nodes.length ≤ n) :
    w'.found = (ways children inner n [] xs).eraseDups := by
  rw [h.found_eq hnodes (fun y hy => absurd hy List.not_mem_nil)
    (fun y hy => absurd hy List.not_mem_nil) (Nat.le_trans (List.length_filter_le _ _) hn), foldl_find_eq]

/-- **The ways lead to what is reached through inner nodes.** -/
theorem mem_ways_iff {nodes : List α} (hnodes : ∀ x, inner x = true → x ∈ nodes)
    (hn : nodes.length ≤ n) :
    y ∈ ways children inner n [] xs ↔ inner y = false ∧ ReachedFrom children inner xs y := by
  have hends : (walk children inner nodes.length xs ⟨[], []⟩).isSome = true :=
    walk_isSome hnodes (List.length_filter_le _ nodes)
  obtain ⟨w', hw'⟩ := Option.isSome_iff_exists.mp hends
  have hwalks := walks_of_walk hw'
  rw [← hwalks.mem_found_iff, hwalks.found_eq_ways hnodes hn, List.mem_eraseDups]

end Walk

end SymphonyBoard
