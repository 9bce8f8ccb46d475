import SymphonyBoard.Graph.ProgramView
/-!
# The columns of the program view

`programLayers` of `packages/ui/src/model.ts`, for any view
`graphProgramView` makes. A child's column is one further than the last
column of its prerequisites; on a cycle the child met again counts as
before the first column, so what the columns are there depends on where
the recursion came in. Whatever it was, a column starts right behind one
of its prerequisites, and a link that is on no cycle goes forward
(`Layering`).
-/

namespace SymphonyBoard

/-- A chain of so many links that ends at a node. -/
inductive ChainTo (links : List (Ref × Ref)) : Ref → ℕ → Prop
  | here (ref : Ref) : ChainTo links ref 0
  | link {before ref : Ref} {n : ℕ} : PairLink links before ref → ChainTo links before n →
      ChainTo links ref (n + 1)

/-- A node is in a column. -/
def InColumn (layers : List (Option (List Ref))) (ref : Ref) (i : ℕ) : Prop :=
  ∃ ids, layers[i]? = some (some ids) ∧ ref ∈ ids

/-- The columns of some children, for links among them. -/
structure Layering (children : List Ref) (links : List (Ref × Ref))
    (layers : List (Option (List Ref))) : Prop where
  /-- No column is missing or empty, and each keeps the order of the
  children. -/
  filled : ∀ i < layers.length, ∃ ids, layers[i]? = some (some ids) ∧ ids ≠ [] ∧
    ids.Sublist children
  /-- Every child is in one column. -/
  once : ∀ ref ∈ children, ∃! i, InColumn layers ref i
  /-- A link that is on no cycle goes forward. -/
  forward : ∀ source target, PairLink links source target →
    ¬Relation.ReflTransGen (PairLink links) target source →
      ∀ i j, InColumn layers source i → InColumn layers target j → i < j
  /-- A child beyond the first column has a prerequisite in the one before. -/
  tight : ∀ ref i, InColumn layers ref (i + 1) → ∃ before, PairLink links before ref ∧
    InColumn layers before i
  /-- Without a cycle the column is the length of the longest chain. -/
  longest : Acyclic (PairLink links) → ∀ ref i, InColumn layers ref i →
    ChainTo links ref i ∧ ∀ n, ChainTo links ref n → n ≤ i

/-! ## The columns as a list -/

/-- The children of a column. -/
def atColumn (columns : List (Ref × ℤ)) (i : ℕ) : List Ref :=
  (columns.filter fun p => p.2.toNat = i).map Prod.fst

theorem atColumn_snoc (columns : List (Ref × ℤ)) (p : Ref × ℤ) (i : ℕ) :
    atColumn (columns ++ [p]) i = atColumn columns i ++ if p.2.toNat = i then [p.1] else [] := by
  unfold atColumn
  rw [List.filter_append, List.map_append]
  by_cases hi : p.2.toNat = i
  · rw [if_pos hi, List.filter_cons_of_pos (by simpa using hi)]
    rfl
  · rw [if_neg hi, List.filter_cons_of_neg (by simpa using hi)]
    rfl

theorem getElem?_pushLayer_self (layers : List (Option (List Ref))) (i : ℕ) (ref : Ref) :
    (pushLayer layers i ref)[i]? = some (some ((layers[i]?.join).getD [] ++ [ref])) := by
  unfold pushLayer
  split
  · rename_i hi
    rw [List.getElem?_modify, List.getElem?_eq_getElem hi]
    simp
  · rename_i hi
    rw [List.getElem?_eq_none (not_lt.mp hi), List.getElem?_append_right]
    · simp only [List.length_append, List.length_replicate]
      rw [show i - (layers.length + (i - layers.length)) = 0 by omega]
      rfl
    · simp only [List.length_append, List.length_replicate]
      omega

theorem getElem?_pushLayer_of_ne {layers : List (Option (List Ref))} {i j : ℕ} (ref : Ref)
    (hne : j ≠ i) : (pushLayer layers i ref)[j]? =
      if j < layers.length then layers[j]? else if j < i then some none else none := by
  unfold pushLayer
  split
  · rename_i hi
    rw [List.getElem?_modify_ne _ _ (Ne.symm hne)]
    by_cases hj : j < layers.length
    · rw [if_pos hj]
    · rw [if_neg hj, if_neg (by omega), List.getElem?_eq_none (by omega)]
  · rename_i hi
    by_cases hj : j < layers.length
    · rw [if_pos hj, List.append_assoc, List.getElem?_append_left hj]
    · rw [if_neg hj]
      by_cases hji : j < i
      · rw [if_pos hji, List.getElem?_append_left (by simp; omega),
          List.getElem?_append_right (by omega), List.getElem?_replicate, if_pos (by omega)]
      · rw [if_neg hji, List.getElem?_eq_none]
        simp only [List.length_append, List.length_replicate, List.length_singleton]
        omega

/-- **The columns hold what was put in them**: up to the last one that
anything was put in, the children of that column, or a hole. -/
theorem foldl_pushLayer (columns : List (Ref × ℤ)) (i : ℕ) :
    (columns.foldl (fun layers p => pushLayer layers p.2.toNat p.1) [])[i]? =
      if ∃ p ∈ columns, i ≤ p.2.toNat then
        some (if atColumn columns i = [] then none else some (atColumn columns i))
      else none := by
  induction columns using List.reverseRecOn generalizing i with
  | nil => simp
  | append_singleton columns p ih =>
    rw [List.foldl_append, List.foldl_cons, List.foldl_nil, atColumn_snoc]
    generalize hlayers : columns.foldl (fun layers p => pushLayer layers p.2.toNat p.1) [] = layers
    rw [hlayers] at ih
    have hlength : i < layers.length ↔ ∃ p ∈ columns, i ≤ p.2.toNat := by
      have hi := ih i
      split at hi
      · rename_i h
        exact iff_of_true (List.getElem?_eq_some_iff.mp hi).1 h
      · rename_i h
        exact iff_of_false (not_lt.mpr (List.getElem?_eq_none_iff.mp hi)) h
    have hlast : (∃ q ∈ columns ++ [p], i ≤ q.2.toNat) ↔
        (∃ q ∈ columns, i ≤ q.2.toNat) ∨ i ≤ p.2.toNat := by
      simp only [List.mem_append, List.mem_singleton, or_and_right, exists_or, exists_eq_left]
    -- the layer pushed to gains a node, the ones before it are there at least
    by_cases hi : i = p.2.toNat
    · have hold : (layers[i]?.join).getD [] = atColumn columns i := by
        rw [ih]
        by_cases hany : ∃ q ∈ columns, i ≤ q.2.toNat
        · rw [if_pos hany]
          by_cases hnil : atColumn columns i = []
          · rw [if_pos hnil, hnil]
            rfl
          · rw [if_neg hnil]
            rfl
        · rw [if_neg hany]
          refine (List.map_eq_nil_iff.mpr (List.filter_eq_nil_iff.mpr fun q hq hqi => ?_)).symm
          exact hany ⟨q, hq, le_of_eq (of_decide_eq_true hqi).symm⟩
      rw [if_pos (hlast.mpr (Or.inr (le_of_eq hi))), if_pos hi.symm, if_neg (by simp), ← hold,
        ← hi, getElem?_pushLayer_self]
    · rw [getElem?_pushLayer_of_ne p.1 hi, if_neg (Ne.symm hi), List.append_nil]
      by_cases hany : ∃ q ∈ columns, i ≤ q.2.toNat
      · rw [if_pos (hlength.mpr hany), if_pos (hlast.mpr (Or.inl hany)), ih, if_pos hany]
      · have hnil : atColumn columns i = [] := by
          refine List.map_eq_nil_iff.mpr (List.filter_eq_nil_iff.mpr fun q hq hqi => ?_)
          exact hany ⟨q, hq, le_of_eq (of_decide_eq_true hqi).symm⟩
        rw [if_neg (fun h => hany (hlength.mp h)), hnil, if_pos rfl]
        by_cases hlt : i < p.2.toNat
        · rw [if_pos hlt, if_pos (hlast.mpr (Or.inr (le_of_lt hlt)))]
        · rw [if_neg hlt, if_neg]
          rw [hlast, not_or]
          exact ⟨hany, by omega⟩

theorem inColumn_foldl_iff {columns : List (Ref × ℤ)} {ref : Ref} {i : ℕ} :
    InColumn (columns.foldl (fun layers p => pushLayer layers p.2.toNat p.1) []) ref i ↔
      ref ∈ atColumn columns i := by
  rw [InColumn, foldl_pushLayer]
  constructor
  · rintro ⟨ids, hids, href⟩
    split at hids
    · split at hids
      · cases hids
      · obtain rfl := Option.some.inj (Option.some.inj hids)
        exact href
    · cases hids
  · intro href
    obtain ⟨p, hp, -⟩ := List.mem_map.mp href
    obtain ⟨hmem, hi⟩ := List.mem_filter.mp hp
    refine ⟨_, ?_, href⟩
    rw [if_pos ⟨p, hmem, le_of_eq (of_decide_eq_true hi).symm⟩, if_neg (List.ne_nil_of_mem href)]

/-! ## What a column is -/

theorem foldl_max_spec (l : List ℤ) (m : ℤ) : m ≤ l.foldl max m ∧
    (∀ x ∈ l, x ≤ l.foldl max m) ∧ (l.foldl max m = m ∨ l.foldl max m ∈ l) := by
  induction l generalizing m with
  | nil => exact ⟨le_rfl, by simp, Or.inl rfl⟩
  | cons a l ih =>
    obtain ⟨hle, hall, hcase⟩ := ih (max m a)
    rw [List.foldl_cons]
    refine ⟨(le_max_left m a).trans hle, fun x hx => ?_, ?_⟩
    · rcases List.mem_cons.mp hx with rfl | hx
      · exact (le_max_right m x).trans hle
      · exact hall x hx
    · rcases hcase with heq | hmem
      · rcases max_choice m a with hmax | hmax
        · exact Or.inl (heq.trans hmax)
        · exact Or.inr (List.mem_cons.mpr (Or.inl (heq.trans hmax)))
      · exact Or.inr (List.mem_cons_of_mem _ hmem)

/-- A column is behind every prerequisite's, and the first or right behind
one. -/
theorem columnAfter_spec (ref : Ref) (vals : List (Ref × ℤ)) : 0 ≤ columnAfter ref vals ∧
    (∀ p ∈ vals, p.2 < columnAfter ref vals) ∧
    (columnAfter ref vals = 0 ∨ ∃ p ∈ vals, columnAfter ref vals = p.2 + 1) := by
  obtain ⟨hle, hall, hcase⟩ := foldl_max_spec (vals.map Prod.snd) (-1)
  unfold columnAfter
  refine ⟨by omega, fun p hp => ?_, ?_⟩
  · have := hall p.2 (List.mem_map_of_mem hp)
    omega
  · rcases hcase with heq | hmem
    · exact Or.inl (by omega)
    · obtain ⟨p, hp, heq⟩ := List.mem_map.mp hmem
      exact Or.inr ⟨p, hp, by omega⟩

/-- The sources of the links to each child. -/
theorem get?_prerequisites (program : GraphProgramView) (ref : Ref) :
    program.prerequisites.get? ref = if ref ∈ program.children then
      some ((program.blockPairs.filter fun pair => pair.2 = ref).map Prod.fst) else none := by
  unfold GraphProgramView.prerequisites GraphProgramView.blockPairs
  generalize program.links.filter (fun link => link.type = .blocks) = links
  generalize program.children = children
  induction links using List.reverseRecOn with
  | nil =>
    rw [List.foldl_nil]
    by_cases href : ref ∈ children
    · rw [if_pos href]
      exact OrdMap.get?_foldl_set_of (fun _ _ _ => rfl) (Or.inl ⟨ref, href, rfl⟩)
    · rw [if_neg href]
      cases hget : (children.foldl (fun m id => m.set id []) (OrdMap.empty : OrdMap Ref (List Ref))).get?
          ref with
      | none => rfl
      | some sources =>
        rcases OrdMap.get?_foldl_set_eq_some hget with ⟨id, hid, rfl, -⟩ | hempty
        · exact absurd hid href
        · cases hempty
  | append_singleton links link ih =>
    rw [List.foldl_append, List.foldl_cons, List.foldl_nil, List.map_append, List.filter_append,
      List.map_append]
    generalize links.foldl _ _ = m at ih ⊢
    have hlast : (([link].map fun link => (link.source, link.target)).filter fun pair =>
        pair.2 = ref).map Prod.fst = if link.target = ref then [link.source] else [] := by
      by_cases htarget : link.target = ref
      · rw [if_pos htarget]
        simp [htarget]
      · rw [if_neg htarget]
        simp [htarget]
    rw [hlast]
    by_cases htarget : link.target = ref
    · rw [if_pos htarget, htarget, ih]
      by_cases href : ref ∈ children
      · rw [if_pos href, if_pos href, if_pos Option.isSome_some, OrdMap.get?_upsert, if_pos rfl, ih,
          if_pos href]
        rfl
      · rw [if_neg href, if_neg href, if_neg (by simp), ih, if_neg href]
    · rw [if_neg htarget, List.append_nil]
      split
      · rw [OrdMap.get?_upsert, if_neg htarget, ih]
      · exact ih

/-- Where the links start at children, the traversal is over the children and
goes from a child to the sources of its links. -/
theorem successor_prerequisites_iff {program : GraphProgramView} {ref before : Ref} :
    Successor program.prerequisites.get? ref before ↔
      ref ∈ program.children ∧ PairLink program.blockPairs before ref := by
  rw [Successor, get?_prerequisites]
  have hmem : before ∈ (program.blockPairs.filter fun pair => pair.2 = ref).map Prod.fst ↔
      PairLink program.blockPairs before ref := by
    rw [List.mem_map, PairLink]
    constructor
    · rintro ⟨pair, hpair, rfl⟩
      obtain ⟨hin, heq⟩ := List.mem_filter.mp hpair
      rw [← of_decide_eq_true heq]
      exact hin
    · exact fun h => ⟨(before, ref), List.mem_filter.mpr ⟨h, decide_eq_true rfl⟩, rfl⟩
  by_cases href : ref ∈ program.children
  · rw [if_pos href]
    constructor
    · rintro ⟨xs, hxs, hx⟩
      rw [← Option.some.inj hxs] at hx
      exact ⟨href, hmem.mp hx⟩
    · exact fun h => ⟨_, rfl, hmem.mpr h.2⟩
  · rw [if_neg href]
    refine iff_of_false ?_ fun h => href h.1
    rintro ⟨_, hxs, -⟩
    cases hxs

section Columns

variable {program : GraphProgramView} {columns : List (Ref × ℤ)} {s : PostOrder Ref ℤ} {n : ℕ}

/-- A child is in the column that is remembered of it. -/
theorem inColumn_iff
    (hrun : visitAll program.prerequisites.get? (some (-1)) columnAfter n program.children =
      .ok (columns, s)) {ref : Ref} {i : ℕ} :
    InColumn (columns.foldl (fun layers p => pushLayer layers p.2.toNat p.1) []) ref i ↔
      ref ∈ program.children ∧
        ∃ v, OrdMap.lookupEntry ref s.done = some v ∧ v.toNat = i := by
  obtain ⟨-, hkeys, hvals⟩ := settled_visitAll hrun
  rw [inColumn_foldl_iff, ← hkeys, atColumn]
  constructor
  · intro href
    obtain ⟨p, hp, rfl⟩ := List.mem_map.mp href
    obtain ⟨hmem, hi⟩ := List.mem_filter.mp hp
    exact ⟨List.mem_map_of_mem hmem, p.2, hvals p hmem, of_decide_eq_true hi⟩
  · rintro ⟨href, v, hv, hi⟩
    obtain ⟨p, hp, rfl⟩ := List.mem_map.mp href
    refine List.mem_map.mpr ⟨p, List.mem_filter.mpr ⟨hp, decide_eq_true ?_⟩, rfl⟩
    rw [← hi, Option.some.inj ((hvals p hp).symm.trans hv)]

/-- What is remembered of a child: a column behind those of its
prerequisites, and the first or right behind one of them. A prerequisite
may lack its column where there is a way back to it. -/
theorem column_spec
    (hrun : visitAll program.prerequisites.get? (some (-1)) columnAfter n program.children =
      .ok (columns, s)) {ref : Ref} {v : ℤ} (hv : OrdMap.lookupEntry ref s.done = some v) :
    0 ≤ v ∧
      (∀ before, PairLink program.blockPairs before ref →
        ¬Relation.ReflTransGen (PairLink program.blockPairs) ref before →
          ∃ u, OrdMap.lookupEntry before s.done = some u ∧ u < v) ∧
      (v = 0 ∨ ∃ before u, PairLink program.blockPairs before ref ∧ v = u + 1 ∧
        (OrdMap.lookupEntry before s.done = some u ∨ u = -1)) := by
  obtain ⟨hsettled, -, -⟩ := settled_visitAll hrun
  obtain ⟨vals, hsucc, rfl, hentries⟩ := hsettled.entry hv
  obtain ⟨hnonneg, hbefore, hcase⟩ := columnAfter_spec ref vals
  have hlink : ∀ before, before ∈ vals.map Prod.fst ↔ ref ∈ program.children ∧
      PairLink program.blockPairs before ref := by
    intro before
    rw [← successor_prerequisites_iff]
    refine ⟨fun h => ⟨_, hsucc, h⟩, ?_⟩
    rintro ⟨xs, hxs, hmem⟩
    rw [hsucc] at hxs
    rw [Option.some.inj hxs]
    exact hmem
  have hchild : ref ∈ program.children := by
    rw [get?_prerequisites] at hsucc
    by_contra href
    rw [if_neg href] at hsucc
    cases hsucc
  -- the traversal goes against the links
  have hback : ∀ x y, Relation.ReflTransGen (Successor program.prerequisites.get?) x y →
      Relation.ReflTransGen (PairLink program.blockPairs) y x := by
    intro x y h
    induction h with
    | refl => exact Relation.ReflTransGen.refl
    | tail _ hstep ih =>
      exact Relation.ReflTransGen.head (successor_prerequisites_iff.mp hstep).2 ih
  refine ⟨hnonneg, fun before hlinked hnot => ?_, ?_⟩
  · obtain ⟨p, hp, rfl⟩ := List.mem_map.mp ((hlink before).mpr ⟨hchild, hlinked⟩)
    rcases hentries p hp with hknown | ⟨-, hway⟩
    · exact ⟨p.2, hknown, hbefore p hp⟩
    · exact absurd (hback _ _ hway) hnot
  · refine hcase.imp_right ?_
    rintro ⟨p, hp, heq⟩
    refine ⟨p.1, p.2, ((hlink p.1).mp (List.mem_map_of_mem hp)).2, heq, ?_⟩
    rcases hentries p hp with hknown | ⟨hprov, -⟩
    · exact Or.inl hknown
    · exact Or.inr (Option.some.inj hprov).symm

/-- **The columns, as the recursion leaves them**, where the links start at
children. -/
theorem layering_of_visitAll
    (hsources : ∀ p ∈ program.blockPairs, p.1 ∈ program.children)
    (hrun : visitAll program.prerequisites.get? (some (-1)) columnAfter n program.children =
      .ok (columns, s)) :
    Layering program.children program.blockPairs
      (columns.foldl (fun layers p => pushLayer layers p.2.toNat p.1) []) := by
  obtain ⟨hsettled, hkeys, hvals⟩ := settled_visitAll hrun
  have htight : ∀ ref i, InColumn (columns.foldl (fun layers p => pushLayer layers p.2.toNat p.1) [])
      ref (i + 1) → ∃ before, PairLink program.blockPairs before ref ∧
        InColumn (columns.foldl (fun layers p => pushLayer layers p.2.toNat p.1) []) before i := by
    intro ref i h
    obtain ⟨href, v, hv, hi⟩ := (inColumn_iff hrun).mp h
    obtain ⟨-, -, hcase⟩ := column_spec hrun hv
    rcases hcase with rfl | ⟨before, u, hlinked, rfl, hu⟩
    · simp at hi
    · refine ⟨before, hlinked, (inColumn_iff hrun).mpr ⟨hsources _ hlinked, u, ?_, by omega⟩⟩
      rcases hu with hu | rfl
      · exact hu
      · simp at hi
  have hforward : ∀ source target, PairLink program.blockPairs source target →
      ¬Relation.ReflTransGen (PairLink program.blockPairs) target source → ∀ i j,
        InColumn (columns.foldl (fun layers p => pushLayer layers p.2.toNat p.1) []) source i →
        InColumn (columns.foldl (fun layers p => pushLayer layers p.2.toNat p.1) []) target j →
          i < j := by
    intro source target hlinked hnot i j hi hj
    obtain ⟨-, u, hu, rfl⟩ := (inColumn_iff hrun).mp hi
    obtain ⟨-, v, hv, rfl⟩ := (inColumn_iff hrun).mp hj
    obtain ⟨u', hu', hlt⟩ := (column_spec hrun hv).2.1 source hlinked hnot
    obtain rfl := Option.some.inj (hu.symm.trans hu')
    have hnonneg := (column_spec hrun hu).1
    omega
  have honce : ∀ ref ∈ program.children, ∃! i,
      InColumn (columns.foldl (fun layers p => pushLayer layers p.2.toNat p.1) []) ref i := by
    intro ref href
    rw [← hkeys] at href
    obtain ⟨p, hp, rfl⟩ := List.mem_map.mp href
    refine ⟨p.2.toNat, (inColumn_iff hrun).mpr
      ⟨hkeys ▸ List.mem_map_of_mem hp, p.2, hvals p hp, rfl⟩, fun i hi => ?_⟩
    obtain ⟨-, v, hv, rfl⟩ := (inColumn_iff hrun).mp hi
    rw [Option.some.inj ((hvals p hp).symm.trans hv)]
  -- a column is never without the one before it
  have hdown : ∀ k i ref,
      InColumn (columns.foldl (fun layers p => pushLayer layers p.2.toNat p.1) []) ref (i + k) →
        ∃ ref', InColumn (columns.foldl (fun layers p => pushLayer layers p.2.toNat p.1) []) ref' i := by
    intro k
    induction k with
    | zero => exact fun i ref h => ⟨ref, h⟩
    | succ k ih =>
      intro i ref h
      obtain ⟨before, -, hbefore⟩ := htight ref (i + k) h
      exact ih i before hbefore
  refine ⟨fun i hi => ?_, honce, hforward, htight, fun hacyclic ref i href => ⟨?_, ?_⟩⟩
  · have hlayer := foldl_pushLayer columns i
    by_cases hany : ∃ p ∈ columns, i ≤ p.2.toNat
    · obtain ⟨p, hp, hle⟩ := hany
      have hin : InColumn (columns.foldl (fun layers p => pushLayer layers p.2.toNat p.1) []) p.1
          (i + (p.2.toNat - i)) := by
        rw [Nat.add_sub_cancel' hle]
        exact (inColumn_iff hrun).mpr ⟨hkeys ▸ List.mem_map_of_mem hp, p.2, hvals p hp, rfl⟩
      obtain ⟨ref, href⟩ := hdown _ i p.1 hin
      have hmem := inColumn_foldl_iff.mp href
      rw [if_pos ⟨p, hp, hle⟩, if_neg (List.ne_nil_of_mem hmem)] at hlayer
      refine ⟨atColumn columns i, hlayer, List.ne_nil_of_mem hmem, ?_⟩
      rw [← hkeys]
      exact List.filter_sublist.map _
    · rw [if_neg hany, List.getElem?_eq_none_iff] at hlayer
      omega
  · induction i generalizing ref with
    | zero => exact .here ref
    | succ i ih =>
      obtain ⟨before, hlinked, hbefore⟩ := htight ref i href
      exact .link hlinked (ih before hbefore)
  · intro n hchain
    induction hchain generalizing i with
    | here => exact Nat.zero_le i
    | @link before ref n hlinked _ ih =>
      obtain ⟨j, hj, -⟩ := honce before (hsources _ hlinked)
      have hlt := hforward before ref hlinked
        (fun hway => hacyclic before (Relation.TransGen.head' hlinked hway)) j i hj href
      have hle := ih j hj
      omega

end Columns

/-- The links of a view start at children. -/
theorem blockPairs_source_mem {edges : List ResolvedEdge} {trackerId : Ref} {rollup : ProgramRollup}
    {view : GraphProgramView} (h : graphProgramView edges trackerId rollup = some view) :
    ∀ p ∈ view.blockPairs, p.1 ∈ view.children := by
  obtain ⟨view', r, hview, hr, hchildren, hpairs⟩ := graphProgramView_spec edges trackerId rollup
  obtain rfl := Option.some.inj (hview.symm.trans h)
  intro p hp
  rw [hpairs, ← eraseDups_filter_mem_edges hr, List.mem_eraseDups, List.mem_filter] at hp
  obtain ⟨re, hre, rfl⟩ := List.mem_map.mp hp.1
  have hchild := (List.mem_filter.mp hre).2
  rw [Bool.and_eq_true] at hchild
  rw [hchildren, List.mem_eraseDups]
  exact isChildNode_programNodes.mp hchild.2

/-- In a tracker's own view they end at children too. -/
theorem blockPairs_target_mem {itemsById : ItemsById} {localeCompare : String → String → Ordering}
    {edges : List ResolvedEdge} {trackerId : Ref} {rollup : ProgramRollup} {view : GraphProgramView}
    (hown : programRollup itemsById localeCompare trackerId (edges.map (·.edge)) = some rollup)
    (h : graphProgramView edges trackerId rollup = some view) :
    ∀ p ∈ view.blockPairs, p.2 ∈ view.children := by
  obtain ⟨view', r, hview, hr, hchildren, hpairs⟩ := graphProgramView_spec edges trackerId rollup
  obtain rfl := Option.some.inj (hview.symm.trans h)
  intro p hp
  rw [hpairs, ← eraseDups_filter_mem_edges hr, List.mem_eraseDups, List.mem_filter,
    map_programBlocks_eq hown] at hp
  obtain ⟨re, hre, rfl⟩ := List.mem_map.mp hp.1
  rw [hchildren, List.mem_eraseDups]
  refine (mem_children_programRollup hown).mpr ?_
  have hends := (List.mem_filter.mp hre).2
  simp only [Bool.and_eq_true, decide_eq_true_eq] at hends
  exact hends.1.2

/-- **`programLayers` is a layering of any program view**: it ends, and the
columns it returns hold every child once, in program order, with the drawn
links going forward. In a tracker's own view every link is one between
children. -/
theorem programLayers_layering (edges : List ResolvedEdge) (trackerId : Ref)
    (rollup : ProgramRollup) :
    ∃ view layers, graphProgramView edges trackerId rollup = some view ∧
      programLayers view = some layers ∧
      view.children = (rollup.children.map (·.id)).eraseDups ∧
      Layering view.children view.blockPairs layers ∧
      ∀ (itemsById : ItemsById) (localeCompare : String → String → Ordering),
        programRollup itemsById localeCompare trackerId (edges.map (·.edge)) = some rollup →
          ∀ p ∈ view.blockPairs, p.1 ∈ view.children ∧ p.2 ∈ view.children := by
  obtain ⟨view, r, hview, hr, hchildren, hpairs⟩ := graphProgramView_spec edges trackerId rollup
  have hsources := blockPairs_source_mem hview
  have hclosed : ClosedNodes view.prerequisites.get? view.children := by
    intro ref href
    refine ⟨_, by rw [get?_prerequisites, if_pos href], fun before hbefore => ?_⟩
    obtain ⟨pair, hpair, rfl⟩ := List.mem_map.mp hbefore
    exact hsources pair (List.mem_filter.mp hpair).1
  cases hrun : visitAll view.prerequisites.get? (some (-1)) columnAfter (view.children.length + 1)
      view.children with
  | error e =>
    obtain ⟨-, hprov, -⟩ := visitAll_error hclosed (fun _ h => h) (Nat.lt_succ_self _) hrun
    cases hprov
  | ok result =>
    obtain ⟨columns, s⟩ := result
    refine ⟨view, _, hview, by rw [programLayers, hrun], hchildren,
      layering_of_visitAll hsources hrun, fun itemsById localeCompare hown p hp => ?_⟩
    exact ⟨hsources p hp, blockPairs_target_mem hown hview p hp⟩

end SymphonyBoard
