import Mathlib.Data.List.Forall2
import Mathlib.Data.List.Perm.Basic
import SymphonyBoard.Common.OrdMap
/-!
# Maps that differ in order only

Two insertion-ordered maps bind the same keys to related values when they
were filled in two orders (`OrdMap.Rel`). What is then computed key by key,
or from the set of keys that satisfy a predicate, is related too; and a
loop whose steps commute up to the relation may take its items in any order
(`foldl_related`).
-/

namespace SymphonyBoard

variable {α β σ τ K V W : Type*}

/-! ## Loops -/

/-- A loop keeps a relation between two states that its steps keep. -/
theorem foldl_related_of_forall₂ {R : σ → τ → Prop} {S : α → β → Prop} {f : σ → α → σ}
    {g : τ → β → τ} (hstep : ∀ s t x y, R s t → S x y → R (f s x) (g t y)) {l : List α} {l' : List β}
    (hl : List.Forall₂ S l l') {s : σ} {t : τ} (h : R s t) : R (l.foldl f s) (l'.foldl g t) := by
  induction hl generalizing s t with
  | nil => exact h
  | cons hxy _ ih => exact ih (hstep _ _ _ _ h hxy)

/-- **A loop in any order.** Its steps respect the relation, and two of its
steps may be swapped up to the relation. -/
theorem foldl_related {R : σ → σ → Prop} (hrefl : ∀ s, R s s)
    (htrans : ∀ s t u, R s t → R t u → R s u) {f : σ → α → σ} {l l' : List α} (hl : l.Perm l')
    (hstep : ∀ x ∈ l, ∀ s t, R s t → R (f s x) (f t x))
    (hswap : ∀ x ∈ l, ∀ y ∈ l, ∀ s, R (f (f s x) y) (f (f s y) x)) {s t : σ} (h : R s t) :
    R (l.foldl f s) (l'.foldl f t) := by
  induction hl generalizing s t with
  | nil => exact h
  | cons x _ ih =>
    obtain ⟨hx, hstep⟩ := List.forall_mem_cons.mp hstep
    exact ih hstep (fun y hy z hz => hswap y (List.mem_cons_of_mem _ hy) z (List.mem_cons_of_mem _ hz))
      (hx s t h)
  | swap x y l =>
    have hmem : ∀ z ∈ l, z ∈ y :: x :: l := fun z hz =>
      List.mem_cons_of_mem _ (List.mem_cons_of_mem _ hz)
    have hx : x ∈ y :: x :: l := List.mem_cons_of_mem _ List.mem_cons_self
    have hy : y ∈ y :: x :: l := List.mem_cons_self
    have hstart : R (f (f s y) x) (f (f t x) y) :=
      htrans _ _ _ (hswap y hy x hx s) (hstep y hy _ _ (hstep x hx _ _ h))
    have htail : ∀ (s t : σ) (z w : α), R s t → (z = w ∧ z ∈ l) → R (f s z) (f t w) := by
      rintro s t z _ hst ⟨rfl, hz⟩
      exact hstep z (hmem z hz) s t hst
    have hl : List.Forall₂ (fun z w => z = w ∧ z ∈ l) l l :=
      List.forall₂_same.mpr fun z hz => ⟨rfl, hz⟩
    exact foldl_related_of_forall₂ htail hl hstart
  | trans hl _ ih ih' =>
    have hstep' : ∀ x ∈ _, ∀ s t, R s t → R (f s x) (f t x) := fun x hx =>
      hstep x (hl.mem_iff.mpr hx)
    exact htrans _ _ _ (ih hstep hswap (hrefl s)) (ih' hstep'
      (fun x hx y hy => hswap x (hl.mem_iff.mpr hx) y (hl.mem_iff.mpr hy)) h)

/-! ## Related maps -/

namespace OrdMap

variable [DecidableEq K]

/-- The same keys, bound to related values. -/
def Rel (R : V → W → Prop) (m : OrdMap K V) (m' : OrdMap K W) : Prop :=
  ∀ k, Option.Rel R (m.get? k) (m'.get? k)

/-- Keep the bindings that satisfy a predicate. -/
def filter (p : V → Bool) (m : OrdMap K V) : OrdMap K V :=
  ⟨m.entries.filter fun b => p b.2, m.nodup.sublist (List.filter_sublist.map _)⟩

@[simp] theorem get?_filter (p : V → Bool) (m : OrdMap K V) (k : K) :
    (m.filter p).get? k = (m.get? k).filter p := by
  ext v
  rw [← mem_entries_iff, Option.filter_eq_some_iff, ← mem_entries_iff]
  exact List.mem_filter

/-- Each value replaced by an image of its binding, keys kept. -/
def mapBindings (f : K → V → W) (m : OrdMap K V) : OrdMap K W :=
  ⟨m.entries.map fun b => (b.1, f b.1 b.2), by
    simpa [List.map_map, Function.comp_def] using m.nodup⟩

@[simp] theorem get?_mapBindings (f : K → V → W) (m : OrdMap K V) (k : K) :
    (m.mapBindings f).get? k = (m.get? k).map (f k) := by
  ext w
  rw [← mem_entries_iff, Option.map_eq_some_iff, mapBindings, List.mem_map]
  constructor
  · rintro ⟨⟨k', v⟩, hv, hb⟩
    obtain ⟨rfl, rfl⟩ := Prod.mk.inj hb
    exact ⟨v, mem_entries_iff.mp hv, rfl⟩
  · rintro ⟨v, hv, rfl⟩
    exact ⟨(k, v), mem_entries_iff.mpr hv, rfl⟩

/-- What upserts keep of every value holds of the values they leave. -/
theorem forall_foldl_upsert {P : V → Prop} (key : α → K) (f : α → Option V → V) {l : List α}
    (hf : ∀ x ∈ l, ∀ o, (∀ v, o = some v → P v) → P (f x o)) {m : OrdMap K V}
    (hm : ∀ k v, m.get? k = some v → P v) {k : K} {v : V}
    (hv : (l.foldl (fun m x => m.upsert (key x) (f x)) m).get? k = some v) : P v := by
  induction l generalizing m with
  | nil => exact hm k v hv
  | cons x l ih =>
    obtain ⟨hx, hf⟩ := List.forall_mem_cons.mp hf
    refine ih hf (m := m.upsert (key x) (f x)) ?_ hv
    intro k' v' hv'
    rw [get?_upsert] at hv'
    split at hv'
    · exact Option.some.inj hv' ▸ hx _ fun v hv => hm _ v hv
    · exact hm k' v' hv'

/-- A map binds a key once. -/
theorem filter_entries (m : OrdMap K V) (k : K) :
    (m.entries.filter fun b => b.1 = k) = ((m.get? k).map fun v => (k, v)).toList := by
  have h := m.filter_flatMap_entries (fun b => [b]) k
  have hflat : (m.entries.flatMap fun b => [b].map fun x => (b.1, x)) =
      m.entries.map fun b => (b.1, b) := List.map_eq_flatMap.symm
  rw [hflat, List.filter_map, List.map_map] at h
  have hid : (m.entries.filter fun b => b.1 = k) =
      (m.entries.filter fun b => b.1 = k).map fun b => b := (List.map_id' _).symm
  rw [hid]
  refine h.trans ?_
  cases m.get? k <;> rfl

/-- The keys whose values satisfy a predicate. -/
def keysWhere (p : V → Bool) (m : OrdMap K V) : List K := (m.filter p).entries.map Prod.fst

theorem mem_keysWhere {p : V → Bool} {m : OrdMap K V} {k : K} :
    k ∈ m.keysWhere p ↔ ∃ v, m.get? k = some v ∧ p v = true := by
  simp only [keysWhere, List.mem_map, Prod.exists, mem_entries_iff, get?_filter,
    Option.filter_eq_some_iff]
  constructor
  · rintro ⟨_, v, hv, rfl⟩
    exact ⟨v, hv⟩
  · rintro ⟨v, hv⟩
    exact ⟨k, v, hv, rfl⟩

omit [DecidableEq K] in
theorem nodup_keysWhere (p : V → Bool) (m : OrdMap K V) : (m.keysWhere p).Nodup :=
  (m.filter p).nodup

section Rel

variable {R : V → W → Prop} {m : OrdMap K V} {m' : OrdMap K W}

theorem Rel.get (h : Rel R m m') {k : K} {v : V} (hv : m.get? k = some v) :
    ∃ w, m'.get? k = some w ∧ R v w := by
  have hk := h k
  rw [hv] at hk
  generalize hw : m'.get? k = o at hk
  cases hk with
  | some hr => exact ⟨_, rfl, hr⟩

omit [DecidableEq K] in
theorem optionRel_refl {R : V → V → Prop} (h : ∀ v, R v v) (o : Option V) : Option.Rel R o o := by
  cases o with
  | none => exact .none
  | some v => exact .some (h v)

theorem Rel.refl {R : V → V → Prop} (h : ∀ v, R v v) (m : OrdMap K V) : Rel R m m :=
  fun _ => optionRel_refl h _

theorem Rel.trans {R : V → V → Prop} (htrans : ∀ u v w, R u v → R v w → R u w)
    {m m' m'' : OrdMap K V} (h : Rel R m m') (h' : Rel R m' m'') : Rel R m m'' := by
  intro k
  have hk := h k
  have hk' := h' k
  generalize m.get? k = o at hk
  generalize m'.get? k = o' at hk hk'
  generalize m''.get? k = o'' at hk'
  cases hk with
  | none => exact hk'
  | some hr =>
    cases hk' with
    | some hr' => exact .some (htrans _ _ _ hr hr')

theorem Rel.flip (h : Rel R m m') : Rel (fun w v => R v w) m' m := by
  intro k
  have hk := h k
  generalize m.get? k = o at hk
  generalize m'.get? k = o' at hk
  cases hk with
  | some hr => exact .some hr
  | none => exact .none

theorem Rel.imp {S : V → W → Prop} (h : Rel R m m') (hRS : ∀ v w, R v w → S v w) :
    Rel S m m' := by
  intro k
  have hk := h k
  generalize m.get? k = o at hk
  generalize m'.get? k = o' at hk
  cases hk with
  | some hr => exact .some (hRS _ _ hr)
  | none => exact .none

/-- Maps with the same keys, bound to related values. -/
theorem rel_iff : Rel R m m' ↔ (∀ k v, m.get? k = some v → ∃ w, m'.get? k = some w ∧ R v w) ∧
    ∀ k w, m'.get? k = some w → ∃ v, m.get? k = some v ∧ R v w := by
  constructor
  · exact fun h => ⟨fun k v hv => h.get hv, fun k w hw => h.flip.get hw⟩
  · rintro ⟨h, h'⟩ k
    cases hv : m.get? k with
    | none =>
      cases hw : m'.get? k with
      | none => exact .none
      | some w =>
        obtain ⟨v, hv', -⟩ := h' k w hw
        rw [hv] at hv'
        cases hv'
    | some v =>
      obtain ⟨w, hw, hr⟩ := h k v hv
      rw [hw]
      exact .some hr

/-- Related maps satisfy a predicate at the same keys, if the relation
respects it. -/
theorem Rel.keysWhere (h : Rel R m m') {p : V → Bool} {q : W → Bool}
    (hpq : ∀ v w, R v w → p v = q w) : (m.keysWhere p).Perm (m'.keysWhere q) := by
  refine (List.perm_ext_iff_of_nodup (nodup_keysWhere p m) (nodup_keysWhere q m')).mpr fun k => ?_
  rw [mem_keysWhere, mem_keysWhere]
  constructor
  · rintro ⟨v, hv, hp⟩
    obtain ⟨w, hw, hr⟩ := h.get hv
    exact ⟨w, hw, hpq v w hr ▸ hp⟩
  · rintro ⟨w, hw, hq⟩
    obtain ⟨v, hv, hr⟩ := h.flip.get hw
    exact ⟨v, hv, hpq v w hr ▸ hq⟩

theorem Rel.mapBindings {V' W' : Type*} {R' : V' → W' → Prop} (h : Rel R m m') {f : K → V → V'}
    {g : K → W → W'}
    (hfg : ∀ k v w, m.get? k = some v → m'.get? k = some w → R v w → R' (f k v) (g k w)) :
    Rel R' (m.mapBindings f) (m'.mapBindings g) := by
  refine rel_iff.mpr ⟨fun k v hv => ?_, fun k w hw => ?_⟩
  · rw [get?_mapBindings] at hv
    obtain ⟨v, hm, rfl⟩ := Option.map_eq_some_iff.mp hv
    obtain ⟨w, hw, hr⟩ := h.get hm
    exact ⟨g k w, by rw [get?_mapBindings, hw]; rfl, hfg k v w hm hw hr⟩
  · rw [get?_mapBindings] at hw
    obtain ⟨w, hm', rfl⟩ := Option.map_eq_some_iff.mp hw
    obtain ⟨v, hv, hr⟩ := h.flip.get hm'
    exact ⟨f k v, by rw [get?_mapBindings, hv]; rfl, hfg k v w hv hm' hr⟩

theorem Rel.filter (h : Rel R m m') {p : V → Bool} {q : W → Bool} (hpq : ∀ v w, R v w → p v = q w) :
    Rel R (m.filter p) (m'.filter q) := by
  refine rel_iff.mpr ⟨fun k v hv => ?_, fun k w hw => ?_⟩
  · rw [get?_filter] at hv ⊢
    obtain ⟨hv, hp⟩ := Option.filter_eq_some_iff.mp hv
    obtain ⟨w, hw, hr⟩ := h.get hv
    exact ⟨w, by rw [hw, Option.filter_eq_some_iff]; exact ⟨rfl, hpq v w hr ▸ hp⟩, hr⟩
  · rw [get?_filter] at hw ⊢
    obtain ⟨hw, hq⟩ := Option.filter_eq_some_iff.mp hw
    obtain ⟨v, hv, hr⟩ := h.flip.get hw
    exact ⟨v, by rw [hv, Option.filter_eq_some_iff]; exact ⟨rfl, hpq v w hr ▸ hq⟩, hr⟩

/-- The bindings of one map, taken in the order of the other. -/
theorem Rel.entries (h : Rel R m m') : ∃ l, m.entries.Perm l ∧
    List.Forall₂ (fun b b' => b.1 = b'.1 ∧ b ∈ m.entries ∧ b' ∈ m'.entries ∧ R b.2 b'.2)
      l m'.entries := by
  have hforall : ∀ es : List (K × W), (∀ b ∈ es, b ∈ m'.entries) → List.Forall₂
      (fun b b' => b.1 = b'.1 ∧ b ∈ m.entries ∧ b' ∈ m'.entries ∧ R b.2 b'.2)
      (es.filterMap fun b => (m.get? b.1).map fun v => (b.1, v)) es := by
    intro es hes
    induction es with
    | nil => exact .nil
    | cons b es ih =>
      obtain ⟨hb, hes⟩ := List.forall_mem_cons.mp hes
      obtain ⟨v, hv, hr⟩ := h.flip.get (mem_entries_iff.mp hb)
      rw [List.filterMap_cons_some (by rw [hv]; rfl)]
      exact .cons ⟨rfl, mem_entries_iff.mpr hv, hb, hr⟩ (ih hes)
  have hl := hforall m'.entries fun b hb => hb
  refine ⟨_, ?_, hl⟩
  have hkeys : (m'.entries.filterMap fun b => (m.get? b.1).map fun v => (b.1, v)).map Prod.fst =
      m'.entries.map Prod.fst := by
    rw [← List.forall₂_eq_eq_eq, List.forall₂_map_left_iff, List.forall₂_map_right_iff]
    exact hl.imp fun _ _ hb => hb.1
  refine (List.perm_ext_iff_of_nodup (List.Nodup.of_map Prod.fst m.nodup)
    (List.Nodup.of_map Prod.fst (hkeys ▸ m'.nodup))).mpr ?_
  rintro ⟨k, v⟩
  simp only [List.mem_filterMap, Prod.exists, Option.map_eq_some_iff, Prod.mk.injEq]
  constructor
  · intro hv
    obtain ⟨w, hw, -⟩ := h.get (mem_entries_iff.mp hv)
    exact ⟨k, w, mem_entries_iff.mpr hw, v, mem_entries_iff.mp hv, rfl, rfl⟩
  · rintro ⟨k, w, hw, v, hv, rfl, rfl⟩
    exact mem_entries_iff.mpr hv

end Rel

end OrdMap

end SymphonyBoard
