import Mathlib.Data.List.Infix
import SymphonyBoard.SyncEngine.Incremental
/-!
# The two drivers' watermarks

The drivers write the same `sync_state` row but merge the watermark
differently: SQLite takes any watermark it is handed, Postgres the greater
of it and the stored one. `driversAgree_iff` says which sequences of writes
tell them apart: those that hand a source an older watermark than before.
-/

namespace SymphonyBoard

variable {P : Type}

/-- One call of `updateSyncState`. -/
structure StateWrite where
  sourceId : SourceId
  watermark : Option String
  status : RunStatus
  error : Option String
  nowIso : String

/-- What the write does to the store. -/
def StateWrite.apply (s : Store P) (w : StateWrite) : Store P :=
  s.updateSyncState w.sourceId w.watermark w.status w.error w.nowIso

/-- The store after a sequence of writes. -/
def stateAfter (P : Type) (driver : Driver) (writes : List StateWrite) : Store P :=
  writes.foldl StateWrite.apply (Store.empty driver)

/-- The watermarks a source was handed, in order. -/
def watermarksOf (sourceId : SourceId) (writes : List StateWrite) : List String :=
  writes.filterMap fun w => if w.sourceId = sourceId then w.watermark else none

/-- After every prefix of the writes the drivers report one watermark, and
it never goes back. -/
structure DriversAgree (P : Type) (writes : List StateWrite) : Prop where
  same : ∀ pre, pre <+: writes → ∀ sourceId,
    (stateAfter P .sqlite pre).getWatermark sourceId =
      (stateAfter P .postgres pre).getWatermark sourceId
  forward : ∀ driver pre w, pre ++ [w] <+: writes → ∀ sourceId,
    ∀ x ∈ (stateAfter P driver pre).getWatermark sourceId,
      ∃ y ∈ (stateAfter P driver (pre ++ [w])).getWatermark sourceId, ¬ y < x

/-! ## The stored watermark -/

theorem watermarksOf_append (sourceId : SourceId) (pre : List StateWrite) (w : StateWrite) :
    watermarksOf sourceId (pre ++ [w]) =
      watermarksOf sourceId pre ++
        (if w.sourceId = sourceId then w.watermark else none).toList := by
  rw [watermarksOf, List.filterMap_append, watermarksOf]
  cases h : (if w.sourceId = sourceId then w.watermark else none) <;> simp [h]

theorem driver_apply (s : Store P) (w : StateWrite) : (w.apply s).driver = s.driver := rfl

theorem driver_stateAfter (driver : Driver) (writes : List StateWrite) :
    (stateAfter P driver writes).driver = driver := by
  induction writes using List.reverseRecOn with
  | nil => rfl
  | append_singleton writes w ih =>
    rw [stateAfter, List.foldl_append, List.foldl_cons, List.foldl_nil, driver_apply]
    exact ih

/-- What a write does to a source's watermark. -/
theorem getWatermark_apply (s : Store P) (w : StateWrite) (sourceId : SourceId) :
    (w.apply s).getWatermark sourceId =
      Store.mergeWatermark s.driver (if w.sourceId = sourceId then w.watermark else none)
        (s.getWatermark sourceId) := by
  by_cases h : w.sourceId = sourceId
  · subst h
    rw [if_pos rfl]
    exact getWatermark_updateSyncState s _ _ _ _ _
  · rw [if_neg h, mergeWatermark_none]
    simp [StateWrite.apply, Store.updateSyncState, Store.getWatermark, h]

theorem getWatermark_stateAfter_append (driver : Driver) (pre : List StateWrite) (w : StateWrite)
    (sourceId : SourceId) :
    (stateAfter P driver (pre ++ [w])).getWatermark sourceId =
      Store.mergeWatermark driver (if w.sourceId = sourceId then w.watermark else none)
        ((stateAfter P driver pre).getWatermark sourceId) := by
  have hfold : stateAfter P driver (pre ++ [w]) = w.apply (stateAfter P driver pre) := by
    rw [stateAfter, List.foldl_append, List.foldl_cons, List.foldl_nil, stateAfter]
  rw [hfold, getWatermark_apply, driver_stateAfter]

/-- **SQLite stores the last watermark it was handed.** -/
theorem getWatermark_sqlite (writes : List StateWrite) (sourceId : SourceId) :
    (stateAfter P .sqlite writes).getWatermark sourceId =
      (watermarksOf sourceId writes).getLast? := by
  induction writes using List.reverseRecOn with
  | nil => rfl
  | append_singleton writes w ih =>
    rw [getWatermark_stateAfter_append, watermarksOf_append, List.getLast?_append, ih]
    cases (if w.sourceId = sourceId then w.watermark else none) <;> rfl

/-- **Postgres stores the greatest.** -/
theorem getWatermark_postgres (writes : List StateWrite) (sourceId : SourceId) :
    (stateAfter P .postgres writes).getWatermark sourceId =
      (watermarksOf sourceId writes).foldl (fun o w => Store.greatest (some w) o) none := by
  induction writes using List.reverseRecOn with
  | nil => rfl
  | append_singleton writes w ih =>
    rw [getWatermark_stateAfter_append, watermarksOf_append, List.foldl_append, ← ih]
    cases (if w.sourceId = sourceId then w.watermark else none) with
    | none => exact mergeWatermark_none .postgres _
    | some t => rfl

/-- Where no text is before an earlier one, the greatest is the last. -/
theorem foldl_greatest_of_pairwise {l : List String} (h : l.Pairwise fun a b => ¬ b < a) :
    l.foldl (fun o w => Store.greatest (some w) o) none = l.getLast? := by
  induction l using List.reverseRecOn with
  | nil => rfl
  | append_singleton l t ih =>
    obtain ⟨hl, -, hlast⟩ := List.pairwise_append.mp h
    rw [List.foldl_append, List.foldl_cons, List.foldl_nil, ih hl, List.getLast?_append,
      List.getLast?_singleton, Option.some_or]
    cases hm : l.getLast? with
    | none => rfl
    | some m =>
      have hge : ¬ t < m := hlast m (List.mem_of_getLast? hm) t List.mem_cons_self
      rw [Store.greatest, if_neg hge]

/-! ## Which writes tell the drivers apart -/

/-- **The drivers agree, and their watermark never goes back, exactly when
no source is handed an older watermark than before.** -/
theorem driversAgree_iff (writes : List StateWrite) :
    DriversAgree P writes ↔
      ∀ sourceId, (watermarksOf sourceId writes).Pairwise fun a b => ¬ b < a := by
  constructor
  · intro h sourceId
    -- SQLite keeps the last watermark, so the last may not fall back
    induction writes using List.reverseRecOn with
    | nil => exact List.Pairwise.nil
    | append_singleton pre w ih =>
      have hpre : pre <+: pre ++ [w] := List.prefix_append pre [w]
      have hl := ih ⟨fun q hq => h.same q (hq.trans hpre),
        fun driver q v hq => h.forward driver q v (hq.trans hpre)⟩
      rw [watermarksOf_append]
      refine List.pairwise_append.mpr ⟨hl, ?_, fun a ha t ht hlt => ?_⟩
      · cases (if w.sourceId = sourceId then w.watermark else none) with
        | none => exact List.Pairwise.nil
        | some t => exact List.pairwise_singleton _ t
      · -- the last watermark before `w` is at or after `a`, and `t` is not before it
        have hne : watermarksOf sourceId pre ≠ [] := List.ne_nil_of_mem ha
        obtain ⟨m, hm⟩ := Option.isSome_iff_exists.mp (List.getLast?_isSome.mpr hne)
        obtain ⟨y, hy, hge⟩ := h.forward .sqlite pre w (List.prefix_refl _) sourceId m
          (by rw [getWatermark_sqlite]; exact hm)
        rw [getWatermark_stateAfter_append, Option.mem_toList.mp ht] at hy
        obtain rfl := Option.some.inj hy
        obtain ⟨l, hl'⟩ := List.getLast?_eq_some_iff.mp hm
        rw [hl'] at hl ha
        rcases List.mem_append.mp ha with ha | ha
        · have hma := (List.pairwise_append.mp hl).2.2 a ha m List.mem_cons_self
          have hle := String.le_trans (String.not_lt.mp hma) (String.not_lt.mp hge)
          exact String.not_lt.mpr hle hlt
        · obtain rfl := List.mem_singleton.mp ha
          exact hge hlt
  · intro h
    have hsub : ∀ pre, pre <+: writes → ∀ sourceId,
        (watermarksOf sourceId pre).Pairwise fun a b => ¬ b < a := by
      intro pre hpre sourceId
      exact (h sourceId).sublist (hpre.sublist.filterMap _)
    have hsame : ∀ pre, pre <+: writes → ∀ sourceId,
        (stateAfter P .sqlite pre).getWatermark sourceId =
          (stateAfter P .postgres pre).getWatermark sourceId := by
      intro pre hpre sourceId
      -- of an ascending list the last is the greatest
      rw [getWatermark_sqlite, getWatermark_postgres,
        foldl_greatest_of_pairwise (hsub pre hpre sourceId)]
    have hforward : ∀ pre w, pre ++ [w] <+: writes → ∀ sourceId,
        ∀ x ∈ (watermarksOf sourceId pre).getLast?,
          ∃ y ∈ (watermarksOf sourceId (pre ++ [w])).getLast?, ¬ y < x := by
      intro pre w hpre sourceId x hx
      have hl := hsub _ hpre sourceId
      rw [watermarksOf_append] at hl ⊢
      rw [List.getLast?_append]
      cases hw : (if w.sourceId = sourceId then w.watermark else none) with
      | none => exact ⟨x, hx, String.lt_irrefl x⟩
      | some t =>
        rw [hw] at hl
        exact ⟨t, rfl, (List.pairwise_append.mp hl).2.2 x (List.mem_of_getLast? hx) t
          List.mem_cons_self⟩
    refine ⟨hsame, fun driver pre w hpre sourceId x hx => ?_⟩
    have hprefix : pre <+: writes := (List.prefix_append pre [w]).trans hpre
    cases driver with
    | sqlite =>
      rw [getWatermark_sqlite] at hx ⊢
      exact hforward pre w hpre sourceId x hx
    | postgres =>
      rw [← hsame pre hprefix, getWatermark_sqlite] at hx
      rw [← hsame _ hpre, getWatermark_sqlite]
      exact hforward pre w hpre sourceId x hx

theorem noBar_github : '|' ∉ "github:github.com".toList := by decide

/-- A later run that stores an older watermark: what is newest at the
provider was deleted between two full sweeps. -/
def olderWrites : List StateWrite :=
  ["2026-06-02T00:00:00Z", "2026-06-01T00:00:00Z"].map fun t =>
    { sourceId := ⟨"github:github.com", noBar_github⟩, watermark := some t, status := .ok,
      error := none, nowIso := "2026-06-03T00:00:00.000Z" }

/-- **The drivers can disagree.** SQLite goes back where Postgres stays. -/
theorem not_driversAgree : ¬ ∀ writes, DriversAgree Unit writes := by
  intro h
  have hsame := (h olderWrites).same olderWrites (List.prefix_refl _)
    ⟨"github:github.com", noBar_github⟩
  exact absurd hsame (by decide)

end SymphonyBoard
