import Mathlib.Data.List.Basic
import SymphonyBoard.Db.BoundsExact
/-!
# The cached bounds stay exact

What one write and one flush do to the two tables and to the marks, and
that between calls and transactions, whatever the order of writes, moves,
commits and rollbacks, the bounds of every repository are exact.
-/

namespace SymphonyBoard

/-! ## A bucket, refreshed -/

theorem mem_activityRows {t : ActivityTables} {bucket : RepoActivityBoundsBucket}
    {occurredAt : String} :
    (∃ id, (id, occurredAt) ∈ t.activityRows bucket) ↔
      ∃ k row, t.activities.get? k = some row ∧ k.sourceId = bucket.sourceId ∧
        row.activity.projectPath = bucket.projectPath ∧ row.activity.occurredAt = occurredAt := by
  simp only [ActivityTables.activityRows, List.mem_map, List.mem_filter, decide_eq_true_eq]
  constructor
  · rintro ⟨id, ⟨⟨k, row⟩, i⟩, ⟨hmem, hrepo⟩, heq⟩
    obtain ⟨-, rfl⟩ := Prod.mk.inj heq
    have hentry : (k, row) ∈ t.activities.entries :=
      List.mem_of_getElem? (List.mk_mem_zipIdx_iff_getElem?.mp hmem)
    exact ⟨k, row, OrdMap.mem_entries_iff.mp hentry, hrepo.1, hrepo.2, rfl⟩
  · rintro ⟨k, row, hk, hsource, hpath, rfl⟩
    obtain ⟨i, hi⟩ := List.mem_iff_getElem?.mp (OrdMap.mem_entries_iff.mpr hk)
    exact ⟨i, ((k, row), i), ⟨List.mk_mem_zipIdx_iff_getElem?.mpr hi, hsource, hpath⟩, rfl⟩

theorem rowInstants_activityRows (t : ActivityTables) (bucket : RepoActivityBoundsBucket) :
    rowInstants (t.activityRows bucket) = repoInstants t bucket.sourceId bucket.projectPath := by
  ext ms
  constructor
  · rintro ⟨r, hr, hms⟩
    obtain ⟨k, row, hk, hsource, hpath, hat⟩ := mem_activityRows.mp ⟨r.1, hr⟩
    exact ⟨k, row, hk, hsource, hpath, by rw [hat, hms]⟩
  · rintro ⟨k, row, hk, hsource, hpath, hms⟩
    obtain ⟨id, hid⟩ := mem_activityRows.mpr ⟨k, row, hk, hsource, hpath, rfl⟩
    exact ⟨_, hid, hms⟩

/-- What refreshing a bucket leaves. -/
def BoundsDriver.refreshed (driver : BoundsDriver) (t : ActivityTables)
    (bucket : RepoActivityBoundsBucket) : ActivityTables :=
  match driver.boundsOf (t.activityRows bucket) with
  | none => t.deleteBounds bucket
  | some row => t.writeBounds bucket row

section Refresh

variable {driver : BoundsDriver} {t : ActivityTables} {bucket : RepoActivityBoundsBucket}

@[simp] theorem activities_refreshed :
    (driver.refreshed t bucket).activities = t.activities := by
  unfold BoundsDriver.refreshed
  cases driver.boundsOf (t.activityRows bucket) <;> rfl

theorem repoInstants_congr {t' : ActivityTables} (h : t'.activities = t.activities)
    (sourceId : SourceId) (projectPath : Option String) :
    repoInstants t' sourceId projectPath = repoInstants t sourceId projectPath := by
  simp only [repoInstants, h]

theorem get?_bounds_refreshed_of_ne {k : SourceId × String}
    (h : k ≠ (bucket.sourceId, bucket.projectKey)) :
    (driver.refreshed t bucket).bounds.get? k = t.bounds.get? k := by
  unfold BoundsDriver.refreshed
  cases driver.boundsOf (t.activityRows bucket) with
  | none => exact (OrdMap.get?_erase _ _ _).trans (if_neg h)
  | some row => exact (OrdMap.get?_set _ _ _ _).trans (if_neg h.symm)

/-- The bucket's own row is exact. -/
theorem boundsAt_refreshed (hkey : bucket.projectKey = repoActivityProjectKey bucket.projectPath)
    (htimed : ∀ k row, t.activities.get? k = some row →
      ∃ ms, dateParse row.activity.occurredAt = some ms) :
    BoundsAt (driver.refreshed t bucket) bucket.sourceId bucket.projectPath := by
  have hreads : ReadsBounds (t.activityRows bucket) (driver.boundsOf (t.activityRows bucket)) := by
    refine boundsOf_reads driver fun r hr => ?_
    obtain ⟨k, row, hk, -, -, hat⟩ := mem_activityRows.mp ⟨r.1, hr⟩
    rw [← hat]
    exact htimed k row hk
  have hinstants : rowInstants (t.activityRows bucket) =
      repoInstants (driver.refreshed t bucket) bucket.sourceId bucket.projectPath := by
    rw [rowInstants_activityRows, repoInstants_congr activities_refreshed]
  unfold ReadsBounds at hreads
  rw [hinstants] at hreads
  unfold BoundsAt
  rw [← hkey]
  cases hbounds : driver.boundsOf (t.activityRows bucket) with
  | none =>
    have hget : (driver.refreshed t bucket).bounds.get? (bucket.sourceId, bucket.projectKey) =
        none := by
      simp only [BoundsDriver.refreshed, hbounds, ActivityTables.deleteBounds, OrdMap.get?_erase,
        if_pos]
    rw [hbounds] at hreads
    rw [hget]
    exact hreads
  | some row =>
    have hget : (driver.refreshed t bucket).bounds.get? (bucket.sourceId, bucket.projectKey) =
        some ⟨bucket.projectPath, row.1, row.2, bucket.updatedAt⟩ := by
      simp only [BoundsDriver.refreshed, hbounds, ActivityTables.writeBounds, OrdMap.get?_set,
        if_pos]
    rw [hbounds] at hreads
    rw [hget]
    exact ⟨rfl, hreads⟩

/-- The row of another repository is as it was. -/
theorem boundsAt_refreshed_of_ne
    (hkey : bucket.projectKey = repoActivityProjectKey bucket.projectPath) {sourceId : SourceId}
    {projectPath : Option String}
    (hne : ¬ (bucket.sourceId = sourceId ∧ bucket.projectPath = projectPath))
    (h : BoundsAt t sourceId projectPath) :
    BoundsAt (driver.refreshed t bucket) sourceId projectPath := by
  have hk : (sourceId, repoActivityProjectKey projectPath) ≠
      (bucket.sourceId, bucket.projectKey) := by
    intro heq
    obtain ⟨hsource, hpath⟩ := Prod.mk.inj heq
    exact hne ⟨hsource.symm, repoActivityProjectKey_inj (hkey.symm.trans hpath.symm)⟩
  unfold BoundsAt at h ⊢
  rw [get?_bounds_refreshed_of_ne hk, repoInstants_congr activities_refreshed]
  exact h

/-- A bucket is done with once it is refreshed. -/
theorem exactUpTo_refreshed {buckets : List RepoActivityBoundsBucket}
    (hkey : bucket.projectKey = repoActivityProjectKey bucket.projectPath)
    (h : ExactUpTo (bucket :: buckets) t) : ExactUpTo buckets (driver.refreshed t bucket) := by
  refine ⟨?_, fun sourceId projectPath => ?_, fun k row hk => ?_⟩
  · rw [activities_refreshed]
    exact h.timed
  · by_cases hbucket : bucket.sourceId = sourceId ∧ bucket.projectPath = projectPath
    · obtain ⟨rfl, rfl⟩ := hbucket
      exact Or.inl (boundsAt_refreshed hkey h.timed)
    · rcases h.repos sourceId projectPath with hat | ⟨b, hb, hmark⟩
      · exact Or.inl (boundsAt_refreshed_of_ne hkey hbucket hat)
      · rcases List.mem_cons.mp hb with rfl | hb
        · exact absurd hmark hbucket
        · exact Or.inr ⟨b, hb, hmark⟩
  · by_cases hbucket : k = (bucket.sourceId, bucket.projectKey)
    · exact ⟨bucket.projectPath, by rw [hbucket, hkey]⟩
    · rw [get?_bounds_refreshed_of_ne hbucket] at hk
      exact h.keys k row hk

/-- After all of them nothing is left to do. -/
theorem exactBounds_flushed {buckets : List RepoActivityBoundsBucket}
    (hkeys : ∀ b ∈ buckets, b.projectKey = repoActivityProjectKey b.projectPath)
    (h : ExactUpTo buckets t) : ExactBounds (buckets.foldl driver.refreshed t) := by
  induction buckets generalizing t with
  | nil => exact h
  | cons b buckets ih =>
    obtain ⟨hb, hrest⟩ := List.forall_mem_cons.mp hkeys
    exact ih hrest (exactUpTo_refreshed hb h)

end Refresh

/-! ## The marks -/

/-- Whether a handle has marked a repository. -/
def Marked (v : BoundsHandle) (sourceId : SourceId) (projectPath : Option String) : Prop :=
  ∃ b ∈ v.dirty.values, b.sourceId = sourceId ∧ b.projectPath = projectPath

/-- A source id that the separator of bucket ids does not occur in. -/
def NoNul (sourceId : SourceId) : Prop := '\x00' ∉ sourceId.val.toList

/-- Every mark stands at the id of its bucket. -/
structure WellMarked (v : BoundsHandle) : Prop where
  id : ∀ id b, v.dirty.get? id = some b → id = repoActivityBoundsBucketId b.sourceId b.projectKey
  key : ∀ b ∈ v.dirty.values, b.projectKey = repoActivityProjectKey b.projectPath
  noNul : ∀ b ∈ v.dirty.values, NoNul b.sourceId

theorem append_separator_inj {a : Char} {l l' r r' : List Char} (hl : a ∉ l) (hl' : a ∉ l')
    (h : l ++ a :: r = l' ++ a :: r') : l = l' ∧ r = r' := by
  induction l generalizing l' with
  | nil =>
    cases l' with
    | nil => exact ⟨rfl, (List.cons.inj h).2⟩
    | cons c l' => exact absurd (List.mem_cons.mpr (Or.inl (List.cons.inj h).1)) hl'
  | cons c l ih =>
    cases l' with
    | nil => exact absurd (List.mem_cons.mpr (Or.inl (List.cons.inj h).1.symm)) hl
    | cons c' l' =>
      obtain ⟨rfl, htail⟩ := List.cons.inj h
      obtain ⟨rfl, hr⟩ := ih (fun hmem => hl (List.mem_cons_of_mem c hmem))
        (fun hmem => hl' (List.mem_cons_of_mem c hmem)) htail
      exact ⟨rfl, hr⟩

theorem repoActivityBoundsBucketId_inj {s s' : SourceId} {key key' : String} (hs : NoNul s)
    (hs' : NoNul s')
    (h : repoActivityBoundsBucketId s key = repoActivityBoundsBucketId s' key') :
    s = s' ∧ key = key' := by
  have hlists : s.val.toList ++ '\x00' :: key.toList = s'.val.toList ++ '\x00' :: key'.toList := by
    have hchars := congrArg String.toList h
    have hnul : "\x00".toList = ['\x00'] := by decide
    simp only [repoActivityBoundsBucketId, String.toList_append, hnul, List.append_assoc,
      List.singleton_append] at hchars
    exact hchars
  obtain ⟨hsource, hkey⟩ := append_separator_inj hs hs' hlists
  refine ⟨?_, String.toList_inj.mp hkey⟩
  obtain ⟨val, noBar⟩ := s
  obtain ⟨val', noBar'⟩ := s'
  obtain rfl : val = val' := String.toList_inj.mp hsource
  rfl

section Marks

variable {v : BoundsHandle} {sourceId s : SourceId} {projectPath p : Option String}
variable {updatedAt : String}

theorem wellMarked_mark (h : WellMarked v) (hs : NoNul s) : WellMarked (v.mark s p updatedAt) := by
  -- what is marked is the new bucket or was marked before
  have hget : ∀ id b, (v.mark s p updatedAt).dirty.get? id = some b →
      id = repoActivityBoundsBucketId s (repoActivityProjectKey p) ∧
        b = repoActivityBoundsBucket s p updatedAt ∨ v.dirty.get? id = some b := by
    intro id b hb
    simp only [BoundsHandle.mark, OrdMap.get?_set] at hb
    split at hb
    · next hid => exact Or.inl ⟨hid.symm, (Option.some.inj hb).symm⟩
    · exact Or.inr hb
  refine ⟨fun id b hb => ?_, fun b hb => ?_, fun b hb => ?_⟩
  · rcases hget id b hb with ⟨rfl, rfl⟩ | hold
    · rfl
    · exact h.id id b hold
  · obtain ⟨id, hid⟩ := OrdMap.mem_values_iff.mp hb
    rcases hget id b hid with ⟨-, rfl⟩ | hold
    · rfl
    · exact h.key b (OrdMap.mem_values_iff.mpr ⟨id, hold⟩)
  · obtain ⟨id, hid⟩ := OrdMap.mem_values_iff.mp hb
    rcases hget id b hid with ⟨-, rfl⟩ | hold
    · exact hs
    · exact h.noNul b (OrdMap.mem_values_iff.mpr ⟨id, hold⟩)

theorem marked_mark_self (v : BoundsHandle) (s : SourceId) (p : Option String)
    (updatedAt : String) : Marked (v.mark s p updatedAt) s p := by
  have hget : (v.mark s p updatedAt).dirty.get?
      (repoActivityBoundsBucketId s (repoActivityProjectKey p)) =
        some (repoActivityBoundsBucket s p updatedAt) :=
    (OrdMap.get?_set _ _ _ _).trans (if_pos rfl)
  exact ⟨_, OrdMap.mem_values_iff.mpr ⟨_, hget⟩, rfl, rfl⟩

/-- A mark takes the place of no mark but its repository's own. -/
theorem Marked.mark (h : WellMarked v) (hs : NoNul s) (hm : Marked v sourceId projectPath) :
    Marked (v.mark s p updatedAt) sourceId projectPath := by
  obtain ⟨b, hb, rfl, rfl⟩ := hm
  obtain ⟨id, hid⟩ := OrdMap.mem_values_iff.mp hb
  by_cases hsame : id = repoActivityBoundsBucketId s (repoActivityProjectKey p)
  · obtain ⟨hsource, hkey⟩ := repoActivityBoundsBucketId_inj (h.noNul b hb) hs
      ((h.id id b hid).symm.trans hsame)
    have hpath := repoActivityProjectKey_inj ((h.key b hb).symm.trans hkey)
    rw [hsource, hpath]
    exact marked_mark_self v s p updatedAt
  · refine ⟨b, OrdMap.mem_values_iff.mpr ⟨id, ?_⟩, rfl, rfl⟩
    exact (OrdMap.get?_set _ _ _ _).trans ((if_neg (Ne.symm hsame)).trans hid)

end Marks

/-! ## A write -/

/-- An activity as the providers give it: its source id is a text without
NUL, and its timestamp is an instant. -/
structure TimedActivity where
  activity : CanonicalActivity
  noNul : NoNul activity.sourceId
  timed : ∃ ms, dateParse activity.occurredAt = some ms

section Write

variable {t : ActivityTables} {v : BoundsHandle} {nowIso : String} {sourceId : SourceId}
variable {projectPath : Option String}

theorem get?_writeActivity (a : CanonicalActivity) (k : ItemEndpoint) :
    (t.writeActivity a nowIso).activities.get? k =
      if (⟨a.sourceId, a.externalId⟩ : ItemEndpoint) = k then
        some ⟨a, ((t.activities.get? ⟨a.sourceId, a.externalId⟩).map (·.firstSeenAt)).getD nowIso,
          nowIso⟩
      else t.activities.get? k := by
  rw [ActivityTables.writeActivity, OrdMap.get?_upsert]

/-- The repositories a write touches. -/
def Touches (t : ActivityTables) (a : CanonicalActivity) (sourceId : SourceId)
    (projectPath : Option String) : Prop :=
  a.sourceId = sourceId ∧ (a.projectPath = projectPath ∨ t.projectPathOf a = some projectPath)

/-- The instants of every other repository are as they were. -/
theorem repoInstants_writeActivity {a : CanonicalActivity}
    (h : ¬ Touches t a sourceId projectPath) :
    repoInstants (t.writeActivity a nowIso) sourceId projectPath =
      repoInstants t sourceId projectPath := by
  ext ms
  simp only [repoInstants, Set.mem_ofPred_eq, get?_writeActivity]
  constructor
  · rintro ⟨k, row, hk, hsource, hpath, hms⟩
    split at hk
    · next hkey =>
      obtain rfl := Option.some.inj hk
      obtain rfl := hkey
      exact absurd ⟨hsource, Or.inl hpath⟩ h
    · exact ⟨k, row, hk, hsource, hpath, hms⟩
  · rintro ⟨k, row, hk, hsource, hpath, hms⟩
    refine ⟨k, row, ?_, hsource, hpath, hms⟩
    rw [if_neg]
    · exact hk
    · -- the activity's own row was in a repository the write touches
      rintro rfl
      refine h ⟨hsource, Or.inr ?_⟩
      rw [ActivityTables.projectPathOf, hk, Option.map_some, hpath]

theorem wellMarked_markTouched {a : CanonicalActivity} (hv : WellMarked v) (ha : NoNul a.sourceId)
    (prev : Option (Option String)) : WellMarked (BoundsDriver.markTouched a prev nowIso v) := by
  have hmark : WellMarked (v.mark a.sourceId a.projectPath nowIso) := wellMarked_mark hv ha
  unfold BoundsDriver.markTouched
  cases prev with
  | none => exact hmark
  | some path =>
    by_cases hpath : path ≠ a.projectPath
    · simp only [if_pos hpath]
      exact wellMarked_mark hmark ha
    · simp only [if_neg hpath]
      exact hmark

/-- Every mark is kept. -/
theorem Marked.markTouched {a : CanonicalActivity} (hv : WellMarked v) (ha : NoNul a.sourceId)
    (prev : Option (Option String)) (h : Marked v sourceId projectPath) :
    Marked (BoundsDriver.markTouched a prev nowIso v) sourceId projectPath := by
  have hmark : Marked (v.mark a.sourceId a.projectPath nowIso) sourceId projectPath :=
    h.mark hv ha
  unfold BoundsDriver.markTouched
  cases prev with
  | none => exact hmark
  | some path =>
    by_cases hpath : path ≠ a.projectPath
    · simp only [if_pos hpath]
      exact hmark.mark (wellMarked_mark hv ha) ha
    · simp only [if_neg hpath]
      exact hmark

/-- What is touched is marked. -/
theorem marked_markTouched {a : CanonicalActivity} (hv : WellMarked v) (ha : NoNul a.sourceId)
    (h : Touches t a sourceId projectPath) :
    Marked (BoundsDriver.markTouched a (t.projectPathOf a) nowIso v) sourceId projectPath := by
  obtain ⟨rfl, hpath⟩ := h
  have hself := marked_mark_self v a.sourceId a.projectPath nowIso
  unfold BoundsDriver.markTouched
  cases hprev : t.projectPathOf a with
  | none =>
    rw [hprev] at hpath
    obtain rfl := hpath.resolve_right (Option.some_ne_none projectPath).symm
    exact hself
  | some path =>
    rw [hprev] at hpath
    by_cases hne : path ≠ a.projectPath
    · simp only [if_pos hne]
      rcases hpath with rfl | hmoved
      · exact hself.mark (wellMarked_mark hv ha) ha
      · obtain rfl := Option.some.inj hmoved
        exact marked_mark_self _ a.sourceId path nowIso
    · simp only [if_neg hne]
      rcases hpath with rfl | hmoved
      · exact hself
      · obtain rfl := Option.some.inj hmoved
        rw [not_not.mp hne]
        exact hself

/-- The tables and the handle of one connection, between statements. -/
structure Working (t : ActivityTables) (v : BoundsHandle) : Prop where
  exact : ExactUpTo v.dirty.values t
  marks : WellMarked v

/-- A write leaves no repository inexact without a mark. -/
theorem working_writeActivity (h : Working t v) (a : TimedActivity) :
    Working (t.writeActivity a.activity nowIso)
      (BoundsDriver.markTouched a.activity (t.projectPathOf a.activity) nowIso v) := by
  refine ⟨⟨fun k row hk => ?_, fun sourceId projectPath => ?_, h.exact.keys⟩,
    wellMarked_markTouched h.marks a.noNul _⟩
  · rw [get?_writeActivity] at hk
    split at hk
    · obtain rfl := Option.some.inj hk
      exact a.timed
    · exact h.exact.timed k row hk
  · by_cases htouched : Touches t a.activity sourceId projectPath
    · exact Or.inr (marked_markTouched h.marks a.noNul htouched)
    · rcases h.exact.repos sourceId projectPath with hat | hmarked
      · unfold BoundsAt at hat ⊢
        rw [repoInstants_writeActivity htouched]
        exact Or.inl hat
      · exact Or.inr (Marked.markTouched h.marks a.noNul _ hmarked)

end Write

/-! ## A call -/

namespace BoundsDriver

open Session

variable (driver : BoundsDriver)

/-- What a flush leaves. -/
def flushed (s : ActivityTables × BoundsHandle) : ActivityTables × BoundsHandle :=
  (s.2.dirty.values.foldl driver.refreshed s.1, { s.2 with dirty := OrdMap.empty })

/-- What a write leaves. -/
def upserted (a : CanonicalActivity) (nowIso : String) (s : ActivityTables × BoundsHandle) :
    ActivityTables × BoundsHandle :=
  let written := (s.1.writeActivity a nowIso, markTouched a (s.1.projectPathOf a) nowIso s.2)
  if s.2.inTransaction then written else driver.flushed written

section Runs

variable {driver : BoundsDriver} {faults : ℕ → Option (Fault ActivityTables)}
variable {t : ActivityTables} {v : BoundsHandle}

theorem runs_refresh (bucket : RepoActivityBoundsBucket) :
    Runs faults (refreshRepoActivityBounds driver faults bucket) t v ()
      (driver.refreshed t bucket) v := by
  refine runs_bind (runs_statement _ t v) ?_
  unfold refreshed
  cases driver.boundsOf (t.activityRows bucket) with
  | none => exact runs_statement _ t v
  | some row => exact runs_statement _ t v

theorem runs_flush : Runs faults (flushRepoActivityBoundsDirty driver faults) t v ()
    (driver.flushed (t, v)).1 (driver.flushed (t, v)).2 := by
  refine runs_bind (runs_vars t v) (runs_bind (runs_assign _ t v) ?_)
  have hloop : ∀ (buckets : List RepoActivityBoundsBucket) (t : ActivityTables)
      (v : BoundsHandle), Runs faults (buckets.forM (refreshRepoActivityBounds driver faults)) t v ()
        (buckets.foldl driver.refreshed t) v := by
    intro buckets
    induction buckets with
    | nil => exact fun t v => runs_pure () t v
    | cons bucket buckets ih => exact fun t v => runs_bind (runs_refresh bucket) (ih _ v)
  exact hloop _ _ _

theorem markTouched_inTransaction (a : CanonicalActivity) (prev : Option (Option String))
    (nowIso : String) : (markTouched a prev nowIso v).inTransaction = v.inTransaction := by
  unfold markTouched
  cases prev with
  | none => rfl
  | some path => by_cases hpath : path ≠ a.projectPath <;> simp [hpath, BoundsHandle.mark]

theorem runs_upsert (a : CanonicalActivity) (nowIso : String) :
    Runs faults (upsertActivity driver faults a nowIso) t v ()
      (driver.upserted a nowIso (t, v)).1 (driver.upserted a nowIso (t, v)).2 := by
  refine runs_bind (runs_statement _ t v) (runs_bind (runs_statement _ t v)
    (runs_bind (runs_assign _ _ v) (runs_bind (runs_vars _ _) ?_)))
  rw [markTouched_inTransaction]
  unfold upserted
  cases hv : v.inTransaction with
  | true =>
    simp only [if_pos]
    exact runs_pure () _ _
  | false =>
    simp only [Bool.false_eq_true, if_false]
    exact runs_flush

end Runs

variable {driver : BoundsDriver} {t : ActivityTables} {v : BoundsHandle}

theorem wellMarked_empty (inTransaction : Bool) : WellMarked ⟨OrdMap.empty, inTransaction⟩ := by
  refine ⟨fun id b h => ?_, fun b h => ?_, fun b h => ?_⟩
  · cases h
  · cases h
  · cases h

theorem working_flushed (h : Working t v) :
    Working (driver.flushed (t, v)).1 (driver.flushed (t, v)).2 :=
  ⟨exactBounds_flushed h.marks.key h.exact, wellMarked_empty v.inTransaction⟩

theorem working_upserted (h : Working t v) (a : TimedActivity) (nowIso : String) :
    Working (driver.upserted a.activity nowIso (t, v)).1
      (driver.upserted a.activity nowIso (t, v)).2 := by
  have hwritten := @working_writeActivity _ _ nowIso h a
  unfold upserted
  cases hv : v.inTransaction with
  | true =>
    simp only [if_pos]
    exact hwritten
  | false =>
    simp only [Bool.false_eq_true, if_false]
    exact working_flushed hwritten

/-- Outside a transaction a write leaves no marks. -/
theorem upserted_outside (a : CanonicalActivity) (nowIso : String) (h : v.inTransaction = false) :
    (driver.upserted a nowIso (t, v)).2 = BoundsHandle.fresh := by
  simp only [upserted, flushed, h, Bool.false_eq_true, if_false, markTouched_inTransaction]
  rfl

end BoundsDriver

/-! ## A run -/

/-- A call of `upsertActivity`, with its clock. -/
structure BoundsCall where
  a : TimedActivity
  nowIso : String

/-- The calls of one transaction, and what its function throws after them. -/
def boundsCalls (driver : BoundsDriver) (faults : ℕ → Option (Fault ActivityTables))
    (calls : List BoundsCall) (throws : Option String) : BoundsSession Unit := do
  calls.forM fun call => driver.upsertActivity faults call.a.activity call.nowIso
  match throws with
  | none => pure ()
  | some msg => Session.raise msg

/-- A call by itself, or a transaction with its calls: the database may fail
any of its statements, and its function may throw. -/
inductive BoundsAction
  | upsertActivity (call : BoundsCall)
  | transaction (faults : ℕ → Option (Fault ActivityTables)) (calls : List BoundsCall)
      (throws : Option String)

/-- The connection, with the driver's handle. -/
abbrev BoundsState := SessionState ActivityTables BoundsHandle

/-- What an action does on a driver. -/
def BoundsAction.run (driver : BoundsDriver) (s : BoundsState) : BoundsAction → BoundsState
  | upsertActivity call =>
    (driver.upsertActivity (fun _ => none) call.a.activity call.nowIso s).2
  | transaction faults calls throws =>
    (driver.transaction faults (boundsCalls driver faults calls throws) s).2

/-- A new handle over empty tables. -/
def startBounds : BoundsState := ⟨⟨ActivityTables.empty, none⟩, 0, BoundsHandle.fresh⟩

/-- Between calls: no transaction, no marks, and exact bounds. -/
structure AtRest (s : BoundsState) : Prop where
  pending : s.db.pending = none
  vars : s.vars = BoundsHandle.fresh
  exact : ExactBounds s.db.committed

theorem atRest_startBounds : AtRest startBounds := by
  refine ⟨rfl, rfl, fun k row hk => ?_, fun sourceId projectPath => Or.inl ?_, fun k row hk => ?_⟩
  · cases hk
  · refine Set.eq_empty_iff_forall_notMem.mpr ?_
    rintro ms ⟨k, row, hk, -⟩
    cases hk
  · cases hk

namespace BoundsDriver

open Session

variable {driver : BoundsDriver} {faults : ℕ → Option (Fault ActivityTables)}

theorem working_of_atRest {s : BoundsState} (h : AtRest s) (inTransaction : Bool) :
    Working s.db.committed ⟨OrdMap.empty, inTransaction⟩ :=
  ⟨h.exact, wellMarked_empty inTransaction⟩

theorem atRest_upsert {s : BoundsState} (h : AtRest s) (call : BoundsCall) :
    AtRest ((BoundsAction.upsertActivity call).run driver s) := by
  have hview : s.db.view = s.db.committed := by rw [DbConnection.view, h.pending, Option.getD_none]
  have hworking := @working_upserted driver _ _ (working_of_atRest h false) call.a call.nowIso
  have hfresh := @upserted_outside driver s.db.committed BoundsHandle.fresh call.a.activity
    call.nowIso rfl
  rcases runs_upsert call.a.activity call.nowIso s hview h.vars with ⟨n, hrun⟩ | ⟨-, -, -, ⟨i, hi⟩, -⟩
  · have hdb : ∀ t, s.db.seeing t = ⟨t, none⟩ := fun t => by rw [DbConnection.seeing, h.pending]
    have hexact := hworking.exact
    unfold BoundsHandle.fresh at hfresh
    rw [hfresh] at hexact
    rw [BoundsAction.run, hrun, hdb]
    exact ⟨rfl, hfresh, hexact⟩
  · exact absurd rfl hi

/-- What the calls of a transaction leave of the tables and of the marks. -/
def called (driver : BoundsDriver) (calls : List BoundsCall) (s : ActivityTables × BoundsHandle) :
    ActivityTables × BoundsHandle :=
  calls.foldl (fun s call => driver.upserted call.a.activity call.nowIso s) s

theorem working_called {t : ActivityTables} {v : BoundsHandle} (h : Working t v)
    (calls : List BoundsCall) :
    Working (called driver calls (t, v)).1 (called driver calls (t, v)).2 := by
  induction calls generalizing t v with
  | nil => exact h
  | cons call calls ih => exact ih (working_upserted h call.a call.nowIso)

/-- Up to `COMMIT`: either it has committed exact bounds, and the marks are
gone; or something threw, and what is committed is what was. -/
theorem transactionBody_outcome {t : ActivityTables} {v : BoundsHandle} (h : Working t v) (n : ℕ)
    (calls : List BoundsCall) (throws : Option String) :
    (∃ t' n' v', driver.transactionBody faults (boundsCalls driver faults calls throws)
        ⟨⟨t, some t⟩, n, v⟩ = (.ok (), ⟨⟨t', none⟩, n', v'⟩) ∧ ExactBounds t' ∧
        v'.dirty = OrdMap.empty) ∨
    ∃ msg s', driver.transactionBody faults (boundsCalls driver faults calls throws)
        ⟨⟨t, some t⟩, n, v⟩ = (.error msg, s') ∧ s'.db.committed = t := by
  have hcalls : Runs faults
      (calls.forM fun call => driver.upsertActivity faults call.a.activity call.nowIso) t v ()
      (called driver calls (t, v)).1 (called driver calls (t, v)).2 :=
    runs_forM (fun call t v => runs_upsert call.a.activity call.nowIso) calls t v
  have hworking := @working_called driver _ _ h calls
  generalize hleft : called driver calls (t, v) = left at hcalls hworking
  obtain ⟨t', v'⟩ := left
  -- the callback throws, or a statement fails, or the flush does, or the commit
  cases throws with
  | some msg =>
    right
    rcases hcalls ⟨⟨t, some t⟩, n, v⟩ rfl rfl with ⟨n', hrun⟩ | ⟨msg', s', hrun, -, hkept⟩
    · exact ⟨msg, _, bind_run_error (bind_run_ok hrun), rfl⟩
    · exact ⟨msg', s', bind_run_error (bind_run_error hrun), hkept (Option.some_ne_none t)⟩
  | none =>
    have hbody : Runs faults (boundsCalls driver faults calls none) t v () t' v' :=
      runs_bind hcalls (runs_pure () t' v')
    rcases hbody ⟨⟨t, some t⟩, n, v⟩ rfl rfl with ⟨n', hrun⟩ | ⟨msg, s', hrun, -, hkept⟩
    swap
    · exact Or.inr ⟨msg, s', bind_run_error hrun, hkept (Option.some_ne_none t)⟩
    have hflush : Runs faults (flushRepoActivityBoundsDirty driver faults) t' v' ()
        (driver.flushed (t', v')).1 (driver.flushed (t', v')).2 := runs_flush
    rcases hflush ⟨⟨t, some t'⟩, n', v'⟩ rfl rfl with ⟨m, hrun'⟩ | ⟨msg, s', hrun', -, hkept⟩
    swap
    · exact Or.inr ⟨msg, s', (bind_run_ok hrun).trans (bind_run_error hrun'),
        hkept (Option.some_ne_none t')⟩
    have hexact := (@working_flushed driver _ _ hworking).exact
    have hflushed : (DbConnection.mk t (some t')).seeing (driver.flushed (t', v')).1 =
        ⟨t, some (driver.flushed (t', v')).1⟩ := rfl
    rw [hflushed] at hrun'
    cases hf : faults m with
    | none =>
      left
      refine ⟨(driver.flushed (t', v')).1, m + 1, (driver.flushed (t', v')).2,
        (bind_run_ok hrun).trans ((bind_run_ok hrun').trans ?_), hexact, rfl⟩
      simp only [commit, hf]
    | some fault =>
      right
      refine ⟨fault.message,
        ⟨⟨t, fault.leaves (driver.flushed (t', v')).1⟩, m + 1, (driver.flushed (t', v')).2⟩,
        (bind_run_ok hrun).trans ((bind_run_ok hrun').trans ?_), rfl⟩
      simp only [commit, hf]
      rfl

/-- A throw closes the transaction, whether or not the database already
has. -/
theorem abandon_run (outside : BoundsHandle) (msg : String) (s : BoundsState) :
    (abandon outside msg s).2 = ⟨⟨s.db.committed, none⟩, s.statements, outside⟩ := by
  obtain ⟨⟨committed, pending⟩, n, v⟩ := s
  cases pending <;> rfl

theorem atRest_transaction {s : BoundsState} (h : AtRest s)
    (calls : List BoundsCall) (throws : Option String) :
    AtRest ((BoundsAction.transaction faults calls throws).run driver s) := by
  obtain ⟨⟨t, pending⟩, n, v⟩ := s
  obtain ⟨hpending, hvars, hexact⟩ := h
  subst hpending hvars
  rw [BoundsAction.run]
  cases hf : faults n with
  | some fault =>
    have hopen : open_ faults ⟨⟨t, none⟩, n, BoundsHandle.fresh⟩ =
        (.error fault.message, ⟨⟨t, none⟩, n + 1, BoundsHandle.fresh⟩) := by
      simp only [open_, hf]
    unfold transaction
    rw [bind_run_error hopen]
    exact ⟨rfl, rfl, hexact⟩
  | none =>
    have hopen : open_ faults ⟨⟨t, none⟩, n, BoundsHandle.fresh⟩ =
        (.ok (), ⟨⟨t, some t⟩, n + 1, BoundsHandle.fresh⟩) := by
      simp only [open_, hf]
    -- both drivers start on a handle without marks
    have hstart : driver.transaction faults (boundsCalls driver faults calls throws)
        ⟨⟨t, none⟩, n, BoundsHandle.fresh⟩ =
          let ended := driver.transactionBody faults
            (boundsCalls driver faults calls throws) ⟨⟨t, some t⟩, n + 1, ⟨OrdMap.empty, true⟩⟩
          driver.endTransaction BoundsHandle.fresh ended.1 ended.2 := by
      refine (bind_run_ok hopen).trans ((bind_run_ok rfl).trans ?_)
      cases driver with
      | sqlite => exact (bind_run_ok rfl).trans (bind_run_ok (attempt_run _ _))
      | postgres heap => exact (bind_run_ok rfl).trans (bind_run_ok (attempt_run _ _))
    have hworking : Working t ⟨OrdMap.empty, true⟩ := ⟨hexact, wellMarked_empty true⟩
    rw [hstart]
    rcases transactionBody_outcome hworking (n + 1) calls throws with
      ⟨t', n', v', hrun, hexact', hdirty⟩ | ⟨msg, s', hrun, hkept⟩
    · rw [hrun]
      cases driver with
      | sqlite => exact ⟨rfl, by rw [BoundsHandle.fresh, ← hdirty]; rfl, hexact'⟩
      | postgres heap => exact ⟨rfl, rfl, hexact'⟩
    · rw [hrun]
      have hend : (driver.endTransaction BoundsHandle.fresh (.error msg) s').2 =
          ⟨⟨t, none⟩, s'.statements, BoundsHandle.fresh⟩ := by
        rw [← hkept, ← abandon_run BoundsHandle.fresh msg s']
        cases driver <;> rfl
      change AtRest (driver.endTransaction BoundsHandle.fresh (.error msg) s').2
      rw [hend]
      exact ⟨rfl, rfl, hexact⟩

/-- **The bounds are exact.** After any calls and transactions, whichever of
their statements fail and whatever the transactions' functions throw, no
transaction is left open and the bounds of every repository are those of its
stored activities; so with either driver. -/
theorem repoActivityBounds_exact (driver : BoundsDriver) (actions : List BoundsAction) :
    let s := actions.foldl (BoundsAction.run driver) startBounds
    s.db.pending = none ∧ ExactBounds s.db.committed := by
  have hrun : ∀ s, AtRest s → AtRest (actions.foldl (BoundsAction.run driver) s) := by
    induction actions with
    | nil => exact fun s h => h
    | cons action actions ih =>
      intro s h
      cases action with
      | upsertActivity call => exact ih _ (atRest_upsert h call)
      | transaction faults calls throws => exact ih _ (atRest_transaction h calls throws)
  have hrest := hrun startBounds atRest_startBounds
  exact ⟨hrest.pending, hrest.exact⟩

end BoundsDriver

/-! ### A commit that moves -/

namespace MovedActivity

/-- A GitHub source. -/
def github : SourceId := ⟨"github:github.com", noBarGithub⟩

/-- A commit of a project. -/
def commit (externalId projectPath occurredAt : String)
    (timed : ∃ ms, dateParse occurredAt = some ms) : TimedActivity where
  activity :=
    { sourceId := github, externalId, kind := "commit", action := "pushed"
      projectPath := some projectPath, targetKind := none, target := none, targetIid := none
      title := none, url := none, actor := none, occurredAt }
  noNul := (by decide : '\x00' ∉ github.val.toList)
  timed := timed

/-- A commit is written. -/
def call (externalId projectPath occurredAt : String)
    (timed : ∃ ms, dateParse occurredAt = some ms) : BoundsCall :=
  ⟨commit externalId projectPath occurredAt timed, "2026-03-03T00:00:00.000Z"⟩

/-- The table from its end. -/
def reversed : HeapOrder := ⟨List.reverse, List.reverse_perm⟩

/-- A first commit. -/
def first : BoundsAction := .upsertActivity (call "a" "acme/app" "2026-03-01T10:00:00Z" ⟨_, rfl⟩)

/-- A commit by itself; a transaction that writes one more and moves the
first to another repository; one with a statement that fails; and one whose
function throws. -/
def actions : List BoundsAction :=
  [first,
    .transaction (fun _ => none)
      [call "b" "acme/app" "2026-03-02T10:00:00Z" ⟨_, rfl⟩,
        call "a" "acme/lib" "2026-03-01T10:00:00Z" ⟨_, rfl⟩] none,
    .transaction (fun n => if n = 16 then some ⟨"disk I/O error", some⟩ else none)
      [call "c" "acme/app" "2026-02-01T10:00:00Z" ⟨_, rfl⟩] none,
    .transaction (fun _ => none) [call "d" "acme/lib" "2026-03-05T10:00:00Z" ⟨_, rfl⟩]
      (some "stop")]

/-- **The same for these four**, on each driver; the first of them leaves
the row of its repository. -/
theorem repoActivityBounds_exact_moved :
    (∀ driver ∈ [BoundsDriver.sqlite, .postgres reversed],
      ExactBounds (actions.foldl (BoundsAction.run driver) startBounds).db.committed) ∧
    ((BoundsAction.run (.postgres reversed) startBounds first).db.committed.bounds.entries.map
      fun row => (row.1.2, row.2.observedSince, row.2.lastActivityAt)) =
        [("path:acme/app", "2026-03-01T10:00:00Z", "2026-03-01T10:00:00Z")] :=
  ⟨fun driver _ => (BoundsDriver.repoActivityBounds_exact driver actions).2, by decide +kernel⟩

end MovedActivity

end SymphonyBoard
