import SymphonyBoard.Common.GraphqlTokens
import SymphonyBoard.Model.TrackerGrammar
import SymphonyBoard.Sources.GitHub.Fetch
/-!
# Looking up what a tracker names

`trackerRefTargets`, `resolveTrackerRefs` and `trackerEdges` of
`src/sources/github.ts`. The text of an issue's body decides what is looked
up (`trackerRefTargets_spec`) and, when the payload is normalized, what the
answers are read for (`get?_resolveBatches`).
-/

namespace SymphonyBoard

/-! ## References -/

/-- The canonical text of a reference, `owner/repo#N`. -/
def trackerRefKey (ref : TrackerRef) (ownProject : Option String) : Option String :=
  let project := match ref.owner, ref.repo with
    | some owner, some repo => some (owner ++ "/" ++ repo)
    | _, _ => ownProject
  match project with
  | some project => if project = "" then none else some (project ++ "#" ++ toString ref.number)
  | none => none

namespace GitHub

/-- `TRACKER_REF_MAX`: the distinct references looked up in a run. -/
def trackerRefMax : ℕ := 200

/-- `TRACKER_REF_BATCH`: the lookups in one query. -/
def trackerRefBatch : ℕ := 50

/-- `GRAPHQL_INT_MAX`: the largest number the API's `Int!` takes. -/
def graphqlIntMax : ℕ := 2147483647

/-- A reference to look up. -/
structure TrackerRefTarget where
  key : String
  owner : String
  name : String
  number : ℕ
deriving DecidableEq

/-- `[1-9][0-9]*$`. -/
def keyNumber : List Char → Option ℕ
  | [] => none
  | d :: ds =>
    if d ≠ '0' ∧ (d :: ds).all Char.isDigit = true then some (Nat.ofDigitChars 10 (d :: ds) 0)
    else none

/-- `TRACKER_REF_KEY`: the owner, the name and the number. -/
def trackerRefKeyParts (key : List Char) : Option (List Char × List Char × ℕ) :=
  match key.takeWhile isNameChar, key.dropWhile isNameChar with
  | o :: owner, '/' :: cs =>
    match cs.takeWhile isNameChar, cs.dropWhile isNameChar with
    | n :: name, '#' :: ds => (keyNumber ds).map fun number => (o :: owner, n :: name, number)
    | _, _ => none
  | _, _ => none

/-! ## Targets -/

section Targets

variable (lower : String → String) (tracked : List String) (ownProject : Option String)

/-- The repository is the issue's own or a tracked one. `lower` is
`toLowerCase`. -/
def IsLookedUp (owner name : String) : Prop :=
  ownProject.map lower = some (lower (owner ++ "/" ++ name)) ∨ lower (owner ++ "/" ++ name) ∈ tracked

instance (owner name : String) : Decidable (IsLookedUp lower tracked ownProject owner name) :=
  inferInstanceAs (Decidable (_ ∨ _))

/-- The target a row names, if it may be looked up. -/
def targetOfRow (row : TrackerRow) : Option TrackerRefTarget := do
  let key ← row.ref.bind fun ref => trackerRefKey ref ownProject
  let (owner, name, number) ← trackerRefKeyParts key.toList
  let owner := String.ofList owner
  let name := String.ofList name
  if number > graphqlIntMax then none
  else if IsLookedUp lower tracked ownProject owner name then some { key, owner, name, number }
  else none

/-- The targets of the rows, until there are enough. -/
def collectTargets :
    List TrackerRow → OrdMap String TrackerRefTarget → OrdMap String TrackerRefTarget
  | [], targets => targets
  | row :: rows, targets =>
    if trackerRefMax ≤ targets.entries.length then targets
    else
      match targetOfRow lower tracked ownProject row with
      | none => collectTargets rows targets
      | some target => collectTargets rows (targets.set target.key target)

end Targets

/-- The rows of a body, if it is a text. -/
def Node.trackerRows (node : Node) : List TrackerRow := (node.body.map parseTrackerRows).getD []

/-- The repository the node's own rows are about. -/
def Node.ownProject (node : Node) : Option String := cleanText node.nameWithOwner

/-- The distinct references of one node's tables that are in a tracked repository. -/
def trackerRefTargets (lower : String → String) (tracked : List String) (node : Node) :
    List TrackerRefTarget :=
  (collectTargets lower tracked node.ownProject node.trackerRows .empty).values

/-! ## The query -/

/-- The alias a lookup has in its query. -/
def lookupAlias (i : ℕ) : String := "t" ++ toString i

/-- One lookup of the query. -/
def trackerLookup (i : ℕ) (t : TrackerRefTarget) : String :=
  "  " ++ lookupAlias i ++ ": repository(owner:\"" ++ t.owner ++ "\", name:\"" ++ t.name ++
    "\") \x7b issueOrPullRequest(number:" ++ toString t.number ++
    ") \x7b __typename ... on Issue \x7b id state \x7d ... on PullRequest \x7b id state \x7d \x7d \x7d"

/-- The query of one batch. -/
def trackerRefsQuery (targets : List TrackerRefTarget) : String :=
  "query TrackerRefs \x7b\n  rateLimit \x7b cost remaining used resetAt \x7d\n" ++
    "\n".intercalate (targets.mapIdx trackerLookup) ++ "\n\x7d"

/-! ## The lookups -/

/-- What is reported for one lookup. -/
structure TrackerHit where
  id : Option String
  state : Option String

/-- How a query ends: with data, with errors of some types beside the data,
or without an answer. -/
inductive GqlAnswer
  | data (hits : String → Option TrackerHit)
  | responseError (types : List String) (hits : String → Option TrackerHit) (message : String)
  | failed (message : String)

/-- The errors that say of an item that it cannot be resolved, not that the lookup failed. -/
def unresolvableTarget : List String := ["NOT_FOUND", "FORBIDDEN"]

/-- `gqlAllowingUnresolvable`: where every error is about a target, the data
is the answer. -/
def GqlAnswer.hits : GqlAnswer → Except String (String → Option TrackerHit)
  | .data hits => .ok hits
  | .responseError types hits message =>
    if types ≠ [] ∧ types.all (· ∈ unresolvableTarget) = true then .ok hits else .error message
  | .failed message => .error message

/-- The slices of the targets that share a query. -/
def targetBatches (targets : List TrackerRefTarget) : List (List TrackerRefTarget) :=
  (List.range ((targets.length + trackerRefBatch - 1) / trackerRefBatch)).map fun b =>
    (targets.drop (trackerRefBatch * b)).take trackerRefBatch

/-- What is stored for the target at a place of a batch. -/
def storedHit (hits : String → Option TrackerHit) (p : TrackerRefTarget × ℕ) :
    Option (String × RefNode) :=
  match hits (lookupAlias p.2) with
  | some ⟨some id, state⟩ => if id = "" then none else some (p.1.key, ⟨id, state⟩)
  | _ => none

/-- The references found, once a batch has been answered. -/
def storeHits (hits : String → Option TrackerHit) (batch : List TrackerRefTarget)
    (refs : OrdMap String RefNode) : OrdMap String RefNode :=
  (batch.zipIdx.filterMap (storedHit hits)).foldl (fun refs p => refs.set p.1 p.2) refs

/-- The batches, one query each, as long as they are answered. `answer` is
how the query of a number ends; the queries sent are listed. -/
def resolveBatches (answer : ℕ → String → GqlAnswer) :
    ℕ → List (List TrackerRefTarget) → OrdMap String RefNode →
      List String × Except String (OrdMap String RefNode)
  | _, [], refs => ([], .ok refs)
  | n, batch :: batches, refs =>
    let query := trackerRefsQuery batch
    match (answer n query).hits with
    | .error message => ([query], .error message)
    | .ok hits =>
      let rest := resolveBatches answer (n + 1) batches (storeHits hits batch refs)
      (query :: rest.1, rest.2)

/-- The queries a tracker is looked up with, and what its payload gets. -/
def lookUpTrackerRefs (lower : String → String) (tracked : List String)
    (answer : ℕ → String → GqlAnswer) (node : Node) :
    List String × Except String (Option TrackerRefs) :=
  let targets := trackerRefTargets lower tracked node
  if targets = [] then ([], .ok none)
  else
    let run := resolveBatches answer 0 (targetBatches targets) .empty
    (run.1, run.2.map fun refs => some refs.entries)

/-! ## The edges -/

/-- What a reference was resolved to, as the payload stores it. -/
def storedTarget (refs : TrackerRefs) (ownProject : Option String) (ref : TrackerRef) :
    Option TrackerTarget :=
  (trackerRefKey ref ownProject).bind fun key =>
    (OrdMap.lookupEntry key refs).bind fun hit =>
      if hit.id = "" then none else some ⟨hit.id, hit.state.map fun s => mapState (some s)⟩

/-- `trackerEdges` of the source. -/
def tableEdges (node : Node) (self : ItemEndpoint) (selfState : ItemState) : List CanonicalEdge :=
  match node.trackerRefs with
  | none => []
  | some refs =>
    ((trackerEdges node.trackerRows self (some selfState)
      (storedTarget refs node.ownProject)).map (·.edges)).getD []

/-- Every one starts in the tracker's source. -/
theorem tableEdges_own {node : Node} {self : ItemEndpoint} {selfState : ItemState}
    {e : CanonicalEdge} (h : e ∈ tableEdges node self selfState) :
    e.fromEnd.sourceId = self.sourceId := by
  unfold tableEdges at h
  split at h
  · cases h
  · rename_i refs _
    obtain ⟨r, hr, hyields⟩ := yields_of_trackerEdges node.trackerRows self (some selfState)
      (storedTarget refs node.ownProject)
    rw [hr] at h
    obtain ⟨i, target, -, -, -, ⟨-, hfrom, -⟩ | ⟨-, dep, blocker, -, -, hfrom, -⟩⟩ :=
      hyields.edges e h
    · rw [hfrom]
    · rw [hfrom]

/-! ## What is looked up -/

section Targets

variable {lower : String → String} {tracked : List String} {ownProject : Option String}
variable {key owner name ds : List Char} {n : ℕ} {row : TrackerRow} {t : TrackerRefTarget}

theorem toList_toString (n : ℕ) : (toString n).toList = Nat.toDigits 10 n :=
  String.toList_ofList

theorem keyNumber_eq_some (h : keyNumber ds = some n) :
    (∀ c ∈ ds, c.isDigit = true) ∧ n = Nat.ofDigitChars 10 ds 0 ∧ 1 ≤ n := by
  cases ds with
  | nil => cases h
  | cons d ds =>
    rw [keyNumber] at h
    split at h
    · rename_i hdigits
      obtain ⟨hzero, hall⟩ := hdigits
      obtain rfl := Option.some.inj h
      rw [List.all_eq_true] at hall
      obtain ⟨hd, hds⟩ := List.forall_mem_cons.mp hall
      have hdigit := toNat_of_isDigit hd
      have hne : d.toNat ≠ '0'.toNat := fun heq => hzero (Char.toNat_inj.mp heq)
      have hpos : 1 ≤ 10 * 0 + (d.toNat - '0'.toNat) := by
        have hzero : '0'.toNat = 48 := rfl
        omega
      refine ⟨hall, rfl, ?_⟩
      rw [Nat.ofDigitChars_cons]
      exact Nat.le_trans (Nat.mul_pos (Nat.pow_pos (by decide)) hpos) (ofDigitChars_bounds hds _).1
    · cases h

theorem takeWhile_append_of_dropWhile {q : Char → Bool} {cs xs ys : List Char}
    (htake : cs.takeWhile q = xs) (hdrop : cs.dropWhile q = ys) : cs = xs ++ ys := by
  rw [← htake, ← hdrop, List.takeWhile_append_dropWhile]

theorem trackerRefKeyParts_eq_some (h : trackerRefKeyParts key = some (owner, name, n)) :
    IsRefName (String.ofList owner) ∧ IsRefName (String.ofList name) ∧
      ∃ ds, key = owner ++ '/' :: (name ++ '#' :: ds) ∧ keyNumber ds = some n := by
  unfold trackerRefKeyParts at h
  split at h
  · rename_i o os cs howner hslash
    split at h
    · rename_i m ms ds hname hhash
      obtain ⟨number, hnumber, hparts⟩ := Option.map_eq_some_iff.mp h
      obtain ⟨rfl, hrest⟩ := Prod.mk.inj hparts
      obtain ⟨rfl, rfl⟩ := Prod.mk.inj hrest
      have hcs := takeWhile_append_of_dropWhile hname hhash
      exact ⟨isRefName_cons howner, isRefName_cons hname, ds,
        hcs ▸ takeWhile_append_of_dropWhile howner hslash, hnumber⟩
    · cases h
  · cases h

/-- What a lookup is confined to. -/
structure TrackerRefTarget.Confined (lower : String → String) (tracked : List String)
    (ownProject : Option String) (t : TrackerRefTarget) : Prop where
  names : IsRefName t.owner ∧ IsRefName t.name
  number : 1 ≤ t.number ∧ t.number ≤ graphqlIntMax
  key : t.key = t.owner ++ "/" ++ t.name ++ "#" ++ toString t.number
  scope : IsLookedUp lower tracked ownProject t.owner t.name

/-- A canonical text ends with the number of its reference. -/
theorem trackerRefKey_eq_some {ref : TrackerRef} {text : String}
    (h : trackerRefKey ref ownProject = some text) :
    ∃ project, text.toList = project ++ '#' :: Nat.toDigits 10 ref.number := by
  unfold trackerRefKey at h
  simp only at h
  split at h
  · rename_i project hproject
    split at h
    · cases h
    · obtain rfl := Option.some.inj h
      refine ⟨project.toList, ?_⟩
      rw [String.toList_append, String.toList_append, toList_toString, List.append_assoc]
      rfl
  · cases h

/-- **What a row makes looked up is confined**, whatever its text. -/
theorem confined_targetOfRow (h : targetOfRow lower tracked ownProject row = some t) :
    t.Confined lower tracked ownProject ∧
      (row.ref.bind fun ref => trackerRefKey ref ownProject) = some t.key := by
  unfold targetOfRow at h
  obtain ⟨key, hkey, h⟩ := Option.bind_eq_some_iff.mp h
  obtain ⟨⟨owner, name, number⟩, hparts, h⟩ := Option.bind_eq_some_iff.mp h
  simp only at h
  split at h
  · cases h
  · rename_i hmax
    split at h
    · rename_i hscope
      obtain rfl := Option.some.inj h
      obtain ⟨howner, hname, ds, hkeyList, hnumber⟩ := trackerRefKeyParts_eq_some hparts
      obtain ⟨hdigits, hvalue, hpos⟩ := keyNumber_eq_some hnumber
      obtain ⟨ref, -, hrefKey⟩ := Option.bind_eq_some_iff.mp hkey
      obtain ⟨project, hproject⟩ := trackerRefKey_eq_some hrefKey
      have hnotHash : '#' ∉ owner ++ '/' :: name := by
        have hnot : ∀ part : List Char, IsRefName (String.ofList part) → '#' ∉ part := by
          intro part hpart hmem
          have hchar := hpart.2 '#' (by rwa [String.toList_ofList])
          cases hchar
        simp [hnot owner howner, hnot name hname]
      have hnotDigit : ∀ ds : List Char, (∀ c ∈ ds, c.isDigit = true) → '#' ∉ ds := by
        intro ds hds hmem
        cases hds '#' hmem
      -- the number behind the last mark is the one of the reference
      have hsplit : project ++ '#' :: Nat.toDigits 10 ref.number =
          (owner ++ '/' :: name) ++ '#' :: ds := by
        rw [← hproject, hkeyList]
        simp
      have htoDigits : ∀ c ∈ Nat.toDigits 10 ref.number, c.isDigit = true := fun c hc =>
        Nat.isDigit_of_mem_toDigits (by decide) (by decide) hc
      obtain ⟨-, -, hds⟩ := (List.append_cons_inj_of_notMem hnotHash
        (hnotDigit ds hdigits)).mp hsplit.symm
      refine ⟨⟨⟨howner, hname⟩, ⟨hpos, Nat.le_of_not_lt hmax⟩, ?_, hscope⟩, hkey⟩
      rw [hvalue, hds, Nat.ofDigitChars_toDigits (by decide) (by decide), ← String.toList_inj]
      simp only [String.toList_append, String.toList_ofList, toList_toString, hkeyList, hds,
        List.append_assoc]
      rfl
    · cases h

/-- What holds of no targets, and of one target more as long as there are not
enough, holds of those collected. -/
theorem collectTargets_induction {rows : List TrackerRow} {targets : OrdMap String TrackerRefTarget}
    {P : OrdMap String TrackerRefTarget → Prop}
    (hset : ∀ row ∈ rows, ∀ t m, targetOfRow lower tracked ownProject row = some t →
      m.entries.length < trackerRefMax → P m → P (m.set t.key t))
    (h : P targets) : P (collectTargets lower tracked ownProject rows targets) := by
  induction rows generalizing targets with
  | nil => exact h
  | cons row rows ih =>
    have hmore : ∀ row ∈ rows, ∀ t m, targetOfRow lower tracked ownProject row = some t →
        m.entries.length < trackerRefMax → P m → P (m.set t.key t) :=
      fun row hrow => hset row (List.mem_cons_of_mem _ hrow)
    unfold collectTargets
    split
    · exact h
    · rename_i hroom
      split
      · exact ih hmore h
      · rename_i t ht
        exact ih hmore (hset row List.mem_cons_self t targets ht (Nat.lt_of_not_le hroom) h)

theorem length_set_le {K V : Type*} [DecidableEq K] (m : OrdMap K V) (k : K) (v : V) :
    (m.set k v).entries.length ≤ m.entries.length + 1 := by
  have hupsert : ∀ l : List (K × V),
      (OrdMap.upsertEntry k (fun _ => v) l).length ≤ l.length + 1 := by
    intro l
    induction l with
    | nil => exact Nat.le_refl _
    | cons b l ih =>
      unfold OrdMap.upsertEntry
      split
      · simp
      · simpa using ih
  exact hupsert m.entries

/-- What is looked up for a row of the table. -/
structure NamedBy (lower : String → String) (tracked : List String) (node : Node)
    (t : TrackerRefTarget) : Prop where
  confined : t.Confined lower tracked node.ownProject
  row : ∃ row ∈ node.trackerRows,
    (row.ref.bind fun ref => trackerRefKey ref node.ownProject) = some t.key

/-- **The targets are bounded, distinct and confined**, whatever the body. -/
theorem trackerRefTargets_spec (lower : String → String) (tracked : List String) (node : Node) :
    (trackerRefTargets lower tracked node).length ≤ trackerRefMax ∧
      ((trackerRefTargets lower tracked node).map (·.key)).Nodup ∧
      ∀ t ∈ trackerRefTargets lower tracked node, NamedBy lower tracked node t := by
  have hlength : (collectTargets lower tracked node.ownProject node.trackerRows
      .empty).entries.length ≤ trackerRefMax := by
    refine collectTargets_induction (P := fun m => m.entries.length ≤ trackerRefMax)
      (fun row _ t m _ hroom _ => ?_) (Nat.zero_le _)
    exact Nat.le_trans (length_set_le m t.key t) hroom
  have hentries : ∀ b ∈ (collectTargets lower tracked node.ownProject node.trackerRows
      .empty).entries, b.2.key = b.1 ∧ NamedBy lower tracked node b.2 := by
    refine collectTargets_induction
      (P := fun m => ∀ b ∈ m.entries, b.2.key = b.1 ∧ NamedBy lower tracked node b.2)
      (fun row hrow t m ht _ hm => ?_) (fun b hb => absurd hb List.not_mem_nil)
    rintro ⟨k, v⟩ hb
    rw [OrdMap.mem_entries_iff, OrdMap.get?_set] at hb
    split at hb
    · rename_i hkey
      obtain rfl := Option.some.inj hb
      obtain ⟨hconfined, hrowKey⟩ := confined_targetOfRow ht
      exact ⟨hkey, hconfined, row, hrow, hrowKey⟩
    · exact hm (k, v) (OrdMap.mem_entries_iff.mpr hb)
  unfold trackerRefTargets OrdMap.values
  refine ⟨by rwa [List.length_map], ?_, fun t ht => ?_⟩
  · rw [List.map_map]
    have hkeys : (collectTargets lower tracked node.ownProject node.trackerRows .empty).entries.map
        ((fun t => t.key) ∘ Prod.snd) = (collectTargets lower tracked node.ownProject
          node.trackerRows .empty).entries.map Prod.fst :=
      List.map_congr_left fun b hb => (hentries b hb).1
    rw [hkeys]
    exact OrdMap.nodup _
  · obtain ⟨b, hb, rfl⟩ := List.mem_map.mp ht
    exact (hentries b hb).2

end Targets

/-! ## The query -/

section Query

variable {t : TrackerRefTarget} {targets : List TrackerRefTarget}

/-- What one lookup asks for. -/
def lookupTokens (i : ℕ) (t : TrackerRefTarget) : List GraphqlToken :=
  [.name (lookupAlias i).toList, .punct ':', .name "repository".toList, .punct '(',
    .name "owner".toList, .punct ':', .str t.owner.toList, .name "name".toList, .punct ':',
    .str t.name.toList, .punct ')', .punct '\x7b', .name "issueOrPullRequest".toList, .punct '(',
    .name "number".toList, .punct ':', .int (toString t.number).toList, .punct ')', .punct '\x7b',
    .name "__typename".toList, .spread, .name "on".toList, .name "Issue".toList, .punct '\x7b',
    .name "id".toList, .name "state".toList, .punct '\x7d', .spread, .name "on".toList,
    .name "PullRequest".toList, .punct '\x7b', .name "id".toList, .name "state".toList,
    .punct '\x7d', .punct '\x7d', .punct '\x7d']

/-- What a query asks for. -/
def queryTokens (targets : List TrackerRefTarget) : List GraphqlToken :=
  [.name "query".toList, .name "TrackerRefs".toList, .punct '\x7b', .name "rateLimit".toList,
    .punct '\x7b', .name "cost".toList, .name "remaining".toList, .name "used".toList,
    .name "resetAt".toList, .punct '\x7d'] ++
    (targets.mapIdx lookupTokens).flatten ++ [.punct '\x7d']

open GraphqlPlace

theorem lexFrom_lookupAlias (i : ℕ) :
    lexFrom .between (lookupAlias i).toList = some ([], .name (lookupAlias i).toList) := by
  have hdigits : ∀ c ∈ Nat.toDigits 10 i, isNameRest c = true := by
    intro c hc
    have hdigit := Nat.isDigit_of_mem_toDigits (by decide) (by decide) hc
    simp [isNameRest, Char.isAlphanum, hdigit]
  unfold lookupAlias
  rw [String.toList_append, toList_toString]
  have hfirst : lexFrom .between "t".toList = some ([], .name ['t']) := by decide
  exact lexFrom_trans hfirst (lexFrom_name hdigits)

theorem lexFrom_refName {name : String} (h : IsRefName name) :
    lexFrom (.str []) name.toList = some ([], .str name.toList) := by
  refine lexFrom_str fun c hc => ?_
  have hname := h.2 c hc
  have hne : ∀ d, isNameChar d = false → c ≠ d := by
    rintro d hd rfl
    rw [hname] at hd
    cases hd
  exact ⟨hne _ (by decide), hne _ (by decide), hne _ (by decide), hne _ (by decide)⟩

theorem lexFrom_number {n : ℕ} (h : 1 ≤ n) :
    lexFrom .between (toString n).toList = some ([], .int (toString n).toList) := by
  have hdigits : ∀ c ∈ Nat.toDigits 10 n, c.isDigit = true := fun c hc =>
    Nat.isDigit_of_mem_toDigits (by decide) (by decide) hc
  have hzero := head?_toDigits h
  rw [toList_toString]
  obtain ⟨d, ds, hds⟩ := List.exists_cons_of_ne_nil (@Nat.toDigits_ne_nil n 10)
  rw [hds] at hdigits hzero ⊢
  obtain ⟨hd, hrest⟩ := List.forall_mem_cons.mp hdigits
  have hnotZero : [d] ≠ ['0'] := fun heq => hzero (congrArg List.head? heq)
  rw [lexFrom, step, opening_digit hd, Option.bind_some, lexFrom_int hrest (by simp) hnotZero]
  rfl

theorem lexFrom_quote {read : List Char} (h : read ≠ []) :
    lexFrom (.str read) ['\x22'] = some ([.str read], .between) := by
  rw [lexFrom, step, if_pos rfl, if_neg h]
  rfl

/-- One lookup is read as what it asks for. -/
theorem lexFrom_trackerLookup {lower : String → String} {tracked : List String}
    {ownProject : Option String} (h : t.Confined lower tracked ownProject) (i : ℕ) :
    lexFrom .between (trackerLookup i t).toList = some (lookupTokens i t, .between) := by
  have hne : ∀ name, IsRefName name → name.toList ≠ [] := fun name hname hnil =>
    hname.1 (String.toList_eq_nil_iff.mp hnil)
  have hindent : lexFrom .between "  ".toList = some ([], .between) := by decide
  have howner : ∀ read, lexFrom (.name read) ": repository(owner:\"".toList =
      some ([.name read, .punct ':', .name "repository".toList, .punct '(', .name "owner".toList,
        .punct ':'], .str []) := fun read => rfl
  have hname : lexFrom .between ", name:\"".toList =
      some ([.name "name".toList, .punct ':'], .str []) := by decide
  have hnumber : lexFrom .between ") \x7b issueOrPullRequest(number:".toList =
      some ([.punct ')', .punct '\x7b', .name "issueOrPullRequest".toList, .punct '(',
        .name "number".toList, .punct ':'], .between) := by decide
  have hclose : ∀ read, lexFrom (.int read) ") \x7b __typename".toList =
      some ([.int read, .punct ')', .punct '\x7b'], .name "__typename".toList) := fun read => rfl
  have hissue : lexFrom (.name "__typename".toList) " ... on Issue \x7b id state \x7d".toList =
      some ([.name "__typename".toList, .spread, .name "on".toList, .name "Issue".toList,
        .punct '\x7b', .name "id".toList, .name "state".toList, .punct '\x7d'], .between) := by
    decide
  have hpull : lexFrom .between " ... on PullRequest \x7b id state \x7d \x7d \x7d".toList =
      some ([.spread, .name "on".toList, .name "PullRequest".toList, .punct '\x7b',
        .name "id".toList, .name "state".toList, .punct '\x7d', .punct '\x7d',
        .punct '\x7d'], .between) := by
    decide
  have htext : (trackerLookup i t).toList = "  ".toList ++ ((lookupAlias i).toList ++
      (": repository(owner:\"".toList ++ (t.owner.toList ++ (['\x22'] ++ (", name:\"".toList ++
        (t.name.toList ++ (['\x22'] ++ (") \x7b issueOrPullRequest(number:".toList ++
          ((toString t.number).toList ++ (") \x7b __typename".toList ++
            (" ... on Issue \x7b id state \x7d".toList ++
              " ... on PullRequest \x7b id state \x7d \x7d \x7d".toList))))))))))) := by
    unfold trackerLookup
    simp only [String.toList_append, List.append_assoc]
    rfl
  rw [htext]
  exact lexFrom_trans hindent <| lexFrom_trans (lexFrom_lookupAlias i) <|
    lexFrom_trans (howner _) <| lexFrom_trans (lexFrom_refName h.names.1) <|
    lexFrom_trans (lexFrom_quote (hne _ h.names.1)) <| lexFrom_trans hname <|
    lexFrom_trans (lexFrom_refName h.names.2) <| lexFrom_trans (lexFrom_quote (hne _ h.names.2)) <|
    lexFrom_trans hnumber <| lexFrom_trans (lexFrom_number h.number.1) <|
    lexFrom_trans (hclose _) <| lexFrom_trans hissue hpull

/-- Lookups on lines of their own are read one by one. -/
theorem lexFrom_lookups {lower : String → String} {tracked : List String}
    {ownProject : Option String} {placed : List (TrackerRefTarget × ℕ)}
    (h : ∀ p ∈ placed, p.1.Confined lower tracked ownProject) :
    lexFrom .between (['\n'].intercalate (placed.map fun p => (trackerLookup p.2 p.1).toList)) =
      some ((placed.map fun p => lookupTokens p.2 p.1).flatten, .between) := by
  have hline : lexFrom .between ['\n'] = some ([], .between) := by decide
  induction placed with
  | nil => rfl
  | cons p placed ih =>
    obtain ⟨hp, hrest⟩ := List.forall_mem_cons.mp h
    have hfirst := lexFrom_trackerLookup hp p.2
    cases placed with
    | nil => simpa using hfirst
    | cons q placed =>
      rw [List.map_cons, List.map_cons, List.intercalate_cons_cons, List.map_cons,
        List.flatten_cons]
      exact lexFrom_trans (lexFrom_trans hfirst hline) (ih hrest)

/-- **No body alters a query**: it is read as what it asks for. -/
theorem graphqlTokens_trackerRefsQuery {lower : String → String} {tracked : List String}
    {ownProject : Option String} (h : ∀ t ∈ targets, t.Confined lower tracked ownProject) :
    graphqlTokens (trackerRefsQuery targets).toList = some (queryTokens targets) := by
  have hhead : lexFrom .between
      "query TrackerRefs \x7b\n  rateLimit \x7b cost remaining used resetAt \x7d\n".toList =
      some ([.name "query".toList, .name "TrackerRefs".toList, .punct '\x7b',
        .name "rateLimit".toList, .punct '\x7b', .name "cost".toList, .name "remaining".toList,
        .name "used".toList, .name "resetAt".toList, .punct '\x7d'], .between) := by
    decide
  have hclose : lexFrom .between "\n\x7d".toList = some ([.punct '\x7d'], .between) := by decide
  have hplaced : ∀ p ∈ targets.zipIdx, p.1.Confined lower tracked ownProject := fun p hp =>
    h p.1 (List.fst_mem_of_mem_zipIdx hp)
  have hlookups := lexFrom_lookups hplaced
  have hread := lexFrom_trans hhead (lexFrom_trans hlookups hclose)
  unfold graphqlTokens trackerRefsQuery queryTokens
  rw [List.mapIdx_eq_zipIdx_map, List.mapIdx_eq_zipIdx_map, String.toList_append,
    String.toList_append, String.toList_intercalate, List.map_map, List.append_assoc,
    List.append_assoc]
  have htext : "\n".toList.intercalate (targets.zipIdx.map
      (String.toList ∘ fun p => trackerLookup p.2 p.1)) =
        ['\n'].intercalate (targets.zipIdx.map fun p => (trackerLookup p.2 p.1).toList) := rfl
  rw [htext, hread, Option.bind_some]
  simp only [closing, Option.map_some, List.append_nil]

end Query

/-! ## The run -/

section Run

variable {answer : ℕ → String → GqlAnswer} {targets : List TrackerRefTarget}
variable {batches : List (List TrackerRefTarget)} {refs stored : OrdMap String RefNode} {n : ℕ}

theorem length_targetBatches (h : targets.length ≤ trackerRefMax) :
    (targetBatches targets).length ≤ 4 := by
  have hmax : trackerRefMax = 200 := rfl
  have hbatch : trackerRefBatch = 50 := rfl
  unfold targetBatches
  rw [List.length_map, List.length_range, hbatch]
  omega

theorem length_of_mem_targetBatches {batch : List TrackerRefTarget}
    (h : batch ∈ targetBatches targets) : batch.length ≤ trackerRefBatch := by
  obtain ⟨b, -, rfl⟩ := List.mem_map.mp h
  exact List.length_take_le _ _

/-- The batches are the targets, cut. -/
theorem flatten_targetBatches (targets : List TrackerRefTarget) :
    (targetBatches targets).flatten = targets := by
  have hbatch : trackerRefBatch = 50 := rfl
  have hcut : ∀ b, ((List.range b).map fun b =>
      (targets.drop (trackerRefBatch * b)).take trackerRefBatch).flatten =
        targets.take (trackerRefBatch * b) := by
    intro b
    induction b with
    | zero => rfl
    | succ b ih =>
      rw [List.range_succ, List.map_append, List.flatten_append, ih, List.map_singleton,
        List.flatten_singleton, Nat.mul_succ, List.take_add]
  unfold targetBatches
  rw [hcut, hbatch, List.take_of_length_le (by omega)]

/-- The queries sent are those of the first batches. -/
theorem sent_resolveBatches (answer : ℕ → String → GqlAnswer) (n : ℕ)
    (batches : List (List TrackerRefTarget)) (refs : OrdMap String RefNode) :
    (resolveBatches answer n batches refs).1 <+: batches.map trackerRefsQuery := by
  induction batches generalizing n refs with
  | nil => exact List.nil_prefix
  | cons batch batches ih =>
    unfold resolveBatches
    simp only
    split
    · exact ⟨batches.map trackerRefsQuery, rfl⟩
    · rename_i hits hhits
      rw [List.map_cons]
      exact (List.prefix_cons_inj _).mpr (ih (n + 1) (storeHits hits batch refs))

/-- What the query of a batch was answered for the text of a reference. -/
def Answered (answer : ℕ → String → GqlAnswer) (n : ℕ) (batches : List (List TrackerRefTarget))
    (key : String) (found : RefNode) : Prop :=
  ∃ b batch, batches[b]? = some batch ∧ ∃ hits,
    (answer (n + b) (trackerRefsQuery batch)).hits = .ok hits ∧
      ∃ p ∈ batch.zipIdx, storedHit hits p = some (key, found)

theorem answered_cons {batch : List TrackerRefTarget} {key : String} {found : RefNode} :
    Answered answer n (batch :: batches) key found ↔
      (∃ hits, (answer n (trackerRefsQuery batch)).hits = .ok hits ∧
        ∃ p ∈ batch.zipIdx, storedHit hits p = some (key, found)) ∨
      Answered answer (n + 1) batches key found := by
  constructor
  · rintro ⟨b, found', hb, hits, hhits, hp⟩
    cases b with
    | zero =>
      rw [List.getElem?_cons_zero] at hb
      obtain rfl := Option.some.inj hb
      exact Or.inl ⟨hits, hhits, hp⟩
    | succ b =>
      rw [List.getElem?_cons_succ] at hb
      rw [show n + (b + 1) = n + 1 + b by omega] at hhits
      exact Or.inr ⟨b, found', hb, hits, hhits, hp⟩
  · rintro (⟨hits, hhits, hp⟩ | ⟨b, found', hb, hits, hhits, hp⟩)
    · exact ⟨0, batch, rfl, hits, hhits, hp⟩
    · refine ⟨b + 1, found', hb, hits, ?_, hp⟩
      rwa [show n + (b + 1) = n + 1 + b by omega]

theorem key_of_storedHit {hits : String → Option TrackerHit} {p : TrackerRefTarget × ℕ}
    {key : String} {found : RefNode} (h : storedHit hits p = some (key, found)) :
    key = p.1.key ∧ found.id ≠ "" ∧ hits (lookupAlias p.2) = some ⟨some found.id, found.state⟩ := by
  unfold storedHit at h
  split at h
  · rename_i id state hhit
    split at h
    · cases h
    · rename_i hid
      obtain ⟨rfl, rfl⟩ := Prod.mk.inj (Option.some.inj h)
      exact ⟨rfl, hid, hhit⟩
  · cases h

theorem eq_of_key {batch : List TrackerRefTarget} (hdistinct : (batch.map (·.key)).Nodup)
    {p q : TrackerRefTarget × ℕ} (hp : p ∈ batch.zipIdx) (hq : q ∈ batch.zipIdx)
    (hkey : p.1.key = q.1.key) : p = q := by
  obtain ⟨hi, hp1⟩ := List.mem_zipIdx' hp
  obtain ⟨hj, hq1⟩ := List.mem_zipIdx' hq
  have hi' : p.2 < (batch.map (·.key)).length := by rwa [List.length_map]
  have hj' : q.2 < (batch.map (·.key)).length := by rwa [List.length_map]
  have hsame : (batch.map (·.key))[p.2] = (batch.map (·.key))[q.2] := by
    rw [List.getElem_map, List.getElem_map, ← hp1, ← hq1, hkey]
  have hplace : p.2 = q.2 := (List.Nodup.getElem_inj_iff hdistinct).mp hsame
  have hfst : p.1 = q.1 := by
    rw [hp1, hq1]
    simp only [hplace]
  exact Prod.ext hfst hplace

/-- One batch more is stored, under the texts of its own references. -/
theorem get?_storeHits {hits : String → Option TrackerHit} {batch : List TrackerRefTarget}
    (hdistinct : (batch.map (·.key)).Nodup) (hfresh : ∀ t ∈ batch, refs.get? t.key = none)
    {key : String} {found : RefNode} :
    (storeHits hits batch refs).get? key = some found ↔
      (∃ p ∈ batch.zipIdx, storedHit hits p = some (key, found)) ∨ refs.get? key = some found := by
  unfold storeHits
  constructor
  · intro h
    rcases OrdMap.get?_foldl_set_eq_some h with ⟨x, hx, rfl, rfl⟩ | h
    · exact Or.inl (List.mem_filterMap.mp hx)
    · exact Or.inr h
  · intro h
    refine OrdMap.get?_foldl_set_of (fun x hx hkey => ?_) ?_
    · obtain ⟨q, hq, hstored⟩ := List.mem_filterMap.mp hx
      obtain ⟨hxkey, -, -⟩ := key_of_storedHit (show storedHit hits q = some (x.1, x.2) from hstored)
      rcases h with ⟨p, hp, hpstored⟩ | h
      · obtain ⟨hpkey, -, -⟩ := key_of_storedHit hpstored
        have hpq := eq_of_key hdistinct hq hp (hxkey.symm.trans (hkey.trans hpkey))
        rw [hpq, hpstored] at hstored
        exact (congrArg Prod.snd (Option.some.inj hstored)).symm
      · have hnone := hfresh q.1 (List.fst_mem_of_mem_zipIdx hq)
        rw [← hxkey, hkey, h] at hnone
        cases hnone
    · rcases h with ⟨p, hp, hpstored⟩ | h
      · exact Or.inl ⟨(key, found), List.mem_filterMap.mpr ⟨p, hp, hpstored⟩, rfl⟩
      · exact Or.inr h

/-- **All that was answered is stored, and nothing else.** -/
theorem get?_resolveBatches (hdistinct : (batches.flatten.map (·.key)).Nodup)
    (hfresh : ∀ t ∈ batches.flatten, refs.get? t.key = none)
    (h : (resolveBatches answer n batches refs).2 = .ok stored) {key : String} {found : RefNode} :
    stored.get? key = some found ↔
      Answered answer n batches key found ∨ refs.get? key = some found := by
  induction batches generalizing n refs with
  | nil =>
    obtain rfl := Except.ok.inj h
    refine ⟨Or.inr, fun h => h.resolve_left ?_⟩
    rintro ⟨b, batch, hb, -⟩
    cases hb
  | cons batch batches ih =>
    rw [List.flatten_cons] at hdistinct hfresh
    rw [List.map_append] at hdistinct
    obtain ⟨hbatch, hrest, hdisjoint⟩ := List.nodup_append.mp hdistinct
    unfold resolveBatches at h
    simp only at h
    split at h
    · cases h
    · rename_i hits hhits
      have hbatchFresh : ∀ t ∈ batch, refs.get? t.key = none := fun t ht =>
        hfresh t (List.mem_append_left _ ht)
      have hstep := fun key found => @get?_storeHits refs hits batch hbatch hbatchFresh key found
      -- keys are distinct, so a batch leaves the keys of the later ones alone
      have hrestFresh : ∀ t ∈ batches.flatten, (storeHits hits batch refs).get? t.key = none := by
        intro t ht
        cases hget : (storeHits hits batch refs).get? t.key with
        | none => rfl
        | some found =>
          rcases (hstep _ _).mp hget with ⟨p, hp, hstored⟩ | hrefs
          · obtain ⟨hkey, -, -⟩ := key_of_storedHit hstored
            have hmem : p.1.key ∈ batch.map (·.key) :=
              List.mem_map_of_mem (List.fst_mem_of_mem_zipIdx hp)
            exact absurd hkey.symm (hdisjoint _ hmem _ (List.mem_map_of_mem ht))
          · rw [hfresh t (List.mem_append_right _ ht)] at hrefs
            cases hrefs
      have hfirst : (∃ hits', (answer n (trackerRefsQuery batch)).hits = .ok hits' ∧
          ∃ p ∈ batch.zipIdx, storedHit hits' p = some (key, found)) ↔
            ∃ p ∈ batch.zipIdx, storedHit hits p = some (key, found) := by
        constructor
        · rintro ⟨hits', hhits', hp⟩
          rw [hhits] at hhits'
          rwa [← Except.ok.inj hhits'] at hp
        · exact fun hp => ⟨hits, hhits, hp⟩
      rw [ih hrest hrestFresh h, hstep, answered_cons, hfirst, or_assoc]
      exact or_left_comm

/-- **What a body can make looked up is bounded and confined**: whatever it
says and whatever is answered, at most four queries are sent, each about
targets that rows of the body name within the repositories tracked, and each
read as asking for just those. -/
theorem trackerLookups_confined (lower : String → String) (tracked : List String)
    (answer : ℕ → String → GqlAnswer) (node : Node) :
    ((trackerRefTargets lower tracked node).length ≤ trackerRefMax ∧
      ((trackerRefTargets lower tracked node).map (·.key)).Nodup ∧
      ∀ t ∈ trackerRefTargets lower tracked node, NamedBy lower tracked node t) ∧
    ∃ batches : List (List TrackerRefTarget),
      (lookUpTrackerRefs lower tracked answer node).1 = batches.map trackerRefsQuery ∧
      batches.length ≤ 4 ∧ batches.flatten <+: trackerRefTargets lower tracked node ∧
      ∀ batch ∈ batches, batch.length ≤ trackerRefBatch ∧
        graphqlTokens (trackerRefsQuery batch).toList = some (queryTokens batch) := by
  have htargets := trackerRefTargets_spec lower tracked node
  refine ⟨htargets, ?_⟩
  unfold lookUpTrackerRefs
  simp only
  split
  · exact ⟨[], rfl, Nat.zero_le _, List.nil_prefix, fun batch hbatch => absurd hbatch List.not_mem_nil⟩
  · obtain ⟨hlength, -, hnamed⟩ := htargets
    generalize trackerRefTargets lower tracked node = targets at hlength hnamed
    have hsent := sent_resolveBatches answer 0 (targetBatches targets) .empty
    have hmap := (List.prefix_iff_eq_take.mp hsent).trans List.map_take.symm
    generalize (resolveBatches answer 0 (targetBatches targets) .empty).1.length = k at hmap
    have hfirst : (targetBatches targets).take k <+: targetBatches targets := List.take_prefix k _
    have hflatten : ((targetBatches targets).take k).flatten <+: targets := by
      obtain ⟨rest, hrest⟩ := hfirst
      refine ⟨rest.flatten, ?_⟩
      rw [← List.flatten_append, hrest, flatten_targetBatches]
    refine ⟨(targetBatches targets).take k, hmap,
      Nat.le_trans (List.length_take_le' k _) (length_targetBatches hlength), hflatten,
      fun batch hbatch => ⟨length_of_mem_targetBatches (hfirst.subset hbatch), ?_⟩⟩
    refine graphqlTokens_trackerRefsQuery fun t ht => (hnamed t ?_).confined
    exact hflatten.subset (List.mem_flatten.mpr ⟨batch, hbatch, ht⟩)

/-- No reference resolves to anything: no edges. -/
theorem edges_of_unresolved {rows : List TrackerRow} {tracker : ItemEndpoint}
    {trackerState : Option ItemState} {r : TrackerRun}
    (h : YieldsTrackerEdges rows tracker trackerState (fun _ => none) r) : r.edges = [] := by
  refine List.eq_nil_iff_forall_not_mem.mpr fun e he => ?_
  obtain ⟨i, target, htarget, -⟩ := h.edges e he
  unfold targetAt at htarget
  cases hrow : rows[i]?.bind (·.ref) with
  | none =>
    rw [hrow] at htarget
    cases htarget
  | some ref =>
    rw [hrow] at htarget
    cases htarget

/-- **The edges of a payload are those of its table over what was answered**:
a reference stands for the issue that was reported for its own lookup, within
the lookups its body is confined to, and for nothing where there was none; a
lookup that failed leaves no edges. -/
theorem tableEdges_of_answers (lower : String → String) (tracked : List String)
    (answer : ℕ → String → GqlAnswer) (project : String) (node : Node) (self : ItemEndpoint)
    (selfState : ItemState) :
    let looked := (lookUpTrackerRefs lower tracked answer node).2
    let payload := (resolveTrackerRefs project looked { node with trackerRefs := none }).1
    (∀ message, looked = .error message → tableEdges payload self selfState = []) ∧
    ∀ refs, looked = .ok refs → ∃ resolve r,
      (∀ ref target, resolve ref = some target ↔ ∃ key found,
        trackerRefKey ref node.ownProject = some key ∧
        Answered answer 0 (targetBatches (trackerRefTargets lower tracked node)) key found ∧
        target = ⟨found.id, found.state.map fun s => mapState (some s)⟩) ∧
      YieldsTrackerEdges node.trackerRows self (some selfState) resolve r ∧
      tableEdges payload self selfState = r.edges := by
  intro looked payload
  refine ⟨fun message hmessage => ?_, fun refs hrefs => ?_⟩
  · have hpayload : payload = { node with trackerRefs := none } := by
      simp only [payload, hmessage, resolveTrackerRefs]
    rw [hpayload]
    rfl
  · by_cases hnone : trackerRefTargets lower tracked node = []
    · have hlooked : looked = .ok none := by
        simp only [looked, lookUpTrackerRefs, if_pos hnone]
      have hpayload : payload = { node with trackerRefs := none } := by
        simp only [payload, hlooked, resolveTrackerRefs]
      obtain ⟨r, -, hyields⟩ :=
        yields_of_trackerEdges node.trackerRows self (some selfState) fun _ => none
      refine ⟨fun _ => none, r, fun ref target => ⟨fun h => (Option.some_ne_none _ h.symm).elim, ?_⟩, hyields, ?_⟩
      · rintro ⟨key, found, -, ⟨b, batch, hb, -⟩, -⟩
        rw [hnone] at hb
        cases hb
      · rw [edges_of_unresolved hyields, hpayload]
        rfl
    · cases hrun : (resolveBatches answer 0
          (targetBatches (trackerRefTargets lower tracked node)) .empty).2 with
      | error message =>
        have hlooked : looked = .error message := by
          simp only [looked, lookUpTrackerRefs, if_neg hnone, hrun]
          rfl
        rw [hlooked] at hrefs
        cases hrefs
      | ok stored =>
        have hlooked : looked = .ok (some stored.entries) := by
          simp only [looked, lookUpTrackerRefs, if_neg hnone, hrun]
          rfl
        have hpayload : payload = { node with trackerRefs := some stored.entries } := by
          simp only [payload, hlooked, resolveTrackerRefs]
        obtain ⟨-, hdistinct, -⟩ := trackerRefTargets_spec lower tracked node
        have hstored := fun key found => @get?_resolveBatches answer _ .empty stored 0
          (by rwa [flatten_targetBatches]) (fun t _ => rfl) hrun key found
        obtain ⟨r, hr, hyields⟩ := yields_of_trackerEdges node.trackerRows self (some selfState)
          (storedTarget stored.entries node.ownProject)
        refine ⟨_, r, fun ref target => ?_, hyields, ?_⟩
        · unfold storedTarget
          rw [Option.bind_eq_some_iff]
          constructor
          · rintro ⟨key, hkey, htarget⟩
            obtain ⟨found, hfound, htarget⟩ := Option.bind_eq_some_iff.mp htarget
            split at htarget
            · cases htarget
            · refine ⟨key, found, hkey, ?_, (Option.some.inj htarget).symm⟩
              exact ((hstored key found).mp hfound).resolve_right fun h => by cases h
          · rintro ⟨key, found, hkey, hanswered, rfl⟩
            refine ⟨key, hkey, Option.bind_eq_some_iff.mpr
              ⟨found, (hstored key found).mpr (Or.inl hanswered), if_neg ?_⟩⟩
            obtain ⟨b, batch, -, hits, -, p, -, hp⟩ := hanswered
            exact (key_of_storedHit hp).2.1
        · rw [hpayload]
          show ((trackerEdges node.trackerRows self (some selfState)
            (storedTarget stored.entries node.ownProject)).map (·.edges)).getD [] = r.edges
          rw [hr]
          rfl

end Run

end GitHub

end SymphonyBoard
