import SymphonyBoard.Common.OrdMap
import SymphonyBoard.Common.Percent
import SymphonyBoard.Shared.Number
/-!
# The hash route

`parseHashRoute` and `buildHashRoute` of `packages/ui/src/model.ts`. A
route is a page and the fields its query carries; a link is written by one
list of fields and read by another. Both lists meet in `routeFields`, the
named values of a route: the writer's query is that table
(`routeParams_eq`), and the reader finds each name in it.
-/

namespace SymphonyBoard

open OrdMap (lookupEntry)

/-- `HashRoute`. Any of its fields but the page may be null, and what the
writer is given need not be valid. -/
structure HashRoute where
  page : String
  focus : Option String
  depth : Option JsNumber
  scope : Option String
  q : Option String
  source : Option String
  repo : Option String
  branch : Option String
  author : Option String
  kind : Option String
  action : Option String
  isource : Option String
  istate : Option String
  ikind : Option String
  ireview : Option String
  irepo : Option String
  unresolved : Option String
  fromDay : Option String
  toDay : Option String
  preset : Option String
  tab : Option String
  liveDetail : Option String
  reviewDetail : Option String
  itemDetail : Option String
  commitDetail : Option String
  activityDetail : Option String
  itemSort : Option String
  reviewSort : Option String
deriving DecidableEq

/-- A parameter without its spaces, if anything is left. -/
def routeParam (value : Option String) : Option String := nonEmpty (value.map trim)

/-- `GRAPH_FOCUS_MAX_DEPTH` -/
def graphFocusMaxDepth : ℤ := 5

/-- `graphFocusDepth` of a number or a text: the number of hops, if it is
one. -/
def graphFocusDepth (value : Option (JsNumber ⊕ String)) : Option ℕ :=
  let n := match value with
    | some (.inl n) => n
    | some (.inr s) => if trim s ≠ "" then numberOf s else .nan
    | none => .nan
  match n with
  | .finite q =>
    if q.den = 1 ∧ 1 ≤ q ∧ q ≤ graphFocusMaxDepth then some q.num.toNat else none
  | _ => none

/-- The scope, where it is one there is. -/
def graphFocusScopeParam (value : Option String) : Option String :=
  value.filter (· = "neighborhood")

/-- The ids of `TIME_RANGE_PRESETS`. -/
def timeRangePresets : List String :=
  ["today", "yesterday", "this-week", "last-week", "1w", "1mo", "3mo", "6mo", "1y"]

/-- Whether a name is a preset's. -/
def isTimeRangePresetId (value : String) : Bool := value ∈ timeRangePresets

/-- `raw` after a leading `#` or `#/`. -/
def stripHash : List Char → List Char
  | '#' :: '/' :: cs => cs
  | '#' :: cs => cs
  | cs => cs

/-- `parseHashRoute` -/
def parseHashRoute (hash : String) : HashRoute :=
  let raw := stripHash hash.toList
  let params : List (String × String) := match raw.dropWhile (· ≠ '?') with
    | [] => []
    | _ :: query => formParse (String.ofList query)
  let get := fun name => lookupEntry name params
  let preset := routeParam (get "preset")
  { page := String.ofList (raw.takeWhile (· ≠ '?'))
    focus := routeParam (get "focus")
    depth := (graphFocusDepth ((get "depth").map .inr)).map fun (n : ℕ) => .finite n
    scope := graphFocusScopeParam (get "scope")
    q := routeParam (get "q")
    source := routeParam (get "source")
    repo := routeParam (get "repo")
    branch := routeParam (get "branch")
    author := routeParam (get "author")
    kind := routeParam (get "kind")
    action := routeParam (get "action")
    isource := routeParam (get "isource")
    istate := routeParam (get "istate")
    ikind := routeParam (get "ikind")
    ireview := routeParam (get "ireview")
    irepo := routeParam (get "irepo")
    unresolved := routeParam (get "unresolved")
    fromDay := routeParam (get "from")
    toDay := routeParam (get "to")
    preset := preset.filter isTimeRangePresetId
    tab := routeParam (get "tab")
    liveDetail := routeParam (get "liveDetail")
    reviewDetail := routeParam (get "reviewDetail")
    itemDetail := routeParam (get "itemDetail")
    commitDetail := routeParam (get "commitDetail")
    activityDetail := routeParam (get "activityDetail")
    itemSort := routeParam (get "itemSort")
    reviewSort := routeParam (get "reviewSort") }

/-- What `buildHashRoute` pushes for a field it escapes. -/
def pushParam (name : String) (value : Option String) : List String :=
  (value.map fun v => name ++ "=" ++ encodeURIComponent v).toList

/-- The parameters of a route, as they are written. -/
def routeParams (route : HashRoute) : List String :=
  let focus := routeParam route.focus
  let depth := graphFocusDepth (route.depth.map .inl)
  let scope := graphFocusScopeParam route.scope
  let preset := route.preset.filter isTimeRangePresetId
  pushParam "focus" focus ++
    (focus.bind fun _ => depth.map fun n => "depth=" ++ toString n).toList ++
    (focus.bind fun _ => scope.map fun s => "scope=" ++ s).toList ++
    pushParam "q" (routeParam route.q) ++
    pushParam "source" (routeParam route.source) ++
    pushParam "repo" (routeParam route.repo) ++
    pushParam "branch" (routeParam route.branch) ++
    pushParam "author" (routeParam route.author) ++
    pushParam "kind" (routeParam route.kind) ++
    pushParam "action" (routeParam route.action) ++
    pushParam "isource" (routeParam route.isource) ++
    pushParam "istate" (routeParam route.istate) ++
    pushParam "ikind" (routeParam route.ikind) ++
    pushParam "ireview" (routeParam route.ireview) ++
    pushParam "irepo" (routeParam route.irepo) ++
    pushParam "unresolved" (routeParam route.unresolved) ++
    pushParam "from" (routeParam route.fromDay) ++
    pushParam "to" (routeParam route.toDay) ++
    pushParam "preset" preset ++
    pushParam "tab" (routeParam route.tab) ++
    pushParam "liveDetail" (routeParam route.liveDetail) ++
    pushParam "reviewDetail" (routeParam route.reviewDetail) ++
    pushParam "itemDetail" (routeParam route.itemDetail) ++
    pushParam "commitDetail" (routeParam route.commitDetail) ++
    pushParam "activityDetail" (routeParam route.activityDetail) ++
    pushParam "itemSort" (routeParam route.itemSort) ++
    pushParam "reviewSort" (routeParam route.reviewSort)

/-- `buildHashRoute` -/
def buildHashRoute (route : HashRoute) : String :=
  let params := routeParams route
  "#/" ++ route.page ++ if params = [] then "" else "?" ++ "&".intercalate params

/-- A route with what no link carries taken off: texts trimmed and blank
ones null, invalid values null, and no depth or scope without a focus. -/
def HashRoute.tidy (route : HashRoute) : HashRoute where
  page := route.page
  focus := routeParam route.focus
  depth := (routeParam route.focus).bind fun _ =>
    (graphFocusDepth (route.depth.map .inl)).map fun (n : ℕ) => .finite n
  scope := (routeParam route.focus).bind fun _ => graphFocusScopeParam route.scope
  q := routeParam route.q
  source := routeParam route.source
  repo := routeParam route.repo
  branch := routeParam route.branch
  author := routeParam route.author
  kind := routeParam route.kind
  action := routeParam route.action
  isource := routeParam route.isource
  istate := routeParam route.istate
  ikind := routeParam route.ikind
  ireview := routeParam route.ireview
  irepo := routeParam route.irepo
  unresolved := routeParam route.unresolved
  fromDay := routeParam route.fromDay
  toDay := routeParam route.toDay
  preset := route.preset.filter isTimeRangePresetId
  tab := routeParam route.tab
  liveDetail := routeParam route.liveDetail
  reviewDetail := routeParam route.reviewDetail
  itemDetail := routeParam route.itemDetail
  commitDetail := routeParam route.commitDetail
  activityDetail := routeParam route.activityDetail
  itemSort := routeParam route.itemSort
  reviewSort := routeParam route.reviewSort

/-! ## Single fields -/

@[simp] theorem routeParam_none : routeParam none = none := rfl

theorem routeParam_eq_some {value : Option String} {v : String} (h : routeParam value = some v) :
    trim v = v ∧ v ≠ "" := by
  obtain ⟨hmap, hv⟩ := Option.filter_eq_some_iff.mp h
  obtain ⟨s, -, rfl⟩ := Option.map_eq_some_iff.mp hmap
  exact ⟨trim_trim s, of_decide_eq_true hv⟩

/-- A text that stays as it is. -/
theorem routeParam_some {v : String} (htrim : trim v = v) (hne : v ≠ "") :
    routeParam (some v) = some v := by
  rw [routeParam, Option.map_some, htrim]
  exact Option.filter_eq_some_iff.mpr ⟨rfl, decide_eq_true hne⟩

@[simp] theorem routeParam_routeParam (value : Option String) :
    routeParam (routeParam value) = routeParam value := by
  cases h : routeParam value with
  | none => rfl
  | some v =>
    obtain ⟨htrim, hne⟩ := routeParam_eq_some h
    exact routeParam_some htrim hne

/-- A number of hops is at least one and at most five. -/
theorem graphFocusDepth_mem {value : Option (JsNumber ⊕ String)} {n : ℕ}
    (h : graphFocusDepth value = some n) : n ∈ [1, 2, 3, 4, 5] := by
  unfold graphFocusDepth at h
  dsimp only at h
  split at h
  · rename_i q _
    split at h
    · rename_i hq
      obtain ⟨hden, hlow, hhigh⟩ := hq
      have hint : (q.num : ℚ) = q := Rat.coe_int_num_of_den_eq_one hden
      rw [← hint] at hlow hhigh
      have hlow' : 1 ≤ q.num := by exact_mod_cast hlow
      have hhigh' : q.num ≤ graphFocusMaxDepth := by exact_mod_cast hhigh
      have hn : q.num.toNat = n := Option.some.inj h
      have hbound : 1 ≤ n ∧ n ≤ 5 := by
        rw [graphFocusMaxDepth] at hhigh'
        omega
      simp only [List.mem_cons, List.not_mem_nil, or_false]
      omega
    · cases h
  · cases h

/-- A written depth needs no escape, and is read back. -/
theorem graphFocusDepth_text : ∀ n ∈ [1, 2, 3, 4, 5],
    encodeURIComponent (toString n) = toString n ∧
      graphFocusDepth (some (.inr (toString n))) = some n := by decide +kernel

theorem graphFocusDepth_written (focus : Option String) (value : Option (JsNumber ⊕ String)) :
    graphFocusDepth
        ((focus.bind fun _ => (graphFocusDepth value).map fun n => toString n).map .inr) =
      focus.bind fun _ => graphFocusDepth value := by
  cases focus with
  | none => rfl
  | some focus =>
    cases h : graphFocusDepth value with
    | none => rfl
    | some n => exact (graphFocusDepth_text n (graphFocusDepth_mem h)).2

theorem graphFocusScopeParam_eq_some {value : Option String} {s : String}
    (h : graphFocusScopeParam value = some s) : s = "neighborhood" :=
  of_decide_eq_true (Option.filter_eq_some_iff.mp h).2

theorem graphFocusScopeParam_written (focus value : Option String) :
    graphFocusScopeParam (focus.bind fun _ => graphFocusScopeParam value) =
      focus.bind fun _ => graphFocusScopeParam value := by
  cases focus with
  | none => rfl
  | some focus =>
    show graphFocusScopeParam (graphFocusScopeParam value) = graphFocusScopeParam value
    rw [graphFocusScopeParam, graphFocusScopeParam, Option.filter_filter]
    simp only [Bool.and_self]

/-- A preset's id is a text that stays as it is. -/
theorem trim_preset : ∀ id ∈ timeRangePresets, trim id = id ∧ id ≠ "" := by decide +kernel

theorem routeParam_preset (value : Option String) :
    (routeParam (value.filter isTimeRangePresetId)).filter isTimeRangePresetId =
      value.filter isTimeRangePresetId := by
  cases h : value.filter isTimeRangePresetId with
  | none => rfl
  | some id =>
    have hid : isTimeRangePresetId id = true := (Option.filter_eq_some_iff.mp h).2
    obtain ⟨htrim, hne⟩ := trim_preset id (of_decide_eq_true hid)
    rw [routeParam_some htrim hne]
    exact Option.filter_eq_some_iff.mpr ⟨rfl, hid⟩

/-! ## The table both lists meet in -/

/-- The parameters of a route by name, before they are written. -/
def routeFields (route : HashRoute) : List (String × Option String) :=
  let focus := routeParam route.focus
  [("focus", focus),
   ("depth", focus.bind fun _ => (graphFocusDepth (route.depth.map .inl)).map fun n => toString n),
   ("scope", focus.bind fun _ => graphFocusScopeParam route.scope),
   ("q", routeParam route.q),
   ("source", routeParam route.source),
   ("repo", routeParam route.repo),
   ("branch", routeParam route.branch),
   ("author", routeParam route.author),
   ("kind", routeParam route.kind),
   ("action", routeParam route.action),
   ("isource", routeParam route.isource),
   ("istate", routeParam route.istate),
   ("ikind", routeParam route.ikind),
   ("ireview", routeParam route.ireview),
   ("irepo", routeParam route.irepo),
   ("unresolved", routeParam route.unresolved),
   ("from", routeParam route.fromDay),
   ("to", routeParam route.toDay),
   ("preset", route.preset.filter isTimeRangePresetId),
   ("tab", routeParam route.tab),
   ("liveDetail", routeParam route.liveDetail),
   ("reviewDetail", routeParam route.reviewDetail),
   ("itemDetail", routeParam route.itemDetail),
   ("commitDetail", routeParam route.commitDetail),
   ("activityDetail", routeParam route.activityDetail),
   ("itemSort", routeParam route.itemSort),
   ("reviewSort", routeParam route.reviewSort)]

/-- The names of the table, the same for every route. -/
def routeFieldNames : List String :=
  ["focus", "depth", "scope", "q", "source", "repo", "branch", "author", "kind", "action",
   "isource", "istate", "ikind", "ireview", "irepo", "unresolved", "from", "to", "preset", "tab",
   "liveDetail", "reviewDetail", "itemDetail", "commitDetail", "activityDetail", "itemSort",
   "reviewSort"]

theorem map_fst_routeFields (route : HashRoute) :
    (routeFields route).map Prod.fst = routeFieldNames := rfl

/-- The fields that are there. -/
def presentFields (fields : List (String × Option String)) : List (String × String) :=
  fields.flatMap fun f => (f.2.map fun v => (f.1, v)).toList

theorem mem_fst_of_mem_presentFields {fields : List (String × Option String)}
    {p : String × String} (h : p ∈ presentFields fields) : p.1 ∈ fields.map Prod.fst := by
  obtain ⟨f, hf, hp⟩ := List.mem_flatMap.mp h
  obtain ⟨v, -, rfl⟩ := Option.map_eq_some_iff.mp (Option.mem_toList.mp hp)
  exact List.mem_map_of_mem hf

theorem lookupEntry_eq_none {name : String} {pairs : List (String × String)}
    (h : ∀ p ∈ pairs, p.1 ≠ name) : lookupEntry name pairs = none := by
  induction pairs with
  | nil => rfl
  | cons p pairs ih =>
    rw [lookupEntry, if_neg (h p List.mem_cons_self)]
    exact ih fun q hq => h q (List.mem_cons_of_mem p hq)

/-- Under different names, each field is found under its own. -/
theorem lookupEntry_presentFields {fields : List (String × Option String)}
    (hnodup : (fields.map Prod.fst).Nodup) {name : String} {value : Option String}
    (h : (name, value) ∈ fields) : lookupEntry name (presentFields fields) = value := by
  induction fields with
  | nil => cases h
  | cons f fields ih =>
    obtain ⟨hfirst, hrest⟩ := List.nodup_cons.mp hnodup
    have hcons : presentFields (f :: fields) =
        (f.2.map fun v => (f.1, v)).toList ++ presentFields fields := List.flatMap_cons
    rcases List.mem_cons.mp h with heq | h
    · subst heq
      rw [hcons]
      cases value with
      | none =>
        refine lookupEntry_eq_none fun p hp heq => hfirst ?_
        rw [← heq]
        exact mem_fst_of_mem_presentFields hp
      | some v => exact if_pos rfl
    · have hne : f.1 ≠ name := fun heq => hfirst (heq ▸ List.mem_map_of_mem h)
      rw [hcons]
      cases hf : f.2 with
      | none => exact ih hrest h
      | some v => exact (if_neg hne).trans (ih hrest h)

@[simp] theorem pushParam_none (name : String) : pushParam name none = [] := rfl

@[simp] theorem pushParam_some (name v : String) :
    pushParam name (some v) = [name ++ "=" ++ encodeURIComponent v] := rfl

/-- Pushing a table field by field writes the fields that are there. -/
theorem map_presentFields (fields : List (String × Option String)) :
    (presentFields fields).map (fun p => p.1 ++ "=" ++ encodeURIComponent p.2) =
      fields.flatMap fun f => pushParam f.1 f.2 := by
  rw [presentFields, List.map_flatMap]
  refine List.flatMap_congr fun f _ => ?_
  cases f.2 <;> rfl

/-- A depth is pushed as it is. -/
theorem pushParam_depth (focus : Option String) (value : Option (JsNumber ⊕ String)) :
    pushParam "depth" (focus.bind fun _ => (graphFocusDepth value).map fun n => toString n) =
      (focus.bind fun _ => (graphFocusDepth value).map fun n => "depth=" ++ toString n).toList := by
  have hname : "depth" ++ "=" = "depth=" := rfl
  cases focus with
  | none => rfl
  | some focus =>
    cases h : graphFocusDepth value with
    | none => rfl
    | some n =>
      simp only [Option.bind_some, Option.map_some, pushParam_some, Option.toList_some, hname,
        (graphFocusDepth_text n (graphFocusDepth_mem h)).1]

/-- So is a scope. -/
theorem pushParam_scope (focus value : Option String) :
    pushParam "scope" (focus.bind fun _ => graphFocusScopeParam value) =
      (focus.bind fun _ => (graphFocusScopeParam value).map fun s => "scope=" ++ s).toList := by
  have hname : "scope" ++ "=" = "scope=" := rfl
  have htext : encodeURIComponent "neighborhood" = "neighborhood" :=
    encodeURIComponent_eq_self (List.all_eq_true.mp (by decide))
  cases focus with
  | none => rfl
  | some focus =>
    cases h : graphFocusScopeParam value with
    | none => rfl
    | some s =>
      rw [graphFocusScopeParam_eq_some h]
      simp only [Option.bind_some, Option.map_some, pushParam_some, Option.toList_some, hname, htext]

/-- The written query is the table. -/
theorem routeParams_eq (route : HashRoute) :
    routeParams route = (presentFields (routeFields route)).map fun p =>
      p.1 ++ "=" ++ encodeURIComponent p.2 := by
  rw [map_presentFields]
  unfold routeParams routeFields
  simp only [List.flatMap_cons, List.flatMap_nil, List.append_nil, List.append_assoc,
    pushParam_depth, pushParam_scope]

/-- The names differ, and none needs an escape. -/
theorem routeFieldNames_form : routeFieldNames.Nodup ∧
    ∀ n ∈ routeFieldNames, n.toList.all isUnescaped = true ∧ n ≠ "" := by decide +kernel

theorem isFormName_of_mem {name : String} (h : name ∈ routeFieldNames) : IsFormName name :=
  ⟨List.all_eq_true.mp (routeFieldNames_form.2 name h).1, (routeFieldNames_form.2 name h).2⟩

/-! ## The round trip -/

/-- What the reader's list finds under a name of the table. -/
theorem get_written (route : HashRoute) {name : String} {value : Option String}
    (h : (name, value) ∈ routeFields route) :
    lookupEntry name (presentFields (routeFields route)) = value :=
  lookupEntry_presentFields (by rw [map_fst_routeFields]; exact routeFieldNames_form.1) h

theorem formParse_written (route : HashRoute) :
    formParse ("&".intercalate (routeParams route)) = presentFields (routeFields route) := by
  rw [routeParams_eq]
  refine formParse_formQuery fun p hp => ?_
  have hname := mem_fst_of_mem_presentFields hp
  rw [map_fst_routeFields] at hname
  exact isFormName_of_mem hname

/-- How a built link falls apart: the page, and the query if there is one. -/
theorem stripHash_build (route : HashRoute) :
    stripHash (buildHashRoute route).toList = route.page.toList ++
      if routeParams route = [] then []
      else '?' :: ("&".intercalate (routeParams route)).toList := by
  have hhash : "#/".toList = ['#', '/'] := rfl
  have hquestion : "?".toList = ['?'] := rfl
  have hempty : "".toList = [] := rfl
  unfold buildHashRoute
  generalize routeParams route = params
  have htail : (if params = [] then "" else "?" ++ "&".intercalate params).toList =
      if params = [] then [] else '?' :: ("&".intercalate params).toList := by
    split
    · exact hempty
    · rw [String.toList_append, hquestion, List.cons_append, List.nil_append]
  dsimp only
  rw [String.toList_append, String.toList_append, hhash, htail]
  rfl

/-- **A link is read back tidy**, whatever texts the route's fields hold. -/
theorem parseHashRoute_buildHashRoute (route : HashRoute) (hpage : '?' ∉ route.page.toList) :
    parseHashRoute (buildHashRoute route) = route.tidy := by
  have hkeep : ∀ c ∈ route.page.toList, decide (c ≠ '?') = true :=
    fun c hc => decide_eq_true fun heq => hpage (heq ▸ hc)
  have hpageEq : String.ofList ((stripHash (buildHashRoute route).toList).takeWhile (· ≠ '?')) =
      route.page := by
    rw [stripHash_build, List.takeWhile_append_of_pos hkeep]
    split <;> simp
  have hparams : (match (stripHash (buildHashRoute route).toList).dropWhile (· ≠ '?') with
      | [] => []
      | _ :: query => formParse (String.ofList query)) = presentFields (routeFields route) := by
    rw [stripHash_build, List.dropWhile_append_of_pos hkeep]
    by_cases hnil : routeParams route = []
    · rw [if_pos hnil]
      rw [routeParams_eq, List.map_eq_nil_iff] at hnil
      exact hnil.symm
    · rw [if_neg hnil]
      simp only [ne_eq, not_true_eq_false, decide_false, Bool.false_eq_true, not_false_eq_true,
        List.dropWhile_cons_of_neg, String.ofList_toList, formParse_written]
  have hget : ∀ f ∈ routeFields route, lookupEntry f.1 (presentFields (routeFields route)) = f.2 :=
    fun _ hf => get_written route hf
  unfold parseHashRoute
  simp only [hpageEq, hparams]
  generalize presentFields (routeFields route) = table at hget
  simp only [routeFields, List.forall_mem_cons] at hget
  simp only [hget, routeParam_routeParam, graphFocusDepth_written, graphFocusScopeParam_written,
    routeParam_preset]
  rw [Option.map_bind]
  rfl

end SymphonyBoard
