import SymphonyBoard.Common.OrdSet
import SymphonyBoard.Ui.HashRoute
import SymphonyBoard.Config.Errors
/-!
# Facets in a link

The Activity feed's facets and the shared item lens
(`packages/ui/src/nav.ts`). A facet is a set of values; one route field
carries it as a comma list, joined and split again with nothing escaped.
So a value with a comma in it comes back as several: a set of facets is
read back as it was exactly when each of its values could have been one
part of such a list (`IsListPart`).
-/

namespace SymphonyBoard

/-! ## Sets in a route field -/

/-- `routeList`: the set a route field carries. -/
def routeList (value : Option String) : OrdSet String :=
  OrdSet.ofList ((((value.getD "").toList.splitOn ',').map fun part =>
    String.ofList (trimChars part)).filter (· ≠ ""))

/-- The field of the hash a facet is written to; nothing for an empty one. -/
def listField (values : OrdSet String) : Option String :=
  if values.values = [] then none else some (",".intercalate values.values)

/-- A text that a comma list can carry as one part. -/
structure IsListPart (value : String) : Prop where
  trimmed : trim value = value
  ne_empty : value ≠ ""
  noComma : ',' ∉ value.toList

theorem isListPart_of_mem_routeList {field : Option String} {v : String} (h : v ∈ routeList field) :
    IsListPart v := by
  obtain ⟨hpart, hne⟩ := List.mem_filter.mp (OrdSet.mem_ofList.mp h)
  obtain ⟨part, hmem, rfl⟩ := List.mem_map.mp hpart
  refine ⟨?_, of_decide_eq_true hne, ?_⟩
  · rw [trim, String.toList_ofList, trimChars_trimChars]
  · rw [String.toList_ofList]
    exact fun hcomma => not_mem_of_mem_splitOn hmem (trimChars_subset part hcomma)

/-- A joined text starts where one of its parts does. -/
theorem head?_intercalate {sep c : Char} {parts : List (List Char)} (hne : ∀ p ∈ parts, p ≠ [])
    (h : ([sep].intercalate parts).head? = some c) : ∃ p ∈ parts, p.head? = some c := by
  match parts with
  | [] => cases h
  | [p] => exact ⟨p, List.mem_cons_self, by rwa [List.intercalate_singleton] at h⟩
  | p :: q :: parts =>
    have hp : p ≠ [] := hne p List.mem_cons_self
    rw [List.intercalate_cons_cons, List.append_assoc, List.head?_append_of_ne_nil _ hp] at h
    exact ⟨p, List.mem_cons_self, h⟩

/-- And ends where one does. -/
theorem getLast?_intercalate {sep c : Char} {parts : List (List Char)} (hne : ∀ p ∈ parts, p ≠ [])
    (h : ([sep].intercalate parts).getLast? = some c) : ∃ p ∈ parts, p.getLast? = some c := by
  induction parts with
  | nil => cases h
  | cons p parts ih =>
    cases parts with
    | nil => exact ⟨p, List.mem_cons_self, by rwa [List.intercalate_singleton] at h⟩
    | cons q parts =>
      have hq : q ≠ [] := hne q (by simp)
      have htail : [sep].intercalate (q :: parts) ≠ [] := by
        cases parts with
        | nil => rwa [List.intercalate_singleton]
        | cons r parts =>
          rw [List.intercalate_cons_cons]
          simp [hq]
      rw [List.intercalate_cons_cons, List.getLast?_append_of_ne_nil _ htail] at h
      obtain ⟨p', hp', hc⟩ := ih (fun p hp => hne p (List.mem_cons_of_mem _ hp)) h
      exact ⟨p', List.mem_cons_of_mem _ hp', hc⟩

section

variable {values : OrdSet String} (hparts : ∀ v ∈ values, IsListPart v)
include hparts

/-- A comma list of parts is a text that stays as it is in a link. -/
theorem trim_join : trim (",".intercalate values.values) = ",".intercalate values.values := by
  have hchars : ∀ p ∈ values.values.map String.toList, trimChars p = p ∧ p ≠ [] := by
    intro p hp
    obtain ⟨v, hv, rfl⟩ := List.mem_map.mp hp
    obtain ⟨htrim, hne, -⟩ := hparts v hv
    refine ⟨?_, fun hnil => hne (String.toList_inj.mp hnil)⟩
    have h := congrArg String.toList htrim
    rwa [trim, String.toList_ofList] at h
  have hjoin : (",".intercalate values.values).toList =
      [','].intercalate (values.values.map String.toList) := String.toList_intercalate
  rw [← String.toList_inj, trim, String.toList_ofList, hjoin]
  refine trimChars_eq_self (fun c hc => ?_) (fun c hc => ?_)
  · obtain ⟨p, hp, hc⟩ := head?_intercalate (fun p hp => (hchars p hp).2) hc
    rw [← (hchars p hp).1] at hc
    exact trimChars_head hc
  · obtain ⟨p, hp, hc⟩ := getLast?_intercalate (fun p hp => (hchars p hp).2) hc
    rw [← (hchars p hp).1] at hc
    exact trimChars_getLast hc

/-- A set of parts is read back as it was, in its order. -/
theorem routeList_listField : routeList (routeParam (listField values)) = values := by
  unfold listField
  by_cases hnil : values.values = []
  · rw [if_pos hnil]
    exact OrdSet.ext_values hnil.symm
  · have hjoin : (",".intercalate values.values).toList =
        [','].intercalate (values.values.map String.toList) := String.toList_intercalate
    have hparse : ((",".intercalate values.values).toList.splitOn ',') =
        values.values.map String.toList := by
      rw [hjoin]
      refine List.splitOn_intercalate ',' ?_ fun h => hnil (List.map_eq_nil_iff.mp h)
      intro p hp
      obtain ⟨v, hv, rfl⟩ := List.mem_map.mp hp
      exact (hparts v hv).noComma
    have hne : ",".intercalate values.values ≠ "" := by
      intro hempty
      rw [hempty, String.toList_empty, List.splitOn_nil] at hparse
      have hmem : [] ∈ values.values.map String.toList := by
        rw [← hparse]
        exact List.mem_singleton_self []
      obtain ⟨v, hv, hv'⟩ := List.mem_map.mp hmem
      exact (hparts v hv).ne_empty (String.toList_inj.mp hv')
    rw [if_neg hnil, routeParam_some (trim_join hparts) hne, routeList, Option.getD_some, hparse,
      List.map_map]
    have hmap : values.values.map ((fun part => String.ofList (trimChars part)) ∘ String.toList) =
        values.values :=
      (List.map_congr_left fun v hv => (hparts v hv).trimmed).trans (List.map_id' _)
    rw [hmap, List.filter_eq_self.mpr fun v hv => decide_eq_true (hparts v hv).ne_empty]
    exact OrdSet.ofList_values values

end

/-- **A set is read back exactly when a list can carry each of its
values.** -/
theorem same_routeList_iff (values : OrdSet String) :
    (routeList (routeParam (listField values))).Same values ↔ ∀ v ∈ values, IsListPart v := by
  constructor
  · intro h v hv
    exact isListPart_of_mem_routeList ((h v).mpr hv)
  · intro hparts
    exact .of_eq (routeList_listField hparts)

/-! ## The two families of facets -/

/-- The facets of the activity page. -/
inductive ActivityFacetDim where
  | sources | repos | kinds | actions
deriving DecidableEq

/-- The facets of the items page. -/
inductive ItemFacetDim where
  | sources | states | kinds | reviews | repos
deriving DecidableEq

/-- `activityFacets`: the feed's facets as a route has them. -/
def activityFacets (route : HashRoute) : ActivityFacetDim → OrdSet String
  | .sources => routeList route.source
  | .repos => routeList route.repo
  | .kinds => routeList route.kind
  | .actions => routeList route.action

/-- `activityFacetFields`, written over a route. -/
def activityFacetFields (facets : ActivityFacetDim → OrdSet String) (route : HashRoute) :
    HashRoute :=
  { route with
    source := listField (facets .sources)
    repo := listField (facets .repos)
    kind := listField (facets .kinds)
    action := listField (facets .actions) }

/-- A value of the activity page is switched on or off. -/
def toggleActivityFacet (facets : ActivityFacetDim → OrdSet String)
    (toggled : ActivityFacetDim × String) : ActivityFacetDim → OrdSet String :=
  OrdSet.toggleAt facets toggled

/-- `itemFacets`: the item lens as a route has it. -/
def itemFacets (route : HashRoute) : ItemFacetDim → OrdSet String
  | .sources => routeList route.isource
  | .states => routeList route.istate
  | .kinds => routeList route.ikind
  | .reviews => routeList route.ireview
  | .repos => routeList route.irepo

/-- `itemFacetFields`, written over a route. -/
def itemFacetFields (facets : ItemFacetDim → OrdSet String) (route : HashRoute) : HashRoute :=
  { route with
    isource := listField (facets .sources)
    istate := listField (facets .states)
    ikind := listField (facets .kinds)
    ireview := listField (facets .reviews)
    irepo := listField (facets .repos) }

/-- A value of the items page is switched on or off. -/
def toggleItemFacet (facets : ItemFacetDim → OrdSet String) (toggled : ItemFacetDim × String) :
    ItemFacetDim → OrdSet String :=
  OrdSet.toggleAt facets toggled

variable {route : HashRoute}

/-- What a link brings back of the feed's facets, field by field. -/
theorem activityFacets_link (facets : ActivityFacetDim → OrdSet String)
    (hpage : '?' ∉ route.page.toList) (dim : ActivityFacetDim) :
    activityFacets (parseHashRoute (buildHashRoute (activityFacetFields facets route))) dim =
      routeList (routeParam (listField (facets dim))) := by
  rw [parseHashRoute_buildHashRoute (activityFacetFields facets route) hpage]
  cases dim <;> rfl

/-- And of the item lens. -/
theorem itemFacets_link (facets : ItemFacetDim → OrdSet String) (hpage : '?' ∉ route.page.toList)
    (dim : ItemFacetDim) :
    itemFacets (parseHashRoute (buildHashRoute (itemFacetFields facets route))) dim =
      routeList (routeParam (listField (facets dim))) := by
  rw [parseHashRoute_buildHashRoute (itemFacetFields facets route) hpage]
  cases dim <;> rfl

section Toggled

variable {D : Type} [DecidableEq D] {sets : D → OrdSet String}

/-- Sets that held parts of a list hold nothing else after a run of toggles
exactly when what was toggled an odd number of times is such a part. -/
theorem toggled_parts_iff (hsets : ∀ d, ∀ v ∈ sets d, IsListPart v) (toggles : List (D × String)) :
    (∀ d, ∀ v ∈ toggles.foldl OrdSet.toggleAt sets d, IsListPart v) ↔
      ∀ t ∈ toggles, Odd (toggles.count t) → IsListPart t.2 := by
  constructor
  · intro h t _ hodd
    by_contra hpart
    refine hpart (h t.1 t.2 ((OrdSet.mem_foldl_toggle toggles sets t.1 t.2).mpr ?_))
    have heven : ¬Even (toggles.count t) := Nat.not_even_iff_odd.mpr hodd
    exact ⟨fun hmem => absurd (hsets t.1 t.2 hmem) hpart, fun h => absurd h heven⟩
  · intro h d v hv
    by_contra hpart
    have hmem : v ∉ sets d := fun hmem => hpart (hsets d v hmem)
    have hcount : ¬Even (toggles.count (d, v)) := fun heven =>
      hmem (((OrdSet.mem_foldl_toggle toggles sets d v).mp hv).mpr heven)
    have hodd : Odd (toggles.count (d, v)) := Nat.not_even_iff_odd.mp hcount
    have hpos : 0 < toggles.count (d, v) := hodd.pos
    exact hpart (h (d, v) (List.count_pos_iff.mp hpos) hodd)

end Toggled

theorem isListPart_of_activityFacets (dim : ActivityFacetDim) :
    ∀ v ∈ activityFacets route dim, IsListPart v := by
  intro v hv
  cases dim <;> exact isListPart_of_mem_routeList hv

theorem isListPart_of_itemFacets (dim : ItemFacetDim) :
    ∀ v ∈ itemFacets route dim, IsListPart v := by
  intro v hv
  cases dim <;> exact isListPart_of_mem_routeList hv

/-! ## Links bring back what was put in them -/

/-- What a link built from a page, its fields and the facets toggled on it
should bring back. -/
structure LinkRoundTrips (route : HashRoute) (toggles : List (ActivityFacetDim × String))
    (itemToggles : List (ItemFacetDim × String)) : Prop where
  fields : parseHashRoute (buildHashRoute route) = route.tidy
  activity : ∀ dim,
    (activityFacets (parseHashRoute (buildHashRoute
      (activityFacetFields (toggles.foldl toggleActivityFacet (activityFacets route)) route)))
        dim).Same (toggles.foldl toggleActivityFacet (activityFacets route) dim)
  item : ∀ dim,
    (itemFacets (parseHashRoute (buildHashRoute
      (itemFacetFields (itemToggles.foldl toggleItemFacet (itemFacets route)) route)))
        dim).Same (itemToggles.foldl toggleItemFacet (itemFacets route) dim)

/-- **A link brings everything back exactly when no value that a comma list
cannot carry is left toggled.** The route's own fields always come back. -/
theorem linkRoundTrips_iff (route : HashRoute) (hpage : '?' ∉ route.page.toList)
    (toggles : List (ActivityFacetDim × String)) (itemToggles : List (ItemFacetDim × String)) :
    LinkRoundTrips route toggles itemToggles ↔
      (∀ t ∈ toggles, Odd (toggles.count t) → IsListPart t.2) ∧
        ∀ t ∈ itemToggles, Odd (itemToggles.count t) → IsListPart t.2 := by
  have hactivity := toggled_parts_iff (@isListPart_of_activityFacets route) toggles
  have hitem := toggled_parts_iff (@isListPart_of_itemFacets route) itemToggles
  rw [← hactivity, ← hitem]
  constructor
  · intro h
    refine ⟨fun dim => ?_, fun dim => ?_⟩
    · have hdim := h.activity dim
      rw [activityFacets_link _ hpage] at hdim
      exact (same_routeList_iff _).mp hdim
    · have hdim := h.item dim
      rw [itemFacets_link _ hpage] at hdim
      exact (same_routeList_iff _).mp hdim
  · intro h
    refine ⟨parseHashRoute_buildHashRoute route hpage, fun dim => ?_, fun dim => ?_⟩
    · rw [activityFacets_link _ hpage]
      exact (same_routeList_iff _).mpr (h.1 dim)
    · rw [itemFacets_link _ hpage]
      exact (same_routeList_iff _).mpr (h.2 dim)

namespace CommaInSource

/-- A deployment that named its source after two teams. -/
def config : Json := .obj
  [("db_path", .str "board.db"),
   ("sources", .arr [.obj
     [("source_id", .str "web,infra"), ("kind", .str "gitlab"), ("host", .str "gitlab.example"),
      ("graphql_url", .str "https://gitlab.example/api/graphql"), ("token_env", .str "TOKEN"),
      ("projects", .arr [.str "team/board"])]])]

/-- The activity page without any parameter. -/
def activityPage : HashRoute where
  page := "activity"
  focus := none
  depth := none
  scope := none
  q := none
  source := none
  repo := none
  branch := none
  author := none
  kind := none
  action := none
  isource := none
  istate := none
  ikind := none
  ireview := none
  irepo := none
  unresolved := none
  fromDay := none
  toDay := none
  preset := none
  tab := none
  liveDetail := none
  reviewDetail := none
  itemDetail := none
  commitDetail := none
  activityDetail := none
  itemSort := none
  reviewSort := none

/-- Facets without a comma come back. -/
theorem linkRoundTrips_plain :
    LinkRoundTrips activityPage [(.kinds, "commit")] [(.states, "open")] ↔
      (∀ t ∈ [(ActivityFacetDim.kinds, "commit")],
        Odd ([(ActivityFacetDim.kinds, "commit")].count t) → IsListPart t.2) ∧
        ∀ t ∈ [(ItemFacetDim.states, "open")],
          Odd ([(ItemFacetDim.states, "open")].count t) → IsListPart t.2 :=
  linkRoundTrips_iff activityPage (by decide +kernel) _ _

/-- The source is an accepted one, and the link of its chip brings back two
sources that are not there. -/
theorem not_linkRoundTrips :
    configErrors (fun _ => true) config "config.json" = [] ∧
      ((config.field? "sources").bind Json.arr?).map
        (List.map fun source => (source.field? "source_id").bind Json.str?) =
          some [some "web,infra"] ∧
      ¬LinkRoundTrips activityPage [(.sources, "web,infra")] [] := by
  refine ⟨by decide +kernel, by decide +kernel, fun h => ?_⟩
  have hback := (h.activity .sources "web,infra").mpr (by decide +kernel)
  revert hback
  decide +kernel

end CommaInSource

end SymphonyBoard
