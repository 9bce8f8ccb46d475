import SymphonyBoard.Contract.JsonSchema
import Mathlib.Order.Filter.AtTopBot.Basic
import Mathlib.Order.Filter.Finite
/-!
# The validator decides its subset, inherited names aside

`validateNode` against `Valid`. Each keyword is a lemma of its own; what one
node decides follows from what its parts decide (`nodeErrors_decides`), and a
whole walk by induction on the value and, inside it, on the references
(`validateNode_settles`). The walk goes wrong only where a name that objects
inherit is looked up on an object that does not own it.
-/

namespace SymphonyBoard

variable {env : ValidateEnv} {recur : Recur} {V : Json → Json → Prop} {root s v : Json}

/-! ## Errors that decide -/

/-- The errors are there, and there are none exactly when `P` holds. -/
def Decides (r : Except String (List ValidationError)) (P : Prop) : Prop :=
  ∃ errs, r = .ok errs ∧ (errs = [] ↔ P)

theorem Decides.ok {errs : List ValidationError} {P : Prop} (h : errs = [] ↔ P) :
    Decides (.ok errs) P := ⟨errs, rfl, h⟩

theorem Decides.congr {r : Except String (List ValidationError)} {P Q : Prop} (h : Decides r P)
    (hiff : P ↔ Q) : Decides r Q := by
  obtain ⟨errs, hr, herrs⟩ := h
  exact ⟨errs, hr, herrs.trans hiff⟩

theorem collect_decides {α : Type} {f : α → Except String (List ValidationError)}
    {P : α → Prop} {l : List α} (h : ∀ a ∈ l, Decides (f a) (P a)) :
    Decides (collect l f) (∀ a ∈ l, P a) := by
  induction l with
  | nil => exact .ok (by simp)
  | cons a l ih =>
    obtain ⟨errs, hf, hiff⟩ := h a List.mem_cons_self
    obtain ⟨rest, hrest, hrestiff⟩ := ih fun b hb => h b (List.mem_cons_of_mem _ hb)
    refine ⟨errs ++ rest, ?_, ?_⟩
    · unfold collect at hrest ⊢
      cases hl : l.mapM f with
      | error e =>
        rw [hl] at hrest
        cases hrest
      | ok parts =>
        rw [hl] at hrest
        obtain rfl : parts.flatten = rest := Except.ok.inj hrest
        rw [List.mapM_cons, hf, hl]
        rfl
    · rw [List.append_eq_nil_iff, hiff, hrestiff, List.forall_mem_cons]

/-! ## The keywords of a value -/

theorem isInteger_iff {m : ℤ} {k : ℕ} :
    (Json.num m k).isInteger = true ↔ ∃ i : ℤ, numberValue m k = i := by
  have hpos : (10 ^ k : ℚ) ≠ 0 := pow_ne_zero k (by norm_num)
  simp only [Json.isInteger, decide_eq_true_eq, numberValue]
  constructor
  · intro h
    obtain ⟨i, hi⟩ := Int.dvd_of_emod_eq_zero h
    refine ⟨i, ?_⟩
    rw [div_eq_iff hpos, hi]
    push_cast
    ring
  · rintro ⟨i, hi⟩
    rw [div_eq_iff hpos] at hi
    have hcast : m = i * 10 ^ k := by exact_mod_cast hi
    rw [hcast]
    exact Int.mul_emod_left _ _

theorem matchesType_iff (v : Json) (t : String) :
    matchesType (.json v) t = true ↔ HasType v t := by
  constructor
  · intro h
    unfold matchesType at h
    split at h
    · next ht =>
      subst ht
      cases v <;> first | exact .null | cases h
    split at h
    · next ht =>
      subst ht
      cases v <;> first | exact .array | cases h
    split at h
    · next ht =>
      subst ht
      cases v <;> first | exact .object | cases h
    split at h
    · next ht =>
      subst ht
      cases v <;> first | exact .string | cases h
    split at h
    · next ht =>
      subst ht
      cases v <;> first | exact .boolean | cases h
    split at h
    · next ht =>
      subst ht
      cases v with
      | num m k =>
        obtain ⟨i, hi⟩ := isInteger_iff.mp h
        exact .integer i hi
      | _ => cases h
    split at h
    · next ht =>
      subst ht
      cases v <;> first | exact .number | cases h
    · cases h
  · intro h
    cases h with
    | integer i hi => exact isInteger_iff.mpr ⟨i, hi⟩
    | _ => rfl

theorem matchesType_object (v : Json) : matchesType (.json v) "object" = v.isPlainObject := by
  cases v <;> rfl

theorem typeError_eq_none (path : String) : typeError (.json v) s path = none ↔ TypeOk s v := by
  have hany : ∀ t : Json, ((typesOf t).any fun t => t.str?.any (matchesType (.json v))) = true ↔
      ∃ name, Json.str name ∈ typesOf t ∧ HasType v name := by
    intro t
    rw [List.any_eq_true]
    constructor
    · rintro ⟨j, hmem, hj⟩
      cases j with
      | str name => exact ⟨name, hmem, (matchesType_iff v name).mp hj⟩
      | _ => cases hj
    · rintro ⟨name, hmem, hname⟩
      exact ⟨.str name, hmem, (matchesType_iff v name).mpr hname⟩
  unfold typeError TypeOk
  cases htype : s.field? "type" with
  | none => simp
  | some t =>
    rw [Option.bind_some]
    split
    · next h => simpa using (hany t).mp h
    · next h =>
      have hnot := mt (hany t).mpr h
      simpa using hnot

theorem strictEqual_iff (e v : Json) : strictEqual e (.json v) = true ↔ SameValue e v := by
  cases e <;> cases v <;> simp [strictEqual, SameValue]

theorem enumErrors_eq_nil (path : String) :
    enumErrors env (.json v) s path = [] ↔
      ∀ es, s.field? "enum" = some (.arr es) → ∃ e ∈ es, SameValue e v := by
  unfold enumErrors
  split
  · next es hes =>
    have hany : es.any (strictEqual · (.json v)) = true ↔ ∃ e ∈ es, SameValue e v := by
      simp [List.any_eq_true, strictEqual_iff]
    split
    · next h => simpa [hes] using hany.mp h
    · next h => simpa [hes] using mt hany.mpr h
  · next h => simpa using fun es hes => (h es hes).elim

theorem patternErrors_eq_nil (path : String) :
    patternErrors env (.json v) s path = [] ↔
      ∀ p t, s.field? "pattern" = some (.str p) → v = .str t → env.test p t := by
  unfold patternErrors
  split
  · next t p hv hp =>
    obtain rfl := Datum.json.inj hv
    simp [hp]
  · next h =>
    refine iff_of_true rfl fun p t hp hv => ?_
    exact (h t p (by rw [hv]) hp).elim

theorem formatErrors_eq_nil (path : String) :
    formatErrors env (.json v) s path = [] ↔
      ∀ t, s.field? "format" = some (.str "date-time") → v = .str t → env.dateParses t := by
  unfold formatErrors
  split
  · next t format hv hformat =>
    obtain rfl := Datum.json.inj hv
    obtain ⟨j, hj, hstr⟩ := Option.bind_eq_some_iff.mp hformat
    cases j with
    | str f =>
      obtain rfl := Option.some.inj hstr
      by_cases hf : f = "date-time" <;> simp [hj, hf]
    | _ => cases hstr
  · next h =>
    refine iff_of_true rfl fun t hformat hv => ?_
    exact (h t "date-time" (by rw [hv]) (by rw [hformat]; rfl)).elim

theorem minimumErrors_eq_nil (path : String) :
    minimumErrors (.json v) s path = [] ↔
      ∀ m k m' k', s.field? "minimum" = some (.num m k) → v = .num m' k' →
        numberValue m k ≤ numberValue m' k' := by
  unfold minimumErrors
  split
  · next m' k' m k hv hmin =>
    obtain rfl := Datum.json.inj hv
    have hiff : (∀ a b a' b', s.field? "minimum" = some (.num a b) →
        Json.num m' k' = .num a' b' → numberValue a b ≤ numberValue a' b') ↔
        numberValue m k ≤ numberValue m' k' := by
      refine ⟨fun h => h m k m' k' hmin rfl, fun h a b a' b' hab ha => ?_⟩
      rw [hmin] at hab
      obtain ⟨rfl, rfl⟩ := Json.num.inj (Option.some.inj hab)
      obtain ⟨rfl, rfl⟩ := Json.num.inj ha
      exact h
    rw [hiff]
    split
    · next hlt => simpa using hlt
    · next hlt => simpa using hlt
  · next h =>
    refine iff_of_true rfl fun m k m' k' hmin hv => ?_
    exact (h m' k' m k (by rw [hv]) hmin).elim

/-! ## The keywords of an object -/

theorem inheritedMember_eq_none {name : String} :
    inheritedMember name = none ↔ name ∉ inheritedNames := by
  unfold inheritedMember
  split
  · next h =>
    subst h
    simp [inheritedNames]
  · simp

theorem Json.mem_keysOf {name : String} : name ∈ v.keysOf ↔ ∃ x, v.field? name = some x := by
  cases v with
  | obj fields =>
    rw [← Option.isSome_iff_exists]
    simp only [Json.keysOf, Json.fieldsOf, Json.field?, List.mem_map]
    rw [← not_iff_not, Option.not_isSome_iff_eq_none, List.lookup_eq_none_iff]
    constructor
    · intro h p hp
      have hne : p.1 ≠ name := fun hc => h ⟨p, hp, hc⟩
      simpa using Ne.symm hne
    · rintro h ⟨p, hp, rfl⟩
      simpa using h p hp
  | _ => simp [Json.keysOf, Json.fieldsOf, Json.field?]

theorem Json.not_mem_keysOf {name : String} : name ∉ v.keysOf ↔ v.field? name = none := by
  rw [Json.mem_keysOf, ← Option.isSome_iff_exists, Option.not_isSome_iff_eq_none]

/-- A name looked up on an object is one of its own or one it inherits. -/
theorem member?_json (hv : v.isPlainObject = true) (name : String) :
    (Datum.json v).member? name =
      match v.field? name with
      | some x => some (.json x)
      | none => inheritedMember name := by
  cases v with
  | obj fields => rfl
  | _ => cases hv

theorem member?_isNone (hv : v.isPlainObject = true) {name : String}
    (hown : name ∈ inheritedNames → name ∈ v.keysOf) :
    ((Datum.json v).member? name).isNone = true ↔ name ∉ v.keysOf := by
  rw [member?_json hv, Json.not_mem_keysOf]
  cases hx : v.field? name with
  | some x => simp
  | none =>
    have hnot : name ∉ inheritedNames := fun hc => Json.not_mem_keysOf.mpr hx (hown hc)
    simp [inheritedMember_eq_none.mpr hnot]

theorem schemaProperties_eq (hs : KeywordNode s) : schemaProperties s = .obj (propertiesOf s) := by
  unfold schemaProperties propertiesOf
  cases hprops : s.field? "properties" with
  | none => rfl
  | some e =>
    obtain ⟨props, rfl⟩ := hs.properties e hprops
    rfl

theorem requiredNames_eq (hs : KeywordNode s) {rs : List Json}
    (hrs : s.field? "required" = some (.arr rs)) (r : String) :
    r ∈ requiredNames s ↔ Json.str r ∈ rs := by
  obtain ⟨names, hnames⟩ := hs.required _ hrs
  obtain rfl := Json.arr.inj hnames
  simp [requiredNames, hrs, Json.text]

/-- **No name that objects inherit is looked up where it is not owned.** -/
structure NoInherited (s v : Json) : Prop where
  required : ∀ r ∈ requiredNames s, r ∈ inheritedNames → r ∈ v.keysOf
  properties : ∀ name ∈ (propertiesOf s).map Prod.fst, name ∈ inheritedNames → name ∈ v.keysOf
  additional : s.field? "additionalProperties" ≠ none → ∀ name ∈ v.keysOf,
    name ∈ inheritedNames → name ∈ (propertiesOf s).map Prod.fst

theorem requiredErrors_eq_nil (hs : KeywordNode s) (hv : v.isPlainObject = true)
    (hno : NoInherited s v) (path : String) :
    requiredErrors (.json v) s path = [] ↔
      ∀ rs, s.field? "required" = some (.arr rs) → v.isPlainObject = true →
        ∀ r, Json.str r ∈ rs → r ∈ v.keysOf := by
  unfold requiredErrors
  rw [List.map_eq_nil_iff, List.filter_eq_nil_iff]
  constructor
  · intro h rs hrs _ r hr
    have hmem := (requiredNames_eq hs hrs r).mpr hr
    exact not_not.mp (mt (member?_isNone hv (hno.required r hmem)).mpr (h r hmem))
  · intro h r hmem hnone
    have hnot := (member?_isNone hv (hno.required r hmem)).mp hnone
    cases hrs : s.field? "required" with
    | none =>
      rw [requiredNames, hrs] at hmem
      cases hmem
    | some e =>
      obtain ⟨names, rfl⟩ := hs.required e hrs
      exact hnot (h _ hrs hv r ((requiredNames_eq hs hrs r).mp hmem))

theorem mem_additionalKeys (hs : KeywordNode s) (hno : NoInherited s v)
    (hadd : s.field? "additionalProperties" ≠ none) {key : String} :
    key ∈ additionalKeys (.json v) s ↔
      key ∈ v.keysOf ∧ key ∉ (propertiesOf s).map Prod.fst := by
  have hkeys : (Datum.json v).keys = v.keysOf := by cases v <;> rfl
  unfold additionalKeys
  rw [List.mem_filter, hkeys, schemaProperties_eq hs]
  refine and_congr_right fun hkey => ?_
  exact member?_isNone (v := .obj (propertiesOf s)) rfl (hno.additional hadd key hkey)

/-- The part at a key decides what the part itself decides. -/
theorem validateMember_decides (hv : v.isPlainObject = true) {key path : String} {sub : Json}
    (hown : key ∈ inheritedNames → key ∈ v.keysOf)
    (hrec : ∀ x, v.field? key = some x → ∀ path, Decides (recur (.json x) sub path) (V sub x)) :
    Decides (validateMember recur (.json v) path key sub)
      (∀ x, v.field? key = some x → V sub x) := by
  unfold validateMember
  rw [member?_json hv]
  cases hx : v.field? key with
  | some x => exact (hrec x hx _).congr (by simp)
  | none =>
    have hnot : key ∉ inheritedNames := fun hc => Json.not_mem_keysOf.mpr hx (hown hc)
    simp only [inheritedMember_eq_none.mpr hnot]
    exact .ok (by simp)

section Node

variable (hs : KeywordNode s)
  (hrec : ∀ sub x, Applies s v sub x → ∀ path, Decides (recur (.json x) sub path) (V sub x))

include hs hrec

theorem additionalErrors_decides (hv : v.isPlainObject = true) (hno : NoInherited s v)
    (path : String) :
    Decides (additionalErrors recur (.json v) s path)
      ((s.field? "additionalProperties" = some (.bool false) →
          ∀ k ∈ v.keysOf, k ∈ (propertiesOf s).map Prod.fst) ∧
        ∀ sub, s.field? "additionalProperties" = some sub → sub.isPlainObject = true →
          ∀ key x, v.field? key = some x → key ∉ (propertiesOf s).map Prod.fst → V sub x) := by
  unfold additionalErrors
  cases hadd : s.field? "additionalProperties" with
  | none => exact .ok (by simp)
  | some sub =>
    have hkeys : ∀ {key}, key ∈ additionalKeys (.json v) s ↔
        key ∈ v.keysOf ∧ key ∉ (propertiesOf s).map Prod.fst :=
      mem_additionalKeys hs hno (by rw [hadd]; exact Option.some_ne_none _)
    -- `false` allows no further key, a schema judges each of them
    rcases hs.additional sub hadd with rfl | hsub
    · refine .ok ?_
      rw [List.map_eq_nil_iff, List.eq_nil_iff_forall_not_mem]
      constructor
      · intro h
        refine ⟨fun _ k hk => ?_, fun sub hsub hobj => ?_⟩
        · by_contra hnot
          exact h k (hkeys.mpr ⟨hk, hnot⟩)
        · obtain rfl := Option.some.inj hsub
          cases hobj
      · intro h k hk
        exact (hkeys.mp hk).2 (h.1 rfl k (hkeys.mp hk).1)
    · obtain ⟨fields, rfl⟩ : ∃ fields, sub = .obj fields := by
        cases sub with
        | obj fields => exact ⟨fields, rfl⟩
        | _ => cases hsub
      have hcollect : Decides
          (collect (additionalKeys (.json v) s) fun key =>
            validateMember recur (.json v) path key (.obj fields))
          (∀ key ∈ additionalKeys (.json v) s, ∀ x, v.field? key = some x →
            V (.obj fields) x) := by
        refine collect_decides fun key hkey => ?_
        have hown := (hkeys.mp hkey).1
        refine validateMember_decides hv (fun _ => hown) fun x hx => ?_
        exact hrec _ x (.additional hadd hsub hx (hkeys.mp hkey).2)
      refine Decides.congr hcollect ?_
      constructor
      · intro h
        refine ⟨fun hc => (by cases hc), fun sub hsub' _ key x hx hnot => ?_⟩
        obtain rfl := Option.some.inj hsub'
        exact h key (hkeys.mpr ⟨Json.mem_keysOf.mpr ⟨x, hx⟩, hnot⟩) x hx
      · intro h key hkey x hx
        exact h.2 _ rfl hsub key x hx (hkeys.mp hkey).2

theorem properties_decides (hv : v.isPlainObject = true) (hno : NoInherited s v) (path : String) :
    Decides
      (collect (entriesOf (schemaProperties s)) fun entry =>
        validateMember recur (.json v) path entry.1 entry.2)
      (∀ entry ∈ propertiesOf s, ∀ x, v.field? entry.1 = some x → V entry.2 x) := by
  rw [schemaProperties_eq hs]
  refine collect_decides fun entry hentry => ?_
  have hname : entry.1 ∈ (propertiesOf s).map Prod.fst := List.mem_map_of_mem hentry
  refine validateMember_decides hv (hno.properties _ hname) fun x hx => ?_
  exact hrec _ x (.property hentry hx)

/-- The keywords that look at an object. -/
theorem objectErrors_decides (hno : v.isPlainObject = true → NoInherited s v) (path : String) :
    Decides (objectErrors recur (.json v) s path)
      ((∀ rs, s.field? "required" = some (.arr rs) → v.isPlainObject = true →
          ∀ r, Json.str r ∈ rs → r ∈ v.keysOf) ∧
        (s.field? "additionalProperties" = some (.bool false) →
          ∀ k ∈ v.keysOf, k ∈ (propertiesOf s).map Prod.fst) ∧
        (v.isPlainObject = true → ∀ sub x, Applies s v sub x → V sub x)) := by
  unfold objectErrors
  rw [matchesType_object]
  cases hv : v.isPlainObject with
  | false =>
    have hkeys : v.keysOf = [] := by
      cases v with
      | obj fields => cases hv
      | _ => rfl
    exact .ok (by simp [hkeys])
  | true =>
    obtain ⟨extra, hextra, hextraiff⟩ := additionalErrors_decides hs hrec hv (hno hv) path
    obtain ⟨nested, hnested, hnestediff⟩ := properties_decides hs hrec hv (hno hv) path
    refine ⟨requiredErrors (.json v) s path ++ extra ++ nested, ?_, ?_⟩
    · rw [if_pos rfl, hextra, hnested]
      rfl
    · have hrequired := requiredErrors_eq_nil hs hv (hno hv) path
      rw [hv] at hrequired
      rw [List.append_eq_nil_iff, List.append_eq_nil_iff, hrequired, hextraiff, hnestediff]
      constructor
      · rintro ⟨⟨hreq, hclosed, hadd⟩, hprops⟩
        refine ⟨hreq, hclosed, fun _ sub x happ => ?_⟩
        cases happ with
        | property hmem hx => exact hprops _ hmem x hx
        | additional hadd' hobj hx hnot => exact hadd _ hadd' hobj _ x hx hnot
        | item hitem => rw [hitem] at hv; cases hv
      · rintro ⟨hreq, hclosed, hparts⟩
        refine ⟨⟨hreq, hclosed, fun sub hadd hobj key x hx hnot => ?_⟩, fun entry hmem x hx => ?_⟩
        · exact hparts rfl sub x (.additional hadd hobj hx hnot)
        · exact hparts rfl entry.2 x (.property hmem hx)

theorem itemErrors_decides (path : String) :
    Decides (itemErrors recur (.json v) s path)
      (∀ elems, v = .arr elems → ∀ sub x, Applies s v sub x → V sub x) := by
  unfold itemErrors
  split
  · next elems items hv hitems =>
    obtain rfl := Datum.json.inj hv
    obtain ⟨fields, rfl⟩ : ∃ fields, items = .obj fields := by
      have hobj := hs.items items hitems
      cases items with
      | obj fields => exact ⟨fields, rfl⟩
      | _ => cases hobj
    have hcollect : Decides
        (collect elems.zipIdx fun el => recur (.json el.1) (.obj fields) (path ++ "/" ++ toString el.2))
        (∀ el ∈ elems.zipIdx, V (.obj fields) el.1) := by
      refine collect_decides fun el hel => ?_
      exact hrec _ _ (.item rfl hitems (List.fst_mem_of_mem_zipIdx hel)) _
    rw [if_pos (show Json.truthy (some (.obj fields)) = true from rfl)]
    refine hcollect.congr ?_
    constructor
    · intro h elems' _ sub x happ
      cases happ with
      | property _ hx => cases hx
      | additional _ _ hx => cases hx
      | item hv' hitems' hx =>
        obtain rfl := Json.arr.inj hv'
        obtain rfl := Option.some.inj (hitems.symm.trans hitems')
        obtain ⟨i, hi, rfl⟩ := List.getElem_of_mem hx
        exact h (elems[i], i) (List.mk_mem_zipIdx_iff_getElem?.mpr (List.getElem?_eq_getElem hi))
    · intro h el hel
      exact h elems rfl _ _ (.item rfl hitems (List.fst_mem_of_mem_zipIdx hel))
  · next h =>
    refine .ok (iff_of_true rfl fun elems hv sub x happ => ?_)
    cases happ with
    | property _ hx => rw [hv] at hx; cases hx
    | additional _ _ hx => rw [hv] at hx; cases hx
    | item _ hitems => exact (h elems sub (by rw [hv]) hitems).elim

end Node

/-- **One node decides what the keywords mean**, when its parts decide what
they mean and no inherited name is looked up. -/
theorem nodeErrors_decides (hs : KeywordNode s)
    (hno : TypeOk s v → v.isPlainObject = true → NoInherited s v)
    (hrec : TypeOk s v → ∀ sub x, Applies s v sub x → ∀ path,
      Decides (recur (.json x) sub path) (V sub x)) (path : String) :
    Decides (nodeErrors env recur (.json v) s path)
      (LocalOk env s v ∧ ∀ sub x, Applies s v sub x → V sub x) := by
  unfold nodeErrors
  cases herror : typeError (.json v) s path with
  | some error =>
    -- A type mismatch is one error, and nothing below it is looked at.
    have hnot : ¬TypeOk s v := by
      rw [← typeError_eq_none path, herror]
      exact Option.some_ne_none _
    exact .ok (iff_of_false (List.cons_ne_nil _ _) fun h => hnot h.1.type)
  | none =>
    have htype : TypeOk s v := (typeError_eq_none path).mp herror
    obtain ⟨ofObject, hobject, hobjectiff⟩ :=
      objectErrors_decides hs (hrec htype) (hno htype) path
    obtain ⟨ofItems, hitems, hitemsiff⟩ := itemErrors_decides hs (hrec htype) path
    refine ⟨enumErrors env (.json v) s path ++ patternErrors env (.json v) s path ++
      formatErrors env (.json v) s path ++ minimumErrors (.json v) s path ++ ofObject ++ ofItems,
      by simp only [hobject, hitems]; rfl, ?_⟩
    simp only [List.append_eq_nil_iff, enumErrors_eq_nil, patternErrors_eq_nil,
      formatErrors_eq_nil, minimumErrors_eq_nil, hobjectiff, hitemsiff]
    constructor
    · rintro ⟨⟨⟨⟨⟨henum, hpattern⟩, hformat⟩, hmin⟩, hreq, hclosed, hparts⟩, hitem⟩
      refine ⟨⟨htype, henum, hpattern, hformat, hmin, hreq, hclosed⟩, fun sub x happ => ?_⟩
      cases happ with
      | item hv helems hx => exact hitem _ hv sub x (.item hv helems hx)
      | property hmem hx =>
        obtain ⟨fields, rfl, -⟩ := Json.field?_eq_some.mp hx
        exact hparts rfl sub x (.property hmem hx)
      | additional hadd hobj hx hnot =>
        obtain ⟨fields, rfl, -⟩ := Json.field?_eq_some.mp hx
        exact hparts rfl sub x (.additional hadd hobj hx hnot)
    · rintro ⟨⟨-, henum, hpattern, hformat, hmin, hreq, hclosed⟩, hparts⟩
      exact ⟨⟨⟨⟨⟨henum, hpattern⟩, hformat⟩, hmin⟩, hreq, hclosed, fun _ => hparts⟩,
        fun _ _ => hparts⟩

/-! ## References -/

theorem KeywordNode.ref_none (hs : KeywordNode s) : s.field? "$ref" = none := by
  rw [← Json.not_mem_keysOf]
  intro h
  exact absurd (hs.names _ h) (by decide)

theorem pointerPart_of_ownPart {node x : Json} {part : String} (h : ownPart node part = some x) :
    pointerPart node part = some x := by
  rw [pointerPart, h, Option.some_or]

theorem foldlM_pointerPart {parts : List String} {node t : Json}
    (h : parts.foldlM ownPart node = some t) : parts.foldlM pointerPart node = some t := by
  induction parts generalizing node with
  | nil => exact h
  | cons part parts ih =>
    rw [List.foldlM_cons] at h ⊢
    obtain ⟨x, hx, hrest⟩ := Option.bind_eq_some_iff.mp h
    exact Option.bind_eq_some_iff.mpr ⟨x, pointerPart_of_ownPart hx, ih hrest⟩

/-- A pointer that leads to a node by names of its own is resolved to it. -/
theorem resolveRef_ok {ref : String} {t : Json} (hplain : PlainPointer ref)
    (h : resolveOwn ref root = some t) : resolveRef ref root = .ok t := by
  unfold resolveRef
  rw [if_neg (not_not.mpr hplain.1), foldlM_pointerPart h]

theorem ReferenceNode.resolve {t : Json} (hs : ReferenceNode root s) (ht : RefersTo root s t) :
    ∃ ref, s.field? "$ref" = some (.str ref) ∧ resolveRef ref root = .ok t := by
  obtain ⟨ref, t', href, hplain, hresolve⟩ := hs.leads
  obtain rfl : t' = t := RefersTo.unique ⟨ref, href, hresolve⟩ ht
  exact ⟨ref, href, resolveRef_ok hplain hresolve⟩

/-! ## The walk -/

theorem validateNode_node (hobj : s.isPlainObject = true) (hs : s.field? "$ref" = none) (n : ℕ)
    (data : Datum) (path : String) :
    validateNode env root (n + 1) data s path =
      nodeErrors env (validateNode env root n) data s path := by
  cases s with
  | obj fields => simp only [validateNode, hs]
  | _ => cases hobj

theorem validateNode_ref (hobj : s.isPlainObject = true) {ref : String} {t : Json}
    (hs : s.field? "$ref" = some (.str ref)) (ht : resolveRef ref root = .ok t) (n : ℕ)
    (data : Datum) (path : String) :
    validateNode env root (n + 1) data s path = validateNode env root n data t path := by
  cases s with
  | obj fields =>
    simp only [validateNode, hs, ht]
    rfl
  | _ => cases hobj

/-- The walk over `s` and `v` comes to `s'` and `v'`. -/
inductive Visits (root : Json) : Json → Json → Json → Json → Prop
  | here {s v : Json} : Visits root s v s v
  | ref {s t v s' v' : Json} : RefersTo root s t → Visits root t v s' v' → Visits root s v s' v'
  | part {s v sub x s' v' : Json} : TypeOk s v → Applies s v sub x → Visits root sub x s' v' →
      Visits root s v s' v'

/-- **The walk looks no inherited name up** on an object that does not own it. -/
def Untouched (root s v : Json) : Prop :=
  ∀ s' v', Visits root s v s' v' → TypeOk s' v' → v'.isPlainObject = true → NoInherited s' v'

/-- With a stack that is large enough, the walk decides. -/
def Settles (env : ValidateEnv) (root s v : Json) : Prop :=
  ∀ᶠ n in Filter.atTop, ∀ path, Decides (validateNode env root n (.json v) s path)
    (Valid env root s v)

/-- A node and a value have finitely many parts to compare. -/
theorem applies_finite (s v : Json) : {p : Json × Json | Applies s v p.1 p.2}.Finite := by
  let subs := (propertiesOf s).map Prod.snd ++ (s.field? "additionalProperties").toList ++
    (s.field? "items").toList
  let values := v.fieldsOf.map Prod.snd ++ (v.arr?.getD [])
  have hfield : ∀ {name x}, v.field? name = some x → x ∈ values := by
    intro name x hx
    obtain ⟨fields, rfl, hlookup⟩ := Json.field?_eq_some.mp hx
    exact List.mem_append_left _ (List.mem_map_of_mem (mem_of_lookup hlookup))
  refine Set.Finite.subset (List.finite_toSet (subs.product values)) fun p hp => ?_
  refine List.mem_product.mpr ?_
  cases hp with
  | property hmem hx => exact ⟨by simp [subs, List.mem_map_of_mem hmem], hfield hx⟩
  | additional hadd _ hx => exact ⟨by simp [subs, hadd], hfield hx⟩
  | item hv hitems hx => exact ⟨by simp [subs, hitems], by simp [values, hv, Json.arr?, hx]⟩

theorem Settles.succ (hs : ∀ᶠ n in Filter.atTop, ∀ path,
    Decides (validateNode env root (n + 1) (.json v) s path) (Valid env root s v)) :
    Settles env root s v := by
  have hshift := (Filter.tendsto_sub_atTop_nat 1).eventually hs
  filter_upwards [hshift, Filter.eventually_ge_atTop 1] with n hn hpos path
  have hsucc := hn path
  rwa [Nat.sub_add_cancel hpos] at hsucc

/-- **The walk decides validity**, over every value and every chain of
references. -/
theorem validateNode_settles (hdom : InSubset root) (hs : Reachable root s)
    (hun : Untouched root s v) : Settles env root s v := by
  induction hk : sizeOf v using Nat.strong_induction_on generalizing s v with
  | _ k ih =>
    induction hdom.ends s hs with
    | @ref s t ht _ ihref =>
      -- A reference has its target's answer, one level further down.
      have htarget := ihref (.target hs ht) fun s' v' h => hun s' v' (.ref ht h)
      have hnode : ReferenceNode root s := (hdom.shape s hs).resolve_left fun hkey =>
        ht.field_ne_none hkey.ref_none
      obtain ⟨ref, href, hresolve⟩ := hnode.resolve ht
      refine Settles.succ (htarget.mono fun n hn path => ?_)
      rw [validateNode_ref (hdom.object s hs) href hresolve]
      exact (hn path).congr (valid_ref ht).symm
    | @node s hnone =>
      have hkey : KeywordNode s := (hdom.shape s hs).resolve_right fun href => by
        obtain ⟨ref, t, hsome, -⟩ := href.leads
        rw [hnone] at hsome
        cases hsome
      have hparts : ∀ᶠ n in Filter.atTop, ∀ p ∈ {p : Json × Json | Applies s v p.1 p.2},
          TypeOk s v → ∀ path,
            Decides (validateNode env root n (.json p.2) p.1 path) (Valid env root p.1 p.2) := by
        rw [Filter.eventually_all_finite (applies_finite s v)]
        intro p happ
        by_cases htype : TypeOk s v
        · have hpart : Settles env root p.1 p.2 :=
            ih (sizeOf p.2) (hk ▸ happ.sizeOf_lt) (.sub hs happ.subschema)
              (fun s' v' h => hun s' v' (.part htype happ h)) rfl
          exact hpart.mono fun n hn _ => hn
        · exact .of_forall fun n h => absurd h htype
      refine Settles.succ (hparts.mono fun n hn path => ?_)
      rw [validateNode_node (hdom.object s hs) hnone]
      have hdecides : Decides (nodeErrors env (validateNode env root n) (.json v) s path) _ :=
        nodeErrors_decides (V := Valid env root) hkey (hun s v .here)
          (fun htype sub x happ => hn (sub, x) happ htype) path
      exact hdecides.congr (valid_node hnone).symm

/-! ## The contract -/

/-- The validator returns, and returns no error exactly when the value is
valid. -/
def ContractDecided (env : ValidateEnv) (schema v : Json) : Prop :=
  ∃ n, ∀ m ≥ n, ∃ errs, validateContract env m v schema = .ok errs ∧
    (errs = [] ↔ Valid env schema schema v)

theorem contractDecided_of_untouched {schema : Json} (hdom : InSubset schema)
    (hun : Untouched schema schema v) : ContractDecided env schema v := by
  have hsettles : Settles env schema schema v := validateNode_settles hdom .root hun
  obtain ⟨n, hn⟩ := Filter.eventually_atTop.mp hsettles
  exact ⟨n, fun m hm => hn m hm ""⟩

/-- A part of a document: itself, or a member or element of a part. -/
inductive PartOf (v : Json) : Json → Prop
  | self : PartOf v v
  | member {x y : Json} {name : String} : PartOf v x → x.field? name = some y → PartOf v y
  | element {elems : List Json} {y : Json} : PartOf v (.arr elems) → y ∈ elems → PartOf v y

/-- Every property name of the schema and of the value is in `N`. -/
structure NamesIn (N : Set String) (schema v : Json) : Prop where
  required : ∀ s, Reachable schema s → ∀ r ∈ requiredNames s, r ∈ N
  properties : ∀ s, Reachable schema s → ∀ name ∈ (propertiesOf s).map Prod.fst, name ∈ N
  keys : ∀ x, PartOf v x → ∀ k ∈ x.keysOf, k ∈ N

theorem Applies.partOf {sub x w : Json} (h : Applies s v sub x) (hv : PartOf w v) :
    PartOf w x := by
  cases h with
  | property _ hx => exact hv.member hx
  | additional _ _ hx => exact hv.member hx
  | item harr _ hx => exact (harr ▸ hv).element hx

/-- A walk stays among the nodes of the schema and the parts of the value. -/
theorem Visits.within {s' v' w : Json} (h : Visits root s v s' v') (hs : Reachable root s)
    (hv : PartOf w v) : Reachable root s' ∧ PartOf w v' := by
  induction h with
  | here => exact ⟨hs, hv⟩
  | ref ht _ ih => exact ih (.target hs ht) hv
  | part _ happ _ ih => exact ih (.sub hs happ.subschema) (happ.partOf hv)

theorem untouched_of_namesIn {N : Set String} {schema : Json} (hnames : NamesIn N schema v)
    (hN : ∀ name ∈ inheritedNames, name ∉ N) : Untouched schema schema v := by
  intro s' v' hvisit _ _
  obtain ⟨hs', hv'⟩ := hvisit.within .root .self
  refine ⟨fun r hr hin => ?_, fun name hname hin => ?_, fun _ name hname hin => ?_⟩
  · exact absurd (hnames.required s' hs' r hr) (hN r hin)
  · exact absurd (hnames.properties s' hs' name hname) (hN name hin)
  · exact absurd (hnames.keys v' hv' name hname) (hN name hin)

/-! ## A name every object inherits -/

/-- An object that has to own one name. -/
def requiringSchema (name : String) : Json :=
  .obj [("type", .str "object"), ("required", .arr [.str name])]

theorem reachable_requiringSchema {name : String} (h : Reachable (requiringSchema name) s) :
    s = requiringSchema name := by
  induction h with
  | root => rfl
  | sub _ hsub ih =>
    subst ih
    cases hsub with
    | property hmem => exact absurd hmem List.not_mem_nil
    | additional hadd => exact absurd hadd (by simp [Json.field?, requiringSchema, List.lookup_cons])
    | items hitems => exact absurd hitems (by simp [Json.field?, requiringSchema, List.lookup_cons])
  | target _ ht ih =>
    subst ih
    obtain ⟨ref, href, -⟩ := ht
    exact absurd href (by simp [Json.field?, requiringSchema, List.lookup_cons])

theorem inSubset_requiringSchema (name : String) : InSubset (requiringSchema name) := by
  have hfield : ∀ k, k ≠ "type" → k ≠ "required" → (requiringSchema name).field? k = none := by
    intro k htype hreq
    have htype' : (k == "type") = false := beq_eq_false_iff_ne.mpr htype
    have hreq' : (k == "required") = false := beq_eq_false_iff_ne.mpr hreq
    simp [requiringSchema, Json.field?, List.lookup_cons, htype', hreq']
  have hnode : KeywordNode (requiringSchema name) :=
    { names := by
        intro k hk
        have hmem : k = "type" ∨ k = "required" := by
          simpa [requiringSchema, Json.keysOf, Json.fieldsOf] using hk
        rcases hmem with rfl | rfl <;> simp [schemaKeywords]
      type := by
        intro t ht n hn
        obtain rfl : Json.str "object" = t := Option.some.inj ht
        exact ⟨"object", by simp [typeNames], List.mem_singleton.mp hn⟩
      enum := fun e he => by simp [hfield] at he
      minimum := fun e he => by simp [hfield] at he
      pattern := fun e he => by simp [hfield] at he
      format := fun e he => by simp [hfield] at he
      properties := fun e he => by simp [hfield] at he
      required := by
        intro e he
        obtain rfl : Json.arr [.str name] = e := Option.some.inj he
        exact ⟨[name], rfl⟩
      additional := fun e he => by simp [hfield] at he
      items := fun e he => by simp [hfield] at he }
  refine ⟨fun s hs => ?_, fun s hs => ?_, fun s hs => ?_⟩
  · rw [reachable_requiringSchema hs]
    rfl
  · rw [reachable_requiringSchema hs]
    exact .inl hnode
  · rw [reachable_requiringSchema hs]
    exact .node (hfield "$ref" (by decide) (by decide))

/-- **The empty object passes** where it has to own a name it inherits. -/
theorem not_contractDecided {name : String} (hname : name ∈ inheritedNames) :
    ¬ContractDecided env (requiringSchema name) (.obj []) := by
  rintro ⟨n, hn⟩
  obtain ⟨errs, hrun, hiff⟩ := hn (n + 1) (Nat.le_succ n)
  have hmember : (inheritedMember name).isNone = false := by
    rw [Bool.eq_false_iff, ne_eq, Option.isNone_iff_eq_none, inheritedMember_eq_none]
    exact not_not.mpr hname
  have hempty : validateContract env (n + 1) (.obj []) (requiringSchema name) = .ok [] := by
    simp [validateContract, validateNode, nodeErrors, typeError, requiringSchema, Json.field?,
      List.lookup_cons, typesOf, Json.str?, matchesType, enumErrors, patternErrors, formatErrors,
      minimumErrors, objectErrors, additionalErrors, schemaProperties, entriesOf, collect,
      requiredErrors, requiredNames, Json.text, Datum.member?, hmember, itemErrors]
    rfl
  obtain rfl := Except.ok.inj (hempty.symm.trans hrun)
  have hvalid := (valid_node (inSubset_requiringSchema name |>.shape _ .root |>.resolve_right
    (fun href => by
      obtain ⟨ref, t, hsome, -⟩ := href.leads
      exact absurd hsome (by simp [Json.field?, requiringSchema, List.lookup_cons])) |>.ref_none)).mp
    (hiff.mp rfl)
  have hown := hvalid.1.required [.str name] rfl rfl name List.mem_cons_self
  exact absurd hown List.not_mem_nil

theorem namesIn_requiringSchema {N : Set String} {name : String} (h : name ∈ N) :
    NamesIn N (requiringSchema name) (.obj []) := by
  have hparts : ∀ x, PartOf (.obj []) x → x = .obj [] := by
    intro x hx
    induction hx with
    | self => rfl
    | member _ hfield ih =>
      subst ih
      cases hfield
    | element _ _ ih => cases ih
  refine ⟨fun s hs r hr => ?_, fun s hs k hk => ?_, fun x hx k hk => ?_⟩
  · obtain rfl := reachable_requiringSchema hs
    obtain rfl : r = name := by
      simpa [requiredNames, requiringSchema, Json.field?, List.lookup_cons, Json.text] using hr
    exact h
  · obtain rfl := reachable_requiringSchema hs
    cases hk
  · obtain rfl := hparts x hx
    cases hk

/-- **The validator decides its subset** wherever the walk looks no inherited
name up on an object that does not own it; and it does so for all schemas and
values over a set of property names exactly when no name of the set is one
that objects inherit. -/
theorem validateContract_decides (env : ValidateEnv) :
    (∀ schema v, InSubset schema → Untouched schema schema v → ContractDecided env schema v) ∧
      ∀ N : Set String,
        (∀ schema v, InSubset schema → NamesIn N schema v → ContractDecided env schema v) ↔
          ∀ name ∈ inheritedNames, name ∉ N := by
  refine ⟨fun schema v => contractDecided_of_untouched, fun N => ⟨fun h name hname hN => ?_,
    fun hN schema v hdom hnames => ?_⟩⟩
  · exact not_contractDecided hname
      (h _ _ (inSubset_requiringSchema name) (namesIn_requiringSchema hN))
  · exact contractDecided_of_untouched hdom (untouched_of_namesIn hnames hN)

namespace OneName

/-- What the checks of values need of their host. -/
def host : ValidateEnv := ⟨fun _ _ => true, fun _ => true, fun _ => "{}"⟩

/-- `{}` has no `toString` of its own, and is not asked for one. -/
theorem toString_notDecided :
    InSubset (requiringSchema "toString") ∧
      validateContract host 5 (.obj []) (requiringSchema "toString") = .ok [] ∧
      ¬Valid host (requiringSchema "toString") (requiringSchema "toString") (.obj []) ∧
      ¬ContractDecided host (requiringSchema "toString") (.obj []) := by
  refine ⟨inSubset_requiringSchema _, rfl, fun hvalid => ?_,
    not_contractDecided (by decide)⟩
  have hlocal := ((valid_node rfl).mp hvalid).1
  exact absurd (hlocal.required [.str "toString"] rfl rfl "toString" List.mem_cons_self)
    List.not_mem_nil

/-- The schema of a text. -/
def text : Json := .obj [("type", .str "string")]

/-- A reference to it. -/
def reference : Json := .obj [("$ref", .str "#/$defs/id")]

/-- An object with one required text. -/
def schema : Json :=
  .obj [("type", .str "object"), ("required", .arr [.str "id"]),
    ("properties", .obj [("id", reference)]), ("additionalProperties", .bool false),
    ("$defs", .obj [("id", text)])]

theorem reachable_schema {s : Json} (h : Reachable schema s) :
    s = schema ∨ s = reference ∨ s = text := by
  induction h with
  | root => exact .inl rfl
  | sub _ hsub ih =>
    rcases ih with rfl | rfl | rfl
    · cases hsub with
      | property hmem => exact .inr (.inl (Prod.mk.inj (List.mem_singleton.mp hmem)).2)
      | additional hadd hobj =>
        obtain rfl := Option.some.inj hadd
        cases hobj
      | items hitems => cases hitems
    · cases hsub with
      | property hmem => cases hmem
      | additional hadd => cases hadd
      | items hitems => cases hitems
    · cases hsub with
      | property hmem => cases hmem
      | additional hadd => cases hadd
      | items hitems => cases hitems
  | target _ ht ih =>
    obtain ⟨ref, href, ht⟩ := ht
    rcases ih with rfl | rfl | rfl
    · cases href
    · obtain rfl := Json.str.inj (Option.some.inj href)
      exact .inr (.inr (Option.some.inj ht).symm)
    · cases href

theorem keywordNode_schema : KeywordNode schema where
  names := by decide
  type := by
    rintro t ht n hn
    obtain rfl := Option.some.inj ht
    exact ⟨"object", by decide, List.mem_singleton.mp hn⟩
  enum := by rintro e he; cases he
  minimum := by rintro e he; cases he
  pattern := by rintro e he; cases he
  format := by rintro e he; cases he
  properties := fun e he => ⟨_, (Option.some.inj he).symm⟩
  required := fun e he => ⟨["id"], (Option.some.inj he).symm⟩
  additional := fun e he => .inl (Option.some.inj he).symm
  items := by rintro e he; cases he

theorem keywordNode_text : KeywordNode text where
  names := by decide
  type := by
    rintro t ht n hn
    obtain rfl := Option.some.inj ht
    exact ⟨"string", by decide, List.mem_singleton.mp hn⟩
  enum := by rintro e he; cases he
  minimum := by rintro e he; cases he
  pattern := by rintro e he; cases he
  format := by rintro e he; cases he
  properties := by rintro e he; cases he
  required := by rintro e he; cases he
  additional := by rintro e he; cases he
  items := by rintro e he; cases he

theorem refersTo_reference : RefersTo schema reference text := ⟨"#/$defs/id", rfl, rfl⟩

theorem inSubset_schema : InSubset schema := by
  refine ⟨fun s hs => ?_, fun s hs => ?_, fun s hs => ?_⟩
  · rcases reachable_schema hs with rfl | rfl | rfl <;> rfl
  · rcases reachable_schema hs with rfl | rfl | rfl
    · exact .inl keywordNode_schema
    · exact .inr ⟨by decide, "#/$defs/id", text, rfl, ⟨by decide, by decide, by decide⟩, rfl⟩
    · exact .inl keywordNode_text
  · rcases reachable_schema hs with rfl | rfl | rfl
    · exact .node rfl
    · exact .ref refersTo_reference (.node rfl)
    · exact .node rfl

theorem untouched_schema : Untouched schema schema (.obj [("id", .str "item")]) := by
  refine untouched_of_namesIn (N := {"id"}) ⟨fun s hs => ?_, fun s hs => ?_, fun x hx => ?_⟩
    (by decide)
  · rcases reachable_schema hs with rfl | rfl | rfl <;> decide
  · rcases reachable_schema hs with rfl | rfl | rfl <;> decide
  · have hparts : x = .obj [("id", .str "item")] ∨ x = .str "item" := by
      induction hx with
      | self => exact .inl rfl
      | member _ hfield ih =>
        rcases ih with rfl | rfl
        · obtain ⟨fields, hf, hlookup⟩ := Json.field?_eq_some.mp hfield
          obtain rfl := Json.obj.inj hf
          exact .inr (Prod.mk.inj (List.mem_singleton.mp (mem_of_lookup hlookup))).2
        · cases hfield
      | element _ _ ih => rcases ih with hc | hc <;> cases hc
    rcases hparts with rfl | rfl <;> decide

theorem validateContract_decides_reference :
    ContractDecided host schema (.obj [("id", .str "item")]) :=
  (validateContract_decides host).1 schema _ inSubset_schema untouched_schema

end OneName

end SymphonyBoard
