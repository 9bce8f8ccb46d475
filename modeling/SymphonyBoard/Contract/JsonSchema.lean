import SymphonyBoard.Contract.Validate
/-!
# What the keywords mean

JSON Schema's own account of the keywords the validator lists, over values
whose objects have their own properties and no others: `Valid` says when a
value meets a schema, and `InSubset` which schemas are built from these
keywords only. Nothing here runs; `ValidateCorrect` compares the walk with
it.
-/

namespace SymphonyBoard

/-! ## Values -/

/-- The fields of an object; none of anything else. -/
def Json.fieldsOf : Json → List (String × Json)
  | .obj fields => fields
  | _ => []

/-- The keys of an object. -/
def Json.keysOf (j : Json) : List String := j.fieldsOf.map Prod.fst

/-- A value has a type of a name; a number of an integral value is an
integer and a number. -/
inductive HasType : Json → String → Prop
  | null : HasType .null "null"
  | array {elems} : HasType (.arr elems) "array"
  | object {fields} : HasType (.obj fields) "object"
  | string {s} : HasType (.str s) "string"
  | boolean {b} : HasType (.bool b) "boolean"
  | number {m s} : HasType (.num m s) "number"
  | integer {m s} (k : ℤ) : numberValue m s = k → HasType (.num m s) "integer"

/-- Two values without parts are the same. -/
def SameValue : Json → Json → Prop
  | .null, .null => True
  | .bool a, .bool b => a = b
  | .num m s, .num m' s' => numberValue m s = numberValue m' s'
  | .str a, .str b => a = b
  | _, _ => False

/-- A value without parts. -/
def Json.IsPrimitive : Json → Prop
  | .arr _ => False
  | .obj _ => False
  | _ => True

/-! ## One node -/

/-- The properties a schema names. -/
def propertiesOf (s : Json) : List (String × Json) :=
  match s.field? "properties" with
  | some (.obj props) => props
  | _ => []

/-- `type` holds of a value. -/
def TypeOk (s v : Json) : Prop :=
  ∀ t, s.field? "type" = some t → ∃ name, Json.str name ∈ typesOf t ∧ HasType v name

/-- The keywords that look at the value itself. -/
structure LocalOk (env : ValidateEnv) (s v : Json) : Prop where
  type : TypeOk s v
  enum : ∀ es, s.field? "enum" = some (.arr es) → ∃ e ∈ es, SameValue e v
  pattern : ∀ p t, s.field? "pattern" = some (.str p) → v = .str t → env.test p t
  format : ∀ t, s.field? "format" = some (.str "date-time") → v = .str t → env.dateParses t
  minimum : ∀ m k m' k', s.field? "minimum" = some (.num m k) → v = .num m' k' →
    numberValue m k ≤ numberValue m' k'
  required : ∀ rs, s.field? "required" = some (.arr rs) → v.isPlainObject →
    ∀ r, Json.str r ∈ rs → r ∈ v.keysOf
  closed : s.field? "additionalProperties" = some (.bool false) →
    ∀ k ∈ v.keysOf, k ∈ (propertiesOf s).map Prod.fst

/-- A keyword of `s` asks that the part `x` of `v` meet `sub`. -/
inductive Applies (s v : Json) : Json → Json → Prop
  | property {name sub x} : (name, sub) ∈ propertiesOf s → v.field? name = some x →
      Applies s v sub x
  | additional {name sub x} : s.field? "additionalProperties" = some sub → sub.isPlainObject →
      v.field? name = some x → name ∉ (propertiesOf s).map Prod.fst → Applies s v sub x
  | item {elems sub x} : v = .arr elems → s.field? "items" = some sub → x ∈ elems →
      Applies s v sub x

/-! ## References -/

/-- The node a pointer leads to. -/
def resolveOwn (ref : String) (root : Json) : Option Json :=
  (pointerParts ref).foldlM ownPart root

/-- A node that is a reference leads to `t`. -/
def RefersTo (root s t : Json) : Prop :=
  ∃ ref, s.field? "$ref" = some (.str ref) ∧ resolveOwn ref root = some t

/-! ## Validity -/

/-- `v` is valid under the schema `s`: here, and under every schema that applies to a part. -/
inductive Valid (env : ValidateEnv) (root : Json) : Json → Json → Prop
  | ref {s t v} : RefersTo root s t → Valid env root t v → Valid env root s v
  | node {s v} : s.field? "$ref" = none → LocalOk env s v →
      (∀ sub x, Applies s v sub x → Valid env root sub x) → Valid env root s v

/-! ## The subset -/

/-- The names a schema's `type` may have. -/
def typeNames : List String := ["null", "array", "object", "string", "boolean", "integer", "number"]

/-- The keywords, and the place for definitions. -/
def schemaKeywords : List String :=
  ["type", "enum", "minimum", "pattern", "format", "properties", "required",
    "additionalProperties", "items", "$defs"]

/-- A node of keywords, each with a value of its kind. -/
structure KeywordNode (s : Json) : Prop where
  names : ∀ k ∈ s.keysOf, k ∈ schemaKeywords
  type : ∀ t, s.field? "type" = some t → ∀ n ∈ typesOf t, ∃ name ∈ typeNames, n = .str name
  enum : ∀ e, s.field? "enum" = some e → ∃ es, e = .arr es ∧ ∀ x ∈ es, x.IsPrimitive
  minimum : ∀ e, s.field? "minimum" = some e → ∃ m k, e = .num m k
  pattern : ∀ e, s.field? "pattern" = some e → ∃ p, e = .str p
  format : ∀ e, s.field? "format" = some e → e = .str "date-time"
  properties : ∀ e, s.field? "properties" = some e → ∃ props, e = .obj props
  required : ∀ e, s.field? "required" = some e → ∃ names : List String, e = .arr (names.map .str)
  additional : ∀ e, s.field? "additionalProperties" = some e →
    e = .bool false ∨ e.isPlainObject = true
  items : ∀ e, s.field? "items" = some e → e.isPlainObject = true

/-- A pointer into the document whose segments are written plainly. -/
def PlainPointer (ref : String) : Prop :=
  ref.toList.take 2 = ['#', '/'] ∧ '~' ∉ ref.toList ∧ '%' ∉ ref.toList

/-- A reference without keywords beside it. -/
structure ReferenceNode (root s : Json) : Prop where
  names : ∀ k ∈ s.keysOf, k = "$ref" ∨ k = "$defs"
  leads : ∃ ref t, s.field? "$ref" = some (.str ref) ∧ PlainPointer ref ∧
    resolveOwn ref root = some t

/-- The schemas under a node. -/
inductive Subschema (s : Json) : Json → Prop
  | property {name sub} : (name, sub) ∈ propertiesOf s → Subschema s sub
  | additional {sub} : s.field? "additionalProperties" = some sub → sub.isPlainObject →
      Subschema s sub
  | items {sub} : s.field? "items" = some sub → Subschema s sub

/-- The nodes a validation can come to. -/
inductive Reachable (root : Json) : Json → Prop
  | root : Reachable root root
  | sub {s sub} : Reachable root s → Subschema s sub → Reachable root sub
  | target {s t} : Reachable root s → RefersTo root s t → Reachable root t

/-- The references from a node come to an end. -/
inductive RefsEnd (root : Json) : Json → Prop
  | node {s} : s.field? "$ref" = none → RefsEnd root s
  | ref {s t} : RefersTo root s t → RefsEnd root t → RefsEnd root s

/-- **A schema of the subset.** -/
structure InSubset (root : Json) : Prop where
  object : ∀ s, Reachable root s → s.isPlainObject = true
  shape : ∀ s, Reachable root s → KeywordNode s ∨ ReferenceNode root s
  ends : ∀ s, Reachable root s → RefsEnd root s

/-! ## Facts about the account -/

theorem RefersTo.unique {root s t t' : Json} (h : RefersTo root s t) (h' : RefersTo root s t') :
    t = t' := by
  obtain ⟨ref, hs, ht⟩ := h
  obtain ⟨ref', hs', ht'⟩ := h'
  obtain rfl : ref = ref' := by simpa [hs] using hs'
  exact Option.some.inj (ht.symm.trans ht')

theorem RefersTo.field_ne_none {root s t : Json} (h : RefersTo root s t) :
    s.field? "$ref" ≠ none := by
  obtain ⟨ref, hs, -⟩ := h
  rw [hs]
  exact Option.some_ne_none _

/-- A reference is as valid as its target. -/
theorem valid_ref {env : ValidateEnv} {root s t v : Json} (h : RefersTo root s t) :
    Valid env root s v ↔ Valid env root t v := by
  refine ⟨fun hv => ?_, .ref h⟩
  cases hv with
  | ref h' hv => exact h.unique h' ▸ hv
  | node hnone => exact absurd hnone h.field_ne_none

theorem valid_node {env : ValidateEnv} {root s v : Json} (h : s.field? "$ref" = none) :
    Valid env root s v ↔ LocalOk env s v ∧ ∀ sub x, Applies s v sub x → Valid env root sub x := by
  refine ⟨fun hv => ?_, fun hv => .node h hv.1 hv.2⟩
  cases hv with
  | ref href => exact absurd h href.field_ne_none
  | node _ hlocal hparts => exact ⟨hlocal, hparts⟩

/-- What applies to a part is a schema under the node. -/
theorem Applies.subschema {s v sub x : Json} (h : Applies s v sub x) : Subschema s sub := by
  cases h with
  | property hmem => exact .property hmem
  | additional hadd hobj => exact .additional hadd hobj
  | item _ hitems => exact .items hitems

theorem Json.field?_eq_some {j : Json} {name : String} {x : Json} :
    j.field? name = some x ↔ ∃ fields, j = .obj fields ∧ fields.lookup name = some x := by
  cases j <;> simp [Json.field?]

theorem mem_of_lookup {name : String} {x : Json} {fields : List (String × Json)}
    (h : fields.lookup name = some x) : (name, x) ∈ fields := by
  obtain ⟨l, l', rfl, -⟩ := List.lookup_eq_some_iff.mp h
  exact List.mem_append_right _ List.mem_cons_self

/-- A part of a value is smaller than the value. -/
theorem Applies.sizeOf_lt {s v sub x : Json} (h : Applies s v sub x) : sizeOf x < sizeOf v := by
  have hfield : ∀ name, v.field? name = some x → sizeOf x < sizeOf v := by
    intro name hx
    obtain ⟨fields, rfl, hlookup⟩ := Json.field?_eq_some.mp hx
    have hmem := List.sizeOf_lt_of_mem (mem_of_lookup hlookup)
    simp only [Prod.mk.sizeOf_spec, Json.obj.sizeOf_spec] at hmem ⊢
    omega
  cases h with
  | property _ hx => exact hfield _ hx
  | additional _ _ hx _ => exact hfield _ hx
  | item hv _ hx =>
    subst hv
    have hmem := List.sizeOf_lt_of_mem hx
    simp only [Json.arr.sizeOf_spec]
    omega

end SymphonyBoard
