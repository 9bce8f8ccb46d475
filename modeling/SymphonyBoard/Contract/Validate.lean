import Mathlib.Data.Rat.Defs
import Mathlib.Algebra.Order.Field.Rat
import SymphonyBoard.Common.Json
import SymphonyBoard.Common.PlainCounts
/-!
# The contract validator

`validateContract` of `src/contract/validate.ts`, which walks a schema and
a value side by side. It looks names up with `in` and with `[...]`, and a
plain object answers to the names it inherits: a function, or the prototype
itself, may stand where a value should. `Datum` is what the walk can meet.

A walk that never ends is the engine's `RangeError`; the number of levels
stands for its stack.
-/

namespace SymphonyBoard

/-- Where a document is wrong, and how. -/
structure ValidationError where
  path : String
  message : String
deriving DecidableEq

/-! ## Names that are inherited -/

/-- What the validator is handed: a value, or what a name gives that an
object inherits. -/
inductive Datum
  | json (value : Json)
  | function
  | prototype

/-- What an object inherits under a name. -/
def inheritedMember (name : String) : Option Datum :=
  if name = "__proto__" then some .prototype
  else if name ∈ inheritedNames then some .function
  else none

/-- `data[name]`, where `name in data`. -/
def Datum.member? : Datum → String → Option Datum
  | .json (.obj fields), name =>
    match fields.lookup name with
    | some value => some (.json value)
    | none => inheritedMember name
  | .prototype, name =>
    if name = "__proto__" then some (.json .null)
    else if name ∈ inheritedNames then some .function
    else none
  | _, _ => none

/-- `Object.keys`. -/
def Datum.keys : Datum → List String
  | .json (.obj fields) => fields.map Prod.fst
  | _ => []

/-! ## Types -/

/-- The name of a value's type, in messages. -/
def typeName : Datum → String
  | .json .null => "null"
  | .json (.arr _) => "array"
  | .json (.num m s) => if (Json.num m s).isInteger then "integer" else "number"
  | .json (.bool _) => "boolean"
  | .json (.str _) => "string"
  | .json (.obj _) => "object"
  | .function => "function"
  | .prototype => "object"

/-- A value is of a type of the schema language. -/
def matchesType (v : Datum) (t : String) : Bool :=
  if t = "null" then v matches .json .null
  else if t = "array" then v matches .json (.arr _)
  else if t = "object" then v matches .json (.obj _) | .prototype
  else if t = "string" then v matches .json (.str _)
  else if t = "boolean" then v matches .json (.bool _)
  else if t = "integer" then
    match v with
    | .json j => j.isInteger
    | _ => false
  else if t = "number" then v matches .json (.num _ _)
  else false

/-! ## References -/

/-- One part of a pointer: a property, or a position of an array. -/
def ownPart (node : Json) (part : String) : Option Json :=
  match node with
  | .obj fields => fields.lookup part
  | .arr elems => (elems.zipIdx.find? fun el => toString el.2 = part).map Prod.fst
  | _ => none

/-- `node?.[part]`. What an object inherits has none of the keywords, and
reads as the empty schema. -/
def pointerPart (node : Json) (part : String) : Option Json :=
  (ownPart node part).or <|
    if node.isPlainObject then (inheritedMember part).map fun _ => .obj [] else none

/-- The names of a local reference. -/
def pointerParts (ref : String) : List String :=
  ((ref.toList.drop 2).splitOn '/').map String.ofList

/-- What a local reference points to. -/
def resolveRef (ref : String) (root : Json) : Except String Json :=
  if ref.toList.take 2 ≠ ['#', '/'] then .error ("unsupported $ref (only local refs): " ++ ref)
  else
    match (pointerParts ref).foldlM pointerPart root with
    | some node => .ok node
    | none => .error ("$ref target not found: " ++ ref)

/-! ## One node -/

/-- What the language supplies: `new RegExp(pattern).test(text)`, whether
`Date.parse` reads a text, and `JSON.stringify`. -/
structure ValidateEnv where
  test : String → String → Bool
  dateParses : String → Bool
  stringify : Datum → String

/-- The value of a number. -/
def numberValue (m : ℤ) (s : ℕ) : ℚ := m / 10 ^ s

/-- `e === data`: an object is equal to itself only. -/
def strictEqual : Json → Datum → Bool
  | .null, .json .null => true
  | .bool a, .json (.bool b) => a = b
  | .num m s, .json (.num m' s') => numberValue m s = numberValue m' s'
  | .str a, .json (.str b) => a = b
  | _, _ => false

/-- The types a schema allows. -/
def typesOf (t : Json) : List Json :=
  match t with
  | .arr ts => ts
  | t => [t]

/-- The error of a value of none of the types. -/
def typeError (data : Datum) (schema : Json) (path : String) : Option ValidationError :=
  (schema.field? "type").bind fun t =>
    if (typesOf t).any fun t => t.str?.any (matchesType data) then none
    else some
      { path, message := "expected type " ++ "|".intercalate (Json.texts (typesOf t)) ++ ", got " ++
          typeName data }

/-- The error of a value that is none of the listed ones. -/
def enumErrors (env : ValidateEnv) (data : Datum) (schema : Json) (path : String) :
    List ValidationError :=
  match schema.field? "enum" with
  | some (.arr es) =>
    if es.any (strictEqual · data) then []
    else [⟨path, "value " ++ env.stringify data ++ " is not one of the allowed enum members"⟩]
  | _ => []

/-- The error of a text that does not match. -/
def patternErrors (env : ValidateEnv) (data : Datum) (schema : Json) (path : String) :
    List ValidationError :=
  match data, schema.field? "pattern" with
  | .json (.str s), some (.str pattern) =>
    if env.test pattern s then [] else [⟨path, "string does not match pattern " ++ pattern⟩]
  | _, _ => []

/-- The error of a text that is no timestamp. -/
def formatErrors (env : ValidateEnv) (data : Datum) (schema : Json) (path : String) :
    List ValidationError :=
  match data, (schema.field? "format").bind Json.str? with
  | .json (.str s), some format =>
    if format = "date-time" ∧ ¬env.dateParses s then [⟨path, "string is not a valid date-time"⟩]
    else []
  | _, _ => []

/-- The error of a number that is too small. -/
def minimumErrors (data : Datum) (schema : Json) (path : String) : List ValidationError :=
  match data, schema.field? "minimum" with
  | .json (.num m s), some (.num m' s') =>
    if numberValue m s < numberValue m' s' then
      [⟨path, "number is less than minimum " ++ Json.numText m' s'⟩]
    else []
  | _, _ => []

/-- `schema.properties ?? {}`. -/
def schemaProperties (schema : Json) : Json :=
  match schema.field? "properties" with
  | none => .obj []
  | some .null => .obj []
  | some props => props

/-- `Object.entries`. -/
def entriesOf : Json → List (String × Json)
  | .obj fields => fields
  | _ => []

/-- The properties a schema requires. -/
def requiredNames (schema : Json) : List String :=
  match schema.field? "required" with
  | some (.arr rs) => rs.map Json.text
  | _ => []

/-- An error for each required property that is missing. -/
def requiredErrors (data : Datum) (schema : Json) (path : String) : List ValidationError :=
  ((requiredNames schema).filter fun req => (data.member? req).isNone).map fun req =>
    ⟨path ++ "/" ++ req, "missing required property"⟩

/-- The validator of a part, as the walk calls itself. -/
abbrev Recur := Datum → Json → String → Except String (List ValidationError)

/-- The errors of one part after the other, up to the first that throws. -/
def collect {α : Type} (l : List α) (f : α → Except String (List ValidationError)) :
    Except String (List ValidationError) :=
  (l.mapM f).map List.flatten

/-- The part of an object at a key. -/
def validateMember (recur : Recur) (data : Datum) (path key : String) (schema : Json) :
    Except String (List ValidationError) :=
  match data.member? key with
  | some value => recur value schema (path ++ "/" ++ key)
  | none => .ok []

/-- The keys of the object that are not in the properties. -/
def additionalKeys (data : Datum) (schema : Json) : List String :=
  data.keys.filter fun key => ((Datum.json (schemaProperties schema)).member? key).isNone

/-- The errors of the properties the schema does not name. -/
def additionalErrors (recur : Recur) (data : Datum) (schema : Json) (path : String) :
    Except String (List ValidationError) :=
  match schema.field? "additionalProperties" with
  | some (.bool false) => .ok ((additionalKeys data schema).map fun key =>
      ⟨path ++ "/" ++ key, "additional property not allowed"⟩)
  | some sub =>
    if sub.isObject then
      collect (additionalKeys data schema) fun key => validateMember recur data path key sub
    else .ok []
  | none => .ok []

/-- The errors of an object's properties. -/
def objectErrors (recur : Recur) (data : Datum) (schema : Json) (path : String) :
    Except String (List ValidationError) :=
  if matchesType data "object" then do
    let extra ← additionalErrors recur data schema path
    let nested ← collect (entriesOf (schemaProperties schema)) fun entry =>
      validateMember recur data path entry.1 entry.2
    return requiredErrors data schema path ++ extra ++ nested
  else .ok []

/-- The errors of an array's elements. -/
def itemErrors (recur : Recur) (data : Datum) (schema : Json) (path : String) :
    Except String (List ValidationError) :=
  match data, schema.field? "items" with
  | .json (.arr elems), some items =>
    if Json.truthy (some items) then
      collect elems.zipIdx fun el => recur (.json el.1) items (path ++ "/" ++ toString el.2)
    else .ok []
  | _, _ => .ok []

/-- A node that is no reference. A type mismatch makes deeper checks
meaningless. -/
def nodeErrors (env : ValidateEnv) (recur : Recur) (data : Datum) (schema : Json) (path : String) :
    Except String (List ValidationError) :=
  match typeError data schema path with
  | some error => .ok [error]
  | none => do
    let ofObject ← objectErrors recur data schema path
    let ofItems ← itemErrors recur data schema path
    return enumErrors env data schema path ++ patternErrors env data schema path ++
      formatErrors env data schema path ++ minimumErrors data schema path ++ ofObject ++ ofItems

/-! ## The walk -/

/-- A value against a schema, as deep as the stack allows. -/
def validateNode (env : ValidateEnv) (root : Json) : ℕ → Recur
  | 0, _, _, _ => .error "Maximum call stack size exceeded"
  | n + 1, data, schema, path =>
    match schema with
    | .null => .error "Cannot read properties of null (reading '$ref')"
    | schema =>
      match schema.field? "$ref" with
      | some (.str ref) => do
        let target ← resolveRef ref root
        validateNode env root n data target path
      | _ => nodeErrors env (validateNode env root n) data schema path

/-- With a stack of `n` levels. -/
def validateContract (env : ValidateEnv) (n : ℕ) (data schema : Json) :
    Except String (List ValidationError) :=
  validateNode env schema n (.json data) schema ""

end SymphonyBoard
