import Mathlib.Algebra.GroupWithZero.Nat
import Mathlib.Data.List.ReduceOption
import SymphonyBoard.Common.JsonText
import SymphonyBoard.Common.Run
import SymphonyBoard.Live.Store
/-!
# What a live event is stored as

`src/live/store.ts` builds an event twice: `inputToEvent` from the input, for
the viewers that are connected, and `rowToEvent` from the columns of the
row, for those that read it later. The JSON columns hold everything a value
is made of but a number that is not finite, and a negative zero. A text
column is UTF-8 and holds no unpaired surrogate, which a text of a webhook
payload may have: the broadcast event is the stored one exactly for inputs
without either (`broadcastIsStored_iff`).
-/

namespace SymphonyBoard

/-- `stripNul`. -/
def stripNul (s : JsText) : JsText := s.filter fun u => u ≠ 0

/-- The properties of an object. -/
abbrev JsFields (N : Type) := List (JsText × JsValue N)

/-- `LiveEventInput`: what an adapter makes of a webhook delivery. An
optional field that is absent and one that is `null` are stored alike. -/
structure LiveEventInput (N : Type) where
  eventId : JsText
  sourceId : JsText
  provider : JsText
  receivedAt : JsText
  occurredAt : Option JsText
  eventType : JsText
  action : Option JsText
  category : JsText
  actor : Option (JsFields N)
  target : Option (JsFields N)
  title : Option JsText
  body : Option JsText
  url : Option JsText
  reviewState : Option JsText
  delivery : JsFields N
  providerDetails : Option (JsFields N)
  raw : Option (JsFields N)

/-- The fields of a `LiveEvent` besides its number; a JSON field that is not
there is `null`. -/
structure LiveEventFields (N : Type) where
  eventId : JsText
  sourceId : JsText
  provider : JsText
  receivedAt : JsText
  occurredAt : Option JsText
  eventType : JsText
  action : Option JsText
  category : JsText
  actor : JsValue N
  target : JsValue N
  title : Option JsText
  body : Option JsText
  url : Option JsText
  reviewState : Option JsText
  delivery : JsValue N
  providerDetails : JsValue N
  raw : JsValue N

/-- The columns of a `live_event` row besides `seq`. -/
structure LiveColumns where
  sourceId : JsText
  eventId : JsText
  ordinal : ℕ
  provider : JsText
  receivedAt : JsText
  occurredAt : Option JsText
  eventType : JsText
  action : Option JsText
  category : JsText
  actorJson : Option JsText
  targetJson : Option JsText
  title : Option JsText
  body : Option JsText
  url : Option JsText
  reviewState : Option JsText
  deliveryJson : Option JsText
  providerDetailsJson : Option JsText
  rawJson : Option JsText
deriving DecidableEq

/-- How many bytes a text takes in UTF-8; a pair of surrogates takes four. -/
def utf8Length (s : JsText) : ℕ :=
  (s.map fun u => if u < 0x80 then 1 else if u < 0x800 then 2
    else if isSurrogate u then 2 else 3).sum

namespace LiveColumns

variable {N : Type} (f : NumberFormat N)

/-- `jsonOrNull`, of an object. -/
def jsonOrNull (fields : Option (JsFields N)) : Option JsText :=
  fields.map fun fields => stringify f (.obj fields)

/-- `parseJson`: a text that is not JSON is read as `null`. -/
def parseJson (raw : Option JsText) : JsValue N :=
  match raw with
  | none => .null
  | some text => (parse f text).getD .null

/-- What `INSERT` puts in the columns: a text is bound with its NULs
stripped, and a `TEXT` column keeps it in UTF-8. -/
def ofInput (input : LiveEventInput N) (ordinal : ℕ) : LiveColumns :=
  let text (s : JsText) : JsText := toWellFormed (stripNul s)
  let json (fields : Option (JsFields N)) : Option JsText := (jsonOrNull f fields).map toWellFormed
  { sourceId := text input.sourceId, eventId := text input.eventId, ordinal := ordinal
    provider := text input.provider, receivedAt := text input.receivedAt
    occurredAt := input.occurredAt.map text, eventType := text input.eventType
    action := input.action.map text, category := text input.category
    actorJson := json input.actor, targetJson := json input.target
    title := input.title.map text, body := input.body.map text, url := input.url.map text
    reviewState := input.reviewState.map text, deliveryJson := json (some input.delivery)
    providerDetailsJson := json input.providerDetails, rawJson := json input.raw }

/-- The dedupe key, of the unique index. -/
def key (c : LiveColumns) : JsText × JsText × ℕ := (c.sourceId, c.eventId, c.ordinal)

/-- `ROW_BYTES_EXPR`. -/
def rowBytes (c : LiveColumns) : ℕ := (c.rawJson.elim 0 utf8Length) + (c.body.elim 0 utf8Length)

/-- What `rowToEvent` puts for a delivery that is not there. -/
def minimalDelivery (c : LiveColumns) : JsValue N :=
  .obj [(utf16 "delivery_id", .str c.eventId), (utf16 "event_header", .str c.eventType),
    (utf16 "signature_status", .str (utf16 "verified"))]

/-- `rowToEvent`. -/
def rowToEvent (row : LiveRow LiveColumns) : LiveEvent (LiveEventFields N) :=
  let c := row.input
  { seq := row.seq
    input :=
      { eventId := c.eventId, sourceId := c.sourceId, provider := c.provider
        receivedAt := c.receivedAt, occurredAt := c.occurredAt, eventType := c.eventType
        action := c.action, category := c.category, actor := parseJson f c.actorJson
        target := parseJson f c.targetJson, title := c.title, body := c.body, url := c.url
        reviewState := c.reviewState
        delivery :=
          match parseJson f c.deliveryJson with
          | .null => c.minimalDelivery
          | delivery => delivery
        providerDetails := parseJson f c.providerDetailsJson, raw := parseJson f c.rawJson } }

/-- `inputToEvent`. -/
def inputToEvent (input : LiveEventInput N) (seq : ℕ) : LiveEvent (LiveEventFields N) :=
  { seq := seq
    input :=
      { eventId := stripNul input.eventId, sourceId := stripNul input.sourceId
        provider := stripNul input.provider, receivedAt := stripNul input.receivedAt
        occurredAt := input.occurredAt.map stripNul, eventType := stripNul input.eventType
        action := input.action.map stripNul, category := stripNul input.category
        actor := input.actor.elim .null .obj, target := input.target.elim .null .obj
        title := input.title.map stripNul, body := input.body.map stripNul
        url := input.url.map stripNul, reviewState := input.reviewState.map stripNul
        delivery := .obj input.delivery
        providerDetails := input.providerDetails.elim .null .obj
        raw := input.raw.elim .null .obj } }

end LiveColumns

/-! ## The table -/

/-- The database: its rows, and the highest number ever given out. -/
structure LiveDb where
  store : LiveStore LiveColumns
  sequence : ℕ
  numbered : ∀ row ∈ store.rows, row.seq ≤ sequence

namespace LiveDb

variable {N : Type} (f : NumberFormat N)

/-- A row with the dedupe key is there already. -/
def Has (db : LiveDb) (key : JsText × JsText × ℕ) : Prop :=
  ∃ row ∈ db.store.rows, row.input.key = key

instance (db : LiveDb) (key : JsText × JsText × ℕ) : Decidable (db.Has key) :=
  inferInstanceAs (Decidable (∃ row ∈ db.store.rows, row.input.key = key))

/-- A row put in behind the others. -/
def insert (db : LiveDb) (row : LiveRow LiveColumns) (h : db.sequence < row.seq) : LiveDb where
  store :=
    { rows := db.store.rows ++ [row]
      ascending := by
        refine List.pairwise_append.mpr ⟨db.store.ascending, List.pairwise_singleton _ _, ?_⟩
        intro a ha b hb
        rw [List.mem_singleton.mp hb]
        exact lt_of_le_of_lt (db.numbered a ha) h
      positive := by
        intro a ha
        rcases List.mem_append.mp ha with ha | ha
        · exact db.store.positive a ha
        · rw [List.mem_singleton.mp ha]
          omega }
  sequence := row.seq
  numbered := by
    intro a ha
    rcases List.mem_append.mp ha with ha | ha
    · exact (db.numbered a ha).trans (le_of_lt h)
    · rw [List.mem_singleton.mp ha]

/-- `append`. The table is `AUTOINCREMENT`: a new row gets a higher number
than any row has had, not always the next one, `skipped` saying how many are
left out; a redelivery may use up numbers too. -/
def append (db : LiveDb) (input : LiveEventInput N) (ordinal skipped : ℕ) :
    LiveDb × Option (LiveEvent (LiveEventFields N)) :=
  let columns := LiveColumns.ofInput f input ordinal
  if db.Has columns.key then
    ({ db with
        sequence := db.sequence + skipped
        numbered := fun row hrow => (db.numbered row hrow).trans (Nat.le_add_right _ _) }, none)
  else
    let seq := db.sequence + skipped + 1
    let row : LiveRow LiveColumns := { seq := seq, bytes := columns.rowBytes, input := columns }
    (db.insert row (by simp only [row, seq]; omega), some (LiveColumns.inputToEvent input seq))

/-- `prune`, whichever rows it drops. -/
def prune (db : LiveDb) (dropped : LiveRow LiveColumns → Bool) : LiveDb where
  store :=
    { rows := db.store.rows.filter fun row => !dropped row
      ascending := db.store.ascending.filter _
      positive := fun row hrow => db.store.positive row (List.mem_of_mem_filter hrow) }
  sequence := db.sequence
  numbered := fun row hrow => db.numbered row (List.mem_of_mem_filter hrow)

end LiveDb

/-- What is done to the table. -/
inductive LiveOp (N : Type)
  | append (input : LiveEventInput N) (ordinal skipped : ℕ)
  | prune (dropped : LiveRow LiveColumns → Bool)

/-- What a write does to the database. -/
def LiveDb.step {N : Type} (f : NumberFormat N) (db : LiveDb) : LiveOp N → LiveDb
  | .append input ordinal skipped => (db.append f input ordinal skipped).1
  | .prune dropped => db.prune dropped

/-! ## What survives -/

namespace LiveEventInput

variable {N : Type}

/-- The texts that go to a text column. -/
def texts (input : LiveEventInput N) : List JsText :=
  [input.eventId, input.sourceId, input.provider, input.receivedAt, input.eventType,
    input.category] ++ [input.occurredAt, input.action, input.title, input.body, input.url,
    input.reviewState].reduceOption

/-- The objects that go to a JSON column. -/
def objects (input : LiveEventInput N) : List (JsFields N) :=
  input.delivery :: [input.actor, input.target, input.providerDetails, input.raw].reduceOption

/-- With its NULs out, every text is well formed, and every number in an
object is one that its JSON text gives back. -/
structure SurvivesStore (f : NumberFormat N) (input : LiveEventInput N) : Prop where
  texts : ∀ text ∈ input.texts, WellFormed (stripNul text)
  objects : ∀ fields ∈ input.objects, FieldsSurvive f fields

end LiveEventInput

namespace LiveColumns

variable {N : Type} {f : NumberFormat N}

theorem parseJson_jsonOrNull (fields : Option (JsFields N)) :
    parseJson f ((jsonOrNull f fields).map toWellFormed) =
      fields.elim .null fun fields => .obj (rereadFields f fields) := by
  cases fields with
  | none => rfl
  | some fields =>
    have hkept := toWellFormed_of_wellFormed (wellFormed_stringify f (.obj fields))
    simp only [jsonOrNull, Option.map_some, parseJson, hkept, parse_stringify, Option.getD_some,
      Option.elim_some]
    rfl

/-- An optional text is read back from its column. -/
theorem map_toWellFormed_eq_iff (text : Option JsText) :
    text.map (fun s => toWellFormed (stripNul s)) = text.map stripNul ↔
      ∀ s ∈ text, WellFormed (stripNul s) := by
  cases text with
  | none => simp
  | some s => simp [toWellFormed_eq_self_iff]

/-- An optional object is read back from its column. -/
theorem elim_rereadFields_eq_iff (fields : Option (JsFields N)) :
    (fields.elim JsValue.null fun fields => .obj (rereadFields f fields)) =
        fields.elim .null .obj ↔ ∀ fs ∈ fields, FieldsSurvive f fs := by
  cases fields with
  | none => simp
  | some fields => simp [rereadFields_eq_self_iff]

theorem rowToEvent_delivery (seq bytes : ℕ) (input : LiveEventInput N) (ordinal : ℕ) :
    (rowToEvent f { seq := seq, bytes := bytes, input := ofInput f input ordinal }).input.delivery =
      .obj (rereadFields f input.delivery) := by
  have h : parseJson f (ofInput f input ordinal).deliveryJson =
      .obj (rereadFields f input.delivery) := parseJson_jsonOrNull (some input.delivery)
  simp only [rowToEvent, h]

/-- **The two mappings agree** on an input that survives, and on no other. -/
theorem rowToEvent_eq_inputToEvent_iff (seq bytes : ℕ) (input : LiveEventInput N) (ordinal : ℕ) :
    rowToEvent f { seq := seq, bytes := bytes, input := ofInput f input ordinal } =
      inputToEvent input seq ↔ input.SurvivesStore f := by
  have hdelivery := rowToEvent_delivery (f := f) seq bytes input ordinal
  have hsame : rowToEvent f { seq := seq, bytes := bytes, input := ofInput f input ordinal } =
      { seq := seq
        input := { (rowToEvent f
            { seq := seq, bytes := bytes, input := ofInput f input ordinal }).input with
          delivery := .obj (rereadFields f input.delivery) } } := by
    rw [← hdelivery]
    rfl
  rw [hsame, inputToEvent, LiveEvent.mk.injEq, LiveEventFields.mk.injEq, and_iff_right rfl]
  -- column by column: a text comes back if it is well formed, an object if its fields do
  simp only [rowToEvent, ofInput, parseJson_jsonOrNull, toWellFormed_eq_self_iff,
    map_toWellFormed_eq_iff, elim_rereadFields_eq_iff, JsValue.obj.injEq, rereadFields_eq_self_iff]
  constructor
  · rintro ⟨h1, h2, h3, h4, h5, h6, h7, h8, h9, h10, h11, h12, h13, h14, h15, h16, h17⟩
    refine ⟨fun text htext => ?_, fun fields hfields => ?_⟩
    · simp only [LiveEventInput.texts, List.mem_append, List.mem_cons, List.not_mem_nil, or_false,
        List.reduceOption_mem_iff] at htext
      rcases htext with (rfl | rfl | rfl | rfl | rfl | rfl) | h | h | h | h | h | h
      · exact h1
      · exact h2
      · exact h3
      · exact h4
      · exact h6
      · exact h8
      · exact h5 text h.symm
      · exact h7 text h.symm
      · exact h11 text h.symm
      · exact h12 text h.symm
      · exact h13 text h.symm
      · exact h14 text h.symm
    · simp only [LiveEventInput.objects, List.mem_cons, List.not_mem_nil, or_false,
        List.reduceOption_mem_iff] at hfields
      rcases hfields with rfl | h | h | h | h
      · exact h15
      · exact h9 fields h.symm
      · exact h10 fields h.symm
      · exact h16 fields h.symm
      · exact h17 fields h.symm
  · rintro ⟨htexts, hobjects⟩
    have hopt : ∀ text : Option JsText, text ∈ [input.occurredAt, input.action, input.title,
        input.body, input.url, input.reviewState] → ∀ s ∈ text, WellFormed (stripNul s) := by
      intro text htext s hs
      obtain rfl : text = some s := hs
      exact htexts s (List.mem_append_right _ (List.reduceOption_mem_iff.mpr htext))
    have hobj : ∀ fields : Option (JsFields N), fields ∈ [input.actor, input.target,
        input.providerDetails, input.raw] → ∀ fs ∈ fields, FieldsSurvive f fs := by
      intro fields hfields fs hfs
      obtain rfl : fields = some fs := hfs
      exact hobjects fs (List.mem_cons_of_mem _ (List.reduceOption_mem_iff.mpr hfields))
    have hreq : ∀ text ∈ [input.eventId, input.sourceId, input.provider, input.receivedAt,
        input.eventType, input.category], WellFormed (stripNul text) :=
      fun text htext => htexts text (List.mem_append_left _ htext)
    refine ⟨hreq _ (by simp), hreq _ (by simp), hreq _ (by simp), hreq _ (by simp),
      hopt _ (by simp), hreq _ (by simp), hopt _ (by simp), hreq _ (by simp), hobj _ (by simp),
      hobj _ (by simp), hopt _ (by simp), hopt _ (by simp), hopt _ (by simp), hopt _ (by simp),
      hobjects _ List.mem_cons_self, hobj _ (by simp), hobj _ (by simp)⟩

end LiveColumns

namespace LiveDb

variable {N : Type} {f : NumberFormat N}

/-! ## What is there later -/

/-- A number that was given out stands for one row's columns: later rows get
higher numbers, and no row changes. -/
def Fixed (seq : ℕ) (columns : LiveColumns) (db : LiveDb) : Prop :=
  seq ≤ db.sequence ∧ ∀ row ∈ db.store.rows, row.seq = seq → row.input = columns

theorem fixed_step {seq : ℕ} {columns : LiveColumns} (db : LiveDb) (op : LiveOp N)
    (h : Fixed seq columns db) : Fixed seq columns (db.step f op) := by
  obtain ⟨hseq, hrows⟩ := h
  cases op with
  | prune dropped => exact ⟨hseq, fun row hrow => hrows row (List.mem_of_mem_filter hrow)⟩
  | append input ordinal skipped =>
    rw [step, append]
    by_cases hhas : db.Has (LiveColumns.ofInput f input ordinal).key
    · rw [if_pos hhas]
      exact ⟨hseq.trans (Nat.le_add_right _ _), hrows⟩
    · rw [if_neg hhas]
      refine ⟨by simp only [insert]; omega, fun row hrow hrowSeq => ?_⟩
      rcases List.mem_append.mp hrow with hrow | hrow
      · exact hrows row hrow hrowSeq
      · rw [List.mem_singleton.mp hrow] at hrowSeq
        simp only at hrowSeq
        omega

/-- What append does for a delivery that is not stored yet. -/
theorem append_new {db : LiveDb} {input : LiveEventInput N} {ordinal : ℕ} (skipped : ℕ)
    (h : ¬db.Has (LiveColumns.ofInput f input ordinal).key) :
    (db.append f input ordinal skipped).1.store.rows = db.store.rows ++
        [{ seq := db.sequence + skipped + 1
           bytes := (LiveColumns.ofInput f input ordinal).rowBytes
           input := LiveColumns.ofInput f input ordinal }] ∧
      (db.append f input ordinal skipped).1.sequence = db.sequence + skipped + 1 ∧
      (db.append f input ordinal skipped).2 =
        some (LiveColumns.inputToEvent input (db.sequence + skipped + 1)) := by
  rw [append, if_neg h]
  exact ⟨rfl, rfl, rfl⟩

theorem append_known {db : LiveDb} {input : LiveEventInput N} {ordinal : ℕ} (skipped : ℕ)
    (h : db.Has (LiveColumns.ofInput f input ordinal).key) :
    (db.append f input ordinal skipped).1.store.rows = db.store.rows ∧
      (db.append f input ordinal skipped).2 = none := by
  rw [append, if_pos h]
  exact ⟨rfl, rfl⟩

theorem fixed_append {db : LiveDb} {input : LiveEventInput N} {ordinal : ℕ} (skipped : ℕ)
    (h : ¬db.Has (LiveColumns.ofInput f input ordinal).key) :
    Fixed (db.sequence + skipped + 1) (LiveColumns.ofInput f input ordinal)
      (db.append f input ordinal skipped).1 := by
  obtain ⟨hrows, hseq, -⟩ := append_new skipped h
  refine ⟨le_of_eq hseq.symm, fun row hrow hrowSeq => ?_⟩
  rw [hrows] at hrow
  rcases List.mem_append.mp hrow with hrow | hrow
  · have := db.numbered row hrow
    omega
  · rw [List.mem_singleton.mp hrow]

/-- An append broadcasts what it stores: it returns an event exactly when it
puts a row in, with that row's number, and whatever is appended and pruned
after it, a row of that number is read as that event. -/
structure BroadcastIsStored (f : NumberFormat N) (db : LiveDb) (input : LiveEventInput N)
    (ordinal skipped : ℕ) : Prop where
  inserted : (db.append f input ordinal skipped).2.isSome ↔
    ∃ row, (db.append f input ordinal skipped).1.store.rows = db.store.rows ++ [row]
  kept : (db.append f input ordinal skipped).2 = none →
    (db.append f input ordinal skipped).1.store.rows = db.store.rows
  stored : ∀ ev ∈ (db.append f input ordinal skipped).2,
    ∃ row ∈ (db.append f input ordinal skipped).1.store.rows, row.seq = ev.seq
  replayed : ∀ ev ∈ (db.append f input ordinal skipped).2, ∀ ops : List (LiveOp N),
    ∀ row ∈ (ops.foldl (step f) (db.append f input ordinal skipped).1).store.rows,
      row.seq = ev.seq → LiveColumns.rowToEvent f row = ev

/-- **Live and replayed viewers see one event** if the delivery is a known
one, or every text and number of it survives the columns; otherwise they
do not. -/
theorem broadcastIsStored_iff (f : NumberFormat N) (db : LiveDb) (input : LiveEventInput N)
    (ordinal skipped : ℕ) : BroadcastIsStored f db input ordinal skipped ↔
      db.Has (LiveColumns.ofInput f input ordinal).key ∨ input.SurvivesStore f := by
  by_cases hhas : db.Has (LiveColumns.ofInput f input ordinal).key
  · obtain ⟨hrows, hnone⟩ := append_known skipped hhas
    refine iff_of_true ⟨?_, fun _ => hrows, ?_, ?_⟩ (Or.inl hhas)
    · rw [hnone, hrows]
      refine iff_of_false (by simp) ?_
      rintro ⟨row, hrow⟩
      exact absurd (congrArg List.length hrow) (by simp)
    · rw [hnone]
      exact fun ev h => by cases h
    · rw [hnone]
      exact fun ev h => by cases h
  obtain ⟨hrows, -, hsome⟩ := append_new skipped hhas
  rw [or_iff_right hhas, ← LiveColumns.rowToEvent_eq_inputToEvent_iff (db.sequence + skipped + 1)
    (LiveColumns.ofInput f input ordinal).rowBytes input ordinal]
  constructor
  · intro h
    refine h.replayed _ hsome [] _ ?_ rfl
    rw [List.foldl_nil, hrows]
    exact List.mem_append_right _ List.mem_cons_self
  · intro hsame
    refine ⟨?_, ?_, ?_, ?_⟩
    · rw [hsome, hrows]
      exact iff_of_true rfl ⟨_, rfl⟩
    · rw [hsome]
      exact fun h => by cases h
    · rw [hsome]
      rintro ev ⟨⟩
      rw [hrows]
      exact ⟨_, List.mem_append_right _ List.mem_cons_self, rfl⟩
    · rw [hsome]
      rintro ev ⟨⟩ ops row hrow hseq
      have hfixed : Fixed (db.sequence + skipped + 1) (LiveColumns.ofInput f input ordinal)
          (ops.foldl (step f) (db.append f input ordinal skipped).1) :=
        (always_of_step fixed_step ops (fixed_append skipped hhas)).last
      obtain ⟨seq, bytes, columns⟩ := row
      obtain rfl : columns = _ := hfixed.2 _ hrow hseq
      obtain rfl : seq = _ := hseq
      exact (LiveColumns.rowToEvent_eq_inputToEvent_iff _ bytes input ordinal).mpr
        ((LiveColumns.rowToEvent_eq_inputToEvent_iff _ _ input ordinal).mp hsame)

end LiveDb

/-! An issue whose body ends in half of an emoji, as the escape `\ud83d` in a
payload gives it: the column holds a replacement character. -/

namespace HalfEmoji

/-- The whole numbers in decimals, and `Infinity`. -/
def wholeNumbers : NumberFormat (Option ℕ) where
  write n := n.map fun n => (Nat.toDigits 10 n).map fun c => UInt16.ofNat c.toNat
  read t := some (some (t.foldl (fun n u => n * 10 + (u.toNat - 48)) 0))
  numeral n t h := by
    obtain ⟨n, -, rfl⟩ := Option.map_eq_some_iff.mp h
    refine ⟨?_, fun u hu => ?_⟩
    · rw [Ne, List.map_eq_nil_iff]
      exact Nat.toDigits_ne_nil
    · obtain ⟨c, hc, rfl⟩ := List.mem_map.mp hu
      have hdigit : c.isDigit = true := Nat.isDigit_of_mem_toDigits (by decide) (by decide) hc
      have hrange : 48 ≤ c.toNat ∧ c.toNat ≤ 57 := by
        simpa [Char.isDigit, UInt32.le_iff_toNat_le] using hdigit
      have aux : ∀ d : Fin 58, 48 ≤ d.val → isNumberUnit (UInt16.ofNat d.val) = true := by decide
      exact aux ⟨c.toNat, by omega⟩ hrange.1
  readable _ _ _ := rfl

/-- A delivery that opens an issue. -/
def issueOpened : LiveEventInput (Option ℕ) where
  eventId := utf16 "d-1"
  sourceId := utf16 "github:github.com"
  provider := utf16 "github"
  receivedAt := utf16 "2026-06-20T00:00:00.000Z"
  occurredAt := none
  eventType := utf16 "issues"
  action := some (utf16 "opened")
  category := utf16 "issue"
  actor := none
  target := none
  title := some (utf16 "someone opened issue #1")
  body := some (utf16 "Done " ++ [0xd83d])
  url := none
  reviewState := none
  delivery := [(utf16 "delivery_id", .str (utf16 "d-1")), (utf16 "event_header", .str (utf16 "issues")),
    (utf16 "hook_id", .null), (utf16 "signature_status", .str (utf16 "verified"))]
  providerDetails := none
  raw := none

/-- A database nothing was written to. -/
def empty : LiveDb where
  store := { rows := [], ascending := List.Pairwise.nil, positive := by simp }
  sequence := 0
  numbered := by simp

theorem not_broadcastIsStored :
    ¬LiveDb.BroadcastIsStored wholeNumbers empty issueOpened 0 0 := by
  intro h
  have hreplayed := h.replayed _ rfl [] _ List.mem_cons_self rfl
  have hbody : some (utf16 "Done " ++ [(0xfffd : UInt16)]) =
      some (utf16 "Done " ++ [(0xd83d : UInt16)]) :=
    congrArg (fun ev => ev.input.body) hreplayed
  exact absurd hbody (by decide)

end HalfEmoji

end SymphonyBoard
