import Mathlib.Data.List.TakeWhile
import SymphonyBoard.Common.Json
import SymphonyBoard.Common.OrdMap
import SymphonyBoard.Shared.Text
/-!
# The secrets file

`src/config.ts` and the secrets endpoint of `src/cli/sync-daemon.ts`: a
file of `KEY=VALUE` lines, read without quoting or escaping, and edited one
key at a time. The endpoint takes any text that is not blank for a value.
An edit is a map update, and leaves the lines of other keys alone, exactly
when the value has no line feed in it (`secretUpdate_faithful_iff`): a
value with one is written as more than one line.
-/

namespace SymphonyBoard

/-! ## Reading -/

/-- The lines of the file. -/
def envLines (text : String) : List (List Char) := text.toList.splitOn '\n'

/-- The key and the value of a line, if it has them. -/
def envEntry (rawLine : List Char) : Option (String × String) :=
  let line := trimChars rawLine
  if line = [] ∨ line.head? = some '#' then none
  else if '=' ∈ line then
    let key := trimChars (line.takeWhile (· ≠ '='))
    if key = [] then none
    else some (String.ofList key,
      String.ofList (trimChars ((line.dropWhile (· ≠ '=')).drop 1)))
  else none

/-- The entries of some lines, the last of a key deciding. -/
def parseEnvLines (lines : List (List Char)) : OrdMap String String :=
  (lines.filterMap envEntry).foldl (fun out e => out.set e.1 e.2) OrdMap.empty

/-- `parseEnvFile` -/
def parseEnvFile (text : String) : OrdMap String String := parseEnvLines (envLines text)

/-! ## Editing -/

/-- The key an edit finds in a line. -/
def upsertKey (rawLine : List Char) : Option String :=
  let line := trimChars rawLine
  let key := line.takeWhile (· ≠ '=')
  if line.head? ≠ some '#' ∧ '=' ∈ line ∧ key ≠ [] then some (String.ofList (trimChars key))
  else none

/-- The line of an entry. -/
def entryLine (name value : String) : List Char := name.toList ++ '=' :: value.toList

/-- One line of the loop: the lines kept so far, and whether the key was
written. -/
def upsertLine (name : String) (value : Option String) (s : List (List Char) × Bool)
    (rawLine : List Char) : List (List Char) × Bool :=
  if upsertKey rawLine = some name then
    match value with
    | some v => if s.2 then s else (s.1 ++ [entryLine name v], true)
    | none => s
  else (s.1 ++ [rawLine], s.2)

/-- The lines of a file; the end of the last line starts no other. -/
def fileLines (text : String) : List (List Char) :=
  let lines := if text = "" then [] else envLines text
  if lines.getLast? = some [] then lines.dropLast else lines

/-- The lines once the entry is set, or removed. -/
def upsertLines (lines : List (List Char)) (name : String) (value : Option String) :
    List (List Char) :=
  let s := lines.foldl (upsertLine name value) ([], false)
  match value with
  | some v => if s.2 then s.1 else s.1 ++ [entryLine name v]
  | none => s.1

/-- `upsertEnvText` -/
def upsertEnvText (text name : String) (value : Option String) : String :=
  let out := upsertLines (fileLines text) name value
  if out = [] then "" else String.ofList (['\n'].intercalate out ++ ['\n'])

/-! ## The endpoint -/

/-- An error the route answers with. -/
structure HttpError where
  status : ℕ
  error : String
  message : String
deriving DecidableEq

/-- `ENV_NAME`. -/
def isEnvName (name : String) : Bool :=
  match name.toList with
  | c :: cs => (c.isAlpha || c = '_') && cs.all fun c => c.isAlphanum || c = '_'
  | [] => false

/-- A request the route refuses. -/
def badRequest (message : String) : HttpError := ⟨400, "bad_request", message⟩

/-- The edit a request body asks for. -/
def secretUpdate (body : Json) : Except HttpError (String × Option String) :=
  if !body.isPlainObject then .error (badRequest "request body must be a JSON object")
  else
    match body.field? "env" with
    | some (.str env) =>
      if !isEnvName env then .error (badRequest "env must be a valid env-var name")
      else
        match body.field? "value" with
        | some .null => .ok (env, none)
        | some (.str value) =>
          if trim value = "" then
            .error (badRequest "value must be a non-empty string, or null to remove the entry")
          else .ok (env, some (trim value))
        | _ => .error (badRequest "value must be a non-empty string, or null to remove the entry")
    | _ => .error (badRequest "env must be a valid env-var name")

/-- What the endpoint looks at before the body: whether config control is
on, whether the control header is there, and the secrets file, if any. -/
structure SecretsControl where
  enabled : Bool
  header : Bool
  secretsFile : Option String

/-- `PUT /api/secrets`: the file it leaves. A body that is too long comes
with a message, one that is not JSON as none. -/
def putSecrets (cc : SecretsControl) (body : Except String (Option Json)) :
    Except HttpError String :=
  if !cc.enabled then
    .error ⟨403, "control_disabled", "config control is not enabled on this deployment"⟩
  else if !cc.header then
    .error ⟨403, "forbidden", "missing x-symphony-sync-control header"⟩
  else
    match cc.secretsFile with
    | none => .error ⟨403, "secrets_unavailable",
        "no writable secrets file on this deployment (set SYMPHONY_SECRETS_FILE)"⟩
    | some text =>
      match body with
      | .error message => .error ⟨413, "payload_too_large", message⟩
      | .ok none => .error (badRequest "request body is not valid JSON")
      | .ok (some body) => (secretUpdate body).map fun u => upsertEnvText text u.1 u.2

/-! ## Lines -/

/-- An edit finds the keys the parser reads. -/
theorem upsertKey_eq (rawLine : List Char) : upsertKey rawLine = (envEntry rawLine).map Prod.fst := by
  unfold upsertKey envEntry
  have hhead := @trimChars_head rawLine
  generalize trimChars rawLine = line at hhead
  simp only
  by_cases hskip : line = [] ∨ line.head? = some '#'
  · rw [if_pos hskip, if_neg]
    · rfl
    · rintro ⟨hsharp, heq, -⟩
      rcases hskip with rfl | hskip
      · cases heq
      · exact hsharp hskip
  · rw [if_neg hskip]
    obtain ⟨hne, hsharp⟩ := not_or.mp hskip
    by_cases heq : '=' ∈ line
    · rw [if_pos heq]
      -- a key that starts a trimmed line is not blank
      have hkey : line.takeWhile (· ≠ '=') ≠ [] ↔ trimChars (line.takeWhile (· ≠ '=')) ≠ [] := by
        constructor
        · intro hk htrim
          obtain ⟨c, l, hcl⟩ := List.exists_cons_of_ne_nil hk
          have hc : line.head? = some c := by
            obtain ⟨rest, hrest⟩ := List.takeWhile_prefix (p := fun c => decide (c ≠ '=')) (l := line)
            rw [hcl] at hrest
            rw [← hrest]
            rfl
          have hcin : isTrimmed c = true := by
            rw [trimChars, List.reverse_eq_nil_iff, List.dropWhile_eq_nil_iff] at htrim
            by_contra hcf
            have hdrop : (c :: l).dropWhile isTrimmed = c :: l :=
              List.dropWhile_cons_of_neg (by simpa using hcf)
            rw [hcl, hdrop] at htrim
            exact hcf (htrim c (by simp))
          rw [hhead hc] at hcin
          cases hcin
        · rintro hk hnil
          rw [hnil] at hk
          exact hk rfl
      by_cases hk : line.takeWhile (· ≠ '=') = []
      · have htrim : trimChars (line.takeWhile (· ≠ '=')) = [] := by
          rw [hk]
          rfl
        rw [if_pos htrim, if_neg (fun h => h.2.2 hk)]
        rfl
      · rw [if_neg (hkey.mp hk), if_pos ⟨hsharp, heq, hk⟩]
        rfl
    · rw [if_neg heq, if_neg (fun h => heq h.2.1)]
      rfl

theorem not_mem_of_mem_fileLines {text : String} {l : List Char} (h : l ∈ fileLines text) :
    '\n' ∉ l := by
  have hmem : l ∈ envLines text := by
    unfold fileLines at h
    by_cases htext : text = ""
    · simp only [if_pos htext] at h
      split at h <;> cases h
    · simp only [if_neg htext] at h
      split at h
      · exact (List.dropLast_sublist _).subset h
      · exact h
  exact not_mem_of_mem_splitOn hmem

/-- Joined lines are read back as they are. -/
theorem fileLines_join {out : List (List Char)} (h : ∀ l ∈ out, '\n' ∉ l) :
    fileLines (if out = [] then "" else String.ofList (['\n'].intercalate out ++ ['\n'])) = out := by
  by_cases hout : out = []
  · rw [if_pos hout, hout]
    rfl
  · have hne : String.ofList (['\n'].intercalate out ++ ['\n']) ≠ "" := by
      intro heq
      have hchars := congrArg String.toList heq
      rw [String.toList_ofList] at hchars
      exact absurd hchars (by simp)
    have hlines : envLines (String.ofList (['\n'].intercalate out ++ ['\n'])) = out ++ [[]] := by
      rw [envLines, String.toList_ofList, List.splitOn_append_cons_self,
        List.splitOn_intercalate _ h hout, List.splitOn_nil]
    rw [if_neg hout, fileLines]
    simp only [if_neg hne, hlines, List.getLast?_concat, if_true, List.dropLast_concat]

/-- What ends a file is no line, and would have no entry. -/
theorem parseEnvFile_eq (text : String) : parseEnvFile text = parseEnvLines (fileLines text) := by
  have hnil : envEntry [] = none := rfl
  by_cases htext : text = ""
  · subst htext
    rfl
  · rw [parseEnvFile, fileLines]
    simp only [if_neg htext]
    split
    · rename_i hlast
      obtain ⟨init, hinit⟩ := List.getLast?_eq_some_iff.mp hlast
      rw [hinit, List.dropLast_concat, parseEnvLines, parseEnvLines, List.filterMap_append]
      simp [hnil]
    · rfl

/-- A key is bound to the value of its last line. -/
theorem get?_parseEnvLines (lines : List (List Char)) (k : String) :
    (parseEnvLines lines).get? k =
      (((lines.filter fun l => decide (upsertKey l = some k)).filterMap envEntry).getLast?).map
        Prod.snd := by
  have hfilter : (lines.filterMap envEntry).filter (fun e => decide (e.1 = k)) =
      (lines.filter fun l => decide (upsertKey l = some k)).filterMap envEntry := by
    induction lines with
    | nil => rfl
    | cons l lines ih =>
      rw [List.filterMap_cons, List.filter_cons, upsertKey_eq]
      cases hentry : envEntry l with
      | none => simpa using ih
      | some e =>
        by_cases hk : e.1 = k
        · simp [hk, hentry, ih]
        · simp [hk, ih]
  rw [parseEnvLines, OrdMap.get?_foldl_set, OrdMap.get?_empty, Option.or_none, hfilter]

/-! ## An edit -/

section Edit

variable {name : String} {value : Option String}

/-- The lines of other keys, after an edit: the loop keeps them all, and
writes lines of its own key only. -/
theorem foldl_upsertLine_other (hkey : ∀ v ∈ value, upsertKey (entryLine name v) = some name)
    (lines : List (List Char)) (s : List (List Char) × Bool) :
    ((lines.foldl (upsertLine name value) s).1.filter fun l => decide (upsertKey l ≠ some name)) =
      (s.1.filter fun l => decide (upsertKey l ≠ some name)) ++
        lines.filter fun l => decide (upsertKey l ≠ some name) := by
  induction lines generalizing s with
  | nil => simp
  | cons l lines ih =>
    rw [List.foldl_cons, ih, List.filter_cons]
    by_cases hl : upsertKey l = some name
    · rw [if_neg (by simpa using hl)]
      unfold upsertLine
      rw [if_pos hl]
      cases value with
      | none => rfl
      | some v =>
        simp only
        split
        · rfl
        · simp [hkey v rfl]
    · rw [if_pos (by simpa using hl)]
      unfold upsertLine
      rw [if_neg hl, List.filter_append]
      simp [hl]

/-- The lines of the key itself: the written one, once. -/
theorem foldl_upsertLine_own (hkey : ∀ v ∈ value, upsertKey (entryLine name v) = some name)
    (lines : List (List Char)) (s : List (List Char) × Bool)
    (hs : (s.1.filter fun l => decide (upsertKey l = some name)) =
      if s.2 then value.toList.map (entryLine name) else []) :
    ((lines.foldl (upsertLine name value) s).1.filter fun l => decide (upsertKey l = some name)) =
      if (lines.foldl (upsertLine name value) s).2 then value.toList.map (entryLine name) else [] := by
  induction lines generalizing s with
  | nil => exact hs
  | cons l lines ih =>
    rw [List.foldl_cons]
    refine ih _ ?_
    by_cases hl : upsertKey l = some name
    · cases value with
      | none =>
        have hstep : upsertLine name none s l = s := by simp [upsertLine, hl]
        rw [hstep]
        exact hs
      | some v =>
        by_cases hr : s.2 = true
        · have hstep : upsertLine name (some v) s l = s := by simp [upsertLine, hl, hr]
          rw [hstep]
          exact hs
        · have hstep : upsertLine name (some v) s l = (s.1 ++ [entryLine name v], true) := by
            simp [upsertLine, hl, hr]
          rw [hstep, List.filter_append, hs, if_neg hr]
          simp [hkey v rfl]
    · unfold upsertLine
      rw [if_neg hl, List.filter_append, hs]
      simp [hl]

theorem upsertLines_other (hkey : ∀ v ∈ value, upsertKey (entryLine name v) = some name)
    (lines : List (List Char)) :
    ((upsertLines lines name value).filter fun l => decide (upsertKey l ≠ some name)) =
      lines.filter fun l => decide (upsertKey l ≠ some name) := by
  have hfold := foldl_upsertLine_other hkey lines ([], false)
  rw [List.filter_nil, List.nil_append] at hfold
  unfold upsertLines
  cases value with
  | none => exact hfold
  | some v =>
    simp only
    split
    · exact hfold
    · rw [List.filter_append, hfold]
      simp [hkey v rfl]

theorem upsertLines_own (hkey : ∀ v ∈ value, upsertKey (entryLine name v) = some name)
    (lines : List (List Char)) :
    ((upsertLines lines name value).filter fun l => decide (upsertKey l = some name)) =
      value.toList.map (entryLine name) := by
  have hfold := foldl_upsertLine_own hkey lines ([], false) rfl
  unfold upsertLines
  cases value with
  | none =>
    simp only [Option.toList_none, List.map_nil] at hfold ⊢
    rw [hfold]
    split <;> rfl
  | some v =>
    simp only
    by_cases hr : (lines.foldl (upsertLine name (some v)) ([], false)).2 = true
    · rw [if_pos hr, hfold, if_pos hr]
    · rw [if_neg hr, List.filter_append, hfold, if_neg hr]
      simp [hkey v rfl]

/-- A written line stands alone if its value does. -/
theorem not_mem_upsertLines {text : String} (hname : '\n' ∉ name.toList)
    (hvalue : ∀ v ∈ value, '\n' ∉ v.toList) :
    ∀ l ∈ upsertLines (fileLines text) name value, '\n' ∉ l := by
  have hentry : ∀ v ∈ value, '\n' ∉ entryLine name v := by
    intro v hv
    simp only [entryLine, List.mem_append, List.mem_cons, not_or]
    exact ⟨hname, by decide, hvalue v hv⟩
  -- a line that stays is one of the file, a line that comes is the entry
  have hfold : ∀ (lines : List (List Char)) (s : List (List Char) × Bool),
      (∀ l ∈ lines, '\n' ∉ l) → (∀ l ∈ s.1, '\n' ∉ l) →
      ∀ l ∈ (lines.foldl (upsertLine name value) s).1, '\n' ∉ l := by
    intro lines
    induction lines with
    | nil => exact fun s _ hs => hs
    | cons l lines ih =>
      intro s hlines hs
      obtain ⟨hl, hlines⟩ := List.forall_mem_cons.mp hlines
      refine ih _ hlines ?_
      unfold upsertLine
      split
      · split
        · rename_i v
          split
          · exact hs
          · simp only [List.mem_append, List.mem_singleton]
            rintro l' (hl' | rfl)
            · exact hs l' hl'
            · exact hentry v rfl
        · exact hs
      · simp only [List.mem_append, List.mem_singleton]
        rintro l' (hl' | rfl)
        · exact hs l' hl'
        · exact hl
  have hlines := hfold (fileLines text) ([], false) (fun l => not_mem_of_mem_fileLines) (by simp)
  unfold upsertLines
  cases value with
  | none => exact hlines
  | some v =>
    simp only
    split
    · exact hlines
    · simp only [List.mem_append, List.mem_singleton]
      rintro l (hl | rfl)
      · exact hlines l hl
      · exact hentry v rfl

end Edit

/-! ## What the endpoint accepts -/

/-- A valid name is not blank, and has no mark of the file's in it. -/
theorem isEnvName_chars {name : String} (h : isEnvName name = true) :
    name.toList ≠ [] ∧ ∀ c ∈ name.toList, c.isAlphanum ∨ c = '_' := by
  unfold isEnvName at h
  cases hname : name.toList with
  | nil =>
    rw [hname] at h
    cases h
  | cons c cs =>
    rw [hname] at h
    simp only [Bool.and_eq_true, Bool.or_eq_true, decide_eq_true_eq, List.all_eq_true] at h
    refine ⟨List.cons_ne_nil c cs, fun d hd => ?_⟩
    rcases List.mem_cons.mp hd with rfl | hd
    · exact h.1.imp (fun ha => by simp [Char.isAlphanum, ha]) id
    · exact h.2 d hd

/-- Of the characters of a name, none is trimmed. -/
theorem not_trimmed_of_alphanum {c : Char} (h : c.isAlphanum ∨ c = '_') :
    isTrimmed c = false ∧ c ≠ '\n' ∧ c ≠ '=' ∧ c ≠ '#' := by
  have hrange : 48 ≤ c.toNat ∧ c.toNat ≤ 122 ∧ c.toNat ≠ 61 := by
    rcases h with h | rfl
    · have hrange := toNat_of_isAlphanum h
      omega
    · decide
  have hne : ∀ d : Char, (d.toNat < 48 ∨ 122 < d.toNat ∨ d.toNat = 61) → c ≠ d := by
    rintro d hd rfl
    omega
  refine ⟨?_, hne _ (by decide), hne _ (by decide), hne _ (by decide)⟩
  by_contra htrim
  simp only [isTrimmed, isLineTerminator, Bool.not_eq_false, Bool.or_eq_true, decide_eq_true_eq,
    Bool.and_eq_true] at htrim
  rcases htrim with (((((((((((h' | h' | h' | h') | h') | h') | h') | h') | h') | h') | h') | h') |
    h') | h') | h'
  all_goals first
    | exact hne _ (by decide) h'
    | omega

/-- What the endpoint passes on: a valid name, and a trimmed value that is
not empty, or none. -/
theorem secretUpdate_ok {body : Json} {name : String} {value : Option String}
    (h : secretUpdate body = .ok (name, value)) :
    isEnvName name = true ∧ ∀ v ∈ value, trim v = v ∧ v ≠ "" := by
  unfold secretUpdate at h
  split at h
  · cases h
  · split at h
    · rename_i env _
      split at h
      · cases h
      · rename_i hname
        have hname : isEnvName env = true := by simpa using hname
        split at h
        · obtain ⟨rfl, rfl⟩ := Prod.mk.inj (Except.ok.inj h)
          exact ⟨hname, fun v hv => by cases hv⟩
        · rename_i raw _
          split at h
          · cases h
          · rename_i hne
            obtain ⟨rfl, rfl⟩ := Prod.mk.inj (Except.ok.inj h)
            refine ⟨hname, fun v hv => ?_⟩
            obtain rfl := Option.some.inj hv
            refine ⟨?_, hne⟩
            rw [trim, trim, String.toList_ofList, trimChars_trimChars]
        · cases h
    · cases h

section Accepted

variable {name v : String}

/-- The ends of a written line are a character of the name and one of the
trimmed value. -/
theorem trimChars_entryLine (hname : isEnvName name = true) (htrim : trim v = v) (hv : v ≠ "") :
    trimChars (entryLine name v) = entryLine name v := by
  obtain ⟨hne, hchars⟩ := isEnvName_chars hname
  obtain ⟨c, cs, hcs⟩ := List.exists_cons_of_ne_nil hne
  have hvne : v.toList ≠ [] := by simpa using hv
  have hvtrim : trimChars v.toList = v.toList := by
    have h := congrArg String.toList htrim
    rwa [trim, String.toList_ofList] at h
  refine trimChars_eq_self (fun d hd => ?_) (fun d hd => ?_)
  · rw [entryLine, hcs, List.cons_append, List.head?_cons, Option.some.injEq] at hd
    rw [← hd]
    exact (not_trimmed_of_alphanum (hchars c (by rw [hcs]; exact List.mem_cons_self))).1
  · have hlast : v.toList.getLast? = some d := by
      rw [entryLine, List.getLast?_append_of_ne_nil _ (List.cons_ne_nil _ _),
        List.getLast?_cons_of_ne_nil hvne] at hd
      exact hd
    rw [← hvtrim] at hlast
    exact trimChars_getLast hlast

/-- **A written line is read back.** -/
theorem envEntry_entryLine (hname : isEnvName name = true) (htrim : trim v = v) (hv : v ≠ "") :
    envEntry (entryLine name v) = some (name, v) := by
  obtain ⟨hne, hchars⟩ := isEnvName_chars hname
  have hvtrim : trimChars v.toList = v.toList := by
    have h := congrArg String.toList htrim
    rwa [trim, String.toList_ofList] at h
  have hkeytrim : trimChars name.toList = name.toList := trimChars_eq_self
    (fun c hc => (not_trimmed_of_alphanum (hchars c (List.mem_of_mem_head? hc))).1)
    (fun c hc => (not_trimmed_of_alphanum (hchars c (List.mem_of_getLast? hc))).1)
  have hplain : ∀ c ∈ name.toList, decide (c ≠ '=') = true := fun c hc =>
    decide_eq_true (not_trimmed_of_alphanum (hchars c hc)).2.2.1
  have htake : (entryLine name v).takeWhile (· ≠ '=') = name.toList := by
    rw [entryLine, List.takeWhile_append_of_pos hplain, List.takeWhile_cons_of_neg (by simp),
      List.append_nil]
  have hdrop : (entryLine name v).dropWhile (· ≠ '=') = '=' :: v.toList := by
    rw [entryLine, List.dropWhile_append_of_pos hplain, List.dropWhile_cons_of_neg (by simp)]
  have hskip : ¬ (entryLine name v = [] ∨ (entryLine name v).head? = some '#') := by
    obtain ⟨c, cs, hcs⟩ := List.exists_cons_of_ne_nil hne
    rw [entryLine, hcs]
    simp only [List.cons_append, List.cons_ne_nil, List.head?_cons, Option.some.injEq, false_or]
    exact (not_trimmed_of_alphanum (hchars c (by rw [hcs]; exact List.mem_cons_self))).2.2.2
  have hmark : '=' ∈ entryLine name v := by simp [entryLine]
  unfold envEntry
  simp only [trimChars_entryLine hname htrim hv, if_neg hskip, if_pos hmark, htake, hdrop, hkeytrim,
    if_neg hne, List.drop_one, List.tail_cons, hvtrim, String.ofList_toList]

end Accepted

/-! ## Faithful edits -/

/-- The result of an edit is the map with that one key set, or removed, and
the lines without that key as they were. -/
structure FaithfulEdit (text name : String) (value : Option String) (result : String) : Prop where
  parsed : ∀ k, (parseEnvFile result).get? k =
    if k = name then value else (parseEnvFile text).get? k
  others : ((fileLines result).filter fun l => decide ((envEntry l).map Prod.fst ≠ some name)) =
    (fileLines text).filter fun l => decide ((envEntry l).map Prod.fst ≠ some name)

/-- A value that is read has no line feed. -/
theorem not_mem_parsed {text k v : String} (h : (parseEnvFile text).get? k = some v) :
    '\n' ∉ v.toList := by
  rw [parseEnvFile, get?_parseEnvLines, Option.map_eq_some_iff] at h
  obtain ⟨e, he, rfl⟩ := h
  obtain ⟨l, hl, hentry⟩ := List.mem_filterMap.mp (List.mem_of_getLast? he)
  have hline := not_mem_of_mem_splitOn (List.mem_of_mem_filter hl)
  unfold envEntry at hentry
  simp only at hentry
  split at hentry
  · cases hentry
  · split at hentry
    · split at hentry
      · cases hentry
      · obtain rfl := Option.some.inj hentry
        rw [String.toList_ofList]
        intro hmem
        have h1 := (List.drop_sublist 1 _).subset (trimChars_subset _ hmem)
        have h2 := (List.dropWhile_sublist _).subset h1
        exact hline (trimChars_subset l h2)
    · cases hentry

theorem upsertEnvText_faithful {text name : String} {value : Option String}
    (hname : isEnvName name = true) (hvalue : ∀ v ∈ value, trim v = v ∧ v ≠ "")
    (hline : ∀ v ∈ value, '\n' ∉ v.toList) :
    FaithfulEdit text name value (upsertEnvText text name value) := by
  have hentry : ∀ v ∈ value, envEntry (entryLine name v) = some (name, v) := fun v hv =>
    envEntry_entryLine hname (hvalue v hv).1 (hvalue v hv).2
  have hkey : ∀ v ∈ value, upsertKey (entryLine name v) = some name := fun v hv => by
    rw [upsertKey_eq, hentry v hv]
    rfl
  have hnameline : '\n' ∉ name.toList := fun hmem =>
    (not_trimmed_of_alphanum ((isEnvName_chars hname).2 _ hmem)).2.1 rfl
  have hresult : fileLines (upsertEnvText text name value) =
      upsertLines (fileLines text) name value :=
    fileLines_join (not_mem_upsertLines hnameline hline)
  have hothers := upsertLines_other hkey (fileLines text)
  refine ⟨fun k => ?_, ?_⟩
  · rw [parseEnvFile_eq, parseEnvFile_eq, hresult, get?_parseEnvLines, get?_parseEnvLines]
    by_cases hk : k = name
    · rw [if_pos hk, hk, upsertLines_own hkey]
      cases value with
      | none => rfl
      | some v => simp [hentry v rfl]
    · rw [if_neg hk]
      -- the lines of another key are among the lines kept
      have hsub : ∀ lines : List (List Char),
          (lines.filter fun l => decide (upsertKey l = some k)) =
            (lines.filter fun l => decide (upsertKey l ≠ some name)).filter fun l =>
              decide (upsertKey l = some k) := by
        intro lines
        rw [List.filter_filter]
        refine List.filter_congr fun l _ => ?_
        rw [Bool.eq_iff_iff, Bool.and_eq_true, decide_eq_true_eq, decide_eq_true_eq]
        exact ⟨fun h => ⟨h, by rw [h]; simpa using hk⟩, fun h => h.1⟩
      rw [hsub, hothers, ← hsub]
  · rw [hresult]
    simp only [upsertKey_eq] at hothers
    exact hothers

/-- **An accepted edit is faithful exactly if its value is one line.** -/
theorem secretUpdate_faithful_iff (text : String) {body : Json} {name : String}
    {value : Option String} (h : secretUpdate body = .ok (name, value)) :
    FaithfulEdit text name value (upsertEnvText text name value) ↔
      ∀ v ∈ value, '\n' ∉ v.toList := by
  obtain ⟨hname, hvalue⟩ := secretUpdate_ok h
  constructor
  · intro hf v hv
    have hparsed := hf.parsed name
    rw [if_pos rfl, hv] at hparsed
    exact not_mem_parsed hparsed
  · exact upsertEnvText_faithful hname hvalue

/-- What the endpoint writes is such an edit of the file it has. -/
theorem putSecrets_ok {cc : SecretsControl} {body : Except String (Option Json)} {result : String}
    (h : putSecrets cc body = .ok result) :
    ∃ text doc name value, cc.secretsFile = some text ∧ body = .ok (some doc) ∧
      secretUpdate doc = .ok (name, value) ∧ result = upsertEnvText text name value ∧
      (FaithfulEdit text name value result ↔ ∀ v ∈ value, '\n' ∉ v.toList) := by
  unfold putSecrets at h
  split at h
  · cases h
  · split at h
    · cases h
    · split at h
      · cases h
      · rename_i text hfile
        split at h
        · cases h
        · cases h
        · rename_i doc
          cases hupdate : secretUpdate doc with
          | error e =>
            rw [hupdate] at h
            cases h
          | ok u =>
            rw [hupdate] at h
            obtain rfl := Except.ok.inj h
            exact ⟨text, doc, u.1, u.2, hfile, rfl, hupdate, rfl,
              secretUpdate_faithful_iff text hupdate⟩

namespace InjectedSecret

/-- A value of two lines, the second a setting of its own. -/
def body : Json := .obj [("env", .str "A"), ("value", .str "x\nB=y")]

/-- A request that sets a secret. -/
def oneLine : Json := .obj [("env", .str "A"), ("value", .str " x=y ")]

end InjectedSecret

open InjectedSecret in
theorem secretUpdate_faithful_oneLine :
    secretUpdate oneLine = .ok ("A", some "x=y") ∧
      FaithfulEdit "# tokens\nB=z\nA=old" "A" (some "x=y")
        (upsertEnvText "# tokens\nB=z\nA=old" "A" (some "x=y")) := by
  have hok : secretUpdate oneLine = .ok ("A", some "x=y") := by decide +kernel
  refine ⟨hok, (secretUpdate_faithful_iff _ hok).mpr fun v hv => ?_⟩
  obtain rfl := Option.some.inj hv
  decide

open InjectedSecret in
/-- **A value of two lines sets another key.** -/
theorem not_secretUpdate_faithful :
    secretUpdate body = .ok ("A", some "x\nB=y") ∧
      (parseEnvFile (upsertEnvText "" "A" (some "x\nB=y"))).get? "B" = some "y" ∧
      ¬ FaithfulEdit "" "A" (some "x\nB=y") (upsertEnvText "" "A" (some "x\nB=y")) := by
  have hB : (parseEnvFile (upsertEnvText "" "A" (some "x\nB=y"))).get? "B" = some "y" := by
    decide +kernel
  refine ⟨by decide +kernel, hB, fun hf => ?_⟩
  have hparsed := hf.parsed "B"
  rw [hB] at hparsed
  revert hparsed
  decide +kernel

end SymphonyBoard
