import SymphonyBoard.Model.TrackerTable
/-!
# Reading a rendered table back

A row whose parts keep to the grammar, and whose title does not read like
one of the parts it lacks, is read back from its rendering (`parseRow_line`);
so is a table of such rows among headings and prose, whatever stands before
and behind it (`parseTrackerRows_render`).
-/

namespace SymphonyBoard

/-! ## Texts -/

section Texts

variable {p cs ds : List Char} {c : Char}

theorem stripPrefix?_append (p cs : List Char) : stripPrefix? p (p ++ cs) = some cs := by
  induction p with
  | nil => rfl
  | cons c p ih => simp [stripPrefix?, ih]

theorem stripPrefix?_eq_some : stripPrefix? p cs = some ds ↔ cs = p ++ ds := by
  constructor
  · induction p generalizing cs with
    | nil => exact fun h => Option.some.inj h
    | cons c p ih =>
      intro h
      cases cs with
      | nil => cases h
      | cons d cs =>
        unfold stripPrefix? at h
        split at h
        · rename_i hcd
          rw [hcd, ih h, List.cons_append]
        · cases h
  · rintro rfl
    exact stripPrefix?_append p ds

/-- A text that neither starts nor ends with a blank. -/
structure Trimmed (cs : List Char) : Prop where
  head : ∀ c ∈ cs.head?, isBlank c = false
  last : ∀ c ∈ cs.getLast?, isBlank c = false

/-- `Trimmed` by evaluation. -/
theorem forall_mem_of_all {test : Char → Bool} {o : Option Char} (h : o.all (fun c => !test c) = true) :
    ∀ c ∈ o, test c = false := by
  rintro c rfl
  simpa using h

theorem trimmed_of_all (hhead : cs.head?.all (fun c => !isBlank c) = true)
    (hlast : cs.getLast?.all (fun c => !isBlank c) = true) : Trimmed cs :=
  ⟨forall_mem_of_all hhead, forall_mem_of_all hlast⟩

theorem dropWhile_of_head (h : ∀ c ∈ cs.head?, isBlank c = false) : cs.dropWhile isBlank = cs := by
  cases cs with
  | nil => rfl
  | cons c cs =>
    have hc := h c rfl
    rw [List.dropWhile_cons_of_neg (by simp [hc])]

theorem rdropWhile_of_last {q : Char → Bool} (h : ∀ c ∈ cs.getLast?, q c = false) :
    cs.rdropWhile q = cs := by
  rw [List.rdropWhile_eq_self_iff]
  intro hne
  have hlast := h _ (List.getLast?_eq_some_getLast hne)
  simp [hlast]

theorem Trimmed.eq (h : Trimmed cs) : trimBlanks cs = cs := by
  unfold trimBlanks
  rw [dropWhile_of_head h.head, rdropWhile_of_last h.last]

theorem trimBlanks_cons (hc : isBlank c = true) : trimBlanks (c :: cs) = trimBlanks cs := by
  unfold trimBlanks
  rw [List.dropWhile_cons_of_pos hc]

theorem trimBlanks_snoc (h : Trimmed cs) (hne : cs ≠ []) : trimBlanks (cs ++ [' ']) = cs := by
  obtain ⟨c, cs, rfl⟩ := List.exists_cons_of_ne_nil hne
  have hhead : ∀ d ∈ (c :: cs ++ [' ']).head?, isBlank d = false := h.head
  unfold trimBlanks
  rw [dropWhile_of_head hhead, List.rdropWhile_concat_pos _ _ _ (by decide), rdropWhile_of_last h.last]

theorem trimmed_trimBlanks (cs : List Char) : Trimmed (trimBlanks cs) := by
  constructor
  · intro c hc
    have hkept : trimBlanks cs <+: cs.dropWhile isBlank := List.rdropWhile_prefix isBlank _
    obtain ⟨rest, hrest⟩ := hkept
    cases htrim : trimBlanks cs with
    | nil =>
      rw [htrim] at hc
      cases hc
    | cons d ds =>
      rw [htrim] at hc hrest
      obtain rfl := Option.some.inj hc
      have hhead := List.head?_dropWhile_not isBlank cs
      rw [← hrest, List.cons_append, List.head?_cons] at hhead
      simpa using hhead
  · intro c hc
    have hne : trimBlanks cs ≠ [] := by
      rintro hnil
      rw [hnil] at hc
      cases hc
    have hlast := List.rdropWhile_last_not isBlank (cs.dropWhile isBlank) hne
    rw [List.getLast?_eq_some_getLast hne] at hc
    obtain rfl := Option.some.inj hc
    exact Bool.eq_false_iff.mpr hlast

/-- A run of characters, and what ends it. -/
theorem takeWhile_run {q : Char → Bool} {xs : List Char} (hxs : ∀ x ∈ xs, q x = true)
    (hc : q c = false) :
    (xs ++ c :: cs).takeWhile q = xs ∧ (xs ++ c :: cs).dropWhile q = c :: cs := by
  induction xs with
  | nil => simp [hc]
  | cons x xs ih =>
    obtain ⟨hx, hxs⟩ := List.forall_mem_cons.mp hxs
    obtain ⟨htake, hdrop⟩ := ih hxs
    simp [hx, htake, hdrop]

end Texts

/-! ## Ids -/

section Ids

variable {id cs : List Char} {ids : List (List Char)}

theorem isRowId_cons {c : Char} (h : isRowId (c :: cs) = true) :
    c.isUpper = true ∧ ∀ d ∈ cs, d.isAlphanum = true := by
  simpa [isRowId] using h

theorem isAlphanum_of_isUpper {c : Char} (h : c.isUpper = true) : c.isAlphanum = true := by
  change (c.isUpper || c.isLower || c.isDigit) = true
  rw [h]
  rfl

theorem isRowId_alphanum (h : isRowId id = true) : id ≠ [] ∧ ∀ c ∈ id, c.isAlphanum = true := by
  cases id with
  | nil => cases h
  | cons c cs =>
    obtain ⟨hc, hcs⟩ := isRowId_cons h
    exact ⟨List.cons_ne_nil c cs, List.forall_mem_cons.mpr ⟨isAlphanum_of_isUpper hc, hcs⟩⟩

/-- A character of an id is none of the marks around ids. -/
theorem alphanum_ne {c d : Char} (hc : c.isAlphanum = true) (hd : d.isAlphanum = false) : c ≠ d := by
  rintro rfl
  rw [hc] at hd
  cases hd

theorem isBlank_of_alphanum {c : Char} (h : c.isAlphanum = true) : isBlank c = false := by
  unfold isBlank
  rw [Bool.or_eq_false_iff]
  exact ⟨decide_eq_false (alphanum_ne h (by decide)), decide_eq_false (alphanum_ne h (by decide))⟩

theorem trimmed_of_isRowId (h : isRowId id = true) : Trimmed id := by
  obtain ⟨-, hall⟩ := isRowId_alphanum h
  exact ⟨fun c hc => isBlank_of_alphanum (hall c (List.mem_of_head? hc)),
    fun c hc => isBlank_of_alphanum (hall c (List.mem_of_getLast? hc))⟩

/-- Ids as they are listed. -/
def joinIds : List (List Char) → List Char
  | [] => []
  | id :: ids => [','].intercalate (id :: ids.map (' ' :: ·))

theorem joinIds_cons (id : List Char) (ids : List (List Char)) :
    joinIds (id :: ids) = id ++ ids.flatMap fun id => ',' :: ' ' :: id := by
  have h : ∀ id : List Char, [','].intercalate (id :: ids.map (' ' :: ·)) =
      id ++ ids.flatMap fun id => ',' :: ' ' :: id := by
    induction ids with
    | nil => simp
    | cons next ids ih =>
      intro id
      rw [List.map_cons, List.intercalate_cons_cons, ih, List.flatMap_cons]
      simp
  exact h id

theorem afterListFrom_run (hcs : ∀ c ∈ cs, c.isAlphanum = true) (ds : List Char) :
    afterListFrom .inId (cs ++ ds) = afterListFrom .inId ds := by
  induction cs with
  | nil => rfl
  | cons c cs ih =>
    obtain ⟨hc, hcs⟩ := List.forall_mem_cons.mp hcs
    rw [List.cons_append, afterListFrom, if_pos hc]
    exact ih hcs

/-- Ids listed are a list of ids. -/
theorem afterListFrom_more (hids : ∀ id ∈ ids, isRowId id = true) :
    afterListFrom .inId (ids.flatMap fun id => ',' :: ' ' :: id) = true := by
  induction ids with
  | nil => rfl
  | cons id ids ih =>
    obtain ⟨hid, hrest⟩ := List.forall_mem_cons.mp hids
    obtain ⟨c, cs, rfl⟩ := List.exists_cons_of_ne_nil (isRowId_alphanum hid).1
    obtain ⟨hc, hcs⟩ := isRowId_cons hid
    have hblank := isBlank_of_alphanum (isAlphanum_of_isUpper hc)
    rw [List.flatMap_cons, List.cons_append, List.cons_append, afterListFrom,
      if_neg (by decide), if_pos rfl, afterListFrom, if_pos (by decide), List.cons_append,
      afterListFrom, if_neg (by simp [hblank]), hc, Bool.true_and, afterListFrom_run hcs]
    exact ih hrest

theorem afterListFrom_joinIds (hne : ids ≠ []) (hids : ∀ id ∈ ids, isRowId id = true) :
    afterListFrom .first (joinIds ids) = true := by
  obtain ⟨id, ids, rfl⟩ := List.exists_cons_of_ne_nil hne
  obtain ⟨hid, hrest⟩ := List.forall_mem_cons.mp hids
  obtain ⟨c, cs, rfl⟩ := List.exists_cons_of_ne_nil (isRowId_alphanum hid).1
  obtain ⟨hc, hcs⟩ := isRowId_cons hid
  rw [joinIds_cons, List.cons_append, afterListFrom, hc, Bool.true_and, afterListFrom_run hcs]
  exact afterListFrom_more hrest

/-- What is listed starts and ends with an id. -/
theorem mem_joinIds {c : Char} (hids : ∀ id ∈ ids, isRowId id = true) (h : c ∈ joinIds ids) :
    c.isAlphanum = true ∨ c = ',' ∨ c = ' ' := by
  cases ids with
  | nil => cases h
  | cons id ids =>
    rw [joinIds_cons, List.mem_append, List.mem_flatMap] at h
    rcases h with h | ⟨next, hnext, h⟩
    · exact Or.inl ((isRowId_alphanum (hids id List.mem_cons_self)).2 c h)
    · rcases List.mem_cons.mp h with rfl | h
      · exact Or.inr (Or.inl rfl)
      · rcases List.mem_cons.mp h with rfl | h
        · exact Or.inr (Or.inr rfl)
        · exact Or.inl ((isRowId_alphanum (hids next (List.mem_cons_of_mem id hnext))).2 c h)

theorem trimmed_joinIds (hne : ids ≠ []) (hids : ∀ id ∈ ids, isRowId id = true) :
    Trimmed (joinIds ids) := by
  obtain ⟨id, ids, rfl⟩ := List.exists_cons_of_ne_nil hne
  obtain ⟨hid, hids⟩ := List.forall_mem_cons.mp hids
  rw [joinIds_cons]
  constructor
  · intro c hc
    obtain ⟨d, ds, rfl⟩ := List.exists_cons_of_ne_nil (isRowId_alphanum hid).1
    exact (trimmed_of_isRowId hid).head c hc
  · intro c hc
    cases hlast : ids.getLast? with
    | none =>
      rw [List.getLast?_eq_none_iff.mp hlast, List.flatMap_nil, List.append_nil] at hc
      exact (trimmed_of_isRowId hid).last c hc
    | some last =>
      -- the last id listed ends the list
      obtain ⟨init, rfl⟩ := List.getLast?_eq_some_iff.mp hlast
      have hlastId := hids last (List.mem_append_right _ (List.mem_singleton_self last))
      have hnil := (isRowId_alphanum hlastId).1
      refine (trimmed_of_isRowId hlastId).last c ?_
      rw [List.flatMap_append, List.flatMap_singleton, ← List.append_assoc,
        List.getLast?_append_of_ne_nil _ (List.cons_ne_nil _ _), List.getLast?_cons_cons,
        List.getLast?_cons_of_ne_nil hnil] at hc
      exact hc

/-- **Ids listed are read back.** -/
theorem listedIds_joinIds (hne : ids ≠ []) (hids : ∀ id ∈ ids, isRowId id = true)
    (hnodup : ids.Nodup) : listedIds (trimBlanks (joinIds ids)) = some ids := by
  rw [(trimmed_joinIds hne hids).eq]
  have hlist := afterListFrom_joinIds hne hids
  obtain ⟨id, ids, rfl⟩ := List.exists_cons_of_ne_nil hne
  have hcomma : ∀ part ∈ id :: ids.map (' ' :: ·), ',' ∉ part := by
    intro part hpart hmem
    rcases List.mem_cons.mp hpart with rfl | hpart
    · exact alphanum_ne ((isRowId_alphanum (hids _ List.mem_cons_self)).2 _ hmem) (by decide) rfl
    · obtain ⟨next, hnext, rfl⟩ := List.mem_map.mp hpart
      have hmem := (List.mem_cons.mp hmem).resolve_left (by decide)
      exact alphanum_ne ((isRowId_alphanum (hids _ (List.mem_cons_of_mem id hnext))).2 _ hmem)
        (by decide) rfl
  have hparts : ((joinIds (id :: ids)).splitOn ',').map trimBlanks = id :: ids := by
    unfold joinIds
    rw [List.splitOn_intercalate ',' hcomma (List.cons_ne_nil _ _), List.map_cons, List.map_map,
      (trimmed_of_isRowId (hids id List.mem_cons_self)).eq]
    refine congrArg (id :: ·) ?_
    rw [← List.map_id ids, List.map_map]
    refine List.map_congr_left fun next hnext => ?_
    have hid := hids next (List.mem_cons_of_mem id hnext)
    exact (trimBlanks_cons (by decide)).trans (trimmed_of_isRowId hid).eq
  unfold listedIds
  rw [if_pos hlist]
  simp only [hparts, if_pos hnodup]

end Ids

/-! ## The parts of a row -/

section Parts

variable {text cs ds : List Char} {ids : List (List Char)}

/-- The dependencies as they are rendered; none where there are none. -/
def afterText (ids : List (List Char)) : List Char :=
  if ids = [] then [] else afterMark ++ ' ' :: joinIds ids

theorem splitAfter_of_none (h : ∀ s, s <:+ text → afterClause s = none) :
    splitAfter text = some (text, []) := by
  unfold splitAfter
  rw [greedyHead_eq_none.mpr h]

/-- **The dependencies are split off**, whatever the text before them. -/
theorem splitAfter_afterText (text : List Char) (hne : ids ≠ [])
    (hids : ∀ id ∈ ids, isRowId id = true) (hnodup : ids.Nodup) :
    splitAfter (text ++ afterText ids) = some (text, ids) := by
  have hdot : '·' ∉ joinIds ids := by
    intro h
    rcases mem_joinIds hids h with h | h | h
    · exact alphanum_ne h (by decide) rfl
    · exact absurd h (by decide)
    · exact absurd h (by decide)
  have hclause : greedyHead afterClause (text ++ (afterMark ++ ' ' :: joinIds ids)) =
      some (text, joinIds ids) := by
    refine greedyHead_eq_some.mpr ⟨_, rfl, ?_, fun s hs hproper => ?_⟩
    · unfold afterClause
      rw [stripPrefix?_append]
      rfl
    · -- a shorter rest has no middle dot behind its first character
      cases hfit : afterClause s with
      | none => rfl
      | some listed =>
        obtain ⟨rest, hrest, -⟩ := Option.bind_eq_some_iff.mp hfit
        obtain rfl := stripPrefix?_eq_some.mp hrest
        have hshort : afterMark ++ rest <:+ '·' :: ' ' :: 'a' :: 'f' :: 't' :: 'e' :: 'r' :: ' ' ::
            joinIds ids := (List.suffix_cons_iff.mp hs).resolve_left hproper
        have hmore := (List.suffix_cons_iff.mp hshort).resolve_left fun heq =>
          absurd (List.cons.inj heq).1 (by decide)
        have hmem : '·' ∈ ' ' :: 'a' :: 'f' :: 't' :: 'e' :: 'r' :: ' ' :: joinIds ids :=
          hmore.subset (List.mem_append_left _ (by decide))
        simp [hdot] at hmem
  unfold splitAfter afterText
  rw [if_neg hne, hclause]
  simp only
  rw [listedIds_joinIds hne hids hnodup]
  rfl

/-- Every bracket closed has been opened, and the other way about. -/
structure Balanced (cs : List Char) : Prop where
  total : cs.count '(' = cs.count ')'
  closed : ∀ s, s <:+ cs → s.count '(' ≤ s.count ')'

theorem bracket_counts (depth : ℕ) (c : Char) :
    (if c = ')' then depth + 1 else if c = '(' then depth - 1 else depth) =
      depth + [c].count ')' - [c].count '(' := by
  by_cases hclose : c = ')'
  · subst hclose
    rfl
  · by_cases hopen : c = '('
    · subst hopen
      rfl
    · rw [if_neg hclose, if_neg hopen, List.count_singleton, List.count_singleton]
      simp [hclose, hopen]

/-- Read from the right, a text that closes no more than is open leaves the
difference open. -/
theorem openingBracket_append {depth : ℕ} (inner rest : List Char)
    (hclosed : ∀ s, s <:+ cs → s.count '(' < depth + s.count ')') :
    openingBracket depth inner (cs.reverse ++ rest) =
      openingBracket (depth + cs.count ')' - cs.count '(') (cs ++ inner) rest := by
  induction cs using List.reverseRecOn generalizing depth inner with
  | nil => rfl
  | append_singleton cs c ih =>
    have hlast := hclosed [c] (List.suffix_append cs [c])
    rw [List.reverse_append, List.reverse_singleton, List.singleton_append, List.cons_append,
      openingBracket]
    simp only [bracket_counts]
    rw [if_neg (by omega), ih]
    · rw [List.append_assoc, List.singleton_append, List.count_append, List.count_append]
      congr 1
      omega
    · intro s hs
      obtain ⟨t, rfl⟩ := hs
      have h := hclosed (s ++ [c]) ⟨t, (List.append_assoc t s [c]).symm⟩
      rw [List.count_append, List.count_append] at h
      omega

/-- **Trailing notes are split off**, whatever the text before them. -/
theorem trailingNotes_append {notes : List Char} (htext : Trimmed text) (hne : text ≠ [])
    (hnotes : Trimmed notes) (hnotesNe : notes ≠ []) (hbalanced : Balanced notes) :
    trailingNotes (text ++ (' ' :: '(' :: notes ++ [')'])) = some (text, notes) := by
  have hreverse : (text ++ (' ' :: '(' :: notes ++ [')'])).reverse =
      ')' :: (notes.reverse ++ '(' :: ' ' :: text.reverse) := by simp
  have hopening : openingBracket 1 [] (notes.reverse ++ '(' :: ' ' :: text.reverse) =
      some (notes, ' ' :: text.reverse) := by
    have htotal := hbalanced.total
    rw [openingBracket_append [] _ fun s hs => by have := hbalanced.closed s hs; omega,
      List.append_nil, htotal, Nat.add_sub_cancel]
    rfl
  have hspaced : (' ' :: text.reverse).reverse = text ++ [' '] := by simp
  unfold trailingNotes
  rw [hreverse]
  simp only [hopening]
  rw [hnotes.eq, if_neg hnotesNe, hspaced, trimBlanks_snoc htext hne]

end Parts

/-! ## References -/

section References

variable {ref : TrackerRef} {title : List Char}

/-- A name of an owner or of a repository. -/
def IsRefName (name : String) : Prop := name ≠ "" ∧ ∀ c ∈ name.toList, isNameChar c = true

/-- A reference within the grammar. -/
structure TrackerRef.Valid (ref : TrackerRef) : Prop where
  number : 1 ≤ ref.number ∧ ref.number < 10 ^ 15
  names : (ref.owner = none ∧ ref.repo = none) ∨
    ∃ owner repo, ref.owner = some owner ∧ ref.repo = some repo ∧ IsRefName owner ∧ IsRefName repo

/-- The reference as a tracker writes it. -/
def TrackerRef.text (ref : TrackerRef) : List Char :=
  match ref.owner, ref.repo with
  | some owner, some repo =>
    owner.toList ++ '/' :: (repo.toList ++ '#' :: Nat.toDigits 10 ref.number)
  | _, _ => '#' :: Nat.toDigits 10 ref.number

theorem head?_toDigits {n : ℕ} (h : 0 < n) : (Nat.toDigits 10 n).head? ≠ some '0' := by
  induction n using Nat.strongRecOn with
  | ind n ih =>
    by_cases hsmall : n < 10
    · have hdigit : ∀ k < 10, 0 < k → some (Nat.digitChar k) ≠ some '0' := by decide
      rw [Nat.toDigits_of_lt_base hsmall, List.head?_cons]
      exact hdigit n hsmall h
    · rw [Nat.toDigits_of_base_le (by decide) (Nat.le_of_not_lt hsmall),
        List.head?_append_of_ne_nil _ Nat.toDigits_ne_nil]
      exact ih (n / 10) (by omega) (by omega)

theorem refNumber_toDigits {n : ℕ} (h : 1 ≤ n ∧ n < 10 ^ 15) :
    refNumber (Nat.toDigits 10 n) = some n := by
  have hlength : (Nat.toDigits 10 n).length ≤ 15 :=
    (Nat.length_toDigits_le_iff (by decide) (by decide)).mpr h.2
  have hdigits : (Nat.toDigits 10 n).all Char.isDigit = true := by
    rw [List.all_eq_true]
    exact fun c hc => Nat.isDigit_of_mem_toDigits (by decide) (by decide) hc
  unfold refNumber
  rw [if_pos ⟨Nat.toDigits_ne_nil, head?_toDigits h.1, hdigits, hlength⟩,
    Nat.ofDigitChars_toDigits (by decide) (by decide)]

theorem refText_text (h : ref.Valid) : refText ref.text = some ref := by
  obtain ⟨owner, repo, number⟩ := ref
  rcases h.names with ⟨howner, hrepo⟩ | ⟨o, n, howner, hrepo, ⟨ho, hochars⟩, hn, hnchars⟩
  · simp only at howner hrepo
    subst howner hrepo
    unfold TrackerRef.text refText
    obtain ⟨htake, hdrop⟩ := @takeWhile_run (Nat.toDigits 10 number) '#' isNameChar []
      (fun x hx => absurd hx List.not_mem_nil) (by decide)
    rw [List.nil_append] at htake hdrop
    simp only [htake, hdrop, refNumber_toDigits h.number, Option.map_some]
  · simp only at howner hrepo
    subst howner hrepo
    unfold TrackerRef.text refText
    obtain ⟨htake, hdrop⟩ := @takeWhile_run (n.toList ++ '#' :: Nat.toDigits 10 number) '/' isNameChar
      o.toList hochars (by decide)
    obtain ⟨htake', hdrop'⟩ := @takeWhile_run (Nat.toDigits 10 number) '#' isNameChar n.toList hnchars
      (by decide)
    obtain ⟨c, cs, hcs⟩ := List.exists_cons_of_ne_nil fun hnil => ho (String.toList_eq_nil_iff.mp hnil)
    obtain ⟨d, ds, hds⟩ := List.exists_cons_of_ne_nil fun hnil => hn (String.toList_eq_nil_iff.mp hnil)
    simp only [htake, hdrop]
    rw [hcs]
    simp only [htake', hdrop']
    rw [hds]
    simp only [refNumber_toDigits h.number, Option.map_some]
    rw [← hcs, ← hds, String.ofList_toList, String.ofList_toList]

/-- A reference has nothing in it but names, digits and its two marks. -/
theorem not_mem_refText {c : Char} (h : ref.Valid) (hc : isNameChar c = false) (hslash : c ≠ '/')
    (hhash : c ≠ '#') : c ∉ ref.text := by
  have hdigits : c ∉ Nat.toDigits 10 ref.number := by
    intro hmem
    have hdigit := Nat.isDigit_of_mem_toDigits (by decide) (by decide) hmem
    simp [isNameChar, Char.isAlphanum, hdigit] at hc
  have hname : ∀ name, IsRefName name → c ∉ name.toList := by
    intro name hname hmem
    rw [hname.2 c hmem] at hc
    cases hc
  unfold TrackerRef.text
  rcases h.names with ⟨howner, hrepo⟩ | ⟨o, n, howner, hrepo, ho, hn⟩
  · rw [howner, hrepo]
    simp [hdigits, hhash]
  · rw [howner, hrepo]
    simp [hdigits, hname o ho, hname n hn, hslash, hhash]

/-- **A reference is split off**, whatever the title before it. -/
theorem greedyHead_refClause (title : List Char) (h : ref.Valid) :
    greedyHead refClause (title ++ (':' :: ' ' :: ref.text)) = some (title, ref) := by
  refine greedyHead_eq_some.mpr ⟨_, rfl, ?_, fun s hs hproper => ?_⟩
  · exact refText_text h
  · -- a shorter rest has no colon
    cases hfit : refClause s with
    | none => rfl
    | some found =>
      obtain ⟨rest, hrest, -⟩ := Option.bind_eq_some_iff.mp hfit
      obtain rfl := stripPrefix?_eq_some.mp hrest
      have hshort := (List.suffix_cons_iff.mp hs).resolve_left hproper
      have hmem : ':' ∈ ' ' :: ref.text := hshort.subset (List.mem_append_left _ (by decide))
      exact absurd ((List.mem_cons.mp hmem).resolve_left (by decide))
        (not_mem_refText h (by decide) (by decide) (by decide))

end References

/-! ## Rows -/

section Rows

/-- The reference part of a line. -/
def refPart : Option TrackerRef → List Char
  | none => []
  | some ref => ':' :: ' ' :: ref.text

/-- The notes part of a line. -/
def notesPart : Option String → List Char
  | none => []
  | some notes => ' ' :: '(' :: notes.toList ++ [')']

/-- The title, the reference and the notes of a row. -/
def TrackerRow.body (r : TrackerRow) : List Char :=
  r.title.toList ++ refPart r.ref ++ notesPart r.notes

/-- The line of a row. -/
def TrackerRow.line (r : TrackerRow) : List Char :=
  "- [".toList ++ (if r.done then 'x' else ' ') :: ("] **".toList ++ (r.id.toList ++ ("**".toList ++
    ' ' :: (r.body ++ afterText (r.after.map String.toList)))))

/-- The parts of a row keep to the grammar. -/
structure RowGrammar (r : TrackerRow) : Prop where
  id : isRowId r.id.toList = true
  title : Trimmed r.title.toList ∧ r.title.toList ≠ []
  ref : ∀ ref, r.ref = some ref → ref.Valid
  notes : ∀ notes, r.notes = some notes →
    Trimmed notes.toList ∧ notes.toList ≠ [] ∧ Balanced notes.toList
  oneLine : '\n' ∉ r.title.toList ∧ ∀ notes, r.notes = some notes → '\n' ∉ notes.toList
  after : ∀ id ∈ r.after, isRowId id.toList = true
  distinct : r.after.Nodup

/-- What is left out cannot be read off the rest. -/
structure WellFormedRow (r : TrackerRow) : Prop extends RowGrammar r where
  lineEnd : ∀ c ∈ r.title.toList.getLast?, isLineBlank c = false
  noAfter : r.after = [] → ∀ s, s <:+ ' ' :: r.body → afterClause s = none
  noNotes : r.notes = none → r.ref = none → trailingNotes r.title.toList = none
  noRef : r.ref = none → ∀ s, s <:+ r.title.toList → refClause s = none

variable {r : TrackerRow}

theorem isLineBlank_of_digit {c : Char} (h : c.isDigit = true) : isLineBlank c = false := by
  have halphanum : c.isAlphanum = true := by simp [Char.isAlphanum, h]
  unfold isLineBlank
  rw [isBlank_of_alphanum halphanum, Bool.false_or]
  exact decide_eq_false (alphanum_ne halphanum (by decide))

theorem isBlank_of_isLineBlank {c : Char} (h : isLineBlank c = false) : isBlank c = false :=
  (Bool.or_eq_false_iff.mp h).1

/-- A reference ends with a digit. -/
theorem last_refText {ref : TrackerRef} (h : ref.Valid) :
    ∃ init d, ref.text = init ++ [d] ∧ d.isDigit = true := by
  have hne : Nat.toDigits 10 ref.number ≠ [] := Nat.toDigits_ne_nil
  have hlast := List.dropLast_concat_getLast hne
  have hdigit : ((Nat.toDigits 10 ref.number).getLast hne).isDigit = true :=
    Nat.isDigit_of_mem_toDigits (by decide) (by decide) (List.getLast_mem hne)
  unfold TrackerRef.text
  rcases h.names with ⟨howner, hrepo⟩ | ⟨o, n, howner, hrepo, -, -⟩
  · rw [howner, hrepo]
    refine ⟨'#' :: (Nat.toDigits 10 ref.number).dropLast, _, ?_, hdigit⟩
    simp only [List.cons_append, hlast]
  · rw [howner, hrepo]
    refine ⟨o.toList ++ '/' :: (n.toList ++ '#' :: (Nat.toDigits 10 ref.number).dropLast), _, ?_,
      hdigit⟩
    simp only [List.cons_append, List.append_assoc, hlast]

/-- The title with its reference, and what it ends with. -/
theorem trimmed_named (h : WellFormedRow r) :
    Trimmed (r.title.toList ++ refPart r.ref) ∧ r.title.toList ++ refPart r.ref ≠ [] ∧
      ∀ c ∈ (r.title.toList ++ refPart r.ref).getLast?, isLineBlank c = false := by
  obtain ⟨htitle, hne⟩ := h.title
  have hlast : ∀ c ∈ (r.title.toList ++ refPart r.ref).getLast?, isLineBlank c = false := by
    cases href : r.ref with
    | none =>
      rw [refPart, List.append_nil]
      exact h.lineEnd
    | some ref =>
      obtain ⟨init, d, hinit, hdigit⟩ := last_refText (h.ref ref href)
      intro c hc
      rw [refPart, hinit, ← List.cons_append, ← List.cons_append, ← List.append_assoc,
        List.getLast?_concat] at hc
      exact Option.some.inj hc ▸ isLineBlank_of_digit hdigit
  refine ⟨⟨fun c hc => htitle.head c ?_, fun c hc => isBlank_of_isLineBlank (hlast c hc)⟩,
    List.append_ne_nil_of_left_ne_nil hne _, hlast⟩
  rw [List.head?_append_of_ne_nil _ hne] at hc
  exact hc

theorem trimmed_body (h : WellFormedRow r) :
    Trimmed r.body ∧ r.body ≠ [] ∧ ∀ c ∈ r.body.getLast?, isLineBlank c = false := by
  obtain ⟨htrimmed, hne, hlast⟩ := trimmed_named h
  unfold TrackerRow.body
  cases hnotes : r.notes with
  | none =>
    rw [notesPart, List.append_nil]
    exact ⟨htrimmed, hne, hlast⟩
  | some notes =>
    have hend : ∀ c ∈ (r.title.toList ++ refPart r.ref ++ notesPart (some notes)).getLast?,
        isLineBlank c = false := by
      intro c hc
      rw [notesPart, ← List.append_assoc, List.getLast?_concat] at hc
      exact Option.some.inj hc ▸ (by decide)
    refine ⟨⟨fun c hc => htrimmed.head c ?_, fun c hc => isBlank_of_isLineBlank (hend c hc)⟩,
      List.append_ne_nil_of_left_ne_nil hne _, hend⟩
    rw [List.head?_append_of_ne_nil _ hne] at hc
    exact hc

theorem ids_of_wellFormed (h : WellFormedRow r) :
    (∀ id ∈ r.after.map String.toList, isRowId id = true) ∧ (r.after.map String.toList).Nodup := by
  constructor
  · intro id hid
    obtain ⟨text, htext, rfl⟩ := List.mem_map.mp hid
    exact h.after text htext
  · exact h.distinct.map fun a b hab => String.toList_inj.mp hab

theorem rowHead_line (h : WellFormedRow r) :
    rowHead r.line = some (if r.done then 'x' else ' ', r.id.toList,
      ' ' :: (r.body ++ afterText (r.after.map String.toList))) := by
  have hmark : (if r.done then 'x' else ' ') = ' ' ∨ (if r.done then 'x' else ' ') = 'x' ∨
      (if r.done then 'x' else ' ') = 'X' := by
    cases r.done with
    | false => exact Or.inl rfl
    | true => exact Or.inr (Or.inl rfl)
  obtain ⟨htake, hdrop⟩ := @takeWhile_run ('*' :: ' ' :: (r.body ++ afterText
    (r.after.map String.toList))) '*' Char.isAlphanum r.id.toList (isRowId_alphanum h.id).2
    (by decide)
  have hstars : "**".toList ++ ' ' :: (r.body ++ afterText (r.after.map String.toList)) =
      '*' :: '*' :: ' ' :: (r.body ++ afterText (r.after.map String.toList)) := rfl
  unfold rowHead TrackerRow.line
  generalize (if r.done then 'x' else ' ') = mark at hmark ⊢
  rw [stripPrefix?_append, Option.bind_some]
  simp only
  rw [stripPrefix?_append, Option.bind_some, hstars]
  simp only [htake, hdrop]
  rw [← hstars, stripPrefix?_append, Option.bind_some]
  simp only
  rw [if_pos ⟨hmark, h.id⟩]

theorem trailingNotes_of_last {text : List Char} (h : text.getLast? ≠ some ')') :
    trailingNotes text = none := by
  unfold trailingNotes
  split
  · rename_i before hreverse
    refine absurd ?_ h
    rw [List.getLast?_eq_head?_reverse, hreverse]
    rfl
  · rfl

/-- The notes come off the text before the dependencies. -/
theorem splitNotes_body (h : WellFormedRow r) :
    splitNotes r.body = (r.title.toList ++ refPart r.ref, r.notes.map String.toList) := by
  obtain ⟨htrimmed, hne, -⟩ := trimmed_named h
  unfold splitNotes TrackerRow.body
  cases hnotes : r.notes with
  | some notes =>
    obtain ⟨hnotesTrimmed, hnotesNe, hbalanced⟩ := h.notes notes hnotes
    rw [notesPart, trailingNotes_append htrimmed hne hnotesTrimmed hnotesNe hbalanced]
    rfl
  | none =>
    have hnone : trailingNotes (r.title.toList ++ refPart r.ref) = none := by
      cases href : r.ref with
      | none =>
        rw [refPart, List.append_nil]
        exact h.noNotes hnotes href
      | some ref =>
        obtain ⟨init, d, hinit, hdigit⟩ := last_refText (h.ref ref href)
        refine trailingNotes_of_last ?_
        rw [refPart, hinit, ← List.cons_append, ← List.cons_append, ← List.append_assoc,
          List.getLast?_concat]
        rintro hclose
        rw [Option.some.inj hclose] at hdigit
        cases hdigit
    rw [notesPart, List.append_nil, hnone]
    rfl

/-- The reference comes off what is left. -/
theorem splitTarget_named (h : WellFormedRow r) :
    splitTarget (r.title.toList ++ refPart r.ref) = (r.title.toList, r.ref) := by
  unfold splitTarget
  cases href : r.ref with
  | none =>
    rw [refPart, List.append_nil, greedyHead_eq_none.mpr (h.noRef href)]
  | some ref =>
    rw [refPart, greedyHead_refClause _ (h.ref ref href)]
    simp only [h.title.1.eq]

/-- **A row is read back from its rendering.** -/
theorem parseRow_line (h : WellFormedRow r) : parseRow r.line = some { r with phase := none } := by
  obtain ⟨hids, hdistinct⟩ := ids_of_wellFormed h
  have hsplit : splitAfter (' ' :: (r.body ++ afterText (r.after.map String.toList))) =
      some (' ' :: r.body, r.after.map String.toList) := by
    by_cases hnone : r.after = []
    · rw [hnone, List.map_nil, afterText, if_pos rfl, List.append_nil]
      exact splitAfter_of_none (h.noAfter hnone)
    · rw [← List.cons_append]
      exact splitAfter_afterText _ (by simpa using hnone) hids hdistinct
  have hbody : trimBlanks (' ' :: r.body) = r.body :=
    (trimBlanks_cons (by decide)).trans (trimmed_body h).1.eq
  have hmark : decide ((if r.done then 'x' else ' ') ≠ ' ') = r.done := by
    cases r.done <;> rfl
  have htexts : ∀ texts : List String, (texts.map String.toList).map String.ofList = texts := by
    intro texts
    rw [List.map_map]
    exact (List.map_congr_left fun id _ => String.ofList_toList).trans (List.map_id _)
  have hnotes : (r.notes.map String.toList).map String.ofList = r.notes := by
    cases r.notes with
    | none => rfl
    | some notes => rw [Option.map_some, Option.map_some, String.ofList_toList]
  unfold parseRow
  rw [rowHead_line h]
  simp only [Option.bind_eq_bind, Option.bind_some, hsplit, hbody, splitNotes_body h,
    splitTarget_named h, if_neg h.title.2, hmark, hnotes, htexts, String.ofList_toList]

end Rows

/-! ## Tables -/

section Tables

/-- A line of a phase table. -/
inductive TableEntry
  | row (r : TrackerRow)
  | heading (name : List Char)
  | prose (raw : List Char)

/-- The line of an entry. -/
def TableEntry.line : TableEntry → List Char
  | .row r => r.line
  | .heading name => "### ".toList ++ name
  | .prose raw => raw

/-- The line is read as what it stands for. -/
def TableEntry.Fits : TableEntry → Prop
  | .row r => WellFormedRow r
  | .heading name => Trimmed name ∧ name ≠ [] ∧ (∀ c ∈ name.getLast?, isLineBlank c = false) ∧
    '\n' ∉ name
  | .prose raw => tableLine raw = .other ∧ '\n' ∉ raw

/-- The rows, each under the last heading before it. -/
def entryRows : Option String → List TableEntry → List TrackerRow
  | _, [] => []
  | phase, .row r :: entries => { r with phase } :: entryRows phase entries
  | _, .heading name :: entries => entryRows (some (String.ofList name)) entries
  | phase, .prose _ :: entries => entryRows phase entries

/-- The rows of a section, however many. -/
def sectionRows : Option String → List (List Char) → List TrackerRow
  | _, [] => []
  | phase, raw :: lines =>
    match tableLine raw with
    | .section => []
    | .heading name => sectionRows (if name = [] then phase else some (String.ofList name)) lines
    | .row row => { row with phase } :: sectionRows phase lines
    | .other => sectionRows phase lines

variable {r : TrackerRow} {lines rest : List (List Char)} {entries : List TableEntry}
  {phase : Option String} {rows : List TrackerRow}

theorem readTable_eq (hroom : rows.length < trackerMaxRows) :
    readTable lines phase rows = (rows ++ sectionRows phase lines).take trackerMaxRows := by
  induction lines generalizing phase rows with
  | nil =>
    unfold readTable sectionRows
    rw [List.append_nil, List.take_of_length_le (Nat.le_of_lt hroom)]
  | cons raw lines ih =>
    unfold readTable sectionRows
    cases tableLine raw with
    | «section» =>
      simp only
      rw [List.append_nil, List.take_of_length_le (Nat.le_of_lt hroom)]
    | heading name => exact ih hroom
    | other => exact ih hroom
    | row row =>
      have happend : rows ++ { row with phase } :: sectionRows phase lines =
          (rows ++ [{ row with phase }]) ++ sectionRows phase lines := by simp
      have hlength : (rows ++ [{ row with phase }]).length = rows.length + 1 := by simp
      simp only
      rw [happend]
      split
      · rename_i hfull
        rw [List.take_append_of_le_length (Nat.le_of_eq hfull.symm), List.take_of_length_le]
        exact Nat.le_of_eq hfull
      · exact ih (by omega)

/-- A row's line ends with its last part. -/
theorem trimLineEnd_line (h : WellFormedRow r) : trimLineEnd r.line = r.line := by
  obtain ⟨-, hbodyNe, hbodyLast⟩ := trimmed_body h
  obtain ⟨hids, -⟩ := ids_of_wellFormed h
  have hlast : ∀ c ∈ (r.body ++ afterText (r.after.map String.toList)).getLast?,
      isLineBlank c = false := by
    intro c hc
    by_cases hnone : r.after.map String.toList = []
    · rw [afterText, if_pos hnone, List.append_nil] at hc
      exact hbodyLast c hc
    · have hne : joinIds (r.after.map String.toList) ≠ [] := by
        intro hnil
        have hlist := afterListFrom_joinIds hnone hids
        rw [hnil] at hlist
        cases hlist
      rw [afterText, if_neg hnone, ← List.append_assoc,
        List.getLast?_append_of_ne_nil _ (List.cons_ne_nil _ _),
        List.getLast?_cons_of_ne_nil hne] at hc
      have hblank := (trimmed_joinIds hnone hids).last c hc
      rcases mem_joinIds hids (List.mem_of_getLast? hc) with hc | rfl | rfl
      · unfold isLineBlank
        rw [hblank, Bool.false_or]
        exact decide_eq_false (alphanum_ne hc (by decide))
      · rfl
      · cases hblank
  have hne : r.body ++ afterText (r.after.map String.toList) ≠ [] :=
    List.append_ne_nil_of_left_ne_nil hbodyNe _
  have hline : ∃ head, r.line = head ++ (r.body ++ afterText (r.after.map String.toList)) := by
    refine ⟨"- [".toList ++ (if r.done then 'x' else ' ') :: ("] **".toList ++
      (r.id.toList ++ ("**".toList ++ [' ']))), ?_⟩
    unfold TrackerRow.line
    simp only [List.append_assoc, List.cons_append, List.nil_append]
  obtain ⟨head, hhead⟩ := hline
  refine rdropWhile_of_last fun c hc => hlast c ?_
  rw [hhead, List.getLast?_append_of_ne_nil _ hne] at hc
  exact hc

theorem tableLine_line (h : WellFormedRow r) :
    tableLine r.line = .row { r with phase := none } := by
  have hsection : startsWith "## ".toList r.line = false := rfl
  have hheading : startsWith "### ".toList r.line = false := rfl
  have hmark : (startsWith "- [ ]".toList r.line || startsWith "- [x]".toList r.line ||
      startsWith "- [X]".toList r.line) = true := by
    unfold TrackerRow.line
    cases r.done with
    | false => rfl
    | true => rfl
  unfold tableLine
  simp only [trimLineEnd_line h, hsection, hheading, hmark, parseRow_line h]
  rfl

theorem tableLine_heading {name : List Char} (hname : Trimmed name) (hne : name ≠ [])
    (hlast : ∀ c ∈ name.getLast?, isLineBlank c = false) :
    tableLine ("### ".toList ++ name) = .heading name := by
  have hline : trimLineEnd ("### ".toList ++ name) = "### ".toList ++ name := by
    refine rdropWhile_of_last fun c hc => hlast c ?_
    rw [List.getLast?_append_of_ne_nil _ hne] at hc
    exact hc
  have hsection : startsWith "## ".toList ("### ".toList ++ name) = false := rfl
  have hheading : startsWith "### ".toList ("### ".toList ++ name) = true := by
    unfold startsWith
    rw [stripPrefix?_append]
    rfl
  have hdrop : ("### ".toList ++ name).drop 4 = name := rfl
  unfold tableLine
  simp only [hline, hsection, hheading, hdrop, hname.eq]
  rfl

/-- What stands behind the entries opens another section, if anything does. -/
theorem sectionRows_entries (hfits : ∀ e ∈ entries, e.Fits)
    (hrest : ∀ raw ∈ rest.head?, tableLine raw = .section) :
    sectionRows phase (entries.map TableEntry.line ++ rest) = entryRows phase entries := by
  induction entries generalizing phase with
  | nil =>
    cases rest with
    | nil => rfl
    | cons raw rest =>
      have hsection := hrest raw rfl
      rw [List.map_nil, List.nil_append]
      unfold sectionRows
      rw [hsection]
      rfl
  | cons e entries ih =>
    obtain ⟨he, hmore⟩ := List.forall_mem_cons.mp hfits
    rw [List.map_cons, List.cons_append]
    unfold sectionRows
    cases e with
    | row r =>
      rw [TableEntry.line, tableLine_line he]
      exact congrArg _ (ih hmore)
    | heading name =>
      obtain ⟨hname, hne, hlast, -⟩ := he
      rw [TableEntry.line, tableLine_heading hname hne hlast]
      simp only [if_neg hne]
      exact ih hmore
    | prose raw =>
      rw [TableEntry.line, he.1]
      exact ih hmore

theorem newline_not_mem_line (h : WellFormedRow r) : '\n' ∉ r.line := by
  have hid : '\n' ∉ r.id.toList := fun hmem =>
    alphanum_ne ((isRowId_alphanum h.id).2 _ hmem) (by decide) rfl
  have hmark : '\n' ≠ (if r.done then 'x' else ' ') := by
    cases r.done with
    | false => decide
    | true => decide
  have href : '\n' ∉ refPart r.ref := by
    cases hr : r.ref with
    | none => exact List.not_mem_nil
    | some ref =>
      have htext : '\n' ∉ ref.text :=
        not_mem_refText (h.ref ref hr) (by decide) (by decide) (by decide)
      simp [refPart, htext]
  have hnotes : '\n' ∉ notesPart r.notes := by
    cases hn : r.notes with
    | none => exact List.not_mem_nil
    | some notes =>
      have htext := h.oneLine.2 notes hn
      simp [notesPart, htext]
  have hafter : '\n' ∉ afterText (r.after.map String.toList) := by
    unfold afterText
    split
    · exact List.not_mem_nil
    · intro hmem
      rcases List.mem_append.mp hmem with hmem | hmem
      · exact absurd hmem (by decide)
      · have hmem := (List.mem_cons.mp hmem).resolve_left (by decide)
        rcases mem_joinIds (ids_of_wellFormed h).1 hmem with hc | hc | hc
        · cases hc
        · cases hc
        · cases hc
  have htitle := h.oneLine.1
  unfold TrackerRow.line TrackerRow.body
  simp only [List.mem_append, List.mem_cons, not_or]
  refine ⟨by decide, hmark, by decide, hid, by decide, by decide, ⟨⟨htitle, href⟩, hnotes⟩, hafter⟩

theorem newline_not_mem_entry {e : TableEntry} (h : e.Fits) : '\n' ∉ e.line := by
  cases e with
  | row r => exact newline_not_mem_line h
  | heading name =>
    obtain ⟨-, -, -, hname⟩ := h
    intro hmem
    rcases List.mem_append.mp hmem with hmem | hmem
    · exact absurd hmem (by decide)
    · exact hname hmem
  | prose raw => exact h.2

/-- **A table is read back from its rendering**, whatever stands before its
heading and behind the next one. -/
theorem parseTrackerRows_render {before : List (List Char)} {heading : List Char}
    (hbefore : ∀ raw ∈ before, isTableHeading raw = false ∧ '\n' ∉ raw)
    (hheading : isTableHeading heading = true ∧ '\n' ∉ heading)
    (hfits : ∀ e ∈ entries, e.Fits)
    (hrest : ∀ raw ∈ rest.head?, tableLine raw = .section) (hlines : ∀ raw ∈ rest, '\n' ∉ raw) :
    parseTrackerRows (String.ofList (['\n'].intercalate
        (before ++ heading :: (entries.map TableEntry.line ++ rest)))) =
      (entryRows none entries).take trackerMaxRows := by
  have hsplit : ∀ raw ∈ before ++ heading :: (entries.map TableEntry.line ++ rest),
      '\n' ∉ raw := by
    intro raw hraw
    rcases List.mem_append.mp hraw with hraw | hraw
    · exact (hbefore raw hraw).2
    rcases List.mem_cons.mp hraw with rfl | hraw
    · exact hheading.2
    rcases List.mem_append.mp hraw with hraw | hraw
    · obtain ⟨e, he, rfl⟩ := List.mem_map.mp hraw
      exact newline_not_mem_entry (hfits e he)
    · exact hlines raw hraw
  have hdrop : (before ++ heading :: (entries.map TableEntry.line ++ rest)).dropWhile
      (fun raw => !isTableHeading raw) = heading :: (entries.map TableEntry.line ++ rest) := by
    rw [List.dropWhile_append_of_pos, List.dropWhile_cons_of_neg]
    · simp [hheading.1]
    · intro raw hraw
      simp [(hbefore raw hraw).1]
  have hroom : ([] : List TrackerRow).length < trackerMaxRows := by decide
  unfold parseTrackerRows
  rw [String.toList_ofList, List.splitOn_intercalate '\n' hsplit (by simp), hdrop]
  simp only
  rw [readTable_eq hroom, List.nil_append, sectionRows_entries hfits hrest]

/-- A row that is done, with notes that hold parentheses. -/
def shippedRow : TrackerRow :=
  { id := "A1", title := "Ship (it)", ref := some ⟨some "acme", some "web", 12⟩,
    notes := some "was (v2)", after := [], done := true, phase := none }

/-- A row that waits for two others. -/
def gateRow : TrackerRow :=
  { id := "B", title := "Release", ref := none, notes := none, after := ["A1", "C"],
    done := false, phase := none }

theorem wellFormed_shippedRow : WellFormedRow shippedRow where
  id := by decide
  title := ⟨trimmed_of_all (by decide) (by decide), by decide⟩
  lineEnd := forall_mem_of_all (by decide)
  ref := by
    rintro ref ⟨⟩
    have hacme : "acme".toList.all isNameChar = true := by decide
    have hweb : "web".toList.all isNameChar = true := by decide
    exact ⟨by decide, Or.inr ⟨"acme", "web", rfl, rfl, ⟨by decide, List.all_eq_true.mp hacme⟩,
      by decide, List.all_eq_true.mp hweb⟩⟩
  notes := by
    rintro notes ⟨⟩
    exact ⟨trimmed_of_all (by decide) (by decide), by decide, by decide,
      fun s hs => (by decide : ∀ s ∈ "was (v2)".toList.tails, s.count '(' ≤ s.count ')') s
        ((List.mem_tails s _).mpr hs)⟩
  oneLine := ⟨by decide, by rintro notes ⟨⟩; decide⟩
  after := by decide
  distinct := by decide
  noAfter := fun _ s hs => (by decide : ∀ s ∈ (' ' :: shippedRow.body).tails, afterClause s = none) s
    ((List.mem_tails s _).mpr hs)
  noNotes := by rintro ⟨⟩
  noRef := by rintro ⟨⟩

theorem wellFormed_gateRow : WellFormedRow gateRow where
  id := by decide
  title := ⟨trimmed_of_all (by decide) (by decide), by decide⟩
  lineEnd := forall_mem_of_all (by decide)
  ref := by rintro ref ⟨⟩
  notes := by rintro notes ⟨⟩
  oneLine := ⟨by decide, by rintro notes ⟨⟩⟩
  after := by decide
  distinct := by decide
  noAfter := by rintro ⟨⟩
  noNotes := fun _ _ => by decide
  noRef := fun _ s hs => (by decide : ∀ s ∈ "Release".toList.tails, refClause s = none) s
    ((List.mem_tails s _).mpr hs)

theorem parseTrackerRows_render_gate :
    parseTrackerRows (String.ofList (['\n'].intercalate (["Program".toList] ++
        "## Phase Table".toList :: ([TableEntry.heading "Build".toList, .row shippedRow,
          .prose "- [ ] no id".toList, .row gateRow].map TableEntry.line ++ ["## Notes".toList])))) =
      (entryRows none [.heading "Build".toList, .row shippedRow, .prose "- [ ] no id".toList,
        .row gateRow]).take trackerMaxRows := by
  refine parseTrackerRows_render (by decide) (by decide) ?_ ?_ (by decide)
  · intro e he
    simp only [List.mem_cons, List.not_mem_nil, or_false] at he
    rcases he with rfl | rfl | rfl | rfl
    · exact ⟨trimmed_of_all (by decide) (by decide), by decide, forall_mem_of_all (by decide),
        by decide⟩
    · exact wellFormed_shippedRow
    · exact ⟨rfl, by decide⟩
    · exact wellFormed_gateRow
  · rintro raw ⟨⟩
    rfl

end Tables

end SymphonyBoard
