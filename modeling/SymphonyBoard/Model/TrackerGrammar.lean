import SymphonyBoard.Model.TrackerRoundTrip
/-!
# What a phase table can yield

Whatever text stands in the body of an issue, the rows read out of it keep to
the grammar, and there are no more of them than the reader takes.
-/

namespace SymphonyBoard

/-! ## Blanks -/

section Blanks

variable {cs ds : List Char}

theorem trimBlanks_subset (cs : List Char) : trimBlanks cs ⊆ cs := by
  intro c hc
  have hkept : trimBlanks cs <+: cs.dropWhile isBlank := List.rdropWhile_prefix isBlank _
  exact (List.dropWhile_sublist isBlank).subset (hkept.subset hc)

theorem trimLineEnd_subset (cs : List Char) : trimLineEnd cs ⊆ cs :=
  (List.rdropWhile_prefix isLineBlank cs).subset

/-- A text in blanks. -/
theorem trimBlanks_padded {before after : List Char} (hcs : Trimmed cs) (hne : cs ≠ [])
    (hbefore : ∀ c ∈ before, isBlank c = true) (hafter : ∀ c ∈ after, isBlank c = true) :
    trimBlanks (before ++ cs ++ after) = cs := by
  obtain ⟨c, cs, rfl⟩ := List.exists_cons_of_ne_nil hne
  have hhead : ∀ d ∈ (c :: cs ++ after).head?, isBlank d = false := hcs.head
  unfold trimBlanks
  rw [List.append_assoc, List.dropWhile_append_of_pos hbefore, dropWhile_of_head hhead]
  induction after using List.reverseRecOn with
  | nil =>
    rw [List.append_nil]
    exact rdropWhile_of_last hcs.last
  | append_singleton after d ih =>
    have hd : isBlank d = true := hafter d (by simp)
    rw [← List.append_assoc, List.rdropWhile_concat_pos _ _ _ hd]
    exact ih (fun c hc => hafter c (List.mem_append_left _ hc)) hcs.head

/-- The blanks around what is trimmed. -/
theorem exists_trimBlanks (cs : List Char) : ∃ before after, cs = before ++ trimBlanks cs ++ after ∧
    (∀ c ∈ before, isBlank c = true) ∧ ∀ c ∈ after, isBlank c = true := by
  refine ⟨cs.takeWhile isBlank, (cs.dropWhile isBlank).rtakeWhile isBlank, ?_,
    fun c hc => List.mem_takeWhile_imp hc, fun c hc => List.mem_rtakeWhile_imp hc⟩
  unfold trimBlanks
  rw [List.append_assoc, List.rdropWhile, List.rtakeWhile, ← List.reverse_append,
    List.takeWhile_append_dropWhile, List.reverse_reverse, List.takeWhile_append_dropWhile]

end Blanks

/-! ## Dependencies -/

section Dependencies

variable {cs ds part listed text head : List Char} {ids : List (List Char)}

/-- What has been read of the part an id stands in. -/
def AfterList.Reads : AfterList → List Char → Prop
  | .first, part => part = []
  | .inId, part => ∃ before id, part = before ++ id ∧ (∀ c ∈ before, isBlank c = true) ∧
      isRowId id = true
  | .gap, part => ∃ before id after, part = before ++ id ++ after ∧
      (∀ c ∈ before, isBlank c = true) ∧ isRowId id = true ∧ ∀ c ∈ after, isBlank c = true
  | .next, part => ∀ c ∈ part, isBlank c = true

theorem isRowId_singleton {c : Char} (h : c.isUpper = true) : isRowId [c] = true := by
  simp [isRowId, h]

theorem isRowId_snoc {id : List Char} {c : Char} (h : isRowId id = true)
    (hc : c.isAlphanum = true) : isRowId (id ++ [c]) = true := by
  cases id with
  | nil => cases h
  | cons d id =>
    obtain ⟨hd, hid⟩ := isRowId_cons h
    simp only [List.cons_append, isRowId, hd, Bool.true_and, List.all_eq_true]
    intro e he
    rcases List.mem_append.mp he with he | he
    · exact hid e he
    · exact List.mem_singleton.mp he ▸ hc

theorem comma_not_mem_of_blank (h : ∀ c ∈ cs, isBlank c = true) : ',' ∉ cs := fun hmem =>
  absurd (h ',' hmem) (by decide)

theorem comma_not_mem_of_isRowId (h : isRowId cs = true) : ',' ∉ cs := fun hmem =>
  alphanum_ne ((isRowId_alphanum h).2 _ hmem) (by decide) rfl

theorem AfterList.Reads.comma {place : AfterList} (h : place.Reads part) : ',' ∉ part := by
  cases place with
  | first => exact h ▸ List.not_mem_nil
  | inId =>
    obtain ⟨before, id, rfl, hbefore, hid⟩ := h
    simp [comma_not_mem_of_blank hbefore, comma_not_mem_of_isRowId hid]
  | gap =>
    obtain ⟨before, id, after, rfl, hbefore, hid, hafter⟩ := h
    simp [comma_not_mem_of_blank hbefore, comma_not_mem_of_isRowId hid,
      comma_not_mem_of_blank hafter]
  | next => exact comma_not_mem_of_blank h

/-- Behind an id, a part is that id. -/
theorem AfterList.Reads.gap_isRowId (h : AfterList.gap.Reads part) :
    isRowId (trimBlanks part) = true := by
  obtain ⟨before, id, after, rfl, hbefore, hid, hafter⟩ := h
  rw [trimBlanks_padded (trimmed_of_isRowId hid) (isRowId_alphanum hid).1 hbefore hafter]
  exact hid

theorem AfterList.Reads.toGap (h : AfterList.inId.Reads part) : AfterList.gap.Reads part := by
  obtain ⟨before, id, rfl, hbefore, hid⟩ := h
  exact ⟨before, id, [], (List.append_nil _).symm, hbefore, hid,
    fun c hc => absurd hc List.not_mem_nil⟩

/-- A blank behind an id. -/
theorem AfterList.Reads.blank {c : Char} (h : AfterList.gap.Reads part) (hc : isBlank c = true) :
    AfterList.gap.Reads (part ++ [c]) := by
  obtain ⟨before, id, after, rfl, hbefore, hid, hafter⟩ := h
  refine ⟨before, id, after ++ [c], by simp, hbefore, hid, fun d hd => ?_⟩
  rcases List.mem_append.mp hd with hd | hd
  · exact hafter d hd
  · exact List.mem_singleton.mp hd ▸ hc

/-- **Every part of a list of ids is an id**: read on from any place in it. -/
theorem isRowId_of_afterListFrom {place : AfterList} (h : afterListFrom place cs = true)
    (hpart : place.Reads part) : ∀ p ∈ (part ++ cs).splitOn ',', isRowId (trimBlanks p) = true := by
  -- behind a comma, the part before it is done
  have hcomma : ∀ {part cs : List Char}, AfterList.gap.Reads part →
      (∀ p ∈ cs.splitOn ',', isRowId (trimBlanks p) = true) →
      ∀ p ∈ (part ++ ',' :: cs).splitOn ',', isRowId (trimBlanks p) = true := by
    intro part cs hgap hmore
    rw [List.splitOn_append_cons_self_of_not_mem hgap.comma]
    exact List.forall_mem_cons.mpr ⟨hgap.gap_isRowId, hmore⟩
  have hnone : AfterList.next.Reads [] := fun c hc => absurd hc List.not_mem_nil
  induction cs generalizing place part with
  | nil =>
    cases place with
    | inId =>
      rw [List.append_nil, List.splitOn_eq_singleton hpart.comma]
      exact List.forall_mem_singleton.mpr hpart.toGap.gap_isRowId
    | _ => cases h
  | cons c cs ih =>
    have hmove : part ++ c :: cs = (part ++ [c]) ++ cs := by simp
    cases place with
    | first =>
      obtain ⟨hc, h⟩ := Bool.and_eq_true_iff.mp h
      rw [hmove]
      exact ih h ⟨[], [c], hpart ▸ rfl, fun d hd => absurd hd List.not_mem_nil, isRowId_singleton hc⟩
    | next =>
      rw [afterListFrom] at h
      split at h
      · rename_i hc
        rw [hmove]
        refine ih h fun d hd => ?_
        rcases List.mem_append.mp hd with hd | hd
        · exact hpart d hd
        · exact List.mem_singleton.mp hd ▸ hc
      · obtain ⟨hc, h⟩ := Bool.and_eq_true_iff.mp h
        rw [hmove]
        exact ih h ⟨part, [c], rfl, hpart, isRowId_singleton hc⟩
    | inId =>
      rw [afterListFrom] at h
      split at h
      · rename_i hc
        obtain ⟨before, id, rfl, hbefore, hid⟩ := hpart
        rw [hmove]
        exact ih h ⟨before, id ++ [c], by simp, hbefore, isRowId_snoc hid hc⟩
      · split at h
        · rename_i hc
          subst hc
          exact hcomma hpart.toGap (ih h hnone)
        · obtain ⟨hc, h⟩ := Bool.and_eq_true_iff.mp h
          rw [hmove]
          exact ih h (hpart.toGap.blank hc)
    | gap =>
      rw [afterListFrom] at h
      split at h
      · rename_i hc
        subst hc
        exact hcomma hpart (ih h hnone)
      · obtain ⟨hc, h⟩ := Bool.and_eq_true_iff.mp h
        rw [hmove]
        exact ih h (hpart.blank hc)

theorem listedIds_eq_some (h : listedIds listed = some ids) :
    (∀ id ∈ ids, isRowId id = true) ∧ ids.Nodup := by
  unfold listedIds at h
  split at h
  · rename_i hlist
    simp only at h
    split at h
    · rename_i hnodup
      obtain rfl := Option.some.inj h
      refine ⟨fun id hid => ?_, hnodup⟩
      obtain ⟨part, hpart, rfl⟩ := List.mem_map.mp hid
      exact isRowId_of_afterListFrom hlist (rfl : AfterList.first.Reads []) part hpart
    · cases h
  · cases h

theorem splitAfter_eq_some (h : splitAfter text = some (head, ids)) :
    head ⊆ text ∧ (∀ id ∈ ids, isRowId id = true) ∧ ids.Nodup := by
  unfold splitAfter at h
  split at h
  · obtain ⟨rfl, rfl⟩ := Prod.mk.inj (Option.some.inj h)
    exact ⟨List.Subset.refl _, fun id hid => absurd hid List.not_mem_nil, List.nodup_nil⟩
  · rename_i head' listed hgreedy
    obtain ⟨ids', hids, hpair⟩ := Option.map_eq_some_iff.mp h
    obtain ⟨rfl, rfl⟩ := Prod.mk.inj hpair
    obtain ⟨rest, rfl, -⟩ := greedyHead_eq_some.mp hgreedy
    exact ⟨List.subset_append_left _ _, listedIds_eq_some hids⟩

end Dependencies

/-! ## Notes -/

section Notes

variable {cs inner before text notes head : List Char} {depth : ℕ}

/-- The bracket that opens what is open: as much is closed behind it as is
opened, and nothing in between closes it. -/
theorem openingBracket_eq_some {found : List Char} (hdepth : 0 < depth)
    (h : openingBracket depth inner cs = some (found, before)) :
    ∃ read, cs = read ++ '(' :: before ∧ found = read.reverse ++ inner ∧
      depth + read.count ')' = read.count '(' + 1 ∧
      ∀ p, p <+: read → p.count '(' < depth + p.count ')' := by
  induction cs generalizing depth inner with
  | nil => cases h
  | cons c cs ih =>
    rw [openingBracket] at h
    simp only [bracket_counts] at h
    split at h
    · rename_i hzero
      obtain ⟨rfl, rfl⟩ := Prod.mk.inj (Option.some.inj h)
      have hopens : c = '(' ∧ depth = 1 := by
        by_cases hc : c = '('
        · subst hc
          refine ⟨rfl, ?_⟩
          rw [show ['('].count ')' = 0 from rfl, show ['('].count '(' = 1 from rfl] at hzero
          omega
        · have hnone : [c].count '(' = 0 := List.count_eq_zero.mpr (by simpa using Ne.symm hc)
          omega
      obtain ⟨rfl, rfl⟩ := hopens
      refine ⟨[], rfl, rfl, rfl, fun p hp => ?_⟩
      rw [List.prefix_nil.mp hp]
      decide
    · rename_i hopen
      obtain ⟨read, rfl, rfl, htotal, hclosed⟩ := ih (Nat.pos_of_ne_zero hopen) h
      refine ⟨c :: read, rfl, by simp, ?_, fun p hp => ?_⟩
      · rw [List.count_cons, List.count_cons]
        rw [List.count_singleton, List.count_singleton] at htotal hopen
        omega
      · rcases List.prefix_cons_iff.mp hp with rfl | ⟨p, rfl, hmore⟩
        · simpa using hdepth
        · have hp := hclosed p hmore
          rw [List.count_cons, List.count_cons]
          rw [List.count_singleton, List.count_singleton] at hp hopen
          omega

theorem count_eq_zero_of_blank {c : Char} (hblank : ∀ d ∈ cs, isBlank d = true)
    (hc : isBlank c = false) : cs.count c = 0 :=
  List.count_eq_zero.mpr fun hmem => by
    rw [hblank c hmem] at hc
    cases hc

/-- Blanks around it leave a text balanced. -/
theorem Balanced.trimBlanks (h : Balanced cs) : Balanced (trimBlanks cs) := by
  obtain ⟨before, after, hcs, hbefore, hafter⟩ := exists_trimBlanks cs
  have hopen := fun {cs : List Char} (hcs : ∀ d ∈ cs, isBlank d = true) =>
    count_eq_zero_of_blank hcs (by decide : isBlank '(' = false)
  have hclose := fun {cs : List Char} (hcs : ∀ d ∈ cs, isBlank d = true) =>
    count_eq_zero_of_blank hcs (by decide : isBlank ')' = false)
  have hbo := hopen hbefore
  have hbc := hclose hbefore
  have hao := hopen hafter
  have hac := hclose hafter
  constructor
  · have htotal := h.total
    rw [hcs] at htotal
    simp only [List.count_append] at htotal
    omega
  · intro s hs
    obtain ⟨t, ht⟩ := hs
    have hsuffix : s ++ after <:+ cs := ⟨before ++ t, by rw [hcs, ← ht]; simp⟩
    have hle := h.closed _ hsuffix
    rw [List.count_append, List.count_append] at hle
    omega

/-- **Notes are trimmed, not empty, and balanced.** -/
theorem trailingNotes_eq_some (h : trailingNotes text = some (head, notes)) :
    (Trimmed head ∧ head ⊆ text) ∧ Trimmed notes ∧ notes ≠ [] ∧ Balanced notes ∧ notes ⊆ text := by
  unfold trailingNotes at h
  split at h
  · rename_i before hreverse
    split at h
    · rename_i inner before' hopening
      split at h
      · cases h
      · rename_i hne
        obtain ⟨rfl, rfl⟩ := Prod.mk.inj (Option.some.inj h)
        obtain ⟨read, rfl, rfl, htotal, hclosed⟩ := openingBracket_eq_some (by decide) hopening
        rw [List.append_nil] at hne ⊢
        have htext : text = (' ' :: before').reverse ++ '(' :: (read.reverse ++ [')']) := by
          rw [← List.reverse_reverse text, hreverse]
          simp
        have hbalanced : Balanced read.reverse := by
          constructor
          · rw [List.count_reverse, List.count_reverse]
            omega
          · intro s hs
            have hle := hclosed s.reverse (List.reverse_suffix.mp (by rwa [List.reverse_reverse]))
            rw [List.count_reverse, List.count_reverse] at hle
            omega
        refine ⟨⟨trimmed_trimBlanks _, fun c hc => ?_⟩, trimmed_trimBlanks _, hne,
          hbalanced.trimBlanks, fun c hc => ?_⟩
        · rw [htext]
          exact List.mem_append_left _ (trimBlanks_subset _ hc)
        · rw [htext]
          have hread := trimBlanks_subset _ hc
          exact List.mem_append_right _ (List.mem_cons_of_mem _ (List.mem_append_left _ hread))
    · cases h
  · cases h

theorem splitNotes_eq {found : Option (List Char)} (htext : Trimmed text)
    (h : splitNotes text = (head, found)) : (Trimmed head ∧ head ⊆ text) ∧
      ∀ notes, found = some notes →
        Trimmed notes ∧ notes ≠ [] ∧ Balanced notes ∧ notes ⊆ text := by
  unfold splitNotes at h
  split at h
  · rename_i text' notes' htrailing
    obtain ⟨rfl, rfl⟩ := Prod.mk.inj h
    obtain ⟨hhead, hnotes⟩ := trailingNotes_eq_some htrailing
    exact ⟨hhead, fun notes hsome => Option.some.inj hsome ▸ hnotes⟩
  · obtain ⟨rfl, rfl⟩ := Prod.mk.inj h
    exact ⟨⟨htext, List.Subset.refl _⟩, fun notes hnone => by cases hnone⟩

end Notes

/-! ## References -/

section References

variable {cs text title : List Char} {ref : TrackerRef} {n : ℕ}

theorem refNumber_eq_some (h : refNumber cs = some n) : 1 ≤ n ∧ n < 10 ^ 15 := by
  unfold refNumber at h
  split at h
  · rename_i hdigits
    obtain ⟨hne, hzero, hall, hlength⟩ := hdigits
    obtain rfl := Option.some.inj h
    rw [List.all_eq_true] at hall
    constructor
    · obtain ⟨c, cs, rfl⟩ := List.exists_cons_of_ne_nil hne
      obtain ⟨hc, hcs⟩ := List.forall_mem_cons.mp hall
      have hdigit := toNat_of_isDigit hc
      have hne : c.toNat ≠ '0'.toNat := fun heq =>
        hzero (congrArg some (Char.toNat_inj.mp heq))
      have hpos : 1 ≤ 10 * 0 + (c.toNat - '0'.toNat) := by
        have hzero : '0'.toNat = 48 := rfl
        omega
      have hlow := (ofDigitChars_bounds hcs (10 * 0 + (c.toNat - '0'.toNat))).1
      rw [Nat.ofDigitChars_cons]
      exact Nat.le_trans (Nat.mul_pos (Nat.pow_pos (by decide)) hpos) hlow
    · have hhigh := (ofDigitChars_bounds hall 0).2
      rw [Nat.mul_one] at hhigh
      exact Nat.lt_of_lt_of_le hhigh (Nat.pow_le_pow_right (by decide) hlength)
  · cases h

theorem isRefName_cons {c : Char} (h : cs.takeWhile isNameChar = c :: text) :
    IsRefName (String.ofList (c :: text)) := by
  refine ⟨fun hnil => ?_, fun d hd => ?_⟩
  · have hlist := congrArg String.toList hnil
    rw [String.toList_ofList] at hlist
    cases hlist
  · rw [String.toList_ofList, ← h] at hd
    exact List.mem_takeWhile_imp hd

theorem refText_eq_some (h : refText cs = some ref) : ref.Valid := by
  unfold refText at h
  split at h
  · obtain ⟨n, hn, rfl⟩ := Option.map_eq_some_iff.mp h
    exact ⟨refNumber_eq_some hn, Or.inl ⟨rfl, rfl⟩⟩
  · rename_i o owner cs' howner hslash
    split at h
    · rename_i n name ds hname hhash
      obtain ⟨number, hnumber, rfl⟩ := Option.map_eq_some_iff.mp h
      exact ⟨refNumber_eq_some hnumber, Or.inr ⟨_, _, rfl, rfl, isRefName_cons howner,
        isRefName_cons hname⟩⟩
    · cases h
  · cases h

theorem splitTarget_eq {found : Option TrackerRef} (htext : Trimmed text)
    (h : splitTarget text = (title, found)) :
    (Trimmed title ∧ title ⊆ text) ∧ ∀ ref, found = some ref → ref.Valid := by
  unfold splitTarget at h
  split at h
  · rename_i head ref' hgreedy
    obtain ⟨rfl, rfl⟩ := Prod.mk.inj h
    obtain ⟨rest, rfl, hfits, -⟩ := greedyHead_eq_some.mp hgreedy
    refine ⟨⟨trimmed_trimBlanks _, fun c hc => ?_⟩, fun ref hsome => ?_⟩
    · exact List.mem_append_left _ (trimBlanks_subset _ hc)
    · obtain ⟨text', -, htext'⟩ := Option.bind_eq_some_iff.mp hfits
      exact Option.some.inj hsome ▸ refText_eq_some htext'
  · obtain ⟨rfl, rfl⟩ := Prod.mk.inj h
    exact ⟨⟨htext, List.Subset.refl _⟩, fun ref hnone => by cases hnone⟩

end References

/-! ## Rows -/

section Rows

variable {line id text : List Char} {mark : Char} {r : TrackerRow}

theorem rowHead_eq_some (h : rowHead line = some (mark, id, text)) :
    isRowId id = true ∧ text ⊆ line := by
  unfold rowHead at h
  obtain ⟨cs, hcs, hmark⟩ := Option.bind_eq_some_iff.mp h
  obtain rfl := stripPrefix?_eq_some.mp hcs
  cases cs with
  | nil => cases hmark
  | cons m cs =>
    obtain ⟨behind, hbehind, hid⟩ := Option.bind_eq_some_iff.mp hmark
    obtain rfl := stripPrefix?_eq_some.mp hbehind
    obtain ⟨named, hnamed, htext⟩ := Option.bind_eq_some_iff.mp hid
    have hstars := stripPrefix?_eq_some.mp hnamed
    split at htext
    · rename_i text'
      split at htext
      · rename_i hok
        obtain ⟨rfl, hrest⟩ := Prod.mk.inj (Option.some.inj htext)
        obtain ⟨rfl, rfl⟩ := Prod.mk.inj hrest
        refine ⟨hok.2, fun c hc => ?_⟩
        have hdrop : c ∈ behind.dropWhile Char.isAlphanum :=
          hstars ▸ List.mem_append_right _ hc
        have hmem := (List.dropWhile_sublist _).subset hdrop
        exact List.mem_append_right _ (List.mem_cons_of_mem _ (List.mem_append_right _ hmem))
      · cases htext
    · cases htext

/-- **A row read keeps to the grammar**, whatever the line. -/
theorem rowGrammar_of_parseRow (hline : '\n' ∉ line) (h : parseRow line = some r) :
    RowGrammar r := by
  obtain ⟨⟨mark, id, text⟩, hhead, h⟩ := Option.bind_eq_some_iff.mp h
  obtain ⟨⟨named, after⟩, hafter, h⟩ := Option.bind_eq_some_iff.mp h
  obtain ⟨hid, htext⟩ := rowHead_eq_some hhead
  obtain ⟨hnamed, hids, hdistinct⟩ := splitAfter_eq_some hafter
  simp only at h
  cases hnotes : splitNotes (trimBlanks named) with
  | mk titled notes =>
    cases htarget : splitTarget titled with
    | mk title ref =>
      obtain ⟨⟨htitled, htitledSub⟩, hnote⟩ := splitNotes_eq (trimmed_trimBlanks named) hnotes
      obtain ⟨⟨htitle, htitleSub⟩, href⟩ := splitTarget_eq htitled htarget
      simp only [hnotes, htarget] at h
      split at h
      · cases h
      · rename_i hne
        obtain rfl := Option.some.inj h
        -- every part is cut out of the line, so none of them has a line feed
        have hsub : trimBlanks named ⊆ line := fun c hc => htext (hnamed (trimBlanks_subset _ hc))
        exact
          { id := by rwa [String.toList_ofList]
            title := by
              rw [String.toList_ofList]
              exact ⟨htitle, hne⟩
            ref := href
            notes := by
              intro text hsome
              obtain ⟨cs, hcs, rfl⟩ := Option.map_eq_some_iff.mp hsome
              obtain ⟨htrimmed, hnil, hbalanced, -⟩ := hnote cs hcs
              rw [String.toList_ofList]
              exact ⟨htrimmed, hnil, hbalanced⟩
            oneLine := by
              rw [String.toList_ofList]
              refine ⟨fun hmem => hline (hsub (htitledSub (htitleSub hmem))), fun text hsome => ?_⟩
              obtain ⟨cs, hcs, rfl⟩ := Option.map_eq_some_iff.mp hsome
              obtain ⟨-, -, -, hnoteSub⟩ := hnote cs hcs
              rw [String.toList_ofList]
              exact fun hmem => hline (hsub (hnoteSub hmem))
            after := by
              intro text hmem
              obtain ⟨cs, hcs, rfl⟩ := List.mem_map.mp hmem
              rw [String.toList_ofList]
              exact hids cs hcs
            distinct := hdistinct.map fun a b hab => String.ofList_injective hab }

/-- The phase is no part of a line. -/
theorem phase_of_parseRow (h : parseRow line = some r) : r.phase = none := by
  obtain ⟨⟨mark, id, text⟩, -, h⟩ := Option.bind_eq_some_iff.mp h
  obtain ⟨⟨named, after⟩, -, h⟩ := Option.bind_eq_some_iff.mp h
  simp only at h
  split at h
  · cases h
  · exact Option.some.inj h ▸ rfl

end Rows

/-! ## Tables -/

section Tables

variable {raw name : List Char} {lines : List (List Char)} {phase : Option String} {r : TrackerRow}

/-- A name of a phase. -/
def IsPhase (phase : Option String) : Prop :=
  ∀ name, phase = some name → Trimmed name.toList ∧ name ≠ "" ∧ '\n' ∉ name.toList

/-- The row a line holds, if it holds one. -/
def lineRow (raw : List Char) : Option TrackerRow := parseRow (trimLineEnd raw)

theorem lineRow_of_tableLine (h : tableLine raw = .row r) : lineRow raw = some r := by
  unfold tableLine at h
  simp only at h
  split at h
  · cases h
  split at h
  · cases h
  split at h
  · split at h
    · rename_i row hrow
      obtain rfl := TableLine.row.inj h
      exact hrow
    · cases h
  · cases h

theorem subset_of_tableLine (h : tableLine raw = .heading name) : Trimmed name ∧ name ⊆ raw := by
  unfold tableLine at h
  simp only at h
  split at h
  · cases h
  split at h
  · obtain rfl := TableLine.heading.inj h
    refine ⟨trimmed_trimBlanks _, fun c hc => ?_⟩
    exact trimLineEnd_subset raw ((List.drop_sublist _ _).subset (trimBlanks_subset _ hc))
  split at h
  · split at h
    · cases h
    · cases h
  · cases h

/-- The rows of a section are rows of its lines, each line's once. -/
theorem sectionRows_sublist (lines : List (List Char)) (phase : Option String) :
    ((sectionRows phase lines).map fun r => { r with phase := none }).Sublist
      (lines.filterMap lineRow) := by
  induction lines generalizing phase with
  | nil => exact List.Sublist.refl _
  | cons raw lines ih =>
    have hskip : ∀ phase, ((sectionRows phase lines).map fun r => { r with phase := none }).Sublist
        ((raw :: lines).filterMap lineRow) := fun phase =>
      (ih phase).trans ((List.sublist_cons_self raw lines).filterMap lineRow)
    unfold sectionRows
    cases hline : tableLine raw with
    | «section» => exact List.nil_sublist _
    | heading name => exact hskip _
    | other => exact hskip phase
    | row row =>
      have hrow := lineRow_of_tableLine hline
      have hbare : { row with phase := none } = row := by
        rw [← phase_of_parseRow hrow]
      rw [List.filterMap_cons_some hrow, List.map_cons]
      simp only [hbare]
      exact (ih phase).cons_cons row

/-- One line of the section: its row keeps to the grammar, its heading is a
name of a phase. -/
theorem grammar_of_mem_sectionRows (hlines : ∀ raw ∈ lines, '\n' ∉ raw) (hphase : IsPhase phase)
    (h : r ∈ sectionRows phase lines) : RowGrammar r ∧ IsPhase r.phase := by
  induction lines generalizing phase with
  | nil => cases h
  | cons raw lines ih =>
    obtain ⟨hraw, hlines⟩ := List.forall_mem_cons.mp hlines
    unfold sectionRows at h
    cases hline : tableLine raw with
    | «section» =>
      rw [hline] at h
      cases h
    | other =>
      rw [hline] at h
      exact ih hlines hphase h
    | heading name =>
      rw [hline] at h
      refine ih hlines ?_ h
      split
      · exact hphase
      · rename_i hne
        obtain ⟨htrimmed, hsub⟩ := subset_of_tableLine hline
        rintro text ⟨⟩
        rw [String.toList_ofList]
        refine ⟨htrimmed, fun hnil => hne ?_, fun hmem => hraw (hsub hmem)⟩
        have htext := congrArg String.toList hnil
        rwa [String.toList_ofList] at htext
    | row row =>
      rw [hline] at h
      rcases List.mem_cons.mp h with rfl | h
      · have hrow := lineRow_of_tableLine hline
        have hgrammar := rowGrammar_of_parseRow (fun hmem => hraw (trimLineEnd_subset raw hmem)) hrow
        exact ⟨⟨hgrammar.id, hgrammar.title, hgrammar.ref, hgrammar.notes, hgrammar.oneLine,
          hgrammar.after, hgrammar.distinct⟩, hphase⟩
      · exact ih hlines hphase h

/-- **Whatever the body, the rows read keep to the grammar**: they are rows of
its lines, in their order and no line's twice, and no more than are taken. -/
theorem wellFormed_parseTrackerRows (body : String) :
    (parseTrackerRows body).length ≤ trackerMaxRows ∧
      ((parseTrackerRows body).map fun r => { r with phase := none }).Sublist
        ((body.toList.splitOn '\n').filterMap lineRow) ∧
      ∀ r ∈ parseTrackerRows body, RowGrammar r ∧ IsPhase r.phase := by
  have hroom : ([] : List TrackerRow).length < trackerMaxRows := by decide
  have hnone : IsPhase none := fun name hname => by cases hname
  unfold parseTrackerRows
  split
  · exact ⟨Nat.zero_le _, List.nil_sublist _, fun r hr => absurd hr List.not_mem_nil⟩
  · rename_i heading lines hdrop
    have hsuffix : lines <:+ body.toList.splitOn '\n' :=
      (List.suffix_cons heading lines).trans (hdrop ▸ List.dropWhile_suffix _)
    have hlines : ∀ raw ∈ lines, '\n' ∉ raw := fun raw hraw =>
      not_mem_of_mem_splitOn (hsuffix.subset hraw)
    rw [readTable_eq hroom, List.nil_append]
    refine ⟨List.length_take_le _ _, ?_, fun r hr => ?_⟩
    · have htake := (List.take_sublist trackerMaxRows (sectionRows none lines)).map
        fun r => { r with phase := none }
      have hmore := hsuffix.sublist.filterMap lineRow
      exact htake.trans ((sectionRows_sublist lines none).trans hmore)
    · exact grammar_of_mem_sectionRows hlines hnone (List.mem_of_mem_take hr)

end Tables

end SymphonyBoard
