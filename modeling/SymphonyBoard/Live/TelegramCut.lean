import SymphonyBoard.Live.Telegram
/-!
# What the bridge posts

The head of a message is two elements, the repository in bold and the
linked title, in escaped text. Cutting escaped text leaves complete text;
cutting an element does not. The head is cut when it is too long, and then
the place of the limit decides.
-/

namespace SymphonyBoard

open scoped TextUnits

/-! ## Escaped fields -/

/-- What escaping writes for a code unit. -/
def escapeUnit (u : UInt16) : JsText :=
  if u = unitAmp then utf16 "&amp;"
  else if u = unitLt then utf16 "&lt;"
  else if u = unitGt then utf16 "&gt;"
  else if u = unitQuote then utf16 "&quot;"
  else [u]

/-- The four replacements, in one pass. -/
theorem escapeHtml_eq (value : JsText) : escapeHtml value = value.flatMap escapeUnit := by
  have hone : ∀ u, escapeHtml [u] = escapeUnit u := by
    intro u
    by_cases hamp : u = unitAmp
    · subst hamp
      decide
    by_cases hlt : u = unitLt
    · subst hlt
      decide
    by_cases hgt : u = unitGt
    · subst hgt
      decide
    by_cases hquote : u = unitQuote
    · subst hquote
      decide
    · simp [escapeHtml, replaceUnit, escapeUnit, hamp, hlt, hgt, hquote]
  induction value with
  | nil => rfl
  | cons u value ih =>
    have hcons : escapeHtml (u :: value) = escapeHtml [u] ++ escapeHtml value := by
      simp only [escapeHtml, replaceUnit, ← List.flatMap_append]
      rfl
    rw [hcons, hone, ih, List.flatMap_cons]

theorem escapeHtml_escaped (value : JsText) : Escaped (escapeHtml value) := by
  have hentity : ∀ name ∈ entityNames, Escaped (unitAmp :: (name ++ unitSemicolon :: [])) :=
    fun name hname => .entity hname .nil
  have hunit : ∀ u, Escaped (escapeUnit u) := by
    intro u
    unfold escapeUnit
    split
    · exact hentity (utf16 "amp") (by decide)
    split
    · exact hentity (utf16 "lt") (by decide)
    split
    · exact hentity (utf16 "gt") (by decide)
    split
    · exact hentity (utf16 "quot") (by decide)
    · rename_i hamp hlt hgt hquote
      exact .unit (by simp [hamp, hlt, hgt, hquote]) .nil
  rw [escapeHtml_eq]
  induction value with
  | nil => exact .nil
  | cons u value ih =>
    rw [List.flatMap_cons]
    exact (hunit u).append ih

/-- The length of a field in the message. -/
def escapedLength (value : JsText) : ℕ :=
  (value.map fun u => if u = unitAmp then 5 else if u = unitLt then 4 else if u = unitGt then 4
    else if u = unitQuote then 6 else 1).sum

theorem length_escapeHtml (value : JsText) : (escapeHtml value).length = escapedLength value := by
  rw [escapeHtml_eq, List.length_flatMap, escapedLength]
  refine congrArg List.sum (List.map_congr_left fun u _ => ?_)
  unfold escapeUnit
  split_ifs <;> rfl

/-! ## The cut -/

/-- A half-written entity at the end is dropped. -/
theorem dropPartialEntity_partial (text : JsText) {letters : JsText} (hlength : letters.length ≤ 5)
    (hletters : ∀ u ∈ letters, isLetterUnit u = true) :
    dropPartialEntity (text ++ unitAmp :: letters) = text := by
  have hreverse : (text ++ unitAmp :: letters).reverse =
      letters.reverse ++ unitAmp :: text.reverse := by simp
  have hall : ∀ u ∈ letters.reverse, isLetterUnit u = true := fun u hu =>
    hletters u (List.mem_reverse.mp hu)
  have hamp : isLetterUnit unitAmp = false := by decide
  unfold dropPartialEntity
  rw [hreverse, List.dropWhile_append_of_pos hall, List.takeWhile_append_of_pos hall]
  simp [hamp, hlength]

/-- Nothing else is. -/
theorem dropPartialEntity_cases (text : JsText) :
    dropPartialEntity text = text ∨ ∃ letters, text = dropPartialEntity text ++ unitAmp :: letters ∧
      ∀ u ∈ letters, isLetterUnit u = true := by
  unfold dropPartialEntity
  split
  · exact Or.inl rfl
  · rename_i u rest hdrop
    split
    · rename_i hpartial
      refine Or.inr ⟨(text.reverse.takeWhile isLetterUnit).reverse, ?_, ?_⟩
      · have hsplit := List.takeWhile_append_dropWhile (p := isLetterUnit) (l := text.reverse)
        rw [hdrop, hpartial.1] at hsplit
        have htext : text = (text.reverse.takeWhile isLetterUnit ++ unitAmp :: rest).reverse := by
          rw [hsplit, List.reverse_reverse]
        refine htext.trans ?_
        rw [List.reverse_append, List.reverse_cons, List.append_assoc]
        rfl
      · intro u hu
        exact List.mem_takeWhile_imp (List.mem_reverse.mp hu)
    · exact Or.inl rfl

theorem marks_dropPartialEntity (text : JsText) : marks (dropPartialEntity text) = marks text := by
  rcases dropPartialEntity_cases text with h | ⟨letters, htext, hletters⟩
  · rw [h]
  · have hnone : marks (unitAmp :: letters) = 0 := by
      refine List.countP_eq_zero.mpr fun u hu => ?_
      rcases List.mem_cons.mp hu with rfl | hu
      · decide
      · intro hmark
        have hletter := hletters u hu
        simp only [isMark, Bool.or_eq_true, decide_eq_true_eq] at hmark
        rcases hmark with rfl | rfl <;> exact absurd hletter (by decide)
    have hmarks := congrArg marks htext
    rw [marks_append, hnone, Nat.add_zero] at hmarks
    exact hmarks.symm

theorem dropPartialEntity_length_le (text : JsText) :
    (dropPartialEntity text).length ≤ text.length := by
  rcases dropPartialEntity_cases text with h | ⟨letters, htext, -⟩
  · rw [h]
  · have hlength := congrArg List.length htext
    rw [List.length_append] at hlength
    omega

theorem clampHtml_length_le (text : JsText) (limit : ℕ) : (clampHtml text limit).length ≤ limit := by
  unfold clampHtml
  split
  · assumption
  · exact (dropPartialEntity_length_le _).trans (List.length_take_le limit text)

/-- Behind a tag, cut escaped text loses its half-written entity and
nothing more. -/
theorem dropPartialEntity_take {lead text : JsText} (hlead : lead = [] ∨ ∃ tag, lead = tag ++ [unitGt])
    (htext : Escaped text) (n : ℕ) :
    ∃ done, Escaped done ∧ dropPartialEntity (lead ++ text.take n) = lead ++ done := by
  obtain ⟨done, cut, htake, hdone, hcut⟩ := htext.take n
  refine ⟨done, hdone, ?_⟩
  rcases hcut with rfl | ⟨letters, rfl, hlength, hletters⟩
  · rw [htake, List.append_nil]
    rcases dropPartialEntity_cases (lead ++ done) with h | ⟨letters, hsplit, hletters⟩
    · exact h
    -- the ampersand would stand in the escaped text, or before the tag's end
    · rcases List.append_eq_append_iff.mp hsplit with ⟨rest, -, hrest⟩ | ⟨rest, hlead', hrest⟩
      · obtain ⟨u, hu, hnot⟩ := hdone.not_partial hrest
        rw [hletters u hu] at hnot
        cases hnot
      · cases rest with
        | nil =>
          have hstart : done = [] ++ unitAmp :: letters := hrest.symm
          obtain ⟨u, hu, hnot⟩ := hdone.not_partial hstart
          rw [hletters u hu] at hnot
          cases hnot
        | cons v rest =>
          rw [List.cons_append] at hrest
          obtain ⟨hv, hrest⟩ := List.cons.inj hrest
          rcases hlead with rfl | ⟨tag, rfl⟩
          · simp at hlead'
          · have hlast := congrArg List.getLast? hlead'
            rw [List.getLast?_append_cons, List.getLast?_append_cons] at hlast
            cases rest with
            | nil =>
              rw [← hv] at hlast
              exact absurd hlast (by decide)
            | cons w rest =>
              have hgt : unitGt ∈ w :: rest := by
                rw [List.getLast?_cons_cons] at hlast
                exact List.mem_of_getLast? hlast.symm
              have hletter := hletters unitGt (hrest ▸ List.mem_append_left _ hgt)
              exact absurd hletter (by decide)
  · rw [htake, ← List.append_assoc]
    exact dropPartialEntity_partial _ hlength hletters

/-- **A cut in escaped text**, or none, leaves complete text. -/
theorem clampHtml_markup {lead text rest : JsText} {limit : ℕ} (hlead : Markup lead)
    (htag : lead = [] ∨ ∃ tag, lead = tag ++ [unitGt]) (htext : Escaped text) (hrest : Markup rest)
    (hlimit : lead.length ≤ limit) (hcut : rest = [] ∨ limit ≤ lead.length + text.length) :
    Markup (clampHtml (lead ++ (text ++ rest)) limit) := by
  unfold clampHtml
  split
  · exact hlead.append (htext.markup.append hrest)
  · rename_i hlong
    obtain ⟨n, rfl⟩ := Nat.exists_eq_add_of_le hlimit
    have hn : n ≤ text.length := by
      rcases hcut with rfl | hcut
      · rw [List.append_nil, List.length_append] at hlong
        omega
      · omega
    have htake : (lead ++ (text ++ rest)).take (lead.length + n) = lead ++ text.take n := by
      rw [List.take_length_add_append, List.take_append_of_le_length hn]
    obtain ⟨done, hdone, hdrop⟩ := dropPartialEntity_take htag htext n
    rw [htake, hdrop]
    exact hlead.append hdone.markup

/-- **A cut inside an element** does not. -/
theorem not_markup_clampHtml {lead mid rest : JsText} {limit : ℕ} (hlead : Markup lead)
    (hmid : marks mid = 2) (hstart : lead.length < limit)
    (hend : limit < lead.length + (mid.length + 2)) :
    ¬Markup (clampHtml (lead ++ (unitLt :: (mid ++ [unitGt]) ++ rest)) limit) := by
  intro hmarkup
  obtain ⟨n, rfl⟩ := Nat.exists_eq_add_of_le hstart.le
  have hlength : (unitLt :: (mid ++ [unitGt])).length = mid.length + 2 := by simp
  have hn : n < (unitLt :: (mid ++ [unitGt])).length := by omega
  have hlong : ¬(lead ++ (unitLt :: (mid ++ [unitGt]) ++ rest)).length ≤ lead.length + n := by
    rw [List.length_append, List.length_append]
    omega
  have hmarks := hmarkup.dvd_marks
  rw [clampHtml, if_neg hlong, marks_dropPartialEntity, List.take_length_add_append,
    List.take_append_of_le_length hn.le, marks_append] at hmarks
  obtain ⟨hpos, hlt⟩ := marks_take_element hmid (by omega) hn
  have hlead := hlead.dvd_marks
  omega

/-! ## The message -/

theorem intercalate_escaped {sep : JsText} (hsep : Escaped sep) {parts : List JsText}
    (h : ∀ part ∈ parts, Escaped part) : Escaped (sep.intercalate parts) := by
  induction parts with
  | nil => exact .nil
  | cons part parts ih =>
    obtain ⟨hpart, hparts⟩ := List.forall_mem_cons.mp h
    cases parts with
    | nil => simpa [List.intercalate] using hpart
    | cons next parts =>
      rw [List.intercalate_cons_cons, List.append_assoc]
      exact hpart.append (hsep.append (ih hparts))

theorem eventEmoji_fields (event : TelegramEventInput) :
    Escaped (eventEmoji event) ∧ (eventEmoji event).length ≤ 64 := by
  have hall : ∀ entry ∈ (categoryEmoji.map Prod.snd) ++ [utf16 "📣"],
      (∀ u ∈ entry, u ∉ [unitLt, unitGt, unitAmp, unitQuote]) ∧ entry.length ≤ 64 := by
    decide +kernel
  have hmem : eventEmoji event ∈ (categoryEmoji.map Prod.snd) ++ [utf16 "📣"] := by
    unfold eventEmoji
    cases hlookup : categoryEmoji.lookup event.category with
    | none => exact List.mem_append_right _ List.mem_cons_self
    | some emoji =>
      obtain ⟨before, after, hsplit, -⟩ := List.lookup_eq_some_iff.mp hlookup
      refine List.mem_append_left _ (List.mem_map.mpr ⟨(event.category, emoji), ?_, rfl⟩)
      rw [hsplit]
      exact List.mem_append_right _ List.mem_cons_self
  exact ⟨.of_plain (hall _ hmem).1, (hall _ hmem).2⟩

/-- What stands before the repository's element, and after it. -/
def headLead (event : TelegramEventInput) : JsText := eventEmoji event ++ utf16 " "

/-- The repository, in bold. -/
def repoElement (event : TelegramEventInput) : JsText :=
  utf16 "<b>" ++ escapeHtml (repoLabel event) ++ utf16 "</b>"

/-- What the head says after it. -/
def headLabel (event : TelegramEventInput) : JsText :=
  utf16 " · " ++ escapeHtml (headerBits event) ++
    (numberLabel event).elim [] fun num => utf16 " " ++ escapeHtml num

theorem header_eq (event : TelegramEventInput) :
    header event = headLead event ++ (repoElement event ++ headLabel event) := by
  have hopen : utf16 " <b>" = utf16 " " ++ utf16 "<b>" := rfl
  have hclose : utf16 "</b> · " = utf16 "</b>" ++ utf16 " · " := rfl
  simp only [header, headLead, repoElement, headLabel, hopen, hclose, List.append_assoc]

theorem headLabel_escaped (event : TelegramEventInput) : Escaped (headLabel event) := by
  refine (Escaped.append (.of_plain (by decide)) (escapeHtml_escaped _)).append ?_
  cases numberLabel event with
  | none => exact .nil
  | some num => exact Escaped.append (.of_plain (by decide)) (escapeHtml_escaped num)

theorem metaLine_escaped (event : TelegramEventInput) : Escaped (metaLine event) := by
  unfold metaLine
  simp only
  split
  · exact .nil
  · refine Escaped.append (.of_plain (by decide)) (intercalate_escaped (.of_plain (by decide)) ?_)
    intro part hpart
    rcases List.mem_append.mp hpart with hpart | hpart
    · obtain ⟨actor, -, rfl⟩ := Option.map_eq_some_iff.mp (Option.mem_toList.mp hpart)
      exact Escaped.append (.of_plain (by decide)) (escapeHtml_escaped actor)
    · obtain ⟨when_, -, rfl⟩ := Option.map_eq_some_iff.mp (Option.mem_toList.mp hpart)
      exact Escaped.append (.of_plain (by decide)) (escapeHtml_escaped when_)

/-- Without a link the title line is escaped text. -/
theorem titleLine_escaped {event : TelegramEventInput}
    (h : titleText event = none ∨ eventUrl event = none) : Escaped (titleLine event) := by
  unfold titleLine
  cases htitle : titleText event with
  | none =>
    cases eventUrl event with
    | none => exact .nil
    | some url => exact Escaped.append (.of_plain (by decide)) (escapeHtml_escaped url)
  | some title =>
    cases hurl : eventUrl event with
    | none => exact Escaped.append (.of_plain (by decide)) (escapeHtml_escaped title)
    | some url => simp [htitle, hurl] at h

/-! ### Elements -/

/-- An element: what stands between its first bracket and its last. -/
theorem repoElement_eq (event : TelegramEventInput) :
    repoElement event =
      unitLt :: (utf16 "b>" ++ escapeHtml (repoLabel event) ++ utf16 "</b" ++ [unitGt]) := by
  have hclose : utf16 "</b>" = utf16 "</b" ++ [unitGt] := rfl
  have hopen : utf16 "<b>" = unitLt :: utf16 "b>" := rfl
  rw [repoElement, hopen, hclose, List.cons_append, List.cons_append, List.append_assoc,
    List.append_assoc, List.append_assoc]

theorem linkedTitle_eq (title url : JsText) :
    linkedTitle title url = unitLt :: (utf16 "a href=\"" ++ escapeHtml url ++ utf16 "\">" ++
      escapeHtml title ++ utf16 "</a" ++ [unitGt]) := by
  have hclose : utf16 "</a>" = utf16 "</a" ++ [unitGt] := rfl
  have hopen : utf16 "<a href=\"" = unitLt :: utf16 "a href=\"" := rfl
  rw [linkedTitle, hopen, hclose]
  simp only [List.cons_append, List.append_assoc]

theorem repoElement_markup (event : TelegramEventInput) : Markup (repoElement event) := by
  have h := Markup.bold (escapeHtml_escaped (repoLabel event)).markup .nil
  rw [List.append_nil, ← List.append_assoc] at h
  exact h

theorem linkedTitle_markup (title url : JsText) : Markup (linkedTitle title url) := by
  have h := Markup.link (escapeHtml_escaped url) (escapeHtml_escaped title).markup .nil
  rw [linkedTitle]
  simpa only [List.append_assoc, List.append_nil] using h

theorem headLead_markup (event : TelegramEventInput) : Markup (headLead event) :=
  ((eventEmoji_fields event).1.append (.of_plain (by decide))).markup

/-! ### Where the elements stand -/

/-- Where the repository's element ends. -/
def boldEnd (event : TelegramEventInput) : ℕ :=
  (eventEmoji event).length + 1 + 3 + escapedLength (repoLabel event) + 4

/-- Where the linked title starts. -/
def linkStart (event : TelegramEventInput) : ℕ :=
  boldEnd event + 3 + escapedLength (headerBits event) +
    ((numberLabel event).elim 0 fun num => 1 + escapedLength num) + 1

/-- Where the linked title ends. -/
def linkEnd (event : TelegramEventInput) (title url : JsText) : ℕ :=
  linkStart event + 9 + escapedLength url + 2 + escapedLength title + 4

/-- The limit falls inside no element: not before the end of the
repository's, nor between the ends of the linked title. -/
def SparesElements (event : TelegramEventInput) : Prop :=
  boldEnd event ≤ telegramMessageLimit ∧
    ∀ title ∈ titleText event, ∀ url ∈ eventUrl event,
      linkEnd event title url ≤ telegramMessageLimit ∨ telegramMessageLimit ≤ linkStart event

theorem length_headLead (event : TelegramEventInput) :
    (headLead event).length + (repoElement event).length = boldEnd event := by
  have hspace : (utf16 " ").length = 1 := rfl
  have hopen : (utf16 "<b>").length = 3 := rfl
  have hclose : (utf16 "</b>").length = 4 := rfl
  simp only [headLead, repoElement, boldEnd, List.length_append, length_escapeHtml, hspace, hopen,
    hclose]
  omega

theorem length_headLabel (event : TelegramEventInput) :
    boldEnd event + (headLabel event).length + 1 = linkStart event := by
  have hdot : (utf16 " · ").length = 3 := rfl
  have hspace : (utf16 " ").length = 1 := rfl
  have hnum : ((numberLabel event).elim [] fun num => utf16 " " ++ escapeHtml num).length =
      (numberLabel event).elim 0 fun num => 1 + escapedLength num := by
    cases numberLabel event with
    | none => rfl
    | some num =>
      simp only [Option.elim_some, List.length_append, length_escapeHtml, hspace]
  simp only [headLabel, linkStart, List.length_append, length_escapeHtml, hdot, hnum]
  omega

theorem length_linkedTitle (event : TelegramEventInput) (title url : JsText) :
    linkStart event + (linkedTitle title url).length = linkEnd event title url := by
  have hopen : (utf16 "<a href=\"").length = 9 := rfl
  have hmid : (utf16 "\">").length = 2 := rfl
  have hclose : (utf16 "</a>").length = 4 := rfl
  simp only [linkedTitle, linkEnd, List.length_append, length_escapeHtml, hopen, hmid, hclose]
  omega

/-! ### The head, cut -/

/-- A linked title, if the event has a title and a url. -/
theorem titleLine_of_link {event : TelegramEventInput} {title url : JsText}
    (htitle : titleText event = some title) (hurl : eventUrl event = some url) :
    titleLine event = utf16 "\n" ++ linkedTitle title url := by
  rw [titleLine, htitle, hurl]

theorem messageHead_markup (event : TelegramEventInput) : Markup (messageHead event) := by
  have hheader : Markup (header event) := by
    rw [header_eq]
    exact (headLead_markup event).append
      ((repoElement_markup event).append (headLabel_escaped event).markup)
  have htitle : Markup (titleLine event) := by
    cases ht : titleText event with
    | none => exact (titleLine_escaped (Or.inl ht)).markup
    | some title =>
      cases hu : eventUrl event with
      | none => exact (titleLine_escaped (Or.inr hu)).markup
      | some url =>
        rw [titleLine_of_link ht hu]
        have hbreak : Escaped (utf16 "\n") := .of_plain (by decide)
        exact hbreak.markup.append (linkedTitle_markup title url)
  exact (hheader.append htitle).append (metaLine_escaped event).markup

theorem repoElement_end (event : TelegramEventInput) :
    ∃ tag, headLead event ++ repoElement event = tag ++ [unitGt] := by
  rw [repoElement_eq]
  exact ⟨_, by rw [← List.cons_append, ← List.append_assoc]⟩

/-- The limit inside the repository's element. -/
theorem not_markup_of_bold {event : TelegramEventInput} (h : ¬boldEnd event ≤ telegramMessageLimit) :
    ¬Markup (clampHtml (messageHead event) telegramMessageLimit) := by
  have hsplit : messageHead event = headLead event ++ (unitLt ::
      (utf16 "b>" ++ escapeHtml (repoLabel event) ++ utf16 "</b" ++ [unitGt]) ++
        (headLabel event ++ titleLine event ++ metaLine event)) := by
    rw [← repoElement_eq, messageHead, header_eq]
    simp only [List.append_assoc]
  have hlength := length_headLead event
  have hstart : (headLead event).length < telegramMessageLimit := by
    have hemoji := (eventEmoji_fields event).2
    have hspace : (utf16 " ").length = 1 := rfl
    rw [headLead, List.length_append, hspace, telegramMessageLimit]
    omega
  rw [hsplit]
  refine not_markup_clampHtml (headLead_markup event) ?_ hstart ?_
  · have hopen : marks (utf16 "b>") = 1 := by decide
    have hclose : marks (utf16 "</b") = 1 := by decide
    simp only [marks_append, hopen, hclose, (escapeHtml_escaped _).marks]
  · rw [repoElement_eq] at hlength
    simp only [List.length_cons, List.length_append, List.length_nil] at hlength ⊢
    omega

/-- Behind the repository's element, without a link, all is escaped. -/
theorem markup_of_no_link {event : TelegramEventInput} (h : boldEnd event ≤ telegramMessageLimit)
    (hlink : titleText event = none ∨ eventUrl event = none) :
    Markup (clampHtml (messageHead event) telegramMessageLimit) := by
  have hsplit : messageHead event = (headLead event ++ repoElement event) ++
      ((headLabel event ++ titleLine event ++ metaLine event) ++ []) := by
    rw [messageHead, header_eq]
    simp only [List.append_assoc, List.append_nil]
  rw [hsplit]
  refine clampHtml_markup ((headLead_markup event).append (repoElement_markup event))
    (Or.inr (repoElement_end event))
    (((headLabel_escaped event).append (titleLine_escaped hlink)).append (metaLine_escaped event))
    .nil ?_ (Or.inl rfl)
  rw [List.length_append, length_headLead]
  exact h

section Link

variable {event : TelegramEventInput} {title url : JsText}

/-- What stands before the linked title. -/
theorem length_beforeLink (event : TelegramEventInput) :
    (headLead event ++ repoElement event ++ (headLabel event ++ utf16 "\n")).length =
      linkStart event := by
  have hbreak : (utf16 "\n").length = 1 := rfl
  rw [List.length_append, List.length_append, List.length_append, length_headLead, hbreak,
    ← length_headLabel event, Nat.add_assoc]

theorem beforeLink_markup (event : TelegramEventInput) :
    Markup (headLead event ++ repoElement event ++ (headLabel event ++ utf16 "\n")) := by
  have hbreak : Escaped (utf16 "\n") := .of_plain (by decide)
  exact ((headLead_markup event).append (repoElement_markup event)).append
    ((headLabel_escaped event).append hbreak).markup

theorem messageHead_of_link (htitle : titleText event = some title)
    (hurl : eventUrl event = some url) :
    messageHead event = headLead event ++ repoElement event ++ (headLabel event ++ utf16 "\n") ++
      (linkedTitle title url ++ metaLine event) := by
  rw [messageHead, header_eq, titleLine_of_link htitle hurl]
  simp only [List.append_assoc]

/-- The limit before the linked title. -/
theorem markup_of_limit_before (htitle : titleText event = some title)
    (hurl : eventUrl event = some url) (hbold : boldEnd event ≤ telegramMessageLimit)
    (h : telegramMessageLimit ≤ linkStart event) :
    Markup (clampHtml (messageHead event) telegramMessageLimit) := by
  have hbreak : Escaped (utf16 "\n") := .of_plain (by decide)
  have hlength := length_beforeLink event
  rw [List.length_append, List.length_append, length_headLead] at hlength
  rw [messageHead_of_link htitle hurl, List.append_assoc]
  refine clampHtml_markup ((headLead_markup event).append (repoElement_markup event))
    (Or.inr (repoElement_end event)) ((headLabel_escaped event).append hbreak)
    ((linkedTitle_markup title url).append (metaLine_escaped event).markup) ?_ (Or.inr ?_)
  · rw [List.length_append, length_headLead]
    exact hbold
  · rw [List.length_append, length_headLead]
    omega

/-- The limit behind it. -/
theorem markup_of_limit_behind (htitle : titleText event = some title)
    (hurl : eventUrl event = some url) (h : linkEnd event title url ≤ telegramMessageLimit) :
    Markup (clampHtml (messageHead event) telegramMessageLimit) := by
  have hend : ∃ tag, headLead event ++ repoElement event ++ (headLabel event ++ utf16 "\n") ++
      linkedTitle title url = tag ++ [unitGt] := by
    rw [linkedTitle_eq]
    exact ⟨_, by rw [← List.cons_append, ← List.append_assoc]⟩
  have hsplit : messageHead event = headLead event ++ repoElement event ++
      (headLabel event ++ utf16 "\n") ++ linkedTitle title url ++ (metaLine event ++ []) := by
    rw [messageHead_of_link htitle hurl, List.append_nil]
    simp only [List.append_assoc]
  rw [hsplit]
  refine clampHtml_markup ((beforeLink_markup event).append (linkedTitle_markup title url))
    (Or.inr hend) (metaLine_escaped event) .nil ?_ (Or.inl rfl)
  rw [List.length_append, length_beforeLink, length_linkedTitle]
  exact h

/-- The limit inside it. -/
theorem not_markup_of_limit_inside (htitle : titleText event = some title)
    (hurl : eventUrl event = some url) (hstart : linkStart event < telegramMessageLimit)
    (hend : telegramMessageLimit < linkEnd event title url) :
    ¬Markup (clampHtml (messageHead event) telegramMessageLimit) := by
  have hlength := length_linkedTitle event title url
  rw [messageHead_of_link htitle hurl, linkedTitle_eq]
  refine not_markup_clampHtml (beforeLink_markup event) ?_ ?_ ?_
  · have hopen : marks (utf16 "a href=\"") = 0 := by decide
    have hmid : marks (utf16 "\">") = 1 := by decide
    have hclose : marks (utf16 "</a") = 1 := by decide
    simp only [marks_append, hopen, hmid, hclose, (escapeHtml_escaped _).marks]
  · rw [length_beforeLink]
    exact hstart
  · rw [length_beforeLink]
    rw [linkedTitle_eq] at hlength
    simp only [List.length_cons, List.length_append, List.length_nil] at hlength ⊢
    omega

end Link

/-- **The head, cut at the limit**, is complete exactly when the limit
spares its elements. -/
theorem clampHtml_messageHead_iff (event : TelegramEventInput) :
    Markup (clampHtml (messageHead event) telegramMessageLimit) ↔ SparesElements event := by
  by_cases hbold : boldEnd event ≤ telegramMessageLimit
  · cases ht : titleText event with
    | none =>
      refine iff_of_true (markup_of_no_link hbold (Or.inl ht)) ⟨hbold, fun title htitle => ?_⟩
      rw [ht] at htitle
      cases htitle
    | some title =>
      cases hu : eventUrl event with
      | none =>
        refine iff_of_true (markup_of_no_link hbold (Or.inr hu)) ⟨hbold, fun _ _ url hurl => ?_⟩
        rw [hu] at hurl
        cases hurl
      | some url =>
        constructor
        · refine fun hmarkup => ⟨hbold, fun title' ht' url' hu' => ?_⟩
          obtain rfl := Option.some.inj (ht.symm.trans ht')
          obtain rfl := Option.some.inj (hu.symm.trans hu')
          by_contra hinside
          rw [not_or, not_le, not_le] at hinside
          exact not_markup_of_limit_inside ht hu hinside.2 hinside.1 hmarkup
        · intro hspares
          rcases hspares.2 title ht url hu with hbehind | hbefore
          · exact markup_of_limit_behind ht hu hbehind
          · exact markup_of_limit_before ht hu hbold hbefore
  · exact iff_of_false (not_markup_of_bold hbold) fun h => hbold h.1

/-- A head that is not cut has its elements within the limit. -/
theorem sparesElements_of_short {event : TelegramEventInput}
    (h : (messageHead event).length ≤ telegramMessageLimit) : SparesElements event := by
  rw [← clampHtml_messageHead_iff, clampHtml, if_pos h]
  exact messageHead_markup event

/-! ### The body -/

theorem bodyPreview_fields (rawBody : JsText) (cap room : ℕ) (hroom : ellipsis.length ≤ room) :
    Escaped (bodyPreview rawBody cap room) ∧ (bodyPreview rawBody cap room).length ≤ room := by
  have hellipsis : Escaped ellipsis := .of_plain (by decide)
  unfold bodyPreview
  simp only
  generalize [10].intercalate ((rawBody.splitOn 10).take cap) = text
  split
  · have hlength := clampHtml_length_le (escapeHtml text) (room - ellipsis.length)
    refine ⟨Escaped.append ?_ hellipsis, ?_⟩
    · rename_i hlong
      obtain ⟨done, hdone, hdrop⟩ := dropPartialEntity_take (Or.inl rfl) (escapeHtml_escaped text)
        (room - ellipsis.length)
      rw [clampHtml, if_neg (by omega)]
      exact hdrop ▸ hdone
    · rw [List.length_append]
      omega
  · rename_i hshort
    refine ⟨(escapeHtml_escaped text).append ?_, ?_⟩
    · split
      · exact hellipsis
      · exact .nil
    · rw [List.length_append]
      split
      · omega
      · rw [List.length_nil]
        omega

/-- The message is its head, with a body where both fit. -/
theorem formatLiveEvent_cases (event : TelegramEventInput) (bodyLines : Option ℚ) :
    formatLiveEvent event bodyLines = messageHead event ∨
      ∃ body, formatLiveEvent event bodyLines = messageHead event ++ body ∧ Escaped body ∧
        (messageHead event ++ body).length ≤ telegramMessageLimit := by
  unfold formatLiveEvent
  simp only
  split
  · exact Or.inl rfl
  split
  · exact Or.inl rfl
  · rename_i hroom
    have hellipsis : ellipsis.length = 2 := rfl
    have hgap : (utf16 "\n\n").length = 2 := rfl
    have hbreaks : Escaped (utf16 "\n\n") := .of_plain (by decide)
    obtain ⟨hescaped, hlength⟩ := bodyPreview_fields ((truthy event.body).elim [] sanitizeLiveBody)
      (lineCap bodyLines) (telegramMessageLimit - (messageHead event).length - 2) (by omega)
    refine Or.inr ⟨_, List.append_assoc _ _ _, hbreaks.append hescaped, ?_⟩
    rw [List.length_append, List.length_append, hgap]
    omega

/-- **What is posted is valid exactly when the limit spares the elements of
the head.** It is never too long. -/
theorem postedText_valid_iff (event : TelegramEventInput) (bodyLines : Option ℚ) :
    (postedText event bodyLines).length ≤ telegramMessageLimit ∧ Markup (postedText event bodyLines) ↔
      SparesElements event := by
  have hlength : (postedText event bodyLines).length ≤ telegramMessageLimit :=
    clampHtml_length_le _ _
  refine ⟨fun h => ?_, fun h => ⟨hlength, ?_⟩⟩
  · rcases formatLiveEvent_cases event bodyLines with hhead | ⟨body, -, -, hshort⟩
    · have hmarkup := h.2
      rw [postedText, hhead] at hmarkup
      exact (clampHtml_messageHead_iff event).mp hmarkup
    · refine sparesElements_of_short ?_
      rw [List.length_append] at hshort
      omega
  · rcases formatLiveEvent_cases event bodyLines with hhead | ⟨body, hformat, hbody, hshort⟩
    · rw [postedText, hhead]
      exact (clampHtml_messageHead_iff event).mpr h
    · rw [postedText, hformat, clampHtml, if_pos hshort]
      exact (messageHead_markup event).append hbody.markup

/-- A linked title of `n + 1` letters. -/
def longTitle (n : ℕ) : TelegramEventInput :=
  { sourceId := utf16 "github", receivedAt := utf16 "2026-06-21T10:00:00Z", occurredAt := none
    action := none, category := utf16 "issue", actor := none, target := none
    title := some (List.replicate (n + 1) 97), body := none, url := some (utf16 "u")
    merged := false }

/-- A title longer than a message is posted with its link open. -/
theorem not_postedText_valid :
    ¬∀ (event : TelegramEventInput) (bodyLines : Option ℚ),
      (postedText event bodyLines).length ≤ telegramMessageLimit ∧
        Markup (postedText event bodyLines) := by
  intro h
  have hmarkup := (h (longTitle 4095) none).2
  have htitle : ∀ n, titleText (longTitle n) = some (List.replicate (n + 1) 97) := by
    intro n
    have hcategory : (longTitle n).category ≠ utf16 "commit" := by
      show utf16 "issue" ≠ utf16 "commit"
      decide
    rw [titleText, if_neg hcategory]
    rfl
  have hurl : eventUrl (longTitle 4095) = some (utf16 "u") := by decide
  have hformat : formatLiveEvent (longTitle 4095) none = messageHead (longTitle 4095) := rfl
  have hstart : linkStart (longTitle 4095) = 25 := by decide
  have hlength : ∀ n, escapedLength (List.replicate n 97) = n := by
    intro n
    rw [escapedLength, List.map_replicate, List.sum_replicate_nat]
    exact Nat.mul_one n
  rw [postedText, hformat] at hmarkup
  refine not_markup_of_limit_inside (htitle 4095) hurl ?_ ?_ hmarkup
  · rw [hstart, telegramMessageLimit]
    omega
  · rw [linkEnd, hstart, hlength, telegramMessageLimit]
    omega

end SymphonyBoard
