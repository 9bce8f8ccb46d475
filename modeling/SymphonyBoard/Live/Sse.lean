import SymphonyBoard.Common.Delimited
import SymphonyBoard.Common.JsonText
/-!
# Server-sent events

The frames of `src/live/broadcaster.ts` and the reader of
`src/cli/live-telegram-bridge.ts`, as texts in code units. A frame is
lines, then a blank line, and the JSON on its data line has no line break
of its own (`printable_stringify`), so the first blank line is where the
frame ends (`whole_block`).

The reader gives up when its buffer, with the chunk that has just come, is
longer than it allows; short of that it recovers the items in order
(`streamOnce_inOrder`).
-/

namespace SymphonyBoard

open scoped TextUnits

variable {N : Type} (f : NumberFormat N)

/-! ## The frames -/

/-- A `LiveEvent` as the object it is: its number, and all of its
properties, the number among them. -/
structure SseEvent (N : Type) where
  seq : ℕ
  fields : List (JsText × JsValue N)

/-- `formatSseFrame` -/
def formatSseFrame (event : SseEvent N) : JsText :=
  utf16 "id: " ++ utf16 event.seq.repr ++ utf16 "\nevent: live\ndata: " ++
    stringify f (.obj event.fields) ++ utf16 "\n\n"

/-- `HEARTBEAT_COMMENT` -/
def heartbeatComment : JsText := utf16 ": heartbeat\n\n"

/-- What the broadcaster writes to a subscriber. -/
inductive SseItem (N : Type)
  | live (event : SseEvent N)
  | heartbeat

/-- What the stream carries for an item. -/
def SseItem.wire : SseItem N → JsText
  | .live event => formatSseFrame f event
  | .heartbeat => heartbeatComment

/-! ## The reader -/

/-- A frame as it was read. -/
structure SseFrame where
  id : Option JsText
  event : Option JsText
  data : Option JsText
deriving DecidableEq

/-- The field and the value of a line; an empty line and a comment have
none. -/
def sseField (rawLine : JsText) : Option (JsText × JsText) :=
  let line := if rawLine.getLast? = some 13 then rawLine.dropLast else rawLine
  if line = [] ∨ line.head? = some unitColon then none
  else
    let value := (line.dropWhile (· ≠ unitColon)).drop 1
    some (line.takeWhile (· ≠ unitColon), if value.head? = some 32 then value.drop 1 else value)

/-- One line of a block, on the frame and the data lines so far. -/
def SseFrame.line (s : SseFrame × List JsText) (rawLine : JsText) : SseFrame × List JsText :=
  match sseField rawLine with
  | none => s
  | some (field, value) =>
    if field = utf16 "id" then ({ s.1 with id := some value }, s.2)
    else if field = utf16 "event" then ({ s.1 with event := some value }, s.2)
    else if field = utf16 "data" then (s.1, s.2 ++ [value])
    else s

/-- `parseSseFrame`: the fields of the lines, with the data lines joined again. -/
def parseSseFrame (block : JsText) : SseFrame :=
  let s := (block.splitOn 10).foldl SseFrame.line (⟨none, none, none⟩, [])
  if s.2 = [] then s.1 else { s.1 with data := some ([10].intercalate s.2) }

/-- The frames `streamOnce` has a branch for. -/
def SseFrame.handled (frame : SseFrame) : Bool :=
  frame.event = some (utf16 "reset") ||
    (frame.event = some (utf16 "live") && frame.data.any (· ≠ []))

/-- What separates two frames. -/
def blankLine : JsText := [10, 10]

/-- `MAX_SSE_BUFFER_BYTES` -/
def maxSseBufferBytes : ℕ := 8 * 1024 * 1024

/-- The frames of the blocks, in order, that are acted on. -/
def handledFrames (bs : List JsText) : List SseFrame :=
  (bs.map parseSseFrame).filter SseFrame.handled

/-- The loop of `streamOnce`: the frames it acts on, and what it throws. -/
def streamOnce (buffer : JsText) : List JsText → List SseFrame × Option String
  | [] => ([], none)
  | chunk :: chunks =>
    let buffer := buffer ++ chunk
    if maxSseBufferBytes < buffer.length then
      ([], some "SSE buffer exceeded limit without a frame delimiter")
    else
      let cut := blocks blankLine buffer
      let more := streamOnce cut.2 chunks
      (handledFrames cut.1 ++ more.1, more.2)

/-! ## A frame is read back -/

theorem blankLine_ne_nil : blankLine ≠ [] := by decide

/-- A line of a block: not empty, and without a line break. -/
def IsSseLine (line : JsText) : Prop := line ≠ [] ∧ Printable line

variable {f} {line : JsText} {ls : List JsText}

theorem Printable.not_mem {s : JsText} (h : Printable s) {u : UInt16} (hu : u < 32) : u ∉ s :=
  fun hmem => absurd (h u hmem) (UInt16.not_le.mpr hu)

theorem cutAtMark_line (h : Printable line) (l : JsText) :
    cutAtMark blankLine (line ++ l) = (cutAtMark blankLine l).map fun p => (line ++ p.1, p.2) := by
  induction line with
  | nil => simp
  | cons u line ih =>
    have hline : Printable line := fun v hv => h v (List.mem_cons_of_mem u hv)
    have hu : u ≠ 10 := fun hu => absurd (h u (List.mem_cons_self ..)) (by rw [hu]; decide)
    have hnot : ¬blankLine <+: u :: (line ++ l) := fun hstart =>
      hu (List.cons_prefix_cons.mp hstart).1.symm
    rw [List.cons_append, cutAtMark, if_neg hnot, ih hline, Option.map_map]
    rfl

/-- A line break before a line that is not empty is not a blank line. -/
theorem cutAtMark_lineBreak (h : IsSseLine line) (l : JsText) :
    cutAtMark blankLine (10 :: (line ++ l)) =
      (cutAtMark blankLine (line ++ l)).map fun p => (10 :: p.1, p.2) := by
  obtain ⟨u, rest, rfl⟩ := List.exists_cons_of_ne_nil h.1
  have hu : u ≠ 10 := fun hu => absurd (h.2 u (List.mem_cons_self ..)) (by rw [hu]; decide)
  have hnot : ¬blankLine <+: 10 :: (u :: rest ++ l) := fun hstart =>
    hu (List.cons_prefix_cons.mp (List.cons_prefix_cons.mp hstart).2).1.symm
  rw [cutAtMark, if_neg hnot]

/-- **The first blank line is where the lines end.** -/
theorem whole_block (hne : ls ≠ []) (h : ∀ line ∈ ls, IsSseLine line) :
    Whole blankLine ([10].intercalate ls) := by
  have hend : cutAtMark blankLine blankLine = some ([], []) := by decide
  unfold Whole
  induction ls with
  | nil => exact absurd rfl hne
  | cons line rest ih =>
    have hline := h line (List.mem_cons_self ..)
    cases rest with
    | nil =>
      rw [List.intercalate_singleton, cutAtMark_line hline.2, hend]
      simp
    | cons next rest =>
      have hnext : IsSseLine next := h next (by simp)
      have hcut := ih (List.cons_ne_nil next rest) fun l hl => h l (List.mem_cons_of_mem line hl)
      have htail : ∃ t, [10].intercalate (next :: rest) ++ blankLine = next ++ t := by
        cases rest with
        | nil => exact ⟨blankLine, by rw [List.intercalate_singleton]⟩
        | cons l ls =>
          exact ⟨_, by rw [List.intercalate_cons_cons, List.append_assoc, List.append_assoc]⟩
      obtain ⟨t, ht⟩ := htail
      rw [ht] at hcut
      rw [List.intercalate_cons_cons, List.append_assoc, List.append_assoc, ht, cutAtMark_line hline.2,
        List.singleton_append, cutAtMark_lineBreak hnext, hcut]
      simp

/-- The lines of a frame. -/
def SseItem.lines (f : NumberFormat N) : SseItem N → List JsText
  | .live event =>
    [utf16 "id: " ++ utf16 event.seq.repr, utf16 "event: live",
      utf16 "data: " ++ stringify f (.obj event.fields)]
  | .heartbeat => [utf16 ": heartbeat"]

/-- The lines of an item, without the blank line after it. -/
def SseItem.block (f : NumberFormat N) (item : SseItem N) : JsText := [10].intercalate (item.lines f)

/-- The frame a reader should make of what was written. -/
def SseItem.frame (f : NumberFormat N) : SseItem N → Option SseFrame
  | .live event => some
      { id := some (utf16 event.seq.repr), event := some (utf16 "live")
        data := some (stringify f (.obj event.fields)) }
  | .heartbeat => none

theorem SseItem.wire_eq (item : SseItem N) : item.wire f = item.block f ++ blankLine := by
  cases item with
  | live event =>
    have hbreak : utf16 "\nevent: live\ndata: " =
        10 :: (utf16 "event: live" ++ 10 :: utf16 "data: ") := by decide
    have hblank : utf16 "\n\n" = blankLine := by decide
    simp [SseItem.wire, formatSseFrame, SseItem.block, SseItem.lines, hbreak, hblank,
      List.intercalate_cons_cons, List.intercalate_singleton]
  | heartbeat =>
    show heartbeatComment = [10].intercalate [utf16 ": heartbeat"] ++ blankLine
    decide

theorem printable_repr (n : ℕ) : Printable (utf16 n.repr) := by
  intro u hu
  obtain ⟨c, hc, huc⟩ := List.mem_flatMap.mp hu
  rw [Nat.toList_repr] at hc
  have hdigit : c.isDigit = true := Nat.isDigit_of_mem_toDigits (by decide) (by decide) hc
  have hrange : 48 ≤ c.toNat ∧ c.toNat ≤ 57 := by
    simpa [Char.isDigit, UInt32.le_iff_toNat_le] using hdigit
  have hsmall : c.toNat < 0x10000 := by omega
  rw [utf16Char, if_pos hsmall, List.mem_singleton] at huc
  rw [huc, UInt16.le_iff_toNat_le, UInt16.toNat_ofNat_of_lt' hsmall]
  show 32 ≤ c.toNat
  omega

theorem SseItem.isSseLine (item : SseItem N) : ∀ line ∈ item.lines f, IsSseLine line := by
  intro line hline
  cases item with
  | live event =>
    simp only [SseItem.lines, List.mem_cons, List.not_mem_nil, or_false] at hline
    rcases hline with rfl | rfl | rfl
    · exact ⟨List.append_ne_nil_of_left_ne_nil (by decide) _,
        (printable_of_all (by decide)).append (printable_repr event.seq)⟩
    · exact ⟨by decide, printable_of_all (by decide)⟩
    · exact ⟨List.append_ne_nil_of_left_ne_nil (by decide) _,
        (printable_of_all (by decide)).append (printable_stringify f _)⟩
  | heartbeat =>
    obtain rfl := List.mem_singleton.mp hline
    exact ⟨by decide, printable_of_all (by decide)⟩

theorem SseItem.lines_ne_nil (item : SseItem N) : item.lines f ≠ [] := by
  cases item <;> exact List.cons_ne_nil _ _

theorem SseItem.whole (item : SseItem N) : Whole blankLine (item.block f) :=
  whole_block item.lines_ne_nil item.isSseLine

/-- A line `name: value` gives its field and its value. -/
theorem sseField_line {name value : JsText} (hne : name ≠ []) (hcolon : unitColon ∉ name)
    (hline : Printable (name ++ unitColon :: 32 :: value)) :
    sseField (name ++ unitColon :: 32 :: value) = some (name, value) := by
  have hreturn : (13 : UInt16) ∉ name ++ unitColon :: 32 :: value := hline.not_mem (by decide)
  have hlast : (name ++ unitColon :: 32 :: value).getLast? ≠ some 13 := fun h =>
    hreturn (List.mem_of_getLast? h)
  have hpass : ∀ u ∈ name, decide (u ≠ unitColon) = true := fun u hu =>
    decide_eq_true fun h => hcolon (h ▸ hu)
  have hhead : ¬(name ++ unitColon :: 32 :: value = [] ∨
      (name ++ unitColon :: 32 :: value).head? = some unitColon) := by
    obtain ⟨u, rest, rfl⟩ := List.exists_cons_of_ne_nil hne
    rintro (h | h)
    · exact List.cons_ne_nil _ _ h
    · exact hcolon (List.mem_cons.mpr (Or.inl (Option.some.inj h).symm))
  unfold sseField
  rw [if_neg hlast]
  simp only
  rw [if_neg hhead, List.takeWhile_append_of_pos hpass, List.dropWhile_append_of_pos hpass]
  simp

theorem parseSseFrame_block (item : SseItem N) :
    parseSseFrame (item.block f) = (item.frame f).getD ⟨none, none, none⟩ := by
  have hlines := item.isSseLine (f := f)
  have hbreak : ∀ line ∈ item.lines f, (10 : UInt16) ∉ line := fun line hl =>
    (hlines line hl).2.not_mem (by decide)
  unfold parseSseFrame SseItem.block
  rw [List.splitOn_intercalate 10 hbreak item.lines_ne_nil]
  cases item with
  | live event =>
    have hid : sseField (utf16 "id: " ++ utf16 event.seq.repr) =
        some (utf16 "id", utf16 event.seq.repr) := by
      have hline := (hlines (utf16 "id: " ++ utf16 event.seq.repr) (by simp [SseItem.lines])).2
      have hname : utf16 "id: " = utf16 "id" ++ [unitColon, 32] := by decide
      rw [hname, List.append_assoc] at hline ⊢
      exact sseField_line (by decide : utf16 "id" ≠ []) (by decide) hline
    have hevent : sseField (utf16 "event: live") = some (utf16 "event", utf16 "live") := by decide
    have hdata : sseField (utf16 "data: " ++ stringify f (.obj event.fields)) =
        some (utf16 "data", stringify f (.obj event.fields)) := by
      have hline := (hlines (utf16 "data: " ++ stringify f (.obj event.fields))
        (by simp [SseItem.lines])).2
      have hname : utf16 "data: " = utf16 "data" ++ [unitColon, 32] := by decide
      rw [hname, List.append_assoc] at hline ⊢
      exact sseField_line (by decide : utf16 "data" ≠ []) (by decide) hline
    have hne : utf16 "event" ≠ utf16 "id" ∧ utf16 "data" ≠ utf16 "id" ∧
        utf16 "data" ≠ utf16 "event" := by decide
    simp [SseItem.lines, SseItem.frame, SseFrame.line, hid, hevent, hdata, hne]
  | heartbeat =>
    show (let s := [utf16 ": heartbeat"].foldl SseFrame.line (⟨none, none, none⟩, [])
      if s.2 = [] then s.1 else { s.1 with data := some ([10].intercalate s.2) }) =
        ⟨none, none, none⟩
    decide

/-! ## The stream is read back -/

/-- The frames of the stream, heartbeats left out. -/
def sentFrames (f : NumberFormat N) (items : List (SseItem N)) : List SseFrame :=
  items.filterMap (·.frame f)

/-- What the broadcaster has written. -/
def sentText (f : NumberFormat N) (items : List (SseItem N)) : JsText := items.flatMap (·.wire f)

theorem sentText_eq (items : List (SseItem N)) :
    sentText f items = stream blankLine (items.map (·.block f)) := by
  unfold sentText stream
  rw [List.flatMap_map]
  exact List.flatMap_congr fun item _ => item.wire_eq

theorem whole_blocks (items : List (SseItem N)) :
    ∀ block ∈ items.map (·.block f), Whole blankLine block := by
  intro block hblock
  obtain ⟨item, -, rfl⟩ := List.mem_map.mp hblock
  exact item.whole

theorem handledFrames_append (bs cs : List JsText) :
    handledFrames (bs ++ cs) = handledFrames bs ++ handledFrames cs := by
  simp [handledFrames]

/-- Every event is acted on, and no heartbeat. -/
theorem handledFrames_blocks (items : List (SseItem N)) :
    handledFrames (items.map (·.block f)) = sentFrames f items := by
  induction items with
  | nil => rfl
  | cons item items ih =>
    have hone : handledFrames [item.block f] = (item.frame f).toList := by
      unfold handledFrames
      rw [List.map_singleton, parseSseFrame_block]
      cases item with
      | live event =>
        have hjson : stringify f (.obj event.fields) ≠ [] := by
          obtain ⟨u, rest, heq, -⟩ := stringify_eq_cons f (.obj event.fields)
          exact heq ▸ List.cons_ne_nil u rest
        simp [SseItem.frame, SseFrame.handled, hjson]
      | heartbeat => rfl
    have happend : handledFrames ([item.block f] ++ items.map (·.block f)) =
        (item.frame f).toList ++ sentFrames f items := by
      rw [handledFrames_append, hone, ih]
    rw [List.map_cons, ← List.singleton_append, happend]
    unfold sentFrames
    rw [List.filterMap_cons]
    cases item.frame f <;> rfl

theorem blocks_rest (l : JsText) :
    blocks blankLine (blocks blankLine l).2 = ([], (blocks blankLine l).2) := by
  have happend := blocks_append blankLine_ne_nil l []
  rw [List.append_nil, List.append_nil] at happend
  have hfirst := congrArg (fun p => p.1.length) happend
  have hsecond := congrArg Prod.snd happend
  simp only [List.length_append] at hfirst hsecond
  exact Prod.ext (List.eq_nil_of_length_eq_zero (by omega)) hsecond.symm

variable {buffer : JsText} {chunks : List JsText}

/-- A reader that does not give up acts on the frames of all it was fed. -/
theorem streamOnce_eq (hbuffer : blocks blankLine buffer = ([], buffer))
    (hfits : ∀ before chunk after, chunks = before ++ chunk :: after →
      (blocks blankLine (buffer ++ before.flatten)).2.length + chunk.length ≤ maxSseBufferBytes) :
    streamOnce buffer chunks =
      (handledFrames (blocks blankLine (buffer ++ chunks.flatten)).1, none) := by
  induction chunks generalizing buffer with
  | nil =>
    rw [List.flatten_nil, List.append_nil, hbuffer]
    rfl
  | cons chunk chunks ih =>
    have hfirst := hfits [] chunk chunks rfl
    rw [List.flatten_nil, List.append_nil, hbuffer] at hfirst
    have hroom : ¬maxSseBufferBytes < (buffer ++ chunk).length := by
      rw [List.length_append]
      exact Nat.not_lt.mpr hfirst
    have hnext : ∀ before c after, chunks = before ++ c :: after →
        (blocks blankLine ((blocks blankLine (buffer ++ chunk)).2 ++ before.flatten)).2.length +
          c.length ≤ maxSseBufferBytes := by
      intro before c after hchunks
      have hlater := hfits (chunk :: before) c after (by rw [hchunks, List.cons_append])
      rwa [List.flatten_cons, ← List.append_assoc, blocks_append blankLine_ne_nil] at hlater
    unfold streamOnce
    simp only
    rw [if_neg hroom, ih (blocks_rest _) hnext, List.flatten_cons, ← List.append_assoc,
      blocks_append blankLine_ne_nil (buffer ++ chunk), handledFrames_append]

/-- Whatever a reader acts on comes in order, each frame once. -/
theorem streamOnce_inOrder (buffer : JsText) (chunks : List JsText) :
    (streamOnce buffer chunks).1 <+:
      handledFrames (blocks blankLine (buffer ++ chunks.flatten)).1 := by
  induction chunks generalizing buffer with
  | nil => exact ⟨_, rfl⟩
  | cons chunk chunks ih =>
    unfold streamOnce
    simp only
    split
    · exact ⟨_, rfl⟩
    · rw [List.flatten_cons, ← List.append_assoc,
        blocks_append blankLine_ne_nil (buffer ++ chunk), handledFrames_append]
      exact List.prefix_append_right_inj _ |>.mpr (ih _)

/-- At every chunk, what has come since the last whole frame fits the
reader's buffer. -/
def FitsBuffer (f : NumberFormat N) (items : List (SseItem N)) (chunks : List JsText) : Prop :=
  ∀ before chunk after, chunks = before ++ chunk :: after →
    before.flatten.length + chunk.length ≤
      wholeLength blankLine (items.map (·.block f)) before.flatten.length + maxSseBufferBytes

/-- **However the stream is cut, the frames that were sent are read back**,
where the buffer holds what is not yet a whole frame; and none is ever
acted on twice or out of order. -/
theorem streamOnce_roundTrip (f : NumberFormat N) (items : List (SseItem N)) (chunks : List JsText)
    (hcut : chunks.flatten = sentText f items) :
    (FitsBuffer f items chunks → streamOnce [] chunks = (sentFrames f items, none)) ∧
      (streamOnce [] chunks).1 <+: sentFrames f items := by
  have hframes : handledFrames (blocks blankLine ([] ++ chunks.flatten)).1 = sentFrames f items := by
    rw [List.nil_append, hcut, sentText_eq, blocks_stream blankLine_ne_nil (whole_blocks items),
      handledFrames_blocks]
  constructor
  · intro hfits
    rw [← hframes]
    refine streamOnce_eq blocks_nil fun before chunk after hchunks => ?_
    have hroom := hfits before chunk after hchunks
    have htext : before.flatten ++ (chunk :: after).flatten =
        stream blankLine (items.map (·.block f)) := by
      rw [← List.flatten_append, ← hchunks, hcut, sentText_eq]
    have hle : before.flatten.length ≤ (stream blankLine (items.map (·.block f))).length := by
      rw [← htext, List.length_append]
      exact Nat.le_add_right _ _
    have htake : (stream blankLine (items.map (·.block f))).take before.flatten.length =
        before.flatten := by
      rw [← htext, List.take_left]
    have hread := (blocks_take_stream blankLine_ne_nil (whole_blocks items) _ hle).2
    rw [htake] at hread
    rw [List.nil_append]
    omega
  · rw [← hframes]
    exact streamOnce_inOrder [] chunks

theorem fitsBuffer_of_short {items : List (SseItem N)}
    (hshort : chunks.flatten.length ≤ maxSseBufferBytes) : FitsBuffer f items chunks := by
  rintro before chunk after rfl
  simp only [List.flatten_append, List.flatten_cons, List.length_append] at hshort
  omega

namespace LongBody

/-- Texts without numbers. -/
def noNumbers : NumberFormat Empty where
  write := Empty.elim
  read _ := none
  numeral n := n.elim
  readable n := n.elim

/-- An event of a body of so many letters. -/
def event (letters : ℕ) : SseEvent Empty where
  seq := 7
  fields := [(utf16 "body", .str (List.replicate letters 97))]

/-- A frame and a heartbeat, cut inside the blank line between them. -/
theorem roundTrip_cutBlankLine :
    let items := [.live (event 3), .heartbeat]
    streamOnce [] [(sentText noNumbers items).take 45, (sentText noNumbers items).drop 45] =
      (sentFrames noNumbers items, none) := by
  have hcut : [(sentText noNumbers [.live (event 3), .heartbeat]).take 45,
      (sentText noNumbers [.live (event 3), .heartbeat]).drop 45].flatten =
        sentText noNumbers [.live (event 3), .heartbeat] := by decide +kernel
  refine (streamOnce_roundTrip noNumbers _ _ hcut).1 (fitsBuffer_of_short ?_)
  rw [hcut]
  decide +kernel

theorem quoteUnits_replicate (n : ℕ) : quoteUnits (List.replicate n 97) = List.replicate n 97 := by
  induction n with
  | zero => rfl
  | succ n ih =>
    cases n with
    | zero => rfl
    | succ n =>
      have hhead : quoteUnit 97 = [97] := by decide
      have hpair : ¬(isHighSurrogate 97 && isLowSurrogate 97) = true := by decide
      rw [List.replicate_succ, List.replicate_succ, quoteUnits, if_neg hpair, hhead,
        ← List.replicate_succ, ih]
      rfl

theorem length_block (letters : ℕ) :
    letters < (SseItem.block noNumbers (.live (event letters))).length := by
  simp only [SseItem.block, SseItem.lines, event, stringify, quote, List.intercalate_cons_cons,
    List.intercalate_singleton, List.length_append, List.length_cons, quoteUnits_replicate,
    List.length_replicate]
  omega

theorem flatten_beforeBlankLine (item : SseItem Empty) :
    [item.block noNumbers, blankLine].flatten = sentText noNumbers [item] := by
  simp [sentText, SseItem.wire_eq]

theorem streamOnce_of_long {text : JsText} (h : maxSseBufferBytes < text.length)
    (chunks : List JsText) :
    streamOnce [] (text :: chunks) =
      ([], some "SSE buffer exceeded limit without a frame delimiter") := by
  unfold streamOnce
  simp only
  rw [List.nil_append, if_pos h]

theorem streamOnce_ne_of_long {item : SseItem Empty} {frames : List SseFrame}
    (h : maxSseBufferBytes < (item.block noNumbers).length) :
    streamOnce [] [item.block noNumbers, blankLine] ≠ (frames, none) := by
  rw [streamOnce_of_long h]
  intro heq
  exact absurd (congrArg Prod.snd heq) (Option.some_ne_none _)

/-- **A body as long as the buffer**: by its blank line the frame has been
given up. -/
theorem not_roundTrip :
    [SseItem.block noNumbers (.live (event maxSseBufferBytes)), blankLine].flatten =
        sentText noNumbers [.live (event maxSseBufferBytes)] ∧
      streamOnce [] [SseItem.block noNumbers (.live (event maxSseBufferBytes)), blankLine] ≠
        (sentFrames noNumbers [.live (event maxSseBufferBytes)], none) :=
  ⟨flatten_beforeBlankLine _, streamOnce_ne_of_long (length_block _)⟩

end LongBody

end SymphonyBoard
