import QiForge.SseStream

/-!
# What a cut event stream yields

The bytes of a response may be cut anywhere and its line ends rewritten on the
way.  The events are those of the frames whose data arrived: the lines in
front of the data yield nothing by themselves, data that is cut is the text of
no object, and behind the data the end of the body closes the frame.
-/

namespace QiForge

/-! ## Line ends -/

/-- The end of a line, as the server writes it or rewritten on the way. -/
def lineEnd (crlf : Bool) : List Char :=
  if crlf then ['\r', '\n'] else ['\n']

def rewriteLineEnds (crlf : Bool) (text : List Char) : List Char :=
  text.flatMap fun c => if c = '\n' then lineEnd crlf else [c]

section LineEnds

variable {crlf : Bool} {f : SseFields} {line more : List Char}

theorem rewriteLineEnds_append (front back : List Char) :
    rewriteLineEnds crlf (front ++ back) =
      rewriteLineEnds crlf front ++ rewriteLineEnds crlf back := by
  simp [rewriteLineEnds]

theorem rewriteLineEnds_plain (h : '\n' ∉ line) :
    rewriteLineEnds crlf line = line := by
  induction line with
  | nil => rfl
  | cons c line ih =>
      rw [List.mem_cons, not_or] at h
      have hc : rewriteLineEnds crlf (c :: line) =
          c :: rewriteLineEnds crlf line := by
        simp [rewriteLineEnds, Ne.symm h.1]
      rw [hc, ih h.2]

theorem rewriteLineEnds_line (h : '\n' ∉ line) :
    rewriteLineEnds crlf (line ++ '\n' :: more) =
      line ++ (lineEnd crlf ++ rewriteLineEnds crlf more) := by
  rw [rewriteLineEnds_append, rewriteLineEnds_plain h]
  simp [rewriteLineEnds]

/-- A carriage return behind a line is not part of it. -/
theorem onLine_return (h : '\r' ∉ line) :
    f.onLine (line ++ ['\r']) = f.onLine line := by
  have hlast : line.getLast? ≠ some '\r' :=
    fun hmem => h (List.mem_of_getLast? hmem)
  simp only [SseFields.onLine, List.getLast?_concat, List.dropLast_concat,
    if_true, if_neg hlast]

theorem textEvents_lineEnd (hnewline : '\n' ∉ line) (hcr : '\r' ∉ line) :
    textEvents f (line ++ (lineEnd crlf ++ more)) =
      (f.onLine line).2.toList ++ textEvents (f.onLine line).1 more := by
  cases crlf with
  | false => exact textEvents_line hnewline
  | true =>
      have hsplit : line ++ (lineEnd true ++ more) =
          (line ++ ['\r']) ++ '\n' :: more := by simp [lineEnd]
      have hplain : '\n' ∉ line ++ ['\r'] := by
        simp only [List.mem_append, List.mem_singleton, not_or]
        exact ⟨hnewline, by decide⟩
      rw [hsplit, textEvents_line hplain, onLine_return hcr]

/-- A line that does not start as data does yields nothing and leaves no
data. -/
theorem onLine_dataless (hdata : f.data = []) (hd : line.head? ≠ some 'd') :
    (f.onLine line).1.data = [] ∧ (f.onLine line).2 = none := by
  rw [SseFields.onLine]
  generalize hstrip : (if line.getLast? = some '\r' then line.dropLast
    else line) = stripped
  have hhead : stripped.head? ≠ some 'd' := by
    apply head?_of_prefix _ hd
    rw [← hstrip]
    split_ifs
    · exact List.dropLast_prefix line
    · exact List.prefix_rfl
  by_cases hempty : stripped = []
  · rw [if_pos hempty, dispatch_of_data_nil hdata]
    exact ⟨rfl, rfl⟩
  rw [if_neg hempty]
  by_cases hcolon : stripped.head? = some ':'
  · rw [if_pos hcolon]
    exact ⟨hdata, rfl⟩
  have hother : stripPrefix dataField stripped = none :=
    stripPrefix_ne (by decide) hhead
  rw [if_neg hcolon, hother]
  cases stripPrefix eventField stripped with
  | some rest => exact ⟨hdata, rfl⟩
  | none =>
      cases stripPrefix idField stripped with
      | none => exact ⟨hdata, rfl⟩
      | some rest =>
          dsimp only
          cases idNumber (trim rest) <;> exact ⟨hdata, rfl⟩

/-- The body ends in a line that does not start as data does. -/
theorem textEvents_dataless (hdata : f.data = []) (hnewline : '\n' ∉ line)
    (hd : line.head? ≠ some 'd') :
    textEvents f (line ++ ['\n', '\n']) = [] := by
  rcases onLine_dataless hdata hd with ⟨hsame, hnone⟩
  rw [textEvents_last hnewline, hnone, dispatch_of_data_nil hsame]
  rfl

/-- A text cut in a line or behind its end. -/
theorem prefix_lineEnd_cases {q : List Char} (hline : '\n' ∉ line)
    (h : q <+: line ++ (lineEnd crlf ++ more)) :
    ('\n' ∉ q ∧ q <+: line ++ lineEnd crlf) ∨
      ∃ q', q = line ++ (lineEnd crlf ++ q') ∧ q' <+: more := by
  have hends : ∀ e, e <+: lineEnd crlf → '\n' ∉ e ∨ e = lineEnd crlf := by
    intro e he
    cases crlf with
    | false =>
        rcases List.prefix_cons_iff.mp he with rfl | ⟨t, rfl, ht⟩
        · exact Or.inl (by simp)
        · obtain rfl := List.prefix_nil.mp ht
          exact Or.inr rfl
    | true =>
        rcases List.prefix_cons_iff.mp he with rfl | ⟨t, rfl, ht⟩
        · exact Or.inl (by simp)
        · rcases List.prefix_cons_iff.mp ht with rfl | ⟨t', rfl, ht'⟩
          · exact Or.inl (by decide)
          · obtain rfl := List.prefix_nil.mp ht'
            exact Or.inr rfl
  rcases prefix_append_cases h with hq | ⟨q', rfl, hq'⟩
  · exact Or.inl ⟨fun hmem => hline (hq.subset hmem),
      hq.trans (List.prefix_append _ _)⟩
  rcases prefix_append_cases hq' with he | ⟨q'', rfl, hq''⟩
  · rcases hends q' he with hnone | rfl
    · refine Or.inl ⟨?_, (List.prefix_append_right_inj line).mpr he⟩
      simp only [List.mem_append, not_or]
      exact ⟨hline, hnone⟩
    · exact Or.inr ⟨[], by simp, List.nil_prefix⟩
  · exact Or.inr ⟨q'', rfl, hq''⟩

end LineEnds

/-! ## The frames of a run -/

/-- A frame of a known event with its number; `payload` is what
`JSON.stringify` writes of the object, on one line and with nothing behind its
brace. -/
structure SentFrame where
  event : SseEventType
  id : ℕ
  payload : List Char
  fields : List (JsString × Json)
  id_pos : 0 < id
  payload_line : ∀ c ∈ payload, c ≠ '\n' ∧ c ≠ '\r'
  payload_parses : Json.parse payload = some (.obj fields)
  payload_ends : payload.getLast? = some '}'

theorem SseEventType.name_plain (event : SseEventType) :
    ∀ c ∈ event.name.toList, isJsSpace c = false := by
  cases event <;> exact @of_decide_eq_true _ (List.decidableBAll _ _) rfl

theorem sseEventType?_name (event : SseEventType) :
    sseEventType? event.name.toList = some event := by
  cases event <;> decide

namespace SentFrame

def toRunFrame (frame : SentFrame) : RunFrame where
  event := frame.event.name.toList
  id := frame.id
  payload := frame.payload
  fields := frame.fields
  event_plain := frame.event.name_plain
  payload_line := frame.payload_line
  payload_parses := frame.payload_parses

def text (frame : SentFrame) : List Char := frame.toRunFrame.formatSSE

def eventLine (frame : SentFrame) : List Char :=
  eventField ++ ' ' :: frame.event.name.toList

def idLine (frame : SentFrame) : List Char :=
  idField ++ ' ' :: numeral frame.id

def dataLine (frame : SentFrame) : List Char :=
  dataField ++ ' ' :: frame.payload

/-- The text of the frame up to the end of its data. -/
def dataText (frame : SentFrame) : List Char :=
  frame.eventLine ++ '\n' :: (frame.idLine ++ '\n' :: frame.dataLine)

def toEvent (frame : SentFrame) : SSEEvent :=
  ⟨frame.event, .obj frame.fields, some frame.id⟩

variable (frame : SentFrame)

theorem text_eq : frame.text = frame.dataText ++ ['\n', '\n'] := by
  simp [text, dataText, eventLine, idLine, dataLine, RunFrame.formatSSE,
    frame.id_pos, toRunFrame]

/-! ## One frame, cut -/

theorem eventLine_plain : '\n' ∉ frame.eventLine ∧ '\r' ∉ frame.eventLine :=
  frame.toRunFrame.event_line_plain

theorem idLine_plain : '\n' ∉ frame.idLine ∧ '\r' ∉ frame.idLine :=
  frame.toRunFrame.id_line_plain

theorem dataLine_plain : '\n' ∉ frame.dataLine ∧ '\r' ∉ frame.dataLine :=
  frame.toRunFrame.data_line_plain

theorem dataText_lines (crlf : Bool) : rewriteLineEnds crlf frame.dataText =
      frame.eventLine ++ (lineEnd crlf ++
        (frame.idLine ++ (lineEnd crlf ++ frame.dataLine))) := by
  rw [dataText, rewriteLineEnds_line frame.eventLine_plain.1,
    rewriteLineEnds_line frame.idLine_plain.1,
    rewriteLineEnds_plain frame.dataLine_plain.1]

/-- The lines in front of the data are read. -/
theorem textEvents_eventLine (crlf : Bool) (more : List Char) :
    textEvents .empty (frame.eventLine ++ (lineEnd crlf ++ more)) =
      textEvents { SseFields.empty with event := frame.event.name.toList }
        more := by
  rw [textEvents_lineEnd frame.eventLine_plain.1 frame.eventLine_plain.2,
    eventLine, onLine_event frame.event.name_plain]
  rfl

theorem textEvents_idLine (crlf : Bool) (more : List Char) :
    textEvents { SseFields.empty with event := frame.event.name.toList }
        (frame.idLine ++ (lineEnd crlf ++ more)) =
      textEvents frame.toRunFrame.head more := by
  have hid : 0 < frame.toRunFrame.id := frame.id_pos
  rw [textEvents_lineEnd frame.idLine_plain.1 frame.idLine_plain.2, idLine,
    onLine_id, RunFrame.head, if_pos hid]
  rfl

/-- The data cut short is the text of no object. -/
theorem parse_cut_none {payload flush : List Char}
    (hpayload : payload <+: frame.payload) (hne : payload ≠ frame.payload)
    (hflush : flush = [] ∨ flush = [replacement]) :
    Json.parse (payload ++ flush) = none := by
  rcases hpayload with ⟨back, hback⟩
  have hparses := frame.payload_parses
  rw [← hback] at hparses
  rcases hflush with rfl | rfl
  · rw [List.append_nil]
    by_contra hparsed
    rcases Option.ne_none_iff_exists'.mp hparsed with ⟨json, hjson⟩
    have hspaces := Json.parse_front_rest hparses hjson
    have hends := frame.payload_ends
    cases hlast : back.getLast? with
    | none =>
        obtain rfl := List.getLast?_eq_none_iff.mp hlast
        exact hne (by simpa using hback)
    | some c =>
        rw [← hback, List.getLast?_append, hlast] at hends
        obtain rfl : c = '}' := by simpa using hends
        have hbrace := List.all_eq_true.mp hspaces _
          (List.mem_of_getLast? hlast)
        exact absurd hbrace (by decide)
  · exact Json.parse_front_bad hparses (by decide) (by decide)
      RunFrame.replacement_value

/-- Cut in its data line, a frame yields nothing. -/
theorem cut_dataLine {line flush : List Char}
    (hline : line <+: frame.dataLine) (hne : line ≠ frame.dataLine)
    (hflush : flush = [] ∨ flush = [replacement]) :
    textEvents frame.toRunFrame.head (line ++ flush ++ ['\n', '\n']) = [] := by
  have hplain := plain_flush (fun h => frame.dataLine_plain.1 (hline.subset h))
    (fun h => frame.dataLine_plain.2 (hline.subset h)) hflush
  rcases frame.toRunFrame.dataLine_cut hline hflush with
    hnone | ⟨payload, rest, hpayload, hstrip, hvalue, hwhole⟩
  · exact textEvents_ended rfl hplain.1 hplain.2 hnone
  · have hshort : payload ≠ frame.payload := fun h => hne (hwhole h)
    rw [textEvents_last hplain.1, onLine_data hplain.2 hstrip, hvalue]
    have hdispatch : SseFields.dispatch
        ⟨frame.event.name.toList, [payload ++ flush],
          frame.toRunFrame.head.id⟩ = none := by
      rw [dispatch_payload, frame.parse_cut_none hpayload hshort hflush]
      cases sseEventType? frame.event.name.toList <;> rfl
    exact congrArg Option.toList hdispatch

/-- Cut before the end of its data, a frame yields nothing. -/
theorem cut_dataText {crlf : Bool} {whole flush : List Char}
    (hwhole : whole <+: rewriteLineEnds crlf frame.dataText)
    (hne : whole ≠ rewriteLineEnds crlf frame.dataText)
    (hflush : flush = [] ∨ flush = [replacement]) :
    textEvents .empty (whole ++ (flush ++ ['\n', '\n'])) = [] := by
  -- a line in front of the data, with what the decoder kept of a character
  have hother : ∀ (f : SseFields) (line word : List Char), f.data = [] →
      '\n' ∉ line → line <+: word → word.head? ≠ some 'd' →
        textEvents f (line ++ (flush ++ ['\n', '\n'])) = [] := by
    intro f line word hdata hnewline hword hhead
    rw [← List.append_assoc]
    apply textEvents_dataless hdata
    · rcases hflush with rfl | rfl
      · rwa [List.append_nil]
      · simp only [List.mem_append, List.mem_singleton, not_or]
        exact ⟨hnewline, by decide⟩
    · cases line with
      | nil => rcases hflush with rfl | rfl <;> decide
      | cons c line =>
          have hc := head?_of_prefix hword hhead
          rw [List.cons_append, List.head?_cons]
          rwa [List.head?_cons] at hc
  rw [frame.dataText_lines crlf] at hwhole hne
  rcases prefix_lineEnd_cases frame.eventLine_plain.1 hwhole with
    ⟨hnewline, hevent⟩ | ⟨behind, rfl, hbehind⟩
  · exact hother _ whole _ rfl hnewline hevent
      (by simp [eventLine, eventField])
  rw [List.append_assoc, List.append_assoc, frame.textEvents_eventLine]
  rcases prefix_lineEnd_cases frame.idLine_plain.1 hbehind with
    ⟨hnewline, hid⟩ | ⟨line, rfl, hline⟩
  · exact hother _ behind _ rfl hnewline hid (by simp [idLine, idField])
  rw [List.append_assoc, List.append_assoc, frame.textEvents_idLine,
    ← List.append_assoc]
  apply frame.cut_dataLine hline _ hflush
  rintro rfl
  exact hne rfl

/-- The fields once the data is read. -/
def readFields : SseFields :=
  ⟨frame.event.name.toList, [frame.payload], some frame.id⟩

theorem dispatch_readFields : frame.readFields.dispatch = some frame.toEvent := by
  rw [readFields, dispatch_payload, sseEventType?_name, frame.payload_parses]
  rfl

theorem onLine_dataLine :
    frame.toRunFrame.head.onLine frame.dataLine = (frame.readFields, none) := by
  have hid : 0 < frame.toRunFrame.id := frame.id_pos
  have hstrip : stripPrefix dataField frame.dataLine =
      some (' ' :: frame.payload) := stripPrefix_append _ _
  rw [onLine_data frame.dataLine_plain.2 hstrip, RunFrame.head, if_pos hid]
  rfl

theorem textEvents_dataText (crlf : Bool) (more : List Char) :
    textEvents .empty (rewriteLineEnds crlf frame.dataText ++ more) =
      textEvents frame.toRunFrame.head (frame.dataLine ++ more) := by
  rw [frame.dataText_lines]
  simp only [List.append_assoc]
  rw [frame.textEvents_eventLine, frame.textEvents_idLine]

theorem textEvents_return (f : SseFields) (more : List Char) :
    textEvents f ('\r' :: '\n' :: more) =
      f.dispatch.toList ++ textEvents .empty more := by
  have hplain : '\n' ∉ ['\r'] := by decide
  exact textEvents_line hplain

/-- Closed behind its data, in whatever part of the line ends behind it, a
frame is read. -/
theorem textEvents_closed (crlf : Bool) {ends : List Char}
    (hends : ends ∈ [[], ['\n'], ['\r'], ['\r', '\n'], ['\r', '\n', '\r']]) :
    textEvents .empty (rewriteLineEnds crlf frame.dataText ++
        (ends ++ ['\n', '\n'])) = [frame.toEvent] := by
  have hnone : textEvents .empty [] = [] := rfl
  have hblank : ∀ more, textEvents .empty ('\n' :: more) =
      textEvents .empty more := by
    intro more
    rw [textEvents_blank, empty_dispatch]
    rfl
  have hdispatch := frame.dispatch_readFields
  have hline : ∀ more, textEvents frame.toRunFrame.head
      (frame.dataLine ++ '\n' :: more) = textEvents frame.readFields more := by
    intro more
    rw [textEvents_line frame.dataLine_plain.1, frame.onLine_dataLine]
    rfl
  have hreturn : ∀ more, textEvents frame.toRunFrame.head
      (frame.dataLine ++ '\r' :: '\n' :: more) =
        textEvents frame.readFields more := by
    intro more
    have h : textEvents frame.toRunFrame.head
        (frame.dataLine ++ (lineEnd true ++ more)) = _ :=
      textEvents_lineEnd frame.dataLine_plain.1 frame.dataLine_plain.2
    rw [frame.onLine_dataLine] at h
    exact h
  rw [frame.textEvents_dataText]
  simp only [List.mem_cons, List.not_mem_nil, or_false] at hends
  rcases hends with rfl | rfl | rfl | rfl | rfl
  · simp only [List.nil_append]
    rw [hline, textEvents_blank, hdispatch, hnone]
    rfl
  · simp only [List.cons_append, List.nil_append]
    rw [hline, textEvents_blank, hdispatch, hblank, hnone]
    rfl
  · simp only [List.cons_append, List.nil_append]
    rw [hreturn, textEvents_blank, hdispatch, hnone]
    rfl
  · simp only [List.cons_append, List.nil_append]
    rw [hreturn, textEvents_blank, hdispatch, hblank, hnone]
    rfl
  · simp only [List.cons_append, List.nil_append]
    rw [hreturn, textEvents_return, hdispatch, hblank, hnone]
    rfl

end SentFrame

/-! ## A stream, cut -/

/-- What the runtime writes to a subscriber. -/
inductive SentWrite where
  | frame (f : SentFrame)
  | heartbeat

namespace SentWrite

def text : SentWrite → List Char
  | .frame f => f.text
  | .heartbeat => QiForge.heartbeat

def toEvent? : SentWrite → Option SSEEvent
  | .frame f => some f.toEvent
  | .heartbeat => none

end SentWrite

def byteLength (crlf : Bool) (text : List Char) : ℕ :=
  (encodeText (rewriteLineEnds crlf text)).length

def sentBytes (crlf : Bool) (writes : List SentWrite) : List ℕ :=
  encodeText (rewriteLineEnds crlf (writes.flatMap SentWrite.text))

/-- Where the data of each frame ends, from the position the writes start
at. -/
def dataEnds (crlf : Bool) : ℕ → List SentWrite → List (ℕ × SSEEvent)
  | _, [] => []
  | n, .heartbeat :: writes =>
      dataEnds crlf (n + byteLength crlf heartbeat) writes
  | n, .frame f :: writes =>
      (n + byteLength crlf f.dataText, f.toEvent) ::
        dataEnds crlf (n + byteLength crlf f.text) writes

/-- The events of the frames whose data ends within the first `k` bytes. -/
def completeIn (crlf : Bool) (writes : List SentWrite) (k : ℕ) :
    List SSEEvent :=
  ((dataEnds crlf 0 writes).filter fun e => decide (e.1 ≤ k)).map Prod.snd

/-- The events of a body of these bytes that was ended. -/
def endedEvents (bytes : List ℕ) : List SSEEvent :=
  textEvents .empty ((Utf8Decoder.start.feed bytes).2 ++
    ((Utf8Decoder.start.feed bytes).1.flush ++ ['\n', '\n']))

theorem parseSSEStream_ended {body : SseBody} (hended : body.ended = true) :
    parseSSEStream body = endedEvents body.chunks.flatten := by
  rw [parseSSEStream_eq, if_pos hended]
  rfl

section Cut

variable {crlf : Bool}

theorem encodeText_append (front back : List Char) :
    encodeText (front ++ back) = encodeText front ++ encodeText back := by
  simp [encodeText]

theorem endedEvents_append (text : List Char) (bytes : List ℕ) :
    endedEvents (encodeText text ++ bytes) =
      textEvents .empty (text ++ ((Utf8Decoder.start.feed bytes).2 ++
        ((Utf8Decoder.start.feed bytes).1.flush ++ ['\n', '\n']))) := by
  rw [endedEvents, Utf8Decoder.feed_append, Utf8Decoder.feed_encodeText]
  simp

theorem endedEvents_encodeText (text : List Char) :
    endedEvents (encodeText text) =
      textEvents .empty (text ++ ['\n', '\n']) := by
  have h := endedEvents_append text []
  rw [List.append_nil] at h
  exact h

theorem byteLength_append (front back : List Char) :
    byteLength crlf (front ++ back) =
      byteLength crlf front + byteLength crlf back := by
  rw [byteLength, rewriteLineEnds_append, encodeText_append,
    List.length_append]
  rfl

theorem sentBytes_cons (w : SentWrite) (writes : List SentWrite) :
    sentBytes crlf (w :: writes) =
      encodeText (rewriteLineEnds crlf w.text) ++ sentBytes crlf writes := by
  rw [sentBytes, List.flatMap_cons, rewriteLineEnds_append, encodeText_append]
  rfl

theorem rewriteLineEnds_blank :
    rewriteLineEnds crlf ['\n', '\n'] = lineEnd crlf ++ lineEnd crlf := by
  simp [rewriteLineEnds]

theorem textEvents_sentWrite (w : SentWrite) (more : List Char) :
    textEvents .empty (rewriteLineEnds crlf w.text ++ more) =
      w.toEvent?.toList ++ textEvents .empty more := by
  have hplain : '\n' ∉ ([] : List Char) ∧ '\r' ∉ ([] : List Char) := by simp
  have hblank : ∀ (f : SseFields) more, textEvents f (lineEnd crlf ++ more) =
        f.dispatch.toList ++ textEvents .empty more :=
    fun f more => textEvents_lineEnd hplain.1 hplain.2
  cases w with
  | frame f =>
      have htext : rewriteLineEnds crlf (SentWrite.frame f).text ++ more =
          rewriteLineEnds crlf f.dataText ++
            (lineEnd crlf ++ (lineEnd crlf ++ more)) := by
        rw [SentWrite.text, f.text_eq, rewriteLineEnds_append,
          rewriteLineEnds_blank, List.append_assoc, List.append_assoc]
      rw [htext, f.textEvents_dataText, textEvents_lineEnd f.dataLine_plain.1
        f.dataLine_plain.2, f.onLine_dataLine, hblank, f.dispatch_readFields]
      rfl
  | heartbeat =>
      have hline : '\n' ∉ heartbeat.dropLast.dropLast ∧
          '\r' ∉ heartbeat.dropLast.dropLast := by decide
      have htext : rewriteLineEnds crlf SentWrite.heartbeat.text ++ more =
          heartbeat.dropLast.dropLast ++
            (lineEnd crlf ++ (lineEnd crlf ++ more)) := by
        have hsplit : SentWrite.heartbeat.text =
            heartbeat.dropLast.dropLast ++ '\n' :: ['\n'] := rfl
        have hlast : rewriteLineEnds crlf ['\n'] = lineEnd crlf := by
          simp [rewriteLineEnds]
        rw [hsplit, rewriteLineEnds_line hline.1, hlast, List.append_assoc,
          List.append_assoc]
      rw [htext, textEvents_lineEnd hline.1 hline.2, hblank]
      rfl

/-- A whole write, and what the bytes behind it yield. -/
theorem endedEvents_write (w : SentWrite) (bytes : List ℕ) :
    endedEvents (encodeText (rewriteLineEnds crlf w.text) ++ bytes) =
      w.toEvent?.toList ++ endedEvents bytes := by
  rw [endedEvents_append, textEvents_sentWrite]
  rfl

/-- The parts of the line ends behind the data of a frame. -/
theorem take_blank {j : ℕ} (hj : j < byteLength crlf ['\n', '\n']) :
    (encodeText (rewriteLineEnds crlf ['\n', '\n'])).take j =
        encodeText ((rewriteLineEnds crlf ['\n', '\n']).take j) ∧
      (rewriteLineEnds crlf ['\n', '\n']).take j ∈ [[], ['\n'], ['\r'],
        ['\r', '\n'], ['\r', '\n', '\r']] := by
  cases crlf with
  | false =>
      have hlt : j < 2 := hj
      interval_cases j <;> decide
  | true =>
      have hlt : j < 4 := hj
      interval_cases j <;> decide

/-- A cut frame is read if its data is there. -/
theorem endedEvents_cut_frame (f : SentFrame) {k : ℕ}
    (hk : k < byteLength crlf f.text) :
    endedEvents ((encodeText (rewriteLineEnds crlf f.text)).take k) =
      if byteLength crlf f.dataText ≤ k then [f.toEvent] else [] := by
  have htext : encodeText (rewriteLineEnds crlf f.text) =
      encodeText (rewriteLineEnds crlf f.dataText) ++
        encodeText (rewriteLineEnds crlf ['\n', '\n']) := by
    rw [f.text_eq, rewriteLineEnds_append, encodeText_append]
  rw [f.text_eq, byteLength_append] at hk
  split_ifs with hdata
  · -- cut in the line ends behind the data
    obtain ⟨j, rfl⟩ := Nat.exists_eq_add_of_le hdata
    rcases take_blank (Nat.add_lt_add_iff_left.mp hk) with ⟨htake, hends⟩
    rw [htext, byteLength, List.take_length_add_append, htake,
      ← encodeText_append, endedEvents_encodeText, List.append_assoc]
    exact f.textEvents_closed crlf hends
  · have hshort : k < (encodeText (rewriteLineEnds crlf f.dataText)).length :=
      Nat.lt_of_not_le hdata
    rw [htext, List.take_append_of_le_length hshort.le, endedEvents]
    rcases Utf8Decoder.feed_take_encodeText
      (rewriteLineEnds crlf f.dataText) k with
      ⟨whole, rest, hsplit, hout, hflush, hlen⟩
    rw [hout]
    apply f.cut_dataText ⟨rest, hsplit.symm⟩
    · intro hwhole
      rw [hwhole] at hlen
      omega
    · exact hflush.imp id And.left

/-- A cut comment yields nothing. -/
theorem endedEvents_cut_heartbeat {k : ℕ} :
    endedEvents ((encodeText (rewriteLineEnds crlf heartbeat)).take k) =
      [] := by
  have hlen : (encodeText (rewriteLineEnds crlf heartbeat)).length ≤ 15 := by
    cases crlf <;> decide
  rcases Nat.lt_or_ge k 15 with hlt | hge
  · cases crlf <;> interval_cases k <;> rfl
  · rw [List.take_of_length_le (by omega)]
    cases crlf <;> rfl

/-! ## All of the stream -/

theorem le_dataEnds (writes : List SentWrite) {n : ℕ} {e : ℕ × SSEEvent}
    (h : e ∈ dataEnds crlf n writes) : n ≤ e.1 := by
  induction writes generalizing n with
  | nil => simp [dataEnds] at h
  | cons w writes ih =>
      cases w with
      | heartbeat =>
          have hle := ih h
          omega
      | frame f =>
          rcases List.mem_cons.mp h with rfl | hrest
          · exact Nat.le_add_right n _
          · have hle := ih hrest
            omega

theorem filter_dataEnds_nil (writes : List SentWrite) {n k : ℕ} (hk : k < n) :
    (dataEnds crlf n writes).filter (fun e => decide (e.1 ≤ k)) = [] := by
  rw [List.filter_eq_nil_iff]
  intro e he
  have hle := le_dataEnds writes he
  simp
  omega

theorem endedEvents_take (writes : List SentWrite) (n k : ℕ) :
    endedEvents ((sentBytes crlf writes).take k) =
      ((dataEnds crlf n writes).filter fun e =>
        decide (e.1 ≤ n + k)).map Prod.snd := by
  induction writes generalizing n k with
  | nil =>
      rw [sentBytes, List.flatMap_nil]
      simp [rewriteLineEnds, encodeText, dataEnds]
      rfl
  | cons w writes ih =>
      rw [sentBytes_cons]
      by_cases hk : k < byteLength crlf w.text
      · -- the cut is in this write, and all data behind it is missing
        rw [List.take_append_of_le_length hk.le]
        cases w with
        | heartbeat =>
            rw [dataEnds, filter_dataEnds_nil writes (by
              have hlt : k < byteLength crlf heartbeat := hk
              omega)]
            exact endedEvents_cut_heartbeat
        | frame f =>
            have hlt : k < byteLength crlf f.text := hk
            rw [dataEnds, List.filter_cons,
              filter_dataEnds_nil writes (by omega)]
            change endedEvents ((encodeText
              (rewriteLineEnds crlf f.text)).take k) = _
            rw [endedEvents_cut_frame f hlt]
            by_cases hdata : byteLength crlf f.dataText ≤ k
            · simp [hdata]
            · simp [hdata]
      · have hsplit : (encodeText (rewriteLineEnds crlf w.text) ++
            sentBytes crlf writes).take k =
              encodeText (rewriteLineEnds crlf w.text) ++
                (sentBytes crlf writes).take (k - byteLength crlf w.text) := by
          have hge : (encodeText (rewriteLineEnds crlf w.text)).length ≤ k :=
            Nat.le_of_not_lt hk
          rw [List.take_append, List.take_of_length_le hge]
          rfl
        have hsum : n + byteLength crlf w.text +
            (k - byteLength crlf w.text) = n + k := by omega
        rw [hsplit, endedEvents_write, ih (n + byteLength crlf w.text), hsum]
        cases w with
        | heartbeat => rfl
        | frame f =>
            have hdata : byteLength crlf f.dataText ≤ k := by
              have hge : byteLength crlf f.text ≤ k := Nat.le_of_not_lt hk
              rw [f.text_eq, byteLength_append] at hge
              omega
            rw [dataEnds, List.filter_cons]
            simp [hdata, SentWrite.toEvent?, SentWrite.text]

/-- Every frame ends its data within the bytes of the stream. -/
theorem completeIn_of_length_le (writes : List SentWrite) {n k : ℕ}
    (hk : n + (sentBytes crlf writes).length ≤ k) :
    ((dataEnds crlf n writes).filter fun e => decide (e.1 ≤ k)).map
        Prod.snd = writes.filterMap SentWrite.toEvent? := by
  induction writes generalizing n with
  | nil => rfl
  | cons w writes ih =>
      rw [sentBytes_cons, List.length_append] at hk
      cases w with
      | heartbeat =>
          rw [dataEnds, ih (by
            have hlen : (encodeText (rewriteLineEnds crlf
              SentWrite.heartbeat.text)).length = byteLength crlf heartbeat :=
                rfl
            omega)]
          rfl
      | frame f =>
          have hlen : (encodeText (rewriteLineEnds crlf
              (SentWrite.frame f).text)).length = byteLength crlf f.text := rfl
          have hdata : n + byteLength crlf f.dataText ≤ k := by
            rw [f.text_eq, byteLength_append] at hlen
            omega
          rw [dataEnds, List.filter_cons, if_pos (by simpa using hdata),
            List.map_cons, ih (by omega)]
          rfl

end Cut

/-- Whatever the reads cut the bytes into, an ended body yields the events of
the frames whose data is complete in what arrived of the stream: of all of
them when it arrived whole. -/
theorem parseSSEStream_complete (crlf : Bool) (writes : List SentWrite)
    (k : ℕ) (body : SseBody) (hended : body.ended = true)
    (hbytes : body.chunks.flatten = (sentBytes crlf writes).take k) :
    parseSSEStream body = completeIn crlf writes k ∧
      ((sentBytes crlf writes).length ≤ k →
        parseSSEStream body = writes.filterMap SentWrite.toEvent?) := by
  have hevents : parseSSEStream body = completeIn crlf writes k := by
    rw [parseSSEStream_ended hended, hbytes, endedEvents_take writes 0 k,
      Nat.zero_add]
    rfl
  refine ⟨hevents, fun hk => ?_⟩
  rw [hevents, completeIn, completeIn_of_length_le writes (by omega)]

def doneFrame : SentFrame where
  event := .done
  id := 7
  payload := ['{', '}']
  fields := []
  id_pos := by decide
  payload_line := @of_decide_eq_true _ (List.decidableBAll _ _) rfl
  payload_parses := rfl
  payload_ends := rfl

/-- Cut behind the carriage return of its data line, the frame is there. -/
theorem parseSSEStream_complete_done : parseSSEStream
          ⟨[(sentBytes true [.heartbeat, .frame doneFrame]).take 20,
            ((sentBytes true [.heartbeat, .frame doneFrame]).take 44).drop
              20], true⟩ =
        completeIn true [.heartbeat, .frame doneFrame] 44 ∧
      ((sentBytes true [.heartbeat, .frame doneFrame]).length ≤ 44 →
        parseSSEStream
            ⟨[(sentBytes true [.heartbeat, .frame doneFrame]).take 20,
              ((sentBytes true [.heartbeat, .frame doneFrame]).take 44).drop
                20], true⟩ =
          [SentWrite.heartbeat, .frame doneFrame].filterMap
            SentWrite.toEvent?) :=
  parseSSEStream_complete true [.heartbeat, .frame doneFrame] 44 _ rfl
    (by decide)

end QiForge
