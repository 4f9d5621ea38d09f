import QiForge.SseParser

/-!
# Reading a cut stream

However the bytes of a response are cut into chunks, the parser sees the same
lines.  A body cut at any byte yields the events of the first frames that were
written: a frame the cut runs through is dropped, or read whole when its data
had arrived.
-/

namespace QiForge

section Lines

theorem splitLines_append (a b : List Char) :
    splitLines (a ++ b) =
      ((splitLines a).1 ++ (splitLines ((splitLines a).2 ++ b)).1,
        (splitLines ((splitLines a).2 ++ b)).2) := by
  induction a with
  | nil => simp [splitLines]
  | cons c a ih =>
      by_cases hc : c = '\n'
      · simp [splitLines, hc, ih]
      · cases hlines : splitLines a with
        | mk lines rest =>
            rw [hlines] at ih
            cases lines with
            | nil => simp [splitLines, hc, ih, hlines]
            | cons line lines => simp [splitLines, hc, ih, hlines]

theorem splitLines_plain {line : List Char} (h : '\n' ∉ line) :
    splitLines line = ([], line) := by
  induction line with
  | nil => rfl
  | cons c line ih =>
      simp only [List.mem_cons, not_or] at h
      simp [splitLines, Ne.symm h.1, ih h.2]

theorem splitLines_line {line : List Char} (h : '\n' ∉ line)
    (more : List Char) :
    splitLines (line ++ '\n' :: more) =
      (line :: (splitLines more).1, (splitLines more).2) := by
  induction line with
  | nil => simp [splitLines]
  | cons c line ih =>
      simp only [List.mem_cons, not_or] at h
      simp [splitLines, Ne.symm h.1, ih h.2]

theorem splitLines_rest (text : List Char) : '\n' ∉ (splitLines text).2 := by
  induction text with
  | nil => simp [splitLines]
  | cons c text ih =>
      by_cases hc : c = '\n'
      · simpa [splitLines, hc] using ih
      · cases hlines : splitLines text with
        | mk lines rest =>
            rw [hlines] at ih
            cases lines with
            | nil => simpa [splitLines, hc, hlines, Ne.symm hc] using ih
            | cons line lines => simpa [splitLines, hc, hlines] using ih

end Lines

namespace SseReader

theorem onLines_append (f : SseFields) (a b : List (List Char)) :
    onLines f (a ++ b) = ((onLines (onLines f a).1 b).1,
        (onLines f a).2 ++ (onLines (onLines f a).1 b).2) := by
  induction a generalizing f with
  | nil => rfl
  | cons line a ih => simp [onLines, ih]

theorem readText_append (r : SseReader) (a b : List Char) :
    r.readText (a ++ b) = (((r.readText a).1.readText b).1,
        (r.readText a).2 ++ ((r.readText a).1.readText b).2) := by
  unfold readText
  rw [← List.append_assoc, splitLines_append]
  simp only [onLines_append]

theorem readChunk_append (r : SseReader) (a b : List ℕ) :
    r.readChunk (a ++ b) = (((r.readChunk a).1.readChunk b).1,
        (r.readChunk a).2 ++ ((r.readChunk a).1.readChunk b).2) := by
  unfold readChunk
  rw [Utf8Decoder.feed_append]
  exact readText_append _ _ _

/-- Chunks make no difference. -/
theorem readChunks_flatten {r : SseReader} (h : '\n' ∉ r.buffer)
    (chunks : List (List ℕ)) :
    r.readChunks chunks = r.readChunk chunks.flatten := by
  induction chunks generalizing r with
  | nil =>
      simp [readChunks, readChunk, readText, Utf8Decoder.feed,
        splitLines_plain h, onLines]
  | cons chunk chunks ih =>
      have hnext : '\n' ∉ (r.readChunk chunk).1.buffer :=
        splitLines_rest _
      rw [List.flatten_cons, readChunk_append, ← ih hnext]
      rfl

end SseReader

/-- The events of a text that starts on a line of its own. -/
def textEvents (f : SseFields) (text : List Char) : List SSEEvent :=
  (SseReader.onLines f (splitLines text).1).2

theorem parseSSEStream_eq (body : SseBody) : parseSSEStream body =
      textEvents .empty ((Utf8Decoder.start.feed body.chunks.flatten).2 ++
        if body.ended then
          (Utf8Decoder.start.feed body.chunks.flatten).1.flush ++ ['\n', '\n']
        else []) := by
  have hplain : '\n' ∉ SseReader.start.buffer := by
    simp [SseReader.start]
  have htext : ∀ text : List Char,
      (SseReader.start.readText text).2 = textEvents .empty text :=
    fun _ => rfl
  unfold parseSSEStream
  rw [SseReader.readChunks_flatten hplain]
  cases body.ended with
  | false =>
      simp only [Bool.false_eq_true, if_false, List.append_nil]
      rfl
  | true =>
      simp only [if_true]
      rw [← htext, SseReader.readText_append]
      rfl

section Text

variable {f : SseFields} {line more : List Char}

theorem textEvents_line (h : '\n' ∉ line) :
    textEvents f (line ++ '\n' :: more) =
      (f.onLine line).2.toList ++ textEvents (f.onLine line).1 more := by
  unfold textEvents
  rw [splitLines_line h]
  rfl

theorem textEvents_plain (h : '\n' ∉ line) : textEvents f line = [] := by
  unfold textEvents
  rw [splitLines_plain h]
  rfl

theorem onLine_nil : f.onLine [] = (.empty, f.dispatch) := rfl

theorem textEvents_blank (f : SseFields) (more : List Char) :
    textEvents f ('\n' :: more) =
      f.dispatch.toList ++ textEvents .empty more := by
  have hline : '\n' ∉ ([] : List Char) := by simp
  exact textEvents_line hline

theorem dispatch_of_data_nil (h : f.data = []) : f.dispatch = none := by
  simp [SseFields.dispatch, h]

theorem stripPrefix_append (word rest : List Char) :
    stripPrefix word (word ++ rest) = some rest := by
  unfold stripPrefix
  rw [if_pos (by simp), List.drop_left]

theorem trim_plain {text : List Char}
    (h : ∀ c ∈ text, isJsSpace c = false) : trim text = text := by
  have hdrop : ∀ {l : List Char}, (∀ c ∈ l, isJsSpace c = false) →
      l.dropWhile isJsSpace = l := by
    intro l hl
    cases l with
    | nil => rfl
    | cons c l => simp [hl c (by simp)]
  unfold trim
  rw [hdrop h, hdrop, List.reverse_reverse]
  intro c hc
  exact h c (List.mem_reverse.mp hc)

theorem trim_space {text : List Char}
    (h : ∀ c ∈ text, isJsSpace c = false) : trim (' ' :: text) = text := by
  have hspace : (' ' :: text).dropWhile isJsSpace =
      text.dropWhile isJsSpace := rfl
  have hplain := trim_plain h
  unfold trim at hplain ⊢
  rw [hspace, hplain]

theorem numeral_plain (n : ℕ) : ∀ c ∈ numeral n, isJsSpace c = false := by
  intro c hc
  have hdigit := Nat.isDigit_of_mem_toDigits (by decide) (by decide) hc
  simp only [Char.isDigit, Bool.and_eq_true, decide_eq_true_eq] at hdigit
  have hlow : 48 ≤ c.toNat := hdigit.1
  have hhigh : c.toNat ≤ 57 := hdigit.2
  unfold isJsSpace
  simp only [Bool.or_eq_false_iff, Bool.and_eq_false_iff,
    decide_eq_false_iff_not]
  omega

theorem idNumber_numeral (n : ℕ) : idNumber (numeral n) = some n := by
  have hall : (numeral n).all Char.isDigit = true :=
    List.all_eq_true.mpr fun c hc =>
      Nat.isDigit_of_mem_toDigits (by decide) (by decide) hc
  unfold idNumber
  rw [if_pos hall]
  exact congrArg some Nat.ofDigitChars_ten_toDigits

theorem plain_of_not_space {text : List Char}
    (h : ∀ c ∈ text, isJsSpace c = false) : '\n' ∉ text ∧ '\r' ∉ text := by
  constructor
  · intro hmem
    exact absurd (h _ hmem) (by decide)
  · intro hmem
    exact absurd (h _ hmem) (by decide)

theorem stripPrefix_ne {word : List Char} (hword : word ≠ [])
    (hhead : line.head? ≠ word.head?) : stripPrefix word line = none := by
  unfold stripPrefix
  rw [if_neg]
  cases word with
  | nil => exact absurd rfl hword
  | cons c word =>
      cases line with
      | nil => simp
      | cons d line =>
          have hne : c ≠ d := fun h => hhead (by simp [h])
          simp [hne]

/-- A line that is neither empty nor ended by a carriage return is read as it
is. -/
theorem onLine_field (hne : line ≠ []) (hcr : '\r' ∉ line)
    (hcolon : line.head? ≠ some ':') :
    f.onLine line =
      match stripPrefix eventField line with
      | some rest => ({ f with event := trim rest }, none)
      | none =>
          match stripPrefix dataField line with
          | some rest =>
              ({ f with data := f.data ++
                [if rest.head? = some ' ' then rest.tail else rest] }, none)
          | none =>
              match stripPrefix idField line with
              | some rest =>
                  match idNumber (trim rest) with
                  | some n => ({ f with id := some n }, none)
                  | none => (f, none)
              | none => (f, none) := by
  have hlast : line.getLast? ≠ some '\r' :=
    fun h => hcr (List.mem_of_getLast? h)
  unfold SseFields.onLine
  rw [if_neg hlast]
  rewrite [if_neg hne, if_neg hcolon]
  rfl

/-- A line that is not of the data leaves the data as it is. -/
theorem onLine_other (hne : line ≠ []) (hcr : '\r' ∉ line)
    (hdata : stripPrefix dataField line = none) :
    (f.onLine line).1.data = f.data ∧ (f.onLine line).2 = none := by
  by_cases hcolon : line.head? = some ':'
  · have hlast : line.getLast? ≠ some '\r' :=
      fun h => hcr (List.mem_of_getLast? h)
    unfold SseFields.onLine
    rw [if_neg hlast]
    rw [if_neg hne, if_pos hcolon]
    exact ⟨rfl, rfl⟩
  · rw [onLine_field hne hcr hcolon, hdata]
    split
    · exact ⟨rfl, rfl⟩
    · dsimp only
      split
      · split
        · exact ⟨rfl, rfl⟩
        · exact ⟨rfl, rfl⟩
      · exact ⟨rfl, rfl⟩

theorem onLine_event {event : List Char}
    (h : ∀ c ∈ event, isJsSpace c = false) :
    f.onLine (eventField ++ ' ' :: event) =
      ({ f with event := event }, none) := by
  have hcr : '\r' ∉ eventField ++ ' ' :: event := by
    simp [eventField, (plain_of_not_space h).2]
  rw [onLine_field (by simp) hcr (by simp [eventField]),
    stripPrefix_append]
  dsimp only
  rw [trim_space h]

theorem onLine_id (n : ℕ) : f.onLine (idField ++ ' ' :: numeral n) =
      ({ f with id := some n }, none) := by
  have hcr : '\r' ∉ idField ++ ' ' :: numeral n := by
    simp [idField, (plain_of_not_space (numeral_plain n)).2]
  have hevent : stripPrefix eventField (idField ++ ' ' :: numeral n) =
      none := stripPrefix_ne (by decide) (by simp [idField, eventField])
  have hdata : stripPrefix dataField (idField ++ ' ' :: numeral n) =
      none := stripPrefix_ne (by decide) (by simp [idField, dataField])
  rw [onLine_field (by simp) hcr (by simp [idField]), hevent, hdata,
    stripPrefix_append]
  dsimp only
  rw [trim_space (numeral_plain n), idNumber_numeral]

theorem onLine_data {rest : List Char} (hcr : '\r' ∉ line)
    (h : stripPrefix dataField line = some rest) :
    f.onLine line = ({ f with data := f.data ++
        [if rest.head? = some ' ' then rest.tail else rest] }, none) := by
  have hhead : line.head? = some 'd' := by
    by_contra hd
    rw [stripPrefix_ne (by decide) hd] at h
    exact absurd h (by simp)
  have hevent : stripPrefix eventField line = none :=
    stripPrefix_ne (by decide) (by rw [hhead]; decide)
  have hne : line ≠ [] := by
    rintro rfl
    exact absurd hhead (by simp)
  rw [onLine_field hne hcr (by rw [hhead]; decide), hevent, h]

theorem intercalate_singleton (payload : List Char) :
    List.intercalate ['\n'] [payload] = payload := by
  simp [List.intercalate]

theorem dispatch_payload (event payload : List Char) (id : Option ℕ) :
    SseFields.dispatch ⟨event, [payload], id⟩ =
      (sseEventType? event).bind fun found =>
        (Json.parse payload).map fun data => ⟨found, data, id⟩ := by
  unfold SseFields.dispatch
  dsimp only
  rw [intercalate_singleton]
  split_ifs with hempty
  · rcases hempty with rfl | rfl
    · have hnone : sseEventType? [] = none := by decide
      rw [hnone]
      rfl
    · have hnone : Json.parse [] = none := rfl
      rw [hnone]
      cases sseEventType? event <;> rfl
  · rfl

/-- How a text that was cut goes on: not at all, or with the end of the body,
which may have cut a character in half. -/
inductive CutTail : List Char → Prop where
  | failed : CutTail []
  | ended : CutTail ['\n', '\n']
  | replaced : CutTail [replacement, '\n', '\n']

theorem empty_dispatch : SseFields.empty.dispatch = none := rfl

/-- A last line, and the blank line that closes the body. -/
theorem textEvents_last (h : '\n' ∉ line) :
    textEvents f (line ++ ['\n', '\n']) =
      (f.onLine line).2.toList ++ (f.onLine line).1.dispatch.toList := by
  have hnone : textEvents .empty [] = [] := rfl
  rw [textEvents_line h, textEvents_blank, hnone, List.append_nil]

/-- The body ends behind a line that carries no data. -/
theorem textEvents_ended (hdata : f.data = []) (hnewline : '\n' ∉ line)
    (hcr : '\r' ∉ line) (hother : stripPrefix dataField line = none) :
    textEvents f (line ++ ['\n', '\n']) = [] := by
  rw [textEvents_last hnewline]
  by_cases hne : line = []
  · rw [hne, onLine_nil, dispatch_of_data_nil hdata, empty_dispatch]
    rfl
  · rcases onLine_other (f := f) hne hcr hother with ⟨hsame, hnone⟩
    rw [hnone, dispatch_of_data_nil (hsame.trans hdata)]
    rfl

/-- Cut in a line that carries no data. -/
theorem cut_other {tail : List Char} (hdata : f.data = [])
    (hnewline : '\n' ∉ line) (hcr : '\r' ∉ line)
    (hd : line.head? ≠ some 'd') (htail : CutTail tail) :
    textEvents f (line ++ tail) = [] := by
  cases htail with
  | failed =>
      rw [List.append_nil]
      exact textEvents_plain hnewline
  | ended =>
      exact textEvents_ended hdata hnewline hcr (stripPrefix_ne (by decide) hd)
  | replaced =>
      have hsplit : line ++ [replacement, '\n', '\n'] =
          (line ++ [replacement]) ++ ['\n', '\n'] := by simp
      rw [hsplit]
      apply textEvents_ended hdata
      · simp only [List.mem_append, List.mem_singleton, not_or]
        exact ⟨hnewline, by decide⟩
      · simp only [List.mem_append, List.mem_singleton, not_or]
        exact ⟨hcr, by decide⟩
      · apply stripPrefix_ne (by decide)
        cases line with
        | nil => decide
        | cons c line => exact hd

theorem plain_flush {flush : List Char} (hnewline : '\n' ∉ line)
    (hcr : '\r' ∉ line) (hflush : flush = [] ∨ flush = [replacement]) :
    '\n' ∉ line ++ flush ∧ '\r' ∉ line ++ flush := by
  rcases hflush with rfl | rfl
  · rw [List.append_nil]
    exact ⟨hnewline, hcr⟩
  · simp only [List.mem_append, List.mem_singleton, not_or]
    exact ⟨⟨hnewline, by decide⟩, ⟨hcr, by decide⟩⟩

theorem cut_nothing {tail : List Char} (hdata : f.data = [])
    (htail : CutTail tail) : textEvents f tail = [] := by
  have hline : '\n' ∉ ([] : List Char) := by simp
  have hcr : '\r' ∉ ([] : List Char) := by simp
  exact cut_other hdata hline hcr (by simp) htail

end Text

theorem prefix_append_cases {α : Type*} {q a b : List α}
    (h : q <+: a ++ b) : q <+: a ∨ ∃ q', q = a ++ q' ∧ q' <+: b := by
  rcases List.prefix_or_prefix_of_prefix h (List.prefix_append a b) with
    hq | hq
  · exact Or.inl hq
  · rcases hq with ⟨q', rfl⟩
    exact Or.inr ⟨q', rfl, (List.prefix_append_right_inj a).mp h⟩

/-- A prefix of a line and what follows it, cut in the line or behind it. -/
theorem prefix_line_cases {q line more : List Char}
    (h : q <+: line ++ '\n' :: more) :
    q <+: line ∨ ∃ q', q = line ++ '\n' :: q' ∧ q' <+: more := by
  rcases prefix_append_cases h with hq | ⟨q', rfl, hq'⟩
  · exact Or.inl hq
  · rcases List.prefix_cons_iff.mp hq' with rfl | ⟨t, rfl, ht⟩
    · left
      simp
    · exact Or.inr ⟨t, rfl, ht⟩

theorem head?_of_prefix {line whole : List Char} (h : line <+: whole)
    (hd : whole.head? ≠ some 'd') : line.head? ≠ some 'd' := by
  cases line with
  | nil => simp
  | cons c line =>
      rcases h with ⟨rest, rfl⟩
      exact hd

namespace RunFrame

variable (frame : RunFrame)

theorem replacement_value (fuel : ℕ) :
    Json.value fuel replacement [] = none := by
  cases fuel with
  | zero => rfl
  | succ fuel => rfl

/-- The data of a frame, cut. -/
theorem parse_cut {payload flush : List Char} (h : payload <+: frame.payload)
    (hflush : flush = [] ∨ flush = [replacement]) :
    Json.parse (payload ++ flush) = none ∨
      Json.parse (payload ++ flush) = some (.obj frame.fields) := by
  rcases h with ⟨back, hback⟩
  have hparses := frame.payload_parses
  rw [← hback] at hparses
  rcases hflush with rfl | rfl
  · rw [List.append_nil]
    cases hcut : Json.parse payload with
    | none => exact Or.inl rfl
    | some json =>
        right
        rw [Json.parse_front hparses json hcut]
  · left
    exact Json.parse_front_bad hparses (by decide) (by decide)
      replacement_value

/-- The fields once the lines before the data are read. -/
def head : SseFields :=
  ⟨frame.event, [], if 0 < frame.id then some frame.id else none⟩

def idLine : List Char :=
  if 0 < frame.id then idField ++ ' ' :: numeral frame.id ++ ['\n'] else []

theorem formatSSE_eq : frame.formatSSE =
      (eventField ++ ' ' :: frame.event) ++ '\n' :: (frame.idLine ++
          ((dataField ++ ' ' :: frame.payload) ++ '\n' :: ['\n'])) := by
  simp [formatSSE, idLine]

theorem dispatch_head (payload : List Char) (h : Json.parse payload = none ∨
      Json.parse payload = some (.obj frame.fields)) :
    SseFields.dispatch { frame.head with data := [payload] } = none ∨
      SseFields.dispatch { frame.head with data := [payload] } =
        frame.toEvent? := by
  rw [head, dispatch_payload]
  rcases h with hnone | hobject
  · left
    rw [hnone]
    cases sseEventType? frame.event <;> rfl
  · right
    rw [hobject, toEvent?]
    cases sseEventType? frame.event <;> rfl

theorem payload_plain : '\n' ∉ frame.payload ∧ '\r' ∉ frame.payload := by
  constructor
  · exact fun h => (frame.payload_line _ h).1 rfl
  · exact fun h => (frame.payload_line _ h).2 rfl

theorem event_line_plain : '\n' ∉ eventField ++ ' ' :: frame.event ∧
    '\r' ∉ eventField ++ ' ' :: frame.event := by
  have h := plain_of_not_space frame.event_plain
  simp [eventField, h.1, h.2]

theorem id_line_plain : '\n' ∉ idField ++ ' ' :: numeral frame.id ∧
    '\r' ∉ idField ++ ' ' :: numeral frame.id := by
  have h := plain_of_not_space (numeral_plain frame.id)
  simp [idField, h.1, h.2]

theorem data_line_plain : '\n' ∉ dataField ++ ' ' :: frame.payload ∧
    '\r' ∉ dataField ++ ' ' :: frame.payload := by
  simp [dataField, frame.payload_plain.1, frame.payload_plain.2]

theorem textEvents_idLine (more : List Char) :
    textEvents { SseFields.empty with event := frame.event }
        (frame.idLine ++ more) = textEvents frame.head more := by
  unfold idLine head
  split_ifs with hpos
  · have hassoc : idField ++ ' ' :: numeral frame.id ++ ['\n'] ++ more =
        (idField ++ ' ' :: numeral frame.id) ++ '\n' :: more := by simp
    rw [hassoc, textEvents_line frame.id_line_plain.1, onLine_id]
    rfl
  · rfl

/-- A whole frame. -/
theorem textEvents_formatSSE (more : List Char) :
    textEvents .empty (frame.formatSSE ++ more) =
      frame.toEvent?.toList ++ textEvents .empty more := by
  have hdispatch :
      SseFields.dispatch { frame.head with data := [frame.payload] } =
        frame.toEvent? := by
    rw [head, dispatch_payload, frame.payload_parses, toEvent?]
    cases sseEventType? frame.event <;> rfl
  have htext : frame.formatSSE ++ more =
      (eventField ++ ' ' :: frame.event) ++ '\n' :: (frame.idLine ++
          ((dataField ++ ' ' :: frame.payload) ++
            '\n' :: ('\n' :: more))) := by
    rw [formatSSE_eq]
    simp
  rw [htext, textEvents_line frame.event_line_plain.1,
    onLine_event frame.event_plain]
  rw [textEvents_idLine, textEvents_line frame.data_line_plain.1,
    onLine_data frame.data_line_plain.2 (stripPrefix_append _ _),
    textEvents_blank]
  have hdata : ({ frame.head with data := frame.head.data ++
      [frame.payload] } : SseFields) =
      { frame.head with data := [frame.payload] } := rfl
  simp only [List.head?_cons, if_true, List.tail_cons]
  rw [hdata, hdispatch]
  rfl

/-- A line cut in the name of the data field is read as other or as empty
data. -/
theorem cut_word {line flush : List Char} (hline : line <+: dataField ++ [' '])
    (hflush : flush = [] ∨ flush = [replacement]) :
    stripPrefix dataField (line ++ flush) = none ∨
      stripPrefix dataField (line ++ flush) = some flush ∨
      stripPrefix dataField (line ++ flush) = some (' ' :: flush) := by
  rcases hline with ⟨rest, hrest⟩
  have htake : line = (dataField ++ [' ']).take line.length := by
    rw [← hrest, List.take_left]
  have hlength : line.length ≤ 6 := by
    have htotal := congrArg List.length hrest
    simp [dataField] at htotal
    omega
  rw [htake]
  generalize line.length = n at hlength
  rcases hflush with rfl | rfl <;> interval_cases n <;> decide

theorem payload_ne_nil : frame.payload ≠ [] := by
  intro hnil
  have hparses := frame.payload_parses
  rw [hnil] at hparses
  have hnone : Json.parse [] = none := rfl
  rw [hnone] at hparses
  exact absurd hparses (by simp)

/-- What the parser takes for the data of a cut data line. -/
theorem dataLine_cut {line flush : List Char}
    (hline : line <+: dataField ++ ' ' :: frame.payload)
    (hflush : flush = [] ∨ flush = [replacement]) :
    stripPrefix dataField (line ++ flush) = none ∨
      ∃ payload rest, payload <+: frame.payload ∧
        stripPrefix dataField (line ++ flush) = some rest ∧
        (if rest.head? = some ' ' then rest.tail else rest) =
          payload ++ flush ∧
        (payload = frame.payload →
          line = dataField ++ ' ' :: frame.payload) := by
  have hsplit : dataField ++ ' ' :: frame.payload =
      (dataField ++ [' ']) ++ frame.payload := by simp
  have hempty : [] ≠ frame.payload := frame.payload_ne_nil.symm
  rw [hsplit] at hline
  rcases prefix_append_cases hline with hword | ⟨payload, rfl, hpayload⟩
  · rcases cut_word hword hflush with hnone | hstrip | hstrip
    · exact Or.inl hnone
    · refine Or.inr ⟨[], flush, List.nil_prefix, hstrip, ?_,
        fun h => absurd h hempty⟩
      rcases hflush with rfl | rfl
      · rfl
      · rfl
    · exact Or.inr ⟨[], ' ' :: flush, List.nil_prefix, hstrip, rfl,
        fun h => absurd h hempty⟩
  · refine Or.inr ⟨payload, ' ' :: (payload ++ flush), hpayload, ?_, rfl, ?_⟩
    · have hassoc : dataField ++ [' '] ++ payload ++ flush =
          dataField ++ ' ' :: (payload ++ flush) := by simp
      rw [hassoc, stripPrefix_append]
    · rintro rfl
      exact hsplit.symm

variable {line tail : List Char}

/-- A frame cut in its data line. -/
theorem cut_data (hline : line <+: dataField ++ ' ' :: frame.payload)
    (htail : CutTail tail) :
    textEvents frame.head (line ++ tail) = [] ∨
      textEvents frame.head (line ++ tail) = frame.toEvent?.toList := by
  have hnewline : '\n' ∉ line :=
    fun h => frame.data_line_plain.1 (hline.subset h)
  have hcr : '\r' ∉ line :=
    fun h => frame.data_line_plain.2 (hline.subset h)
  -- The end of the body behind the line, whole or with half a character.
  have hended : ∀ flush : List Char, flush = [] ∨ flush = [replacement] →
      textEvents frame.head (line ++ flush ++ ['\n', '\n']) = [] ∨
        textEvents frame.head (line ++ flush ++ ['\n', '\n']) =
          frame.toEvent?.toList := by
    intro flush hflush
    have hplain := plain_flush hnewline hcr hflush
    rcases frame.dataLine_cut hline hflush with
      hnone | ⟨payload, rest, hpayload, hstrip, hvalue, -⟩
    · left
      exact textEvents_ended rfl hplain.1 hplain.2 hnone
    · rw [textEvents_last hplain.1, onLine_data hplain.2 hstrip, hvalue]
      rcases frame.dispatch_head (payload ++ flush)
        (frame.parse_cut hpayload hflush) with hdispatch | hdispatch
      · left
        exact congrArg Option.toList hdispatch
      · right
        exact congrArg Option.toList hdispatch
  cases htail with
  | failed =>
      left
      rw [List.append_nil]
      exact textEvents_plain hnewline
  | ended =>
      have h := hended [] (Or.inl rfl)
      rw [List.append_nil] at h
      exact h
  | replaced =>
      have hsplit : line ++ [replacement, '\n', '\n'] =
          line ++ [replacement] ++ ['\n', '\n'] := by simp
      rw [hsplit]
      exact hended [replacement] (Or.inr rfl)

theorem onLine_replacement (f : SseFields) :
    f.onLine [replacement] = (f, none) := by
  have hevent : stripPrefix eventField [replacement] = none := by decide
  have hdata : stripPrefix dataField [replacement] = none := by decide
  have hid : stripPrefix idField [replacement] = none := by decide
  rw [onLine_field (by decide) (by decide) (by decide), hevent, hdata, hid]

theorem cut_blank (hline : line <+: ['\n'])
    (htail : CutTail tail) : textEvents .empty (line ++ tail) = [] := by
  rcases List.prefix_cons_iff.mp hline with rfl | ⟨rest, rfl, hrest⟩
  · exact cut_nothing rfl htail
  · obtain rfl := List.prefix_nil.mp hrest
    rw [List.cons_append, List.nil_append, textEvents_blank,
      empty_dispatch, cut_nothing rfl htail]
    rfl

/-- A frame whose data is complete. -/
theorem cut_behind_data (hline : line <+: ['\n']) (htail : CutTail tail) :
    textEvents { frame.head with data := [frame.payload] }
        (line ++ tail) = [] ∨
      textEvents { frame.head with data := [frame.payload] }
        (line ++ tail) = frame.toEvent?.toList := by
  have hdispatch :
      SseFields.dispatch { frame.head with data := [frame.payload] } =
        frame.toEvent? := by
    rw [head, dispatch_payload, frame.payload_parses, toEvent?]
    cases sseEventType? frame.event <;> rfl
  rcases List.prefix_cons_iff.mp hline with rfl | ⟨rest, rfl, hrest⟩
  · rw [List.nil_append]
    cases htail with
    | failed => exact Or.inl rfl
    | ended =>
        right
        rw [textEvents_blank, hdispatch, textEvents_blank, empty_dispatch]
        simp [textEvents, splitLines, SseReader.onLines]
    | replaced =>
        right
        have hplain : '\n' ∉ [replacement] := by decide
        have hlast := textEvents_last
          (f := { frame.head with data := [frame.payload] }) hplain
        rw [onLine_replacement, hdispatch] at hlast
        exact hlast
  · right
    obtain rfl := List.prefix_nil.mp hrest
    rw [List.cons_append, List.nil_append, textEvents_blank, hdispatch,
      cut_nothing rfl htail, List.append_nil]

theorem cut_behind_id
    (hline : line <+: (dataField ++ ' ' :: frame.payload) ++ '\n' :: ['\n'])
    (htail : CutTail tail) :
    textEvents frame.head (line ++ tail) = [] ∨
      textEvents frame.head (line ++ tail) = frame.toEvent?.toList := by
  rcases prefix_line_cases hline with hdata | ⟨rest, rfl, hrest⟩
  · exact frame.cut_data hdata htail
  · have hsplit : dataField ++ ' ' :: frame.payload ++ '\n' :: rest ++ tail =
        (dataField ++ ' ' :: frame.payload) ++ '\n' :: (rest ++ tail) := by
      simp
    rw [hsplit, textEvents_line frame.data_line_plain.1,
      onLine_data frame.data_line_plain.2 (stripPrefix_append _ _)]
    exact frame.cut_behind_data hrest htail

theorem cut_idLine (hline : line <+: frame.idLine) (htail : CutTail tail) :
    textEvents { SseFields.empty with event := frame.event }
      (line ++ tail) = [] := by
  unfold idLine at hline
  split_ifs at hline with hpos
  · rcases prefix_line_cases hline with hid | ⟨rest, rfl, hrest⟩
    · apply cut_other rfl
      · exact fun h => frame.id_line_plain.1 (hid.subset h)
      · exact fun h => frame.id_line_plain.2 (hid.subset h)
      · exact head?_of_prefix hid (by simp [idField])
      · exact htail
    · obtain rfl := List.prefix_nil.mp hrest
      have hsplit : idField ++ ' ' :: numeral frame.id ++ ['\n'] ++ tail =
          (idField ++ ' ' :: numeral frame.id) ++ '\n' :: tail := by simp
      have hnothing : textEvents ⟨frame.event, [], some frame.id⟩ tail = [] :=
        cut_nothing rfl htail
      rw [hsplit, textEvents_line frame.id_line_plain.1, onLine_id]
      exact hnothing
  · obtain rfl := List.prefix_nil.mp hline
    exact cut_nothing rfl htail

/-- A frame cut anywhere is dropped or read whole. -/
theorem cut_formatSSE
    (hline : line <+: frame.formatSSE) (htail : CutTail tail) :
    textEvents .empty (line ++ tail) = [] ∨
      textEvents .empty (line ++ tail) = frame.toEvent?.toList := by
  rw [formatSSE_eq] at hline
  rcases prefix_line_cases hline with hevent | ⟨rest, rfl, hrest⟩
  · left
    apply cut_other rfl
    · exact fun h => frame.event_line_plain.1 (hevent.subset h)
    · exact fun h => frame.event_line_plain.2 (hevent.subset h)
    · exact head?_of_prefix hevent (by simp [eventField])
    · exact htail
  · have hsplit : eventField ++ ' ' :: frame.event ++ '\n' :: rest ++ tail =
        (eventField ++ ' ' :: frame.event) ++ '\n' :: (rest ++ tail) := by
      simp
    rw [hsplit, textEvents_line frame.event_line_plain.1,
      onLine_event frame.event_plain]
    change textEvents { SseFields.empty with event := frame.event } _ = [] ∨
      textEvents { SseFields.empty with event := frame.event } _ = _
    rcases prefix_append_cases hrest with hid | ⟨rest', rfl, hrest'⟩
    · exact Or.inl (frame.cut_idLine hid htail)
    · rw [List.append_assoc, textEvents_idLine]
      exact frame.cut_behind_id hrest' htail

end RunFrame

namespace SseWrite

theorem textEvents_text (w : SseWrite) (more : List Char) :
    textEvents .empty (w.text ++ more) =
      w.toEvent?.toList ++ textEvents .empty more := by
  cases w with
  | frame f => exact f.textEvents_formatSSE more
  | heartbeat => rfl

theorem cut_text (w : SseWrite) {line tail : List Char}
    (hline : line <+: w.text) (htail : CutTail tail) :
    textEvents .empty (line ++ tail) = [] ∨
      textEvents .empty (line ++ tail) = w.toEvent?.toList := by
  cases w with
  | frame f => exact f.cut_formatSSE hline htail
  | heartbeat =>
      left
      have hsplit : heartbeat.text =
          heartbeat.text.dropLast.dropLast ++ '\n' :: ['\n'] := rfl
      rw [hsplit] at hline
      rcases prefix_line_cases hline with hcomment | ⟨rest, rfl, hrest⟩
      · apply cut_other rfl
        · exact fun h => absurd (hcomment.subset h) (by decide)
        · exact fun h => absurd (hcomment.subset h) (by decide)
        · exact head?_of_prefix hcomment (by decide)
        · exact htail
      · have hcomment : textEvents .empty
            (heartbeat.text.dropLast.dropLast ++ '\n' :: (rest ++ tail)) =
            textEvents .empty (rest ++ tail) := rfl
        have hassoc : heartbeat.text.dropLast.dropLast ++ '\n' :: rest ++
            tail = heartbeat.text.dropLast.dropLast ++
              '\n' :: (rest ++ tail) := by simp
        rw [hassoc, hcomment]
        exact RunFrame.cut_blank hrest htail

/-- A stream of writes cut anywhere. -/
theorem cut_writes (writes : List SseWrite) {text tail : List Char}
    (htext : text <+: writes.flatMap SseWrite.text)
    (htail : CutTail tail) :
    ∃ n, n ≤ writes.length ∧ textEvents .empty (text ++ tail) =
      (writes.take n).filterMap SseWrite.toEvent? := by
  induction writes generalizing text with
  | nil =>
      obtain rfl := List.prefix_nil.mp htext
      exact ⟨0, le_rfl, RunFrame.cut_blank List.nil_prefix htail⟩
  | cons w writes ih =>
      rw [List.flatMap_cons] at htext
      rcases prefix_append_cases htext with hw | ⟨rest, rfl, hrest⟩
      · rcases w.cut_text hw htail with hnone | hevent
        · exact ⟨0, Nat.zero_le _, hnone⟩
        · refine ⟨1, by simp, ?_⟩
          rw [hevent]
          cases hw : w.toEvent? <;> simp [hw]
      · rcases ih hrest with ⟨n, hn, hevents⟩
        refine ⟨n + 1, by simpa using hn, ?_⟩
        rw [List.append_assoc, textEvents_text, hevents]
        cases hw : w.toEvent? <;> simp [hw]

theorem textEvents_writes (writes : List SseWrite) {tail : List Char}
    (htail : CutTail tail) :
    textEvents .empty (writes.flatMap SseWrite.text ++ tail) =
      writes.filterMap SseWrite.toEvent? := by
  induction writes with
  | nil => exact RunFrame.cut_blank List.nil_prefix htail
  | cons w writes ih =>
      rw [List.flatMap_cons, List.append_assoc, textEvents_text, ih]
      cases hw : w.toEvent? <;> simp [hw]

end SseWrite

/-- A body that was cut at any byte yields the events of the first writes. -/
theorem parseSSEStream_cut (writes : List SseWrite) (body : SseBody) (k : ℕ)
    (hbytes : body.chunks.flatten =
      (encodeText (writes.flatMap SseWrite.text)).take k) :
    ∃ n, n ≤ writes.length ∧ parseSSEStream body =
      (writes.take n).filterMap SseWrite.toEvent? := by
  rcases Utf8Decoder.feed_take_encodeText (writes.flatMap SseWrite.text) k
    with ⟨whole, rest, htext, hout, hflush, -⟩
  rw [parseSSEStream_eq, hbytes, hout]
  apply SseWrite.cut_writes writes ⟨rest, htext.symm⟩
  cases body.ended with
  | false => exact CutTail.failed
  | true =>
      rcases hflush with hnone | ⟨hbad, -⟩
      · simp only [if_true]
        rw [hnone]
        exact CutTail.ended
      · simp only [if_true]
        rw [hbad]
        exact CutTail.replaced

/-- A body that arrived whole yields the events of all of them. -/
theorem parseSSEStream_whole (writes : List SseWrite) (body : SseBody)
    (hbytes : body.chunks.flatten =
      encodeText (writes.flatMap SseWrite.text)) :
    parseSSEStream body = writes.filterMap SseWrite.toEvent? := by
  rw [parseSSEStream_eq, hbytes, Utf8Decoder.feed_encodeText]
  apply SseWrite.textEvents_writes
  cases body.ended with
  | false => exact CutTail.failed
  | true => exact CutTail.ended

end QiForge
