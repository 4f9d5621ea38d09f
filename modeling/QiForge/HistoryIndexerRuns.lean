import QiForge.HistoryIndexerTail

/-!
# Indexed in order, once, without gaps

The log of the ranges a session's passes worked on is a chain from the stored
count.  One pass runs at a time; what it is about to upload is the range after
the count, and a call that found it running is followed by another read of the
session.
-/

namespace QiForge

/-- Within both limits of an upload, or at most one message. -/
def WithinUpload (cfg : IndexerConfig) (messages : List HistoryMessage) :
    Prop :=
  messages.length ≤ 1 ∨ (messages.length ≤ cfg.chunkMaxMessages ∧
      (messages.map fun m => m.content.utf8ByteSize).sum ≤ cfg.chunkMaxBytes)

/-- What a range of the log says of its messages. -/
structure UploadedRange (cfg : IndexerConfig) (transcript : List HistoryMessage)
    (e : RangeEntry ChunkMark) : Prop where
  start_lt : e.start < e.stop
  stop_le : e.stop ≤ transcript.length
  messages : e.mark.messages =
    (transcript.drop e.start).take (e.stop - e.start)
  within : WithinUpload cfg e.mark.messages
  nothing : e.mark.accepted = none →
    ∀ m ∈ e.mark.messages, m.hasMemoryForm = false
  body : e.mark.accepted ≠ none → ∃ title labels,
    e.mark.body = transformMessages e.mark.messages title labels
  accepted : e.recorded = true → e.mark.accepted ≠ some false

namespace IndexerState

variable {cfg : IndexerConfig} {s s' : IndexerState} {n now : ℕ}
  {p : IndexPass}

/-- The stored count, the log behind it and the remembered cursor. -/
structure Ledger (cfg : IndexerConfig) (s : IndexerState) : Prop where
  chained : RangeLog.Chained s.log
  stored : s.stored = RangeLog.watermark s.log
  stored_le : s.stored ≤ s.transcript.length
  entries : ∀ e ∈ s.log, UploadedRange cfg s.transcript e
  cursor : ∀ k ∈ s.cursor, k.2 = k.1

/-- Nothing runs, and no request is left over. -/
structure Idle (s : IndexerState) : Prop where
  inFlight : s.inFlight = none
  passes : ∀ n, s.passes.get? n = none
  rerun : s.rerun = none
  notes : s.notes.head? ≠ some .asked

/-- Pass `n` runs alone, and will be run again if a call came. -/
structure Busy (cfg : IndexerConfig) (n : ℕ) (s : IndexerState) : Prop where
  enabled : cfg.enabled = true
  inFlight : s.inFlight = some n
  alone : ∀ m p, s.passes.get? m = some p → m = n
  notes : s.notes.head? = some .asked → s.rerun.isSome = true

/-- The chunk a pass holds is the range after the stored count. -/
structure Holds (cfg : IndexerConfig) (s : IndexerState) (work : IndexWork)
    (chunk : List HistoryEntry) : Prop where
  count : work.count = s.stored
  handedOut : TailReader.HandedOut cfg s.transcript s.stored chunk work.reader
  nonempty : chunk ≠ []

/-- The range of the chunk is the newest of the log, not recorded yet. -/
def Logged (s : IndexerState) (chunk : List HistoryEntry) : Prop :=
  ∃ e log, s.log = e :: log ∧ e.start = s.stored ∧
    e.stop = s.stored + chunk.length ∧ e.recorded = false ∧
      e.mark.accepted ≠ some false

def PhaseOk (cfg : IndexerConfig) (s : IndexerState) : IndexPhase → Prop
  | .session => True
  | .room _ watermark => watermark = s.stored
  | .reading work => work.count = s.stored ∧
      work.reader.consumed = s.stored ∧ work.reader.Collects cfg s.transcript
  | .serviceDid work chunk => Holds cfg s work chunk
  | .labels work chunk => Holds cfg s work chunk
  | .minting work labels chunk => Holds cfg s work chunk ∧
      transformMessages (chunk.map HistoryEntry.message) work.title labels ≠ []
  | .uploading work labels chunk => Holds cfg s work chunk ∧
      transformMessages (chunk.map HistoryEntry.message) work.title labels ≠ []
  | .writing work chunk => Holds cfg s work chunk ∧ Logged s chunk
  | .sleeping => True

/-- The ledger holds, and nothing runs or one pass does, in order. -/
def Sound (cfg : IndexerConfig) (s : IndexerState) : Prop :=
  Ledger cfg s ∧ (Idle s ∨ ∃ n p, Busy cfg n s ∧ s.passes.get? n = some p ∧
    PhaseOk cfg s p.phase)

/-- Steps that touch nothing the ledger reads. -/
theorem Ledger.of_eq (h : Ledger cfg s)
    (htranscript : s'.transcript = s.transcript)
    (hstored : s'.stored = s.stored) (hlog : s'.log = s.log)
    (hcursor : s'.cursor = s.cursor) : Ledger cfg s' := by
  refine ⟨?_, ?_, ?_, ?_, ?_⟩
  · rw [hlog]
    exact h.chained
  · rw [hstored, hlog]
    exact h.stored
  · rw [hstored, htranscript]
    exact h.stored_le
  · rw [hlog, htranscript]
    exact h.entries
  · rw [hcursor]
    exact h.cursor

theorem process_idle (hledger : Ledger cfg s) (hinFlight : s.inFlight = none)
    (hpasses : ∀ n, s.passes.get? n = none) (hrerun : s.rerun = none)
    (hnotes : s.notes.head? = some .asked → cfg.enabled = true)
    (ignoreBackoff : Bool) : Sound cfg (s.process cfg now ignoreBackoff) := by
  unfold process
  cases henabled : cfg.enabled with
  | false =>
      refine ⟨hledger, .inl ⟨hinFlight, hpasses, hrerun, fun hasked => ?_⟩⟩
      have htrue := hnotes hasked
      rw [henabled] at htrue
      cases htrue
  | true =>
      rw [hinFlight]
      simp only [Bool.not_true, Bool.false_eq_true, if_false,
        Option.isSome_none]
      split
      · exact ⟨hledger.of_eq rfl rfl rfl rfl,
          .inl ⟨rfl, hpasses, hrerun, by simp⟩⟩
      · refine ⟨hledger.of_eq rfl rfl rfl rfl,
          .inr ⟨s.nextPass, ⟨1, .session⟩, ⟨henabled, rfl, ?_, by simp⟩,
            by simp, trivial⟩⟩
        intro m p hget
        rw [OrderedMap.get?_push] at hget
        split at hget
        · assumption
        · rw [hpasses] at hget
          cases hget

theorem PhaseOk.of_eq {phase : IndexPhase} (h : PhaseOk cfg s phase)
    (htranscript : s'.transcript = s.transcript)
    (hstored : s'.stored = s.stored) (hlog : s'.log = s.log) :
    PhaseOk cfg s' phase := by
  have hholds : ∀ {work : IndexWork} {chunk : List HistoryEntry},
      Holds cfg s work chunk → Holds cfg s' work chunk := by
    intro work chunk hwork
    refine ⟨?_, ?_, hwork.nonempty⟩
    · rw [hstored]
      exact hwork.count
    · rw [hstored, htranscript]
      exact hwork.handedOut
  cases phase with
  | session => trivial
  | sleeping => trivial
  | room title watermark => exact h.trans hstored.symm
  | reading work =>
      unfold PhaseOk
      rw [hstored, htranscript]
      exact h
  | serviceDid work chunk => exact hholds h
  | labels work chunk => exact hholds h
  | minting work labels chunk => exact ⟨hholds h.1, h.2⟩
  | uploading work labels chunk => exact ⟨hholds h.1, h.2⟩
  | writing work chunk =>
      refine ⟨hholds h.1, ?_⟩
      unfold Logged
      rw [hstored, hlog]
      exact h.2

theorem process_sound (h : Sound cfg s) (ignoreBackoff : Bool) :
    Sound cfg (s.process cfg now ignoreBackoff) := by
  rcases h with ⟨hledger, hidle | ⟨n, p, hbusy, hget, hphase⟩⟩
  · exact process_idle hledger hidle.inFlight hidle.passes hidle.rerun
      (fun hasked => absurd hasked hidle.notes) ignoreBackoff
  · have hprocess : s.process cfg now ignoreBackoff = { s with
          rerun := some (s.rerun.any id || ignoreBackoff)
          notes := .asked :: s.notes } := by
      unfold process
      rw [hbusy.enabled, hbusy.inFlight]
      rfl
    rw [hprocess]
    exact ⟨hledger.of_eq rfl rfl rfl rfl, .inr ⟨n, p,
      { hbusy with notes := fun _ => rfl }, hget,
      hphase.of_eq rfl rfl rfl⟩⟩

theorem get?_delete_alone (hbusy : Busy cfg n s) (m : ℕ) :
    (s.passes.delete n).get? m = none := by
  rw [OrderedMap.get?_delete]
  split
  · rfl
  · next hne =>
      cases hget : s.passes.get? m with
      | none => rfl
      | some p => exact absurd (hbusy.alone m p hget) hne

theorem endPass_sound (hledger : Ledger cfg s) (hbusy : Busy cfg n s) :
    Sound cfg (s.endPass cfg now n) := by
  have hnone := get?_delete_alone hbusy
  unfold endPass
  cases hrerun : s.rerun with
  | none =>
      refine ⟨hledger.of_eq rfl rfl rfl rfl, .inl ⟨rfl, hnone, rfl, ?_⟩⟩
      intro hasked
      have hsome := hbusy.notes hasked
      rw [hrerun] at hsome
      cases hsome
  | some ignoreBackoff =>
      have hleft : Ledger cfg { s with
            passes := s.passes.delete n
            inFlight := none
            rerun := none } := hledger.of_eq rfl rfl rfl rfl
      exact process_idle hleft rfl hnone rfl (fun _ => hbusy.enabled)
        ignoreBackoff

theorem finish_sound (hledger : Ledger cfg s) (hbusy : Busy cfg n s)
    (outcome : IndexOutcome) : Sound cfg (s.finish cfg now n outcome) := by
  have hbackoff : ∀ backoff, Sound cfg
      (endPass cfg now n { s with backoff := backoff }) := by
    intro backoff
    exact endPass_sound (hledger.of_eq rfl rfl rfl rfl) { hbusy with }
  cases outcome with
  | processed => exact hbackoff none
  | skipped => exact endPass_sound hledger hbusy
  | failed => exact hbackoff _

theorem toPhase_sound {phase : IndexPhase} (hledger : Ledger cfg s)
    (hbusy : Busy cfg n s) (p : IndexPass) (hphase : PhaseOk cfg s phase) :
    Sound cfg (s.toPhase n p phase) := by
  refine ⟨hledger.of_eq rfl rfl rfl rfl, .inr ⟨n, { p with phase := phase },
    ⟨hbusy.enabled, hbusy.inFlight, ?_, hbusy.notes⟩, by simp [toPhase],
    hphase.of_eq rfl rfl rfl⟩⟩
  intro m p' hget
  simp only [toPhase, OrderedMap.get?_set] at hget
  split at hget
  · assumption
  · exact hbusy.alone m p' hget

theorem throwAttempt_sound (hledger : Ledger cfg s) (hbusy : Busy cfg n s)
    (p : IndexPass) : Sound cfg (s.throwAttempt cfg now n p) := by
  unfold throwAttempt
  split
  · exact toPhase_sound hledger hbusy p trivial
  · exact finish_sound hledger hbusy .failed

theorem unminted_sound (hledger : Ledger cfg s) (hbusy : Busy cfg n s)
    (p : IndexPass) (work : IndexWork) :
    Sound cfg (s.unminted cfg now n p work) := by
  unfold unminted
  split
  · exact throwAttempt_sound hledger hbusy p
  · exact finish_sound hledger hbusy .skipped

variable {chunk : List HistoryEntry}

theorem withinUpload (h : WithinChunk cfg chunk) :
    WithinUpload cfg (chunk.map HistoryEntry.message) := by
  unfold WithinUpload
  rw [List.length_map, List.map_map]
  exact h

variable {work : IndexWork}

/-- The range of a held chunk enters the log. -/
theorem note_ledger (body : List MemoryEngineMessage) (accepted : Option Bool)
    (hledger : Ledger cfg s) (hholds : Holds cfg s work chunk)
    (hnothing : accepted = none → ∀ m ∈ chunk.map HistoryEntry.message,
      m.hasMemoryForm = false)
    (hbody : accepted ≠ none → ∃ title labels, body =
      transformMessages (chunk.map HistoryEntry.message) title labels) :
    Ledger cfg (s.note chunk work.count body accepted) := by
  have hpos : 0 < chunk.length := List.length_pos_iff.mpr hholds.nonempty
  refine ⟨⟨?_, ?_, hledger.chained⟩, hledger.stored, hledger.stored_le, ?_,
    hledger.cursor⟩
  · dsimp only
    rw [hholds.count]
    exact hledger.stored
  · dsimp only
    omega
  · intro e hmem
    rcases List.mem_cons.mp hmem with rfl | hold
    · have hslice := hholds.handedOut.slice
      have hlength := hslice.length_le hledger.stored_le
      have hstop : work.count + chunk.length - work.count =
          chunk.length := by omega
      refine ⟨?_, ?_, ?_, withinUpload hholds.handedOut.within, hnothing,
        hbody, nofun⟩
      · dsimp only
        omega
      · dsimp only
        rw [hholds.count]
        exact hlength
      · dsimp only
        rw [hstop, hholds.count]
        exact hslice.messages
    · exact hledger.entries e hold

variable {body : List MemoryEngineMessage} {accepted : Option Bool}

theorem note_holds (hholds : Holds cfg s work chunk) :
    Holds cfg (s.note chunk work.count body accepted) work chunk :=
  { hholds with }

theorem note_logged
    (hholds : Holds cfg s work chunk) (haccepted : accepted ≠ some false) :
    Logged (s.note chunk work.count body accepted) chunk := by
  refine ⟨_, s.log, rfl, hholds.count, ?_, rfl, haccepted⟩
  dsimp only [note]
  rw [hholds.count]

theorem note_busy (hbusy : Busy cfg n s) :
    Busy cfg n (s.note chunk work.count body accepted) :=
  { hbusy with }

variable {labels : SpeakerLabels}

theorem transform_eq_nil {messages : List HistoryMessage} {title : String}
    (h : transformMessages messages title labels = []) :
    ∀ m ∈ messages, m.hasMemoryForm = false := by
  intro m hm
  unfold transformMessages at h
  rw [List.map_eq_nil_iff, List.filter_eq_nil_iff] at h
  exact Bool.eq_false_iff.mpr (h m hm)

/-- The upload loop on the chunk after the stored count. -/
theorem takeChunk_sound (hledger : Ledger cfg s)
    (hbusy : Busy cfg n s) (p : IndexPass) (hcount : work.count = s.stored)
    (hhanded : TailReader.HandedOut cfg s.transcript s.stored chunk
      work.reader) :
    Sound cfg (s.takeChunk cfg now n p work labels chunk) := by
  unfold takeChunk
  split
  · exact finish_sound hledger hbusy .processed
  · next hnonempty =>
      have hholds : Holds cfg s work chunk := ⟨hcount, hhanded, hnonempty⟩
      dsimp only
      split
      · next hnothing =>
          have hforms := transform_eq_nil hnothing
          exact toPhase_sound
            (note_ledger [] none hledger hholds (fun _ => hforms)
              fun hne => absurd rfl hne)
            (note_busy hbusy) p
            ⟨note_holds hholds, note_logged hholds (by simp)⟩
      · next hsome =>
          split
          · exact toPhase_sound hledger hbusy p ⟨hholds, hsome⟩
          · exact unminted_sound hledger hbusy p work

theorem gotChunk_sound
    (hledger : Ledger cfg s) (hbusy : Busy cfg n s) (p : IndexPass)
    (hcount : work.count = s.stored)
    (hhanded : TailReader.HandedOut cfg s.transcript s.stored chunk
      work.reader) :
    Sound cfg (s.gotChunk cfg now n p work chunk) := by
  unfold gotChunk
  cases work.labels with
  | some labels => exact takeChunk_sound hledger hbusy p hcount hhanded
  | none =>
      dsimp only
      split
      · exact finish_sound hledger hbusy .skipped
      · next hnonempty =>
          split
          · exact finish_sound hledger hbusy .skipped
          · exact toPhase_sound hledger hbusy p ⟨hcount, hhanded, hnonempty⟩

theorem startReading_sound (hledger : Ledger cfg s) (hbusy : Busy cfg n s)
    (p : IndexPass) (title : String) :
    Sound cfg (s.startReading n p title s.stored) := by
  apply toPhase_sound hledger hbusy p
  exact ⟨rfl, rfl, TailReader.start_collects s.transcript s.stored
    hledger.cursor⟩

theorem gotPage_sound {page : Option HistoryPage}
    (hledger : Ledger cfg s) (hbusy : Busy cfg n s) (p : IndexPass)
    (hphase : PhaseOk cfg s (.reading work))
    (hpage : ∀ found ∈ page, Slice s.transcript
      (work.reader.cursor.getD 0) found.entries) :
    Sound cfg (s.gotPage cfg now n p work page) := by
  rcases hphase with ⟨hcount, hconsumed, hcollects⟩
  have hread := TailReader.readPage_spec hcollects hpage
  rw [hconsumed] at hread
  have hforgot : ∀ t : IndexerState, t = s ∨ t = { s with cursor := none } →
        Ledger cfg t ∧ Busy cfg n t ∧ t.stored = s.stored ∧
          t.transcript = s.transcript := by
    rintro t (rfl | rfl)
    · exact ⟨hledger, hbusy, rfl, rfl⟩
    · exact ⟨{ hledger with cursor := nofun }, { hbusy with }, rfl, rfl⟩
  unfold gotPage
  generalize ht : (if page.isNone && work.reader.cursor.isSome then
    { s with cursor := none } else s) = t
  have hcases : t = s ∨ t = { s with cursor := none } := by
    rw [← ht]
    split
    · exact .inr rfl
    · exact .inl rfl
  rcases hforgot t hcases with ⟨hledger', hbusy', hstored, htranscript⟩
  rcases hresult : work.reader.readPage cfg page with ⟨found, reader⟩
  rw [hresult] at hread
  cases found with
  | none =>
      apply toPhase_sound hledger' hbusy' p
      refine ⟨hcount.trans hstored.symm, hread.2.trans hstored.symm, ?_⟩
      rw [htranscript]
      exact hread.1
  | some chunk =>
      have hhanded : TailReader.HandedOut cfg t.transcript t.stored chunk
          reader := by
        rw [htranscript, hstored]
        exact hread
      exact gotChunk_sound hledger' hbusy' p (hcount.trans hstored.symm)
        hhanded

/-- The count write of a chunk. -/
theorem wrote_sound
    (hledger : Ledger cfg s) (hbusy : Busy cfg n s) (p : IndexPass)
    (hholds : Holds cfg s work chunk) (hlogged : Logged s chunk) :
    Sound cfg (s.wrote cfg now n p work chunk) := by
  rcases hlogged with ⟨e, log, hlog, hstart, hstop, -, haccepted⟩
  have hslice := hholds.handedOut.slice
  have hlength := hslice.length_le hledger.stored_le
  have hchained := hledger.chained
  rw [hlog] at hchained
  have hentry := hledger.entries e (by rw [hlog]; exact List.mem_cons_self)
  have hledger' : Ledger cfg { s with
        stored := work.count + chunk.length
        log := { e with recorded := true } :: log
        cursor := chunk.getLast?.map fun entry : HistoryEntry =>
          (work.count + chunk.length, entry.cursor) } := by
    refine ⟨hchained.record, ?_, ?_, ?_, ?_⟩
    · rw [RangeLog.watermark_cons, if_pos rfl]
      rw [hstop, hholds.count]
    · dsimp only
      rw [hholds.count]
      exact hlength
    · intro found hmem
      rcases List.mem_cons.mp hmem with rfl | hold
      · exact { hentry with accepted := fun _ => haccepted }
      · apply hledger.entries found
        rw [hlog]
        exact List.mem_cons_of_mem _ hold
    · intro k hk
      rcases Option.map_eq_some_iff.mp hk with ⟨entry, hlast, rfl⟩
      rw [hslice.last_cursor hlast, hholds.count]
  have hbusy' : Busy cfg n { s with
        stored := work.count + chunk.length
        log := { e with recorded := true } :: log
        cursor := chunk.getLast?.map fun entry : HistoryEntry =>
          (work.count + chunk.length, entry.cursor) } :=
    { hbusy with }
  have hreader : work.reader.Collects cfg s.transcript :=
    hholds.handedOut.collects
  have hconsumed : work.reader.consumed = work.count + chunk.length := by
    rw [hholds.count]
    exact hholds.handedOut.consumed
  unfold wrote
  dsimp only
  rw [hlog]
  unfold nextChunk
  split
  · apply gotChunk_sound hledger' hbusy' p rfl
    refine ⟨hreader, ?_, hholds.handedOut.empty, trivial, .inl (Nat.zero_le 1)⟩
    exact hconsumed
  · exact toPhase_sound hledger' hbusy' p ⟨rfl, hconsumed, hreader⟩

theorem responded_sound (hledger : Ledger cfg s)
    (hbusy : Busy cfg n s) (p : IndexPass) (hholds : Holds cfg s work chunk)
    (ok : Bool) :
    Sound cfg (s.responded cfg now n p work labels chunk ok) := by
  have hnote := note_ledger (transformMessages
      (chunk.map HistoryEntry.message) work.title labels) (some ok) hledger
    hholds nofun fun _ => ⟨work.title, labels, rfl⟩
  unfold responded
  split
  · next hok =>
      apply toPhase_sound hnote (note_busy hbusy) p
      refine ⟨{ hholds with }, ?_⟩
      exact note_logged hholds (by simp [hok])
  · exact throwAttempt_sound hnote (note_busy hbusy) p

theorem advance_sound {answer : IndexAnswer} (h : Sound cfg s)
    (hget : s.passes.get? n = some p)
    (hstep : s.advance cfg now n p answer = some s') : Sound cfg s' := by
  rcases h with ⟨hledger, hidle | ⟨n', p', hbusy, hget', hphase⟩⟩
  · rw [hidle.passes n] at hget
    cases hget
  · obtain rfl := hbusy.alone n p hget
    rw [hget] at hget'
    cases hget'
    unfold advance at hstep
    cases hp : p.phase with
    | session =>
        rw [hp] at hstep
        cases answer with
        | failed =>
            cases hstep
            exact throwAttempt_sound hledger hbusy p
        | session row =>
            rcases row with _ | ⟨title, hasRoom⟩
            · cases hstep
              exact finish_sound hledger hbusy .skipped
            · cases hstep
              split
              · exact startReading_sound hledger hbusy p title
              · exact toPhase_sound hledger hbusy p rfl
        | _ => cases hstep
    | room title watermark =>
        rw [hp] at hstep hphase
        have hwatermark : watermark = s.stored := hphase
        cases answer with
        | failed =>
            cases hstep
            exact throwAttempt_sound hledger hbusy p
        | room found =>
            cases hstep
            split
            · rw [hwatermark]
              exact startReading_sound hledger hbusy p title
            · exact finish_sound hledger hbusy .skipped
        | _ => cases hstep
    | reading work =>
        rw [hp] at hstep hphase
        cases answer with
        | failed =>
            cases hstep
            exact throwAttempt_sound hledger hbusy p
        | page limit more =>
            cases hstep
            apply gotPage_sound hledger hbusy p hphase
            intro found hfound
            cases hfound
            exact Slice.entriesFrom _ _ _
        | lost =>
            cases hstep
            exact gotPage_sound hledger hbusy p hphase nofun
        | _ => cases hstep
    | serviceDid work chunk =>
        rw [hp] at hstep hphase
        have hholds : Holds cfg s work chunk := hphase
        cases answer with
        | failed =>
            cases hstep
            exact toPhase_sound hledger hbusy p { hholds with }
        | serviceDid found =>
            cases hstep
            exact toPhase_sound hledger hbusy p { hholds with }
        | _ => cases hstep
    | labels work chunk =>
        rw [hp] at hstep hphase
        have hholds : Holds cfg s work chunk := hphase
        cases answer with
        | failed =>
            cases hstep
            exact throwAttempt_sound hledger hbusy p
        | labels labels =>
            cases hstep
            exact takeChunk_sound hledger hbusy p hholds.count hholds.handedOut
        | _ => cases hstep
    | minting work labels chunk =>
        rw [hp] at hstep hphase
        cases answer with
        | failed =>
            cases hstep
            exact unminted_sound hledger hbusy p work
        | minted =>
            cases hstep
            exact toPhase_sound hledger hbusy p hphase
        | _ => cases hstep
    | uploading work labels chunk =>
        rw [hp] at hstep hphase
        cases answer with
        | failed =>
            cases hstep
            exact responded_sound hledger hbusy p hphase.1 false
        | response ok =>
            cases hstep
            exact responded_sound hledger hbusy p hphase.1 ok
        | _ => cases hstep
    | writing work chunk =>
        rw [hp] at hstep hphase
        cases answer with
        | failed =>
            cases hstep
            exact throwAttempt_sound hledger hbusy p
        | written =>
            cases hstep
            exact wrote_sound hledger hbusy p hphase.1 hphase.2
        | _ => cases hstep
    | sleeping =>
        rw [hp] at hstep
        cases answer with
        | awake =>
            cases hstep
            refine ⟨hledger.of_eq rfl rfl rfl rfl, .inr ⟨n,
              ⟨p.attempt + 1, .session⟩, ⟨hbusy.enabled, hbusy.inFlight, ?_,
                by simp⟩, by simp, trivial⟩⟩
            intro m p' hm
            rw [OrderedMap.get?_set] at hm
            split at hm
            · assumption
            · exact hbusy.alone m p' hm
        | _ => cases hstep

theorem uploaded_grow {transcript more : List HistoryMessage}
    {e : RangeEntry ChunkMark} (h : UploadedRange cfg transcript e) :
    UploadedRange cfg (transcript ++ more) e := by
  refine ⟨h.start_lt, ?_, ?_, h.within, h.nothing, h.body, h.accepted⟩
  · rw [List.length_append]
    exact h.stop_le.trans (Nat.le_add_right _ _)
  · have hstart := h.start_lt
    have hstop := h.stop_le
    rw [h.messages, List.drop_append_of_le_length (by omega),
      List.take_append_of_le_length]
    rw [List.length_drop]
    omega

theorem append_sound (h : Sound cfg s) (messages : List HistoryMessage) :
    Sound cfg { s with transcript := s.transcript ++ messages } := by
  rcases h with ⟨hledger, hrest⟩
  refine ⟨⟨hledger.chained, hledger.stored, ?_, ?_, hledger.cursor⟩, ?_⟩
  · dsimp only
    rw [List.length_append]
    exact hledger.stored_le.trans (Nat.le_add_right _ _)
  · exact fun e hmem => uploaded_grow (hledger.entries e hmem)
  · rcases hrest with hidle | ⟨n, p, hbusy, hget, hphase⟩
    · exact .inl { hidle with }
    · refine .inr ⟨n, p, { hbusy with }, hget, ?_⟩
      have hholds : ∀ {work : IndexWork} {chunk : List HistoryEntry},
          Holds cfg s work chunk → Holds cfg
            { s with transcript := s.transcript ++ messages } work chunk := by
        intro work chunk hwork
        have hhanded := hwork.handedOut
        exact ⟨hwork.count, { hhanded with
          collects := hhanded.collects.grow
          slice := hhanded.slice.grow },
            hwork.nonempty⟩
      cases hp : p.phase with
      | session => trivial
      | sleeping => trivial
      | room title watermark =>
          rw [hp] at hphase
          exact hphase
      | reading work =>
          rw [hp] at hphase
          exact ⟨hphase.1, hphase.2.1, hphase.2.2.grow⟩
      | serviceDid work chunk =>
          rw [hp] at hphase
          exact hholds hphase
      | labels work chunk =>
          rw [hp] at hphase
          exact hholds hphase
      | minting work labels chunk =>
          rw [hp] at hphase
          exact ⟨hholds hphase.1, hphase.2⟩
      | uploading work labels chunk =>
          rw [hp] at hphase
          exact ⟨hholds hphase.1, hphase.2⟩
      | writing work chunk =>
          rw [hp] at hphase
          exact ⟨hholds hphase.1, hphase.2⟩

/-- Steps that touch neither the ledger nor the passes. -/
theorem Sound.of_eq (h : Sound cfg s) (htranscript : s'.transcript = s.transcript)
    (hstored : s'.stored = s.stored) (hlog : s'.log = s.log)
    (hcursor : ∀ k ∈ s'.cursor, k ∈ s.cursor)
    (hpasses : s'.passes = s.passes) (hinFlight : s'.inFlight = s.inFlight)
    (hrerun : s'.rerun = s.rerun) (hnotes : s'.notes = s.notes) :
    Sound cfg s' := by
  rcases h with ⟨hledger, hrest⟩
  constructor
  · refine ⟨?_, ?_, ?_, ?_, fun k hk => hledger.cursor k (hcursor k hk)⟩
    · rw [hlog]
      exact hledger.chained
    · rw [hstored, hlog]
      exact hledger.stored
    · rw [hstored, htranscript]
      exact hledger.stored_le
    · rw [hlog, htranscript]
      exact hledger.entries
  · rcases hrest with hidle | ⟨n, p, hbusy, hget, hphase⟩
    · left
      constructor
      · rw [hinFlight]
        exact hidle.inFlight
      · rw [hpasses]
        exact hidle.passes
      · rw [hrerun]
        exact hidle.rerun
      · rw [hnotes]
        exact hidle.notes
    · right
      refine ⟨n, p, ⟨hbusy.enabled, ?_, ?_, ?_⟩, ?_,
        hphase.of_eq htranscript hstored hlog⟩
      · rw [hinFlight]
        exact hbusy.inFlight
      · rw [hpasses]
        exact hbusy.alone
      · rw [hnotes, hrerun]
        exact hbusy.notes
      · rw [hpasses]
        exact hget

theorem step_sound {event : IndexerEvent} (h : Sound cfg s)
    (hstep : s.step cfg event = some s') : Sound cfg s' := by
  cases event with
  | append messages =>
      cases hstep
      exact append_sound h messages
  | signingKey available =>
      cases hstep
      exact h.of_eq rfl rfl rfl (fun _ hk => hk) rfl rfl rfl rfl
  | process now ignoreBackoff =>
      cases hstep
      exact process_sound h ignoreBackoff
  | afterQuiet now delayed =>
      cases hstep
      split
      · exact process_sound h false
      · exact h.of_eq rfl rfl rfl (fun _ hk => hk) rfl rfl rfl rfl
  | quietOver now =>
      rw [step, Option.ite_none_right_eq_some] at hstep
      obtain rfl := Option.some.inj hstep.2
      apply process_sound
      exact h.of_eq rfl rfl rfl (fun _ hk => hk) rfl rfl rfl rfl
  | advance n now answer =>
      rw [step, Option.bind_eq_some_iff] at hstep
      rcases hstep with ⟨p, hget, hstep⟩
      exact advance_sound h hget hstep
  | forgetCursor =>
      cases hstep
      exact h.of_eq rfl rfl rfl nofun rfl rfl rfl rfl
  | forgetBackoff =>
      cases hstep
      exact h.of_eq rfl rfl rfl (fun _ hk => hk) rfl rfl rfl rfl

theorem init_sound (transcript : List HistoryMessage) :
    Sound cfg (init transcript) := by
  refine ⟨⟨trivial, rfl, Nat.zero_le _, nofun, nofun⟩,
    .inl ⟨rfl, fun n => ?_, rfl, by simp [init]⟩⟩
  simp [init]

section Stored

theorem process_stored (ignoreBackoff : Bool) :
    (s.process cfg now ignoreBackoff).stored = s.stored := by
  unfold process
  split
  · rfl
  · split
    · rfl
    · split <;> rfl

theorem endPass_stored : (s.endPass cfg now n).stored = s.stored := by
  unfold endPass
  dsimp only
  split
  · rfl
  · exact process_stored _

theorem finish_stored (outcome : IndexOutcome) :
    (s.finish cfg now n outcome).stored = s.stored := by
  unfold finish
  cases outcome <;> exact endPass_stored

theorem throwAttempt_stored (p : IndexPass) :
    (s.throwAttempt cfg now n p).stored = s.stored := by
  unfold throwAttempt
  split
  · rfl
  · exact finish_stored .failed

theorem unminted_stored (p : IndexPass) (work : IndexWork) :
    (s.unminted cfg now n p work).stored = s.stored := by
  unfold unminted
  split
  · exact throwAttempt_stored p
  · exact finish_stored .skipped

theorem takeChunk_stored (p : IndexPass) (work : IndexWork)
    (labels : SpeakerLabels) (chunk : List HistoryEntry) :
    (s.takeChunk cfg now n p work labels chunk).stored = s.stored := by
  unfold takeChunk
  dsimp only
  split
  · exact finish_stored .processed
  · split
    · rfl
    · split
      · rfl
      · exact unminted_stored p work

theorem gotChunk_stored (p : IndexPass) (work : IndexWork)
    (chunk : List HistoryEntry) :
    (s.gotChunk cfg now n p work chunk).stored = s.stored := by
  unfold gotChunk
  split
  · exact takeChunk_stored p work _ chunk
  · split
    · exact finish_stored .skipped
    · split
      · exact finish_stored .skipped
      · rfl

theorem gotPage_stored (p : IndexPass) (work : IndexWork)
    (page : Option HistoryPage) :
    (s.gotPage cfg now n p work page).stored = s.stored := by
  unfold gotPage
  generalize ht : (if page.isNone && work.reader.cursor.isSome then
    { s with cursor := none } else s) = t
  have hstored : t.stored = s.stored := by
    rw [← ht]
    split <;> rfl
  rw [← hstored]
  split
  · rfl
  · exact gotChunk_stored p _ _

theorem responded_stored (p : IndexPass) (work : IndexWork)
    (labels : SpeakerLabels) (chunk : List HistoryEntry) (ok : Bool) :
    (s.responded cfg now n p work labels chunk ok).stored = s.stored := by
  unfold responded
  split
  · rfl
  · exact throwAttempt_stored p

theorem wrote_stored (p : IndexPass) (work : IndexWork)
    (chunk : List HistoryEntry) :
    (s.wrote cfg now n p work chunk).stored = work.count + chunk.length := by
  unfold wrote nextChunk
  dsimp only
  split
  · exact gotChunk_stored p _ _
  · rfl

/-- The stored count never decreases. -/
theorem step_stored {event : IndexerEvent} (h : Sound cfg s)
    (hstep : s.step cfg event = some s') : s.stored ≤ s'.stored := by
  have hsame : s'.stored = s.stored → s.stored ≤ s'.stored := fun heq =>
    heq.ge
  cases event with
  | process now ignoreBackoff =>
      cases hstep
      exact hsame (process_stored ignoreBackoff)
  | afterQuiet now delayed =>
      cases hstep
      split
      · exact (process_stored false).ge
      · exact le_rfl
  | quietOver now =>
      rw [step, Option.ite_none_right_eq_some] at hstep
      obtain rfl := Option.some.inj hstep.2
      exact hsame (process_stored false)
  | advance n now answer =>
      rw [step, Option.bind_eq_some_iff] at hstep
      rcases hstep with ⟨p, hget, hstep⟩
      unfold advance at hstep
      cases hp : p.phase with
      | session =>
          rw [hp] at hstep
          cases answer with
          | failed =>
              cases hstep
              exact hsame (throwAttempt_stored p)
          | session row =>
              rcases row with _ | ⟨title, hasRoom⟩
              · cases hstep
                exact hsame (finish_stored .skipped)
              · cases hstep
                split <;> exact le_rfl
          | _ => cases hstep
      | room title watermark =>
          rw [hp] at hstep
          cases answer with
          | failed =>
              cases hstep
              exact hsame (throwAttempt_stored p)
          | room found =>
              cases hstep
              split
              · exact le_rfl
              · exact (finish_stored .skipped).ge
          | _ => cases hstep
      | reading work =>
          rw [hp] at hstep
          cases answer with
          | failed =>
              cases hstep
              exact hsame (throwAttempt_stored p)
          | page limit more =>
              cases hstep
              exact hsame (gotPage_stored p work _)
          | lost =>
              cases hstep
              exact hsame (gotPage_stored p work none)
          | _ => cases hstep
      | serviceDid work chunk =>
          rw [hp] at hstep
          cases answer with
          | failed =>
              cases hstep
              exact le_rfl
          | serviceDid found =>
              cases hstep
              exact le_rfl
          | _ => cases hstep
      | labels work chunk =>
          rw [hp] at hstep
          cases answer with
          | failed =>
              cases hstep
              exact hsame (throwAttempt_stored p)
          | labels labels =>
              cases hstep
              exact hsame (takeChunk_stored p _ labels chunk)
          | _ => cases hstep
      | minting work labels chunk =>
          rw [hp] at hstep
          cases answer with
          | failed =>
              cases hstep
              exact hsame (unminted_stored p work)
          | minted =>
              cases hstep
              exact le_rfl
          | _ => cases hstep
      | uploading work labels chunk =>
          rw [hp] at hstep
          cases answer with
          | failed =>
              cases hstep
              exact hsame (responded_stored p work labels chunk false)
          | response ok =>
              cases hstep
              exact hsame (responded_stored p work labels chunk ok)
          | _ => cases hstep
      | writing work chunk =>
          rw [hp] at hstep
          cases answer with
          | failed =>
              cases hstep
              exact hsame (throwAttempt_stored p)
          | written =>
              cases hstep
              rw [wrote_stored]
              rcases h with ⟨-, hidle | ⟨n', p', hbusy, hget', hphase⟩⟩
              · rw [hidle.passes n] at hget
                cases hget
              · obtain rfl := hbusy.alone n p hget
                rw [hget] at hget'
                cases hget'
                rw [hp] at hphase
                rw [hphase.1.count]
                exact Nat.le_add_right _ _
          | _ => cases hstep
      | sleeping =>
          rw [hp] at hstep
          cases answer with
          | awake =>
              cases hstep
              exact le_rfl
          | _ => cases hstep
  | _ =>
      cases hstep
      exact le_rfl

end Stored

/-- The history of a session in order: what is below the stored count was
uploaded or has nothing to send; ranges follow each other, and one the count
was written for is not worked on again. -/
structure Indexed (cfg : IndexerConfig) (s : IndexerState) : Prop where
  alone : ∀ n m p p', s.passes.get? n = some p →
    s.passes.get? m = some p' → n = m
  covered : ∀ i < s.stored, ∃ e ∈ s.log, e.start ≤ i ∧ i < e.stop ∧
    e.recorded = true ∧ (e.mark.accepted = some true ∨
      ∀ m, s.transcript[i]? = some m → m.hasMemoryForm = false)
  consecutive : RangeLog.Chained s.log ∧ s.stored = RangeLog.watermark s.log
  once : s.log.Pairwise fun newer older => older.start ≤ newer.start ∧
    (older.recorded = true → older.stop ≤ newer.start)
  uploads : ∀ e ∈ s.log, UploadedRange cfg s.transcript e
  followed : s.inFlight = none → ∀ newer older,
    s.notes = newer ++ .asked :: older → ∃ note ∈ newer,
      note = .reads ∨ note = .refused

theorem Sound.covered (h : Sound cfg s) {i : ℕ} (hi : i < s.stored) :
    ∃ e ∈ s.log, e.start ≤ i ∧ i < e.stop ∧ e.recorded = true ∧
      (e.mark.accepted = some true ∨
        ∀ m, s.transcript[i]? = some m → m.hasMemoryForm = false) := by
  have hledger := h.1
  rw [hledger.stored] at hi
  rcases hledger.chained.covered hi with ⟨e, hmem, hrecorded, hstart, hstop⟩
  have hentry := hledger.entries e hmem
  refine ⟨e, hmem, hstart, hstop, hrecorded, ?_⟩
  cases haccepted : e.mark.accepted with
  | some ok =>
      cases ok with
      | true => exact .inl rfl
      | false => exact absurd haccepted (hentry.accepted hrecorded)
  | none =>
      refine .inr fun m hm => hentry.nothing haccepted m ?_
      rw [hentry.messages, List.mem_iff_getElem?]
      refine ⟨i - e.start, ?_⟩
      rw [List.getElem?_take, if_pos (by omega), List.getElem?_drop]
      have hat : e.start + (i - e.start) = i := by omega
      rw [hat]
      exact hm

theorem Sound.indexed (h : Sound cfg s) : s.Indexed cfg := by
  have hledger := h.1
  refine ⟨?_, fun i hi => h.covered hi, ⟨hledger.chained, hledger.stored⟩,
    hledger.chained.pairwise, hledger.entries, ?_⟩
  · intro n m p p' hn hm
    rcases h.2 with hidle | ⟨k, -, hbusy, -⟩
    · rw [hidle.passes n] at hn
      cases hn
    · rw [hbusy.alone n p hn, hbusy.alone m p' hm]
  · intro hfree newer older hnotes
    rcases h.2 with hidle | ⟨k, -, hbusy, -⟩
    · have hhead := hidle.notes
      rw [hnotes] at hhead
      cases newer with
      | nil => exact absurd rfl hhead
      | cons note newer =>
          refine ⟨note, List.mem_cons_self, ?_⟩
          cases note with
          | asked => exact absurd rfl hhead
          | reads => exact .inl rfl
          | refused => exact .inr rfl
    · rw [hbusy.inFlight] at hfree
      cases hfree

/-- Whatever fails and whenever, a session is indexed in order, once and
without gaps, and its count never decreases. -/
theorem indexed_in_order (cfg : IndexerConfig)
    (transcript : List HistoryMessage) (events : List IndexerEvent)
    (s : IndexerState)
    (hrun : Transition.run (step cfg) (init transcript) events = some s) :
    s.Indexed cfg ∧
      ∀ event s', s.step cfg event = some s' → s.stored ≤ s'.stored := by
  have hsound : Sound cfg s := Transition.run_preserves (I := Sound cfg)
      (fun s s' event hs hstep => step_sound hs hstep)
      (init_sound transcript) hrun
  exact ⟨hsound.indexed, fun event s' hstep => step_stored hsound hstep⟩

/-- Two uploads of one message each, a call in between, the cursor lost in
the second, whose count write fails before it is tried again. -/
def indexedSession : List IndexerEvent := [.signingKey true, .process 0 false,
    .advance 0 0 (.session (some ("title", true))),
    .advance 0 0 (.page 2 true), .advance 0 0 (.serviceDid true),
    .advance 0 0 (.labels ⟨"Me", "Oracle"⟩), .advance 0 0 .minted,
    .process 1 false, .advance 0 1 (.response true), .advance 0 1 .written,
    .advance 0 1 .lost, .advance 0 1 (.page 2 false), .advance 0 1 .minted,
    .advance 0 1 (.response true), .advance 0 1 .failed,
    .advance 0 2 .awake, .advance 0 2 (.session (some ("title", true))),
    .advance 0 2 (.page 2 false), .advance 0 2 (.serviceDid true),
    .advance 0 2 (.labels ⟨"Me", "Oracle"⟩), .advance 0 2 .minted,
    .advance 0 2 (.response true), .advance 0 2 .written]

theorem indexed_in_order_session :
    let cfg : IndexerConfig := ⟨true, 1, 64, 2, 60, 3600⟩
    ∃ s, Transition.run (step cfg)
        (init [⟨"human", "hello", false⟩, ⟨"ai", "hi", false⟩])
        indexedSession = some s ∧ s.stored = 2 ∧ s.Indexed cfg := by
  intro cfg
  have hreaches : ((Transition.run (step cfg)
      (init [⟨"human", "hello", false⟩, ⟨"ai", "hi", false⟩])
      indexedSession).map fun s => s.stored) = some 2 := by
    decide +kernel
  rcases Option.map_eq_some_iff.mp hreaches with ⟨s, hrun, hstored⟩
  exact ⟨s, hrun, hstored, (indexed_in_order cfg _ _ s hrun).1⟩

end IndexerState

end QiForge
