import QiForge.DocWriteGuard

/-!
# Document writes are bounded and reported truthfully

While nothing is recorded the guard's fields are those of the failed sends of
the batch being written: their number, the first failure's time, whether one
may have landed, and the end of the wait after the last.  Every other batch
was acknowledged, or is the one the recorded failure is about.
-/

namespace QiForge

namespace DocWriter

variable {opts : DocWriteGuardOptions} {w w' : DocWriter}

/-- The wait after the send that follows `earlier` sends of its batch. -/
def waitAfter (opts : DocWriteGuardOptions) (error : SendError)
    (earlier : List DocSend) : ℚ :=
  max ((retryAfterMs error).getD 0) (opts.backoff * 2 ^ earlier.length)

/-- Each further send waited for the one before it to fail, and then for the
server's wait and the back-off. -/
def Spaced (opts : DocWriteGuardOptions) : List DocSend → Prop
  | later :: send :: earlier =>
      (∃ at' error landed, send.ending = some (.failed at' error landed) ∧
        at' + waitAfter opts error earlier ≤ later.at') ∧
      Spaced opts (send :: earlier)
  | _ => True

def Failed (send : DocSend) : Prop :=
  ∃ at' error landed, send.ending = some (.failed at' error landed)

/-- The send was answered by a refusal. -/
def NotStored (send : DocSend) : Prop :=
  ∃ at' error, send.ending = some (.failed at' error false)

def firstFailure : List DocSend → Option ℚ
  | [] => none
  | [send] =>
      match send.ending with
      | some (.failed at' _ _) => some at'
      | _ => none
  | _ :: earlier => firstFailure earlier

/-- The guard's fields after the failed sends of a batch. -/
structure Streak (opts : DocWriteGuardOptions) (g : DocWriteGuard)
    (sends : List DocSend) : Prop where
  failed : ∀ send ∈ sends, Failed send
  spaced : Spaced opts sends
  count : g.failedSends = sends.length
  room : (sends.length : ℤ) < opts.attempts
  landed : g.streakMayHaveLanded = false → ∀ send ∈ sends, NotStored send
  started : g.streakStartedAt = firstFailure sends
  next : ∀ send earlier, sends = send :: earlier →
    ∃ at' error landed, send.ending = some (.failed at' error landed) ∧
      g.nextSendAt = at' + waitAfter opts error earlier
  budget : ∀ first, firstFailure sends = some first →
    g.nextSendAt ≤ first + opts.budget

def openSends : List DocBatch → List DocSend
  | [] => []
  | batch :: _ => if batch.fate = .pending then batch.sends else []

/-- The batch being written, while nothing is recorded. -/
def Current (opts : DocWriteGuardOptions) (w : DocWriter) : Prop :=
  match w.phase with
  | .idle => Streak opts w.guard (openSends w.batches)
  | .waiting until' => until' = w.guard.nextSendAt ∧
      ∃ sends rest, w.batches = ⟨sends, .pending⟩ :: rest ∧
        Streak opts w.guard sends
  | .sending => ∃ send earlier rest,
      w.batches = ⟨send :: earlier, .pending⟩ :: rest ∧
        Streak opts w.guard earlier ∧ Spaced opts (send :: earlier)

/-- The batch's last send was acknowledged. -/
def Acknowledged (batch : DocBatch) : Prop :=
  ∃ send earlier, batch.sends = send :: earlier ∧
    send.ending = some .acknowledged

/-- The batch's last send was refused with `M_FORBIDDEN`. -/
def Forbidden (batch : DocBatch) : Prop :=
  ∃ send earlier at' error, batch.sends = send :: earlier ∧
    send.ending = some (.failed at' error false) ∧
    error.errcode = some "M_FORBIDDEN"

structure Sound (opts : DocWriteGuardOptions) (w : DocWriter) : Prop where
  settled : ∀ batch ∈ w.batches.tail, batch.fate ≠ .pending
  spaced : ∀ batch ∈ w.batches, Spaced opts batch.sends
  bounded : ∀ batch ∈ w.batches, (batch.sends.length : ℤ) ≤ opts.attempts
  landed : ∀ batch ∈ w.batches, batch.fate = .acknowledged → Acknowledged batch
  counted : w.guard.sends = (w.batches.map fun b => b.sends.length).sum
  current : w.guard.recorded = none → Current opts w
  clean : w.guard.recorded = none → ∀ batch ∈ w.batches,
    batch.fate = .pending ∨ batch.fate = .acknowledged
  stopped : w.guard.recorded ≠ none → w.phase = .idle ∧
    ∃ batch ∈ w.batches, batch.fate = .dropped ∨ batch.fate = .refused
  unsent : ∀ detail, w.guard.recorded = some (.unsent detail false) →
    ∀ batch ∈ w.batches, batch.fate ≠ .acknowledged →
      ∀ send ∈ batch.sends, NotStored send
  forbidden : ∀ detail, w.guard.recorded = some (.forbidden detail) →
    ∃ batch ∈ w.batches, batch.fate ≠ .acknowledged ∧ Forbidden batch

variable {g : DocWriteGuard}

theorem Streak.nil (hcount : g.failedSends = 0)
    (hstarted : g.streakStartedAt = none) : Streak opts g [] where
  failed := fun _ hsend => by cases hsend
  spaced := trivial
  count := hcount
  room := by
    have : (1 : ℤ) ≤ opts.attempts := le_max_left _ _
    simp only [List.length_nil, Nat.cast_zero]
    omega
  landed := fun _ _ hsend => by cases hsend
  started := hstarted
  next := fun _ _ hcons => by cases hcons
  budget := fun _ hfirst => by cases hfirst

theorem sound_start (now : ℚ) : Sound opts (start now) where
  settled := fun _ hbatch => by cases hbatch
  spaced := fun _ hbatch => by cases hbatch
  bounded := fun _ hbatch => by cases hbatch
  landed := fun _ hbatch => by cases hbatch
  counted := rfl
  current := fun _ => Streak.nil rfl rfl
  clean := fun _ _ hbatch => by cases hbatch
  stopped := fun hrecorded => absurd rfl hrecorded
  unsent := fun _ hrecorded => by cases hrecorded
  forbidden := fun _ hrecorded => by cases hrecorded

/-! ## The end of a failed send -/

/-- What `onSendFailed` does, by the three ways a failed send ends. -/
inductive FailedSend (opts : DocWriteGuardOptions) (now : ℚ)
    (error : SendError) (g : DocWriteGuard) :
    DocWriteGuard × DocWriteReply → Prop
  | forbidden (reply : DocWriteReply)
      (hcode : error.errcode = some "M_FORBIDDEN")
      (hreply : reply ≠ .rejects) :
      FailedSend opts now error g
        ({ g with recorded := some (.forbidden error.detail) }, reply)
  | exhausted (g' : DocWriteGuard) (detail : String) (reply : DocWriteReply)
      (hrecorded : g'.recorded = some (.unsent detail
        (g.streakMayHaveLanded || sendMayHaveLanded error)))
      (hsends : g'.sends = g.sends) (hclosed : g'.closed = g.closed)
      (hreply : reply ≠ .rejects) :
      FailedSend opts now error g (g', reply)
  | again (g' : DocWriteGuard) (hrecorded : g'.recorded = g.recorded)
      (hsends : g'.sends = g.sends) (hclosed : g'.closed = g.closed)
      (hcount : g'.failedSends = g.failedSends + 1)
      (hroom : ((g.failedSends + 1 : ℕ) : ℤ) < opts.attempts)
      (hlanded : g'.streakMayHaveLanded =
        (g.streakMayHaveLanded || sendMayHaveLanded error))
      (hstarted : g'.streakStartedAt = some (g.streakStartedAt.getD now))
      (hnext : g'.nextSendAt =
        now + DocWriteGuard.delay opts error (g.failedSends + 1))
      (hbudget : g'.nextSendAt ≤ g.streakStartedAt.getD now + opts.budget) :
      FailedSend opts now error g (g', .rejects)

theorem giveUp_ne_rejects (g : DocWriteGuard) : g.giveUp opts ≠ .rejects := by
  unfold DocWriteGuard.giveUp
  split <;> decide

theorem onSendFailed_cases (opts : DocWriteGuardOptions) (now : ℚ)
    (error : SendError) (g : DocWriteGuard) :
    FailedSend opts now error g (g.onSendFailed opts now error) := by
  unfold DocWriteGuard.onSendFailed
  split
  · next hcode =>
    refine .forbidden _ hcode ?_
    split <;> decide
  · dsimp only
    split
    · exact .exhausted _ _ _ rfl rfl rfl (giveUp_ne_rejects _)
    · next hgoes =>
      simp only [not_or, not_le, not_lt] at hgoes
      refine .again _ rfl rfl rfl rfl hgoes.2.1 rfl rfl rfl ?_
      linarith [hgoes.2.2]

/-! ## The steps of a call -/

theorem Sound.withBatch (h : Sound opts w) (hidle : w.phase = .idle) :
    Sound opts w.withBatch ∧ w.withBatch.guard = w.guard ∧
      w.withBatch.phase = .idle ∧
      ∃ sends rest, w.withBatch.batches = ⟨sends, .pending⟩ :: rest := by
  have hpush : openSends w.batches = [] →
      (∀ batch ∈ w.batches, batch.fate ≠ .pending) →
      Sound opts { w with batches := ⟨[], .pending⟩ :: w.batches } := by
    intro hopen hsettled
    refine ⟨hsettled, ?_, ?_, ?_, ?_, ?_, ?_, ?_, ?_, ?_⟩
    · rintro batch (_ | ⟨_, hbatch⟩)
      · trivial
      · exact h.spaced batch hbatch
    · rintro batch (_ | ⟨_, hbatch⟩)
      · have : (1 : ℤ) ≤ opts.attempts := le_max_left _ _
        simp only [List.length_nil, Nat.cast_zero]
        omega
      · exact h.bounded batch hbatch
    · rintro batch (_ | ⟨_, hbatch⟩) hfate
      · cases hfate
      · exact h.landed batch hbatch hfate
    · rw [List.map_cons, List.sum_cons, ← h.counted]
      exact (Nat.zero_add _).symm
    · intro hrecorded
      have hstreak := h.current hrecorded
      simp only [Current, hidle] at hstreak ⊢
      rwa [hopen] at hstreak
    · rintro hrecorded batch (_ | ⟨_, hbatch⟩)
      · exact .inl rfl
      · exact h.clean hrecorded batch hbatch
    · intro hrecorded
      obtain ⟨hphase, batch, hbatch, hfate⟩ := h.stopped hrecorded
      exact ⟨hphase, batch, List.mem_cons_of_mem _ hbatch, hfate⟩
    · rintro detail hrecorded batch (_ | ⟨_, hbatch⟩) hfate send hsend
      · cases hsend
      · exact h.unsent detail hrecorded batch hbatch hfate send hsend
    · intro detail hrecorded
      obtain ⟨batch, hbatch, hforbidden⟩ := h.forbidden detail hrecorded
      exact ⟨batch, List.mem_cons_of_mem _ hbatch, hforbidden⟩
  unfold DocWriter.withBatch
  cases hbatches : w.batches with
  | nil =>
      rw [hbatches] at hpush
      exact ⟨hpush rfl (fun _ hbatch => by cases hbatch), rfl, hidle, [], [],
        rfl⟩
  | cons batch rest =>
      rw [hbatches] at hpush
      dsimp only
      by_cases hpending : batch.fate = .pending
      · rw [if_pos hpending]
        refine ⟨h, rfl, hidle, batch.sends, rest, ?_⟩
        rw [hbatches, ← hpending]
      · rw [if_neg hpending]
        refine ⟨hpush (if_neg hpending) ?_, rfl, hidle, [], _, rfl⟩
        rintro other (_ | ⟨_, hother⟩)
        · exact hpending
        · exact h.settled other (by rw [hbatches]; exact hother)

variable {sends : List DocSend}

/-- A call after a failure is recorded ends at once. -/
theorem Sound.giveUp {rest : List DocBatch}
    {reply : DocWriteReply} (h : Sound opts w)
    (hbatches : w.batches = ⟨sends, .pending⟩ :: rest)
    (hrecorded : w.guard.recorded ≠ none) (hreply : reply ≠ .rejects) :
    Sound opts (w.reply reply) := by
  have hfate : BatchFate.after reply = .dropped ∨
      BatchFate.after reply = .refused := by
    cases reply with
    | resolves => exact .inl rfl
    | forbids => exact .inr rfl
    | rejects => exact absurd rfl hreply
  have hnot : BatchFate.after reply ≠ .acknowledged := by
    cases reply <;> decide
  have hafter : w.reply reply = { w with
        batches := ⟨sends, BatchFate.after reply⟩ :: rest
        phase := .idle } := by
    simp only [DocWriter.reply, DocWriter.onBatch, hbatches]
  have hmem : ⟨sends, .pending⟩ ∈ w.batches := by
    rw [hbatches]
    exact List.mem_cons_self
  have hrest : ∀ batch ∈ rest, batch ∈ w.batches := by
    intro batch hbatch
    rw [hbatches]
    exact List.mem_cons_of_mem _ hbatch
  rw [hafter]
  refine ⟨?_, ?_, ?_, ?_, ?_, fun hnone => absurd hnone hrecorded,
    fun hnone => absurd hnone hrecorded, fun _ => ⟨rfl, _,
      List.mem_cons_self, hfate⟩, ?_, ?_⟩
  · intro batch hbatch
    exact h.settled batch (by rw [hbatches]; exact hbatch)
  · rintro batch (_ | ⟨_, hbatch⟩)
    · exact h.spaced ⟨sends, .pending⟩ hmem
    · exact h.spaced batch (hrest batch hbatch)
  · rintro batch (_ | ⟨_, hbatch⟩)
    · exact h.bounded ⟨sends, .pending⟩ hmem
    · exact h.bounded batch (hrest batch hbatch)
  · rintro batch (_ | ⟨_, hbatch⟩) hacknowledged
    · exact absurd hacknowledged hnot
    · exact h.landed batch (hrest batch hbatch) hacknowledged
  · have hcounted := h.counted
    rw [hbatches] at hcounted
    exact hcounted
  · rintro detail hunsent batch (_ | ⟨_, hbatch⟩) hfate
    · exact h.unsent detail hunsent ⟨sends, .pending⟩ hmem (by simp)
    · exact h.unsent detail hunsent batch (hrest batch hbatch) hfate
  · intro detail hforbidden
    obtain ⟨batch, hbatch, hfate, hrefused⟩ := h.forbidden detail hforbidden
    rw [hbatches] at hbatch
    rcases List.mem_cons.mp hbatch with rfl | hbatch
    · exact ⟨_, List.mem_cons_self, hnot, hrefused⟩
    · exact ⟨batch, List.mem_cons_of_mem _ hbatch, hfate, hrefused⟩

theorem Sound.send (h : Sound opts w) (hstep : step opts w .send = some w') :
    Sound opts w' := by
  simp only [step] at hstep
  split at hstep
  · next hidle =>
    obtain ⟨hsound, hguard, hphase, sends, rest, hbatches⟩ := h.withBatch hidle
    split at hstep
    · next hrecorded =>
      cases hstep
      exact hsound.giveUp hbatches (Option.isSome_iff_ne_none.mp
        hrecorded) (giveUp_ne_rejects _)
    · next hrecorded =>
      cases hstep
      have hnone : w.withBatch.guard.recorded = none := by
        simpa using hrecorded
      refine ⟨hsound.settled, hsound.spaced, hsound.bounded, hsound.landed,
        hsound.counted, fun _ => ⟨rfl, sends, rest, hbatches, ?_⟩,
        hsound.clean, fun hsome => absurd hnone hsome, hsound.unsent,
        hsound.forbidden⟩
      have hstreak := hsound.current hnone
      simp only [Current, hphase, hbatches] at hstreak
      exact hstreak
  · cases hstep

/-- The batches before the one being written. -/
structure Written (opts : DocWriteGuardOptions) (rest : List DocBatch) :
    Prop where
  fate : ∀ batch ∈ rest, batch.fate = .acknowledged
  spaced : ∀ batch ∈ rest, Spaced opts batch.sends
  bounded : ∀ batch ∈ rest, (batch.sends.length : ℤ) ≤ opts.attempts
  landed : ∀ batch ∈ rest, Acknowledged batch

theorem Sound.written {batch : DocBatch} {rest : List DocBatch}
    (h : Sound opts w) (hnone : w.guard.recorded = none)
    (hbatches : w.batches = batch :: rest) : Written opts rest := by
  have hmem : ∀ other ∈ rest, other ∈ w.batches := by
    intro other hother
    rw [hbatches]
    exact List.mem_cons_of_mem _ hother
  have hfate : ∀ other ∈ rest, other.fate = .acknowledged := by
    intro other hother
    have hnot := h.settled other (by rw [hbatches]; exact hother)
    exact (h.clean hnone other (hmem other hother)).resolve_left hnot
  exact ⟨hfate, fun other hother => h.spaced other (hmem other hother),
    fun other hother => h.bounded other (hmem other hother),
    fun other hother => h.landed other (hmem other hother)
      (hfate other hother)⟩

/-- The newest batch and the guard, when the others are written. -/
structure Newest (opts : DocWriteGuardOptions) (w : DocWriter)
    (batch : DocBatch) : Prop where
  spaced : Spaced opts batch.sends
  bounded : (batch.sends.length : ℤ) ≤ opts.attempts
  landed : batch.fate = .acknowledged → Acknowledged batch
  current : w.guard.recorded = none → Current opts w
  clean : w.guard.recorded = none →
    batch.fate = .pending ∨ batch.fate = .acknowledged
  stopped : w.guard.recorded ≠ none → w.phase = .idle ∧
    (batch.fate = .dropped ∨ batch.fate = .refused)
  unsent : ∀ detail, w.guard.recorded = some (.unsent detail false) →
    ∀ send ∈ batch.sends, NotStored send
  forbidden : ∀ detail, w.guard.recorded = some (.forbidden detail) →
    batch.fate ≠ .acknowledged ∧ Forbidden batch

theorem Newest.sound {batch : DocBatch} {rest : List DocBatch}
    (h : Newest opts w batch) (hwritten : Written opts rest)
    (hbatches : w.batches = batch :: rest)
    (hcounted : w.guard.sends = batch.sends.length +
      (rest.map fun b => b.sends.length).sum) : Sound opts w := by
  constructor
  · intro other hother
    rw [hbatches] at hother
    rw [hwritten.fate other hother]
    decide
  · rw [hbatches]
    exact List.forall_mem_cons.mpr ⟨h.spaced, hwritten.spaced⟩
  · rw [hbatches]
    exact List.forall_mem_cons.mpr ⟨h.bounded, hwritten.bounded⟩
  · rw [hbatches]
    exact List.forall_mem_cons.mpr
      ⟨h.landed, fun other hother _ => hwritten.landed other hother⟩
  · rw [hbatches, List.map_cons, List.sum_cons]
    exact hcounted
  · exact h.current
  · intro hnone
    rw [hbatches]
    exact List.forall_mem_cons.mpr
      ⟨h.clean hnone, fun other hother => .inr (hwritten.fate other hother)⟩
  · intro hsome
    obtain ⟨hidle, hfate⟩ := h.stopped hsome
    refine ⟨hidle, batch, ?_, hfate⟩
    rw [hbatches]
    exact List.mem_cons_self
  · intro detail hrecorded
    rw [hbatches]
    exact List.forall_mem_cons.mpr ⟨fun _ => h.unsent detail hrecorded,
      fun other hother hfate => absurd (hwritten.fate other hother) hfate⟩
  · intro detail hrecorded
    refine ⟨batch, ?_, h.forbidden detail hrecorded⟩
    rw [hbatches]
    exact List.mem_cons_self

theorem Streak.spaced_resume {now : ℚ} (hstreak : Streak opts g sends)
    (hnow : g.nextSendAt ≤ now) : Spaced opts (⟨now, none⟩ :: sends) := by
  cases sends with
  | nil => trivial
  | cons send earlier =>
      obtain ⟨at', error, landed, hending, hnext⟩ :=
        hstreak.next send earlier rfl
      refine ⟨⟨at', error, landed, hending, ?_⟩, hstreak.spaced⟩
      rw [← hnext]
      exact hnow

/-- `sends` is not among what a streak reads. -/
theorem Streak.counted (n : ℕ)
    (h : Streak opts g sends) : Streak opts { g with sends := n } sends :=
  { h with }

theorem Sound.resume (h : Sound opts w)
    (hstep : step opts w .resume = some w') : Sound opts w' := by
  simp only [step] at hstep
  cases hphase : w.phase with
  | idle =>
      rw [hphase] at hstep
      cases hstep
  | sending =>
      rw [hphase] at hstep
      cases hstep
  | waiting until' =>
      rw [hphase] at hstep
      dsimp only at hstep
      have hnone : w.guard.recorded = none := by
        by_contra hrecorded
        cases hphase.symm.trans (h.stopped hrecorded).1
      have hcurrent := h.current hnone
      simp only [Current, hphase] at hcurrent
      obtain ⟨huntil, sends, rest, hbatches, hstreak⟩ := hcurrent
      have hwritten := h.written hnone hbatches
      have hmem : ⟨sends, .pending⟩ ∈ w.batches := by
        rw [hbatches]
        exact List.mem_cons_self
      have hcounted := h.counted
      rw [hbatches, List.map_cons, List.sum_cons] at hcounted
      split at hstep
      · -- the document was closed: the batch is dropped without a send
        cases hstep
        have hrecorded : w.guard.dropped.recorded = some (.unsent
            "the document closed before the change was acknowledged" true) := by
          simp [DocWriteGuard.dropped, hnone]
        simp only [DocWriter.reply, DocWriter.onBatch, hbatches]
        refine @Newest.sound opts _ ⟨sends, .dropped⟩ rest ⟨?_, ?_, ?_, ?_,
          ?_, ?_, ?_, ?_⟩ hwritten rfl hcounted
        · exact h.spaced ⟨sends, .pending⟩ hmem
        · exact h.bounded ⟨sends, .pending⟩ hmem
        · exact fun hfate => by cases hfate
        · exact fun hnot => by cases hrecorded.symm.trans hnot
        · exact fun hnot => by cases hrecorded.symm.trans hnot
        · exact fun _ => ⟨rfl, .inl rfl⟩
        · exact fun _ hnot => by cases hrecorded.symm.trans hnot
        · exact fun _ hnot => by cases hrecorded.symm.trans hnot
      · split at hstep
        · next hnow =>
          cases hstep
          have hspaced : Spaced opts (⟨w.now, none⟩ :: sends) :=
            hstreak.spaced_resume (by rw [← huntil]; exact hnow)
          simp only [DocWriter.onBatch, hbatches]
          refine @Newest.sound opts _ ⟨⟨w.now, none⟩ :: sends, .pending⟩ rest
            ⟨hspaced, ?_, ?_, ?_, ?_, ?_, ?_, ?_⟩ hwritten rfl ?_
          · have hroom := hstreak.room
            simp only [List.length_cons, Nat.cast_add, Nat.cast_one]
            omega
          · exact fun hfate => by cases hfate
          · exact fun _ => ⟨⟨w.now, none⟩, sends, rest, rfl,
              hstreak.counted _, hspaced⟩
          · exact fun _ => .inl rfl
          · exact fun hsome => absurd hnone hsome
          · exact fun _ hsome => by cases hnone.symm.trans hsome
          · exact fun _ hsome => by cases hnone.symm.trans hsome
          · dsimp only at hcounted ⊢
            rw [hcounted, List.length_cons]
            omega
        · cases hstep

/-! ## The end of a send -/

variable {earlier : List DocSend}

theorem Spaced.ended {send : DocSend}
    (h : Spaced opts (send :: earlier)) (ending : SendEnding) :
    Spaced opts ({ send with ending := some ending } :: earlier) := by
  cases earlier with
  | nil => trivial
  | cons before earlier => exact h

/-- The batch of a send in flight. -/
theorem Sound.sending (h : Sound opts w) (hphase : w.phase = .sending) :
    w.guard.recorded = none ∧ ∃ send earlier rest,
      w.batches = ⟨send :: earlier, .pending⟩ :: rest ∧
      Streak opts w.guard earlier ∧ Spaced opts (send :: earlier) ∧
      Written opts rest ∧
      w.guard.sends = (earlier.length + 1) +
        (rest.map fun b => b.sends.length).sum := by
  have hnone : w.guard.recorded = none := by
    by_contra hrecorded
    cases hphase.symm.trans (h.stopped hrecorded).1
  have hcurrent := h.current hnone
  simp only [Current, hphase] at hcurrent
  obtain ⟨send, earlier, rest, hbatches, hstreak, hspaced⟩ := hcurrent
  have hcounted := h.counted
  rw [hbatches, List.map_cons, List.sum_cons, List.length_cons] at hcounted
  exact ⟨hnone, send, earlier, rest, hbatches, hstreak, hspaced,
    h.written hnone hbatches, hcounted⟩

theorem Sound.acknowledged (h : Sound opts w)
    (hstep : step opts w .acknowledged = some w') : Sound opts w' := by
  simp only [step] at hstep
  split at hstep
  · next hphase =>
    cases hstep
    obtain ⟨hnone, send, earlier, rest, hbatches, hstreak, hspaced,
      hwritten, hcounted⟩ := h.sending hphase
    have hroom := hstreak.room
    simp only [DocWriter.onBatch, hbatches, endSend]
    refine @Newest.sound opts _
      ⟨{ send with ending := some .acknowledged } :: earlier, .acknowledged⟩
      rest ⟨hspaced.ended _, ?_, ?_, ?_, ?_, ?_, ?_, ?_⟩ hwritten rfl
      hcounted
    · simp only [List.length_cons, Nat.cast_add, Nat.cast_one]
      omega
    · exact fun _ => ⟨_, earlier, rfl, rfl⟩
    · exact fun _ => Streak.nil rfl rfl
    · exact fun _ => .inr rfl
    · exact fun hsome => absurd hnone hsome
    · exact fun _ hsome => by cases hnone.symm.trans hsome
    · exact fun _ hsome => by cases hnone.symm.trans hsome
  · cases hstep

theorem firstFailure_isSome (hne : sends ≠ [])
    (hfailed : ∀ send ∈ sends, Failed send) :
    firstFailure sends ≠ none := by
  induction sends with
  | nil => exact absurd rfl hne
  | cons send earlier ih =>
      cases earlier with
      | nil =>
          obtain ⟨at', error, landed, hending⟩ :=
            hfailed send List.mem_cons_self
          simp [firstFailure, hending]
      | cons before rest =>
          rw [firstFailure]
          · exact ih (List.cons_ne_nil _ _) fun other hother =>
              hfailed other (List.mem_cons_of_mem _ hother)
          · exact List.cons_ne_nil _ _

variable {error : SendError}

theorem firstFailure_cons {send : DocSend} {now : ℚ} {landed : Bool}
    (hfailed : ∀ send ∈ earlier, Failed send)
    (hending : send.ending = some (.failed now error landed)) :
    firstFailure (send :: earlier) =
      some ((firstFailure earlier).getD now) := by
  cases earlier with
  | nil => simp [firstFailure, hending]
  | cons before rest =>
      obtain ⟨first, hfirst⟩ := Option.ne_none_iff_exists'.mp
        (firstFailure_isSome (List.cons_ne_nil before rest) hfailed)
      rw [firstFailure, hfirst]
      · rfl
      · exact List.cons_ne_nil _ _

/-- A failed send that may be sent again. -/
theorem Streak.again {g g' : DocWriteGuard} {send : DocSend}
    {now : ℚ} {landed : Bool}
    (h : Streak opts g earlier) (hspaced : Spaced opts (send :: earlier))
    (hending : send.ending = some (.failed now error landed))
    (hcount : g'.failedSends = g.failedSends + 1)
    (hroom : ((g.failedSends + 1 : ℕ) : ℤ) < opts.attempts)
    (hlanded : g'.streakMayHaveLanded = false →
      g.streakMayHaveLanded = false ∧ landed = false)
    (hstarted : g'.streakStartedAt = some (g.streakStartedAt.getD now))
    (hnext : g'.nextSendAt =
      now + DocWriteGuard.delay opts error (g.failedSends + 1))
    (hbudget : g'.nextSendAt ≤ g.streakStartedAt.getD now + opts.budget) :
    Streak opts g' (send :: earlier) where
  failed := List.forall_mem_cons.mpr ⟨⟨now, error, landed, hending⟩, h.failed⟩
  spaced := hspaced
  count := by rw [hcount, h.count, List.length_cons]
  room := by rwa [List.length_cons, ← h.count]
  landed := by
    intro hnot
    obtain ⟨hearlier, hthis⟩ := hlanded hnot
    refine List.forall_mem_cons.mpr ⟨⟨now, error, ?_⟩, h.landed hearlier⟩
    rw [hending, hthis]
  started := by
    rw [hstarted, h.started, firstFailure_cons h.failed hending]
  next := by
    rintro other rest hcons
    obtain ⟨rfl, rfl⟩ := List.cons.inj hcons
    refine ⟨now, error, landed, hending, ?_⟩
    rw [hnext, h.count]
    rfl
  budget := by
    intro first hfirst
    rw [firstFailure_cons h.failed hending, ← h.started] at hfirst
    rw [← Option.some.inj hfirst]
    exact hbudget

theorem notStored_of_truthful {landed : Bool}
    (htruthful : truthful error landed = true)
    (hrefused : sendMayHaveLanded error = false ∨
      error.errcode = some "M_FORBIDDEN") : landed = false := by
  cases landed with
  | false => rfl
  | true =>
      rcases hrefused with hrefused | hrefused <;>
        simp [truthful, hrefused] at htruthful

theorem Sound.failed {landed : Bool} (h : Sound opts w)
    (hstep : step opts w (.failed error landed) = some w') :
    Sound opts w' := by
  simp only [step] at hstep
  split at hstep
  · next hsending =>
    obtain ⟨hphase, htruthful⟩ := hsending
    cases hstep
    obtain ⟨hnone, send, earlier, rest, hbatches, hstreak, hspaced,
      hwritten, hcounted⟩ := h.sending hphase
    have hroom := hstreak.room
    have hcases := onSendFailed_cases opts w.now error w.guard
    generalize w.guard.onSendFailed opts w.now error = ended at hcases ⊢
    obtain ⟨g', reply⟩ := ended
    let send' : DocSend :=
      { send with ending := some (.failed w.now error landed) }
    have hended : Spaced opts (send' :: earlier) := hspaced.ended _
    have hlength : ((send' :: earlier).length : ℤ) ≤ opts.attempts := by
      simp only [List.length_cons, Nat.cast_add, Nat.cast_one]
      omega
    have hgaveUp : reply ≠ .rejects → BatchFate.after reply = .dropped ∨
        BatchFate.after reply = .refused := by
      intro hreply
      cases reply with
      | resolves => exact .inl rfl
      | forbids => exact .inr rfl
      | rejects => exact absurd rfl hreply
    have hnot : BatchFate.after reply ≠ .acknowledged := by
      cases reply <;> decide
    simp only [DocWriter.reply, DocWriter.onBatch, hbatches, endSend]
    cases hcases with
    | forbidden reply hcode hreply =>
        have hlanded := notStored_of_truthful htruthful (.inr hcode)
        refine @Newest.sound opts _ ⟨send' :: earlier,
          BatchFate.after reply⟩ rest ⟨hended, hlength,
          fun hfate => absurd hfate hnot, ?_, ?_, ?_, ?_, ?_⟩ hwritten rfl
          hcounted
        · exact fun hsome => by cases hsome
        · exact fun hsome => by cases hsome
        · exact fun _ => ⟨rfl, hgaveUp hreply⟩
        · exact fun _ hsome => by cases hsome
        · refine fun _ _ => ⟨hnot, send', earlier, w.now, error, rfl, ?_,
            hcode⟩
          simp only [send', hlanded]
    | exhausted g' detail reply hrecorded hsends hclosed hreply =>
        refine @Newest.sound opts _ ⟨send' :: earlier,
          BatchFate.after reply⟩ rest ⟨hended, hlength,
          fun hfate => absurd hfate hnot, ?_, ?_, ?_, ?_, ?_⟩ hwritten rfl
          (hsends.trans hcounted)
        · exact fun hsome => by cases hrecorded.symm.trans hsome
        · exact fun hsome => by cases hrecorded.symm.trans hsome
        · exact fun _ => ⟨rfl, hgaveUp hreply⟩
        · intro detail' hsome
          have hnever : (w.guard.streakMayHaveLanded ||
              sendMayHaveLanded error) = false := by
            have := hrecorded.symm.trans hsome
            simp only [Option.some.injEq, DocWriteFailure.unsent.injEq] at this
            exact this.2
          simp only [Bool.or_eq_false_iff] at hnever
          have hlanded := notStored_of_truthful htruthful (.inl hnever.2)
          refine List.forall_mem_cons.mpr
            ⟨⟨w.now, error, ?_⟩, hstreak.landed hnever.1⟩
          simp only [send', hlanded]
        · exact fun _ hsome => by cases hrecorded.symm.trans hsome
    | again g' hrecorded hsends hclosed hcount hroom' hlanded hstarted hnext
        hbudget =>
        have hagain : Streak opts g' (send' :: earlier) := by
          refine hstreak.again hended rfl hcount hroom' ?_ hstarted hnext
            hbudget
          intro hnever
          rw [hlanded, Bool.or_eq_false_iff] at hnever
          exact ⟨hnever.1, notStored_of_truthful htruthful (.inl hnever.2)⟩
        have hnone' : g'.recorded = none := hrecorded.trans hnone
        refine @Newest.sound opts _ ⟨send' :: earlier, .pending⟩ rest
          ⟨hended, hlength, ?_, ?_, ?_, ?_, ?_, ?_⟩ hwritten rfl
          (hsends.trans hcounted)
        · exact fun hfate => by cases hfate
        · exact fun _ => hagain
        · exact fun _ => .inl rfl
        · exact fun hsome => absurd hnone' hsome
        · exact fun _ hsome => by cases hnone'.symm.trans hsome
        · exact fun _ hsome => by cases hnone'.symm.trans hsome
  · cases hstep

/-! ## Runs -/

theorem Sound.close (h : Sound opts w) : Sound opts
    { w with guard := { w.guard with closed := true } } := by
  have hstreak : ∀ sends, Streak opts w.guard sends →
      Streak opts { w.guard with closed := true } sends := fun _ h =>
    { h with }
  refine ⟨h.settled, h.spaced, h.bounded, h.landed, h.counted, ?_, h.clean,
    h.stopped, h.unsent, h.forbidden⟩
  intro hnone
  have hcurrent := h.current hnone
  cases hphase : w.phase with
  | idle =>
      simp only [Current, hphase] at hcurrent ⊢
      exact hstreak _ hcurrent
  | waiting until' =>
      simp only [Current, hphase] at hcurrent ⊢
      obtain ⟨huntil, sends, rest, hbatches, hwaits⟩ := hcurrent
      exact ⟨huntil, sends, rest, hbatches, hstreak _ hwaits⟩
  | sending =>
      simp only [Current, hphase] at hcurrent ⊢
      obtain ⟨send, earlier, rest, hbatches, hfails, hspaced⟩ := hcurrent
      exact ⟨send, earlier, rest, hbatches, hstreak _ hfails, hspaced⟩

theorem Sound.step {event : DocWriteEvent} (h : Sound opts w)
    (hstep : step opts w event = some w') : Sound opts w' := by
  cases event with
  | tick ms =>
      simp only [DocWriter.step] at hstep
      split at hstep
      · cases hstep
        exact { h with }
      · cases hstep
  | send => exact h.send hstep
  | resume => exact h.resume hstep
  | acknowledged => exact h.acknowledged hstep
  | failed error landed => exact h.failed hstep
  | close =>
      cases hstep
      exact h.close

theorem Sound.run {events : List DocWriteEvent} (h : Sound opts w)
    (hrun : Transition.run (DocWriter.step opts) w events = some w') :
    Sound opts w' :=
  Transition.run_preserves (fun _ _ _ hs hstep => hs.step hstep) h hrun

/-- No further send. -/
def Stopped (w : DocWriter) : Prop :=
  w.guard.recorded ≠ none ∨ w.guard.closed = true

/-- A recorded failure stays, and once stopped the guard stays so and sends
nothing. -/
theorem Sound.step_stopped {event : DocWriteEvent} (h : Sound opts w)
    (hstep : DocWriter.step opts w event = some w') :
    (∀ failure, w.guard.recorded = some failure →
      w'.guard.recorded = some failure) ∧
    (w.Stopped → w'.Stopped ∧ w'.guard.sends = w.guard.sends) := by
  have hvacuous : w.guard.recorded = none → ∀ failure,
      w.guard.recorded = some failure → w'.guard.recorded = some failure := by
    intro hnone failure hrecorded
    cases hnone.symm.trans hrecorded
  cases event with
  | tick ms =>
      simp only [DocWriter.step] at hstep
      split at hstep
      · cases hstep
        exact ⟨fun _ hrecorded => hrecorded, fun hstopped => ⟨hstopped, rfl⟩⟩
      · cases hstep
  | send =>
      simp only [DocWriter.step] at hstep
      split at hstep
      · next hphase =>
        obtain ⟨-, hguard, -, sends, rest, hbatches⟩ := h.withBatch hphase
        have hsame : w'.guard = w.guard := by
          split at hstep
          · cases hstep
            simp only [DocWriter.reply, DocWriter.onBatch, hbatches, hguard]
          · cases hstep
            exact hguard
        have hstopped : w'.Stopped ↔ w.Stopped := by
          simp only [Stopped, hsame]
        rw [hsame]
        exact ⟨fun _ hrecorded => hrecorded,
          fun hbefore => ⟨hstopped.mpr hbefore, rfl⟩⟩
      · cases hstep
  | resume =>
      simp only [DocWriter.step] at hstep
      cases hphase : w.phase with
      | idle =>
          rw [hphase] at hstep
          cases hstep
      | sending =>
          rw [hphase] at hstep
          cases hstep
      | waiting until' =>
          rw [hphase] at hstep
          dsimp only at hstep
          have hnone : w.guard.recorded = none := by
            by_contra hrecorded
            cases hphase.symm.trans (h.stopped hrecorded).1
          split at hstep
          · next hclosed =>
            cases hstep
            exact ⟨hvacuous hnone, fun _ => ⟨.inr hclosed, rfl⟩⟩
          · next hopen =>
            split at hstep
            · cases hstep
              refine ⟨hvacuous hnone, ?_⟩
              rintro (hrecorded | hclosed)
              · exact absurd hnone hrecorded
              · exact absurd hclosed hopen
            · cases hstep
  | acknowledged =>
      simp only [DocWriter.step] at hstep
      split at hstep
      · next hphase =>
        cases hstep
        have hnone := (h.sending hphase).1
        refine ⟨hvacuous hnone, ?_⟩
        rintro (hrecorded | hclosed)
        · exact absurd hnone hrecorded
        · exact ⟨.inr hclosed, rfl⟩
      · cases hstep
  | failed error landed =>
      simp only [DocWriter.step] at hstep
      split at hstep
      · next hsending =>
        cases hstep
        obtain ⟨hnone, send, earlier, rest, hbatches, -⟩ :=
          h.sending hsending.1
        refine ⟨hvacuous hnone, ?_⟩
        have hcases := onSendFailed_cases opts w.now error w.guard
        generalize w.guard.onSendFailed opts w.now error = ended at hcases ⊢
        obtain ⟨g', reply⟩ := ended
        simp only [DocWriter.reply, DocWriter.onBatch, hbatches, Stopped]
        rintro (hrecorded | hclosed)
        · exact absurd hnone hrecorded
        · cases hcases with
          | forbidden => exact ⟨.inr hclosed, rfl⟩
          | exhausted g' detail reply hrecorded hsends hsame =>
              exact ⟨.inr (hsame.trans hclosed), hsends⟩
          | again g' hrecorded hsends hsame =>
              exact ⟨.inr (hsame.trans hclosed), hsends⟩
      · cases hstep
  | close =>
      cases hstep
      exact ⟨fun _ hrecorded => hrecorded, fun _ => ⟨.inr rfl, rfl⟩⟩

theorem Sound.run_stopped {events : List DocWriteEvent} (h : Sound opts w)
    (hrun : Transition.run (DocWriter.step opts) w events = some w') :
    (∀ failure, w.guard.recorded = some failure →
      w'.guard.recorded = some failure) ∧
    (w.Stopped → w'.guard.sends = w.guard.sends) := by
  induction events generalizing w with
  | nil =>
      cases hrun
      exact ⟨fun _ hrecorded => hrecorded, fun _ => rfl⟩
  | cons event events ih =>
      obtain ⟨mid, hstep, hrest⟩ := Transition.run_cons_eq_some.mp hrun
      obtain ⟨hkept, hstops⟩ := h.step_stopped hstep
      obtain ⟨hkept', hstops'⟩ := ih (h.step hstep) hrest
      refine ⟨fun failure hrecorded => hkept' failure
        (hkept failure hrecorded), fun hstopped => ?_⟩
      obtain ⟨hstopped', hsends⟩ := hstops hstopped
      rw [hstops' hstopped', hsends]

/-- What holds of the batches and of the report at any moment. -/
structure BoundedAndTruthful (opts : DocWriteGuardOptions) (w : DocWriter) :
    Prop where
  bounded : ∀ batch ∈ w.batches, (batch.sends.length : ℤ) ≤ opts.attempts
  counted : w.guard.sends = (w.batches.map fun b => b.sends.length).sum
  spaced : ∀ batch ∈ w.batches, Spaced opts batch.sends
  budget : ∀ until', w.phase = .waiting until' →
    ∀ batch rest first, w.batches = batch :: rest →
      firstFailure batch.sends = some first → until' ≤ first + opts.budget
  failure_iff : w.guard.recorded = none ↔ ∀ batch ∈ w.batches,
    batch.fate = .pending ∨ batch.fate = .acknowledged
  landed : ∀ batch ∈ w.batches, batch.fate = .acknowledged → Acknowledged batch
  unsent : ∀ detail, w.guard.recorded = some (.unsent detail false) →
    ∀ batch ∈ w.batches, batch.fate ≠ .acknowledged →
      ∀ send ∈ batch.sends, NotStored send
  forbidden : ∀ detail, w.guard.recorded = some (.forbidden detail) →
    ∃ batch ∈ w.batches, batch.fate ≠ .acknowledged ∧ Forbidden batch
  flushed : ∀ canWrite waited, w.guard.flush canWrite waited = none →
    (∀ batch ∈ w.batches, batch.fate ≠ .pending) →
      ∀ batch ∈ w.batches, Acknowledged batch

theorem recorded_of_flush {canWrite : Option Bool}
    {waited : Except String Unit} (hflush : g.flush canWrite waited = none) :
    g.recorded = none := by
  cases waited with
  | ok =>
      simp only [DocWriteGuard.flush, DocWriteGuard.writeFailure,
        Option.or_eq_none_iff] at hflush
      exact hflush.1
  | error detail =>
      simp [DocWriteGuard.flush] at hflush

theorem Sound.truthful (h : Sound opts w) : BoundedAndTruthful opts w where
  bounded := h.bounded
  counted := h.counted
  spaced := h.spaced
  budget := by
    intro until' hphase batch rest first hbatches hfirst
    have hnone : w.guard.recorded = none := by
      by_contra hrecorded
      cases hphase.symm.trans (h.stopped hrecorded).1
    have hcurrent := h.current hnone
    simp only [Current, hphase] at hcurrent
    obtain ⟨rfl, sends, rest', hbatches', hstreak⟩ := hcurrent
    obtain ⟨rfl, rfl⟩ := List.cons.inj (hbatches.symm.trans hbatches')
    exact hstreak.budget first hfirst
  failure_iff := by
    constructor
    · exact h.clean
    · intro hfates
      by_contra hrecorded
      obtain ⟨-, batch, hbatch, hfate⟩ := h.stopped hrecorded
      rcases hfates batch hbatch with hfate' | hfate' <;>
        rcases hfate with hfate | hfate <;> cases hfate.symm.trans hfate'
  landed := h.landed
  unsent := h.unsent
  forbidden := h.forbidden
  flushed := by
    intro canWrite waited hflush hdrained batch hbatch
    have hnone := recorded_of_flush hflush
    apply h.landed batch hbatch
    exact (h.clean hnone batch hbatch).resolve_left (hdrained batch hbatch)

end DocWriter

end QiForge
