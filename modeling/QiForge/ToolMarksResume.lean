import QiForge.ToolMarks

/-!
# Resuming tool calls

What a call's mark says about its execution (`MarkedCall.Kept`) survives every
step and every reset; what the ledger answers a parked call rests on the row
its read finds.
-/

namespace QiForge

/-- The handler of the call may still be started, or it waits unsent. -/
def MarkedPhase.isFresh : MarkedPhase → Bool
  | .bumping | .ready | .claiming _ | .running false => true
  | .idle | .refusing | .running true | .releasing _ | .finishing _ => false

/-- The handler of the call is not started yet. -/
def MarkedPhase.isAhead : MarkedPhase → Bool
  | .bumping | .ready | .claiming _ => true
  | _ => false

namespace MarkedCall

variable {Args : Type} {t : ToolTurn Args} {id : String} {c : MarkedCall}

def neverSent (c : MarkedCall) : Bool :=
  c.mark.any ToolMark.neverSent && !c.sending

structure Kept (t : ToolTurn Args) (id : String) (c : MarkedCall) :
    Prop where
  unmarked : c.mark = none →
    c.phase = .idle ∧ c.sending = false ∧ c.started = 0 ∧
      c.recorded = false ∧ c.parked = false
  notBumped : t.effect id = .write → t.frontend id = false → c.phase ≠ .bumping
  ahead : t.effect id = .write → t.frontend id = false →
    c.phase.isAhead = true → c.started = 0
  once : t.effect id = .write → t.frontend id = false → c.started ≤ 1
  fresh : t.frontendWrite id = true → c.phase.isFresh = true →
    c.neverSent = true
  sent : t.frontendWrite id = true → c.recorded = true →
    ∃ m, c.mark = some m ∧ m.sentAt.isSome = true
  sending : t.frontendWrite id = true → c.phase = .idle →
    c.sending = true → ∃ m, c.mark = some m ∧ m.doneAt.isSome = true
  waiting : c.parked = true → t.frontendWrite id = true ∧
    (c.phase = .idle ∨ c.phase.isAhead = true) ∧ c.neverSent = true
  handed : t.frontendWrite id = true → c.handedAgain = false

theorem frontendWrite_iff :
    t.frontendWrite id = true ↔ t.effect id = .write ∧ t.frontend id = true := by
  unfold ToolTurn.frontendWrite
  simp

theorem neverSent_iff : c.neverSent = true ↔
    (∃ m, c.mark = some m ∧ m.doneAt = none ∧ m.sentAt = none) ∧
      c.sending = false := by
  unfold neverSent
  cases hmark : c.mark with
  | none => simp
  | some m => simp [ToolMark.neverSent]

theorem empty_kept : empty.Kept t id := by
  constructor <;> simp [empty, MarkedPhase.isFresh, MarkedPhase.isAhead]

/-- Moving on in memory, where the new phase asks for no more than is
known. -/
theorem Kept.move (h : c.Kept t id) {phase : MarkedPhase}
    (hmark : c.mark ≠ none) (hidle : phase ≠ .idle)
    (hbump : phase = .bumping → t.effect id = .write → t.frontend id = true)
    (hahead : phase.isAhead = true → t.effect id = .write →
      t.frontend id = false → c.started = 0)
    (hfresh : phase.isFresh = true → t.frontendWrite id = true →
      c.neverSent = true)
    (hwaiting : c.parked = true → phase.isAhead = true) :
    ({ c with phase := phase } : MarkedCall).Kept t id := by
  constructor
  · exact fun hnone => absurd hnone hmark
  · intro hwrite hnot hphase
    rw [hbump hphase hwrite] at hnot
    cases hnot
  · exact fun hwrite hnot hphase => hahead hphase hwrite hnot
  · exact h.once
  · exact fun hwrite hphase => hfresh hphase hwrite
  · exact h.sent
  · exact fun _ hphase => absurd hphase hidle
  · intro hparked
    rcases h.waiting hparked with ⟨hwrite, -, hnever⟩
    exact ⟨hwrite, Or.inr (hwaiting hparked), hnever⟩
  · exact h.handed

theorem Kept.mark_ne_none (h : c.Kept t id) (hphase : c.phase ≠ .idle) :
    c.mark ≠ none :=
  fun hnone => hphase (h.unmarked hnone).1

/-- A call that was parked is nowhere but ahead of its handler. -/
theorem Kept.not_parked (h : c.Kept t id) (hidle : c.phase ≠ .idle)
    (hahead : c.phase.isAhead = false) : c.parked = false := by
  cases hparked : c.parked with
  | false => rfl
  | true =>
      rcases (h.waiting hparked).2.1 with hphase | hphase
      · exact absurd hphase hidle
      · rw [hahead] at hphase
        cases hphase

theorem Kept.reach (h : c.Kept t id) (hidle : c.phase = .idle) (now : ℕ) :
    (c.reach t id now).Kept t id := by
  unfold MarkedCall.reach
  cases hmark : c.mark with
  | none =>
      rcases h.unmarked hmark with ⟨-, hsending, hstarted, hrecorded, hparked⟩
      have hnever : neverSent { c with
          mark := some (.start (t.toolName id) (t.effect id) now)
          phase := .ready } = true := by
        simp [neverSent, ToolMark.neverSent, ToolMark.start, hsending]
      constructor
      · intro hnone
        cases hnone
      · intro _ _ hphase
        cases hphase
      · exact fun _ _ _ => hstarted
      · intro _ _
        dsimp only
        omega
      · exact fun _ _ => hnever
      · intro _ hrec
        dsimp only at hrec
        rw [hrecorded] at hrec
        cases hrec
      · intro _ hphase
        cases hphase
      · intro hpark
        dsimp only at hpark
        rw [hparked] at hpark
        cases hpark
      · exact h.handed
  | some m =>
      have hmarked : c.mark ≠ none := by simp [hmark]
      have hnever : t.frontendWrite id = true → m.neverSent = true →
          c.neverSent = true := by
        intro hwrite hm
        rw [neverSent_iff]
        unfold ToolMark.neverSent at hm
        simp only [Bool.and_eq_true, Option.isNone_iff_eq_none] at hm
        refine ⟨⟨m, hmark, hm⟩, ?_⟩
        cases hsending : c.sending with
        | false => rfl
        | true =>
            rcases h.sending hwrite hidle hsending with ⟨m', hm', hdone⟩
            rw [hmark] at hm'
            cases hm'
            rw [hm.1] at hdone
            cases hdone
      have hparked : c.parked = true → m.neverSent = true := by
        intro hpark
        rcases neverSent_iff.mp (h.waiting hpark).2.2 with
          ⟨⟨m', hm', hdone, hsent⟩, -⟩
        rw [hmark] at hm'
        cases hm'
        simp [ToolMark.neverSent, hdone, hsent]
      dsimp only
      rw [← hmark]
      split_ifs with hcond hwrite
      · rw [Bool.and_eq_true] at hcond
        apply h.move hmarked (by simp)
        · exact fun _ _ => hcond.2
        · intro _ _ hnot
          rw [hcond.2] at hnot
          cases hnot
        · exact fun _ hwrite => hnever hwrite hcond.1
        · exact fun _ => rfl
      · apply h.move hmarked (by simp)
        · intro hphase
          cases hphase
        · intro hphase
          cases hphase
        · intro hphase
          cases hphase
        · intro hpark
          have hfront := (frontendWrite_iff.mp (h.waiting hpark).1).2
          rw [hparked hpark, hfront] at hcond
          exact absurd rfl hcond
      · apply h.move hmarked (by simp)
        · exact fun _ hwrite' => absurd hwrite' hwrite
        · exact fun _ hwrite' => absurd hwrite' hwrite
        · exact fun _ hwrite' =>
            absurd (frontendWrite_iff.mp hwrite').1 hwrite
        · exact fun _ => rfl

theorem Kept.bump (h : c.Kept t id) (hphase : c.phase = .bumping)
    (now : ℕ) : (c.bump now).Kept t id := by
  have hmarked := h.mark_ne_none (by rw [hphase]; simp)
  rcases Option.ne_none_iff_exists'.mp hmarked with ⟨m, hm⟩
  have hnever : c.sending = false → (c.bump now).neverSent = true := by
    intro hsending
    rw [neverSent_iff]
    refine ⟨⟨m.bump now, ?_, rfl, rfl⟩, hsending⟩
    simp [MarkedCall.bump, hm]
  have hfresh : t.frontendWrite id = true → c.sending = false :=
    fun hwrite =>
      (neverSent_iff.mp (h.fresh hwrite (by rw [hphase]; rfl))).2
  constructor
  · intro hnone
    simp [MarkedCall.bump, hm] at hnone
  · intro _ _ hready
    cases hready
  · intro hwrite hnot
    exact absurd hphase (h.notBumped hwrite hnot)
  · exact h.once
  · exact fun hwrite _ => hnever (hfresh hwrite)
  · intro hwrite hrec
    rcases h.sent hwrite hrec with ⟨m', hm', hsent⟩
    rcases neverSent_iff.mp (h.fresh hwrite (by rw [hphase]; rfl)) with
      ⟨⟨m'', hm'', -, hunsent⟩, -⟩
    rw [hm'] at hm''
    cases hm''
    rw [hunsent] at hsent
    cases hsent
  · intro _ hidle
    cases hidle
  · intro hpark
    have hwrite := (h.waiting hpark).1
    exact ⟨hwrite, Or.inr rfl, hnever (hfresh hwrite)⟩
  · exact h.handed

/-- The mark is closed and the call leaves memory. -/
theorem Kept.close (h : c.Kept t id) (hidle : c.phase ≠ .idle)
    (hahead : c.phase.isAhead = false) (outcome : MarkOutcome) (now : ℕ) :
    ({ c with
      mark := c.mark.map fun m => m.finish outcome now
      phase := .idle } : MarkedCall).Kept t id := by
  have hmarked := h.mark_ne_none hidle
  have hparked := h.not_parked hidle hahead
  rcases Option.ne_none_iff_exists'.mp hmarked with ⟨m, hm⟩
  constructor
  · intro hnone
    simp [hm] at hnone
  · intro _ _ hphase
    cases hphase
  · intro _ _ hphase
    cases hphase
  · exact h.once
  · intro _ hphase
    cases hphase
  · intro hwrite hrec
    rcases h.sent hwrite hrec with ⟨m', hm', hsent⟩
    refine ⟨m'.finish outcome now, ?_, hsent⟩
    simp [hm']
  · intro _ _ _
    refine ⟨m.finish outcome now, ?_, rfl⟩
    simp [hm]
  · intro hpark
    dsimp only at hpark
    rw [hparked] at hpark
    cases hpark
  · exact h.handed

theorem Kept.unpark (h : c.Kept t id) :
    ({ c with parked := false } : MarkedCall).Kept t id := by
  refine { h with unmarked := ?_, waiting := ?_ }
  · intro hnone
    rcases h.unmarked hnone with ⟨hphase, hsending, hstarted, hrec, -⟩
    exact ⟨hphase, hsending, hstarted, hrec, rfl⟩
  · intro hpark
    cases hpark

theorem Kept.judge (h : c.Kept t id) (misjudged : Bool) :
    ({ c with misjudged := misjudged } : MarkedCall).Kept t id :=
  { h with }

/-- The call goes on behind its handler, or without it. -/
theorem Kept.wind (h : c.Kept t id) (hidle : c.phase ≠ .idle)
    (hparked : c.parked = false) {phase : MarkedPhase}
    (hphase : (∃ outcome, phase = .releasing outcome) ∨
      ∃ outcome, phase = .finishing outcome) :
    ({ c with phase := phase } : MarkedCall).Kept t id := by
  have hnot : phase ≠ .idle ∧ phase ≠ .bumping ∧ phase.isAhead = false ∧
      phase.isFresh = false := by
    rcases hphase with ⟨outcome, rfl⟩ | ⟨outcome, rfl⟩
    · exact ⟨by simp, by simp, rfl, rfl⟩
    · exact ⟨by simp, by simp, rfl, rfl⟩
  apply h.move (h.mark_ne_none hidle) hnot.1
  · exact fun hbump => absurd hbump hnot.2.1
  · intro hahead
    rw [hnot.2.2.1] at hahead
    cases hahead
  · intro hfresh
    rw [hnot.2.2.2] at hfresh
    cases hfresh
  · intro hpark
    rw [hparked] at hpark
    cases hpark

theorem Kept.claim (h : c.Kept t id) (hready : c.phase = .ready) (call : ℕ) :
    ({ c with phase := .claiming call } : MarkedCall).Kept t id := by
  apply h.move (h.mark_ne_none (by rw [hready]; simp)) (by simp)
  · intro hbump
    cases hbump
  · intro _ hwrite hnot
    exact h.ahead hwrite hnot (by rw [hready]; rfl)
  · intro _ hwrite
    exact h.fresh hwrite (by rw [hready]; rfl)
  · exact fun _ => rfl

theorem Kept.start (h : c.Kept t id) (hahead : c.phase.isAhead = true)
    (hbump : c.phase ≠ .bumping) : c.start.Kept t id := by
  have hidle : c.phase ≠ .idle := by
    intro hphase
    rw [hphase] at hahead
    cases hahead
  have hfresh : c.phase.isFresh = true := by
    cases hphase : c.phase with
    | bumping => exact absurd hphase hbump
    | ready => rfl
    | claiming call => rfl
    | _ =>
        rw [hphase] at hahead
        cases hahead
  constructor
  · exact fun hnone => absurd hnone (h.mark_ne_none hidle)
  · intro _ _ hphase
    cases hphase
  · intro _ _ hphase
    cases hphase
  · intro hwrite hnot
    have hzero := h.ahead hwrite hnot hahead
    change c.started + 1 ≤ 1
    omega
  · exact fun hwrite _ => h.fresh hwrite hfresh
  · exact h.sent
  · intro _ hphase
    cases hphase
  · intro hpark
    cases hpark
  · exact h.handed

theorem Kept.handOver (h : c.Kept t id) (hphase : c.phase = .running false) :
    c.handOver.Kept t id := by
  have hidle : c.phase ≠ .idle := by
    rw [hphase]
    simp
  constructor
  · exact fun hnone => absurd hnone (h.mark_ne_none hidle)
  · intro _ _ hbump
    cases hbump
  · intro _ _ hahead
    cases hahead
  · exact h.once
  · intro _ hfresh
    cases hfresh
  · exact h.sent
  · intro _ hphase
    cases hphase
  · intro hpark
    have hparked := h.not_parked hidle (by rw [hphase]; rfl)
    change c.parked = true at hpark
    rw [hparked] at hpark
    cases hpark
  · intro hwrite
    change (c.handedAgain || c.recorded) = false
    rw [h.handed hwrite]
    cases hrec : c.recorded with
    | false => rfl
    | true =>
        rcases h.sent hwrite hrec with ⟨m, hm, hsent⟩
        rcases neverSent_iff.mp (h.fresh hwrite (by rw [hphase]; rfl)) with
          ⟨⟨m', hm', -, hunsent⟩, -⟩
        rw [hm] at hm'
        cases hm'
        rw [hunsent] at hsent
        cases hsent

theorem Kept.recordSent (h : c.Kept t id) (hsending : c.sending = true)
    (now : ℕ) : (c.recordSent now).Kept t id := by
  have hmarked : c.mark ≠ none := by
    intro hnone
    rw [(h.unmarked hnone).2.1] at hsending
    cases hsending
  have hnot : c.neverSent = false := by
    unfold neverSent
    rw [hsending]
    simp
  rcases Option.ne_none_iff_exists'.mp hmarked with ⟨m, hm⟩
  have hmark : (c.recordSent now).mark = some (m.markSent now) := by
    simp [MarkedCall.recordSent, hm]
  constructor
  · intro hnone
    rw [hmark] at hnone
    cases hnone
  · exact h.notBumped
  · exact h.ahead
  · exact h.once
  · intro hwrite hfresh
    rw [h.fresh hwrite hfresh] at hnot
    cases hnot
  · exact fun _ _ => ⟨_, hmark, rfl⟩
  · intro _ _ hsend
    cases hsend
  · intro hpark
    rw [(h.waiting hpark).2.2] at hnot
    cases hnot
  · exact h.handed

theorem Kept.reset (h : c.Kept t id) : (c.reset t id).Kept t id := by
  constructor
  · intro hnone
    rcases h.unmarked hnone with ⟨hphase, -, hstarted, hrec, hparked⟩
    refine ⟨rfl, rfl, hstarted, hrec, ?_⟩
    simp [MarkedCall.reset, hparked, hphase]
  · intro _ _ hphase
    cases hphase
  · intro _ _ hphase
    cases hphase
  · exact h.once
  · intro _ hphase
    cases hphase
  · exact h.sent
  · intro _ _ hsend
    cases hsend
  · intro hpark
    have hcases : t.frontendWrite id = true ∧ c.neverSent = true := by
      unfold MarkedCall.reset at hpark
      simp only [Bool.or_eq_true, Bool.and_eq_true,
        decide_eq_true_eq] at hpark
      rcases hpark with hold | ⟨hphase, hwrite⟩
      · exact ⟨(h.waiting hold).1, (h.waiting hold).2.2⟩
      · exact ⟨hwrite, h.fresh hwrite (by rw [hphase]; rfl)⟩
    refine ⟨hcases.1, Or.inl rfl, ?_⟩
    rcases neverSent_iff.mp hcases.2 with ⟨hmark, -⟩
    exact neverSent_iff.mpr ⟨hmark, rfl⟩
  · exact h.handed

end MarkedCall

namespace ClaimLedger

variable {s s' : ClaimLedger} {call : ℕ}

theorem setCall_calls (s : ClaimLedger) (call : ℕ) (input : ClaimInput)
    (phase : ClaimPhase) :
    (s.setCall call input phase).calls call = some ⟨input, phase⟩ ∧
      ∀ other, other ≠ call →
        (s.setCall call input phase).calls other = s.calls other := by
  constructor
  · exact Function.update_self _ _ _
  · exact fun other hne => Function.update_of_ne hne _ _

theorem insert_calls {input : ClaimInput} {now : ℕ}
    (hstep : s.step (.insert call input now) = some s') :
    s.calls call = none ∧ (∃ p, s'.calls call = some ⟨input, p⟩ ∧
        (p = .reading ∨ p = .answered .claimed)) ∧
      ∀ other, other ≠ call → s'.calls other = s.calls other := by
  rcases Option.ite_none_right_eq_some.mp hstep with ⟨⟨hfree, -⟩, hsome⟩
  cases hsome
  refine ⟨hfree, ?_⟩
  unfold ClaimLedger.insert
  dsimp only
  cases (s.slots input.fingerprint).row with
  | none =>
      rcases setCall_calls (s.setSlot input.fingerprint
        ((s.slots input.fingerprint).insert (input.toRecord now))) call input
        (.answered .claimed) with ⟨hcall, hothers⟩
      exact ⟨⟨_, hcall, Or.inr rfl⟩, hothers⟩
  | some row =>
      rcases setCall_calls s call input .reading with ⟨hcall, hothers⟩
      exact ⟨⟨_, hcall, Or.inl rfl⟩, hothers⟩

/-- The row lets a call of `runId` through. -/
def Admits (runId : String) (row : Option WriteClaimRecord) : Prop :=
  ∀ r ∈ row, r.state = .warned ∧ r.runId ≠ runId

theorem read_calls (s : ClaimLedger) (call : ℕ) (input : ClaimInput) :
    (∃ p, (s.read call input).calls call = some ⟨input, p⟩ ∧
      (Admits input.runId (s.slots input.fingerprint).row →
        p = .takingOver ∨ p = .answered .claimed)) ∧
      ∀ other, other ≠ call →
        (s.read call input).calls other = s.calls other := by
  unfold ClaimLedger.read
  dsimp only
  cases hrow : (s.slots input.fingerprint).row with
  | none =>
      rcases setCall_calls (s.setSlot input.fingerprint
        ((s.slots input.fingerprint).grant input.runId)) call input
        (.answered .claimed) with ⟨hcall, hothers⟩
      exact ⟨⟨_, hcall, fun _ => Or.inr rfl⟩, hothers⟩
  | some existing =>
      dsimp only
      split_ifs with hwarned hpending
      · rcases setCall_calls s call input .takingOver with ⟨hcall, hothers⟩
        exact ⟨⟨_, hcall, fun _ => Or.inl rfl⟩, hothers⟩
      · rcases setCall_calls s call input (.warning existing) with
          ⟨hcall, hothers⟩
        exact ⟨⟨_, hcall, fun hadmits =>
          absurd (hadmits existing rfl) hwarned⟩, hothers⟩
      · rcases setCall_calls s call input (.answered
          (.blocked existing.toolName existing.startedAt)) with
          ⟨hcall, hothers⟩
        exact ⟨⟨_, hcall, fun hadmits =>
          absurd (hadmits existing rfl) hwarned⟩, hothers⟩

/-- A statement of a call of `claimWrite` changes no other call. -/
theorem next_calls {c : ClaimCall} {now : ℕ} {e : ClaimEvent}
    (hcall : s.calls call = some c)
    (hnext : c.phase.next call now = some e) (hstep : s.step e = some s') :
    (∃ p, s'.calls call = some ⟨c.input, p⟩ ∧
      (c.phase = .takingOver → p = .answered .claimed) ∧
      (c.phase = .reading →
        Admits c.input.runId (s.slots c.input.fingerprint).row →
        p = .takingOver ∨ p = .answered .claimed)) ∧
      ∀ other, other ≠ call → s'.calls other = s.calls other := by
  rcases c with ⟨input, phase⟩
  cases phase with
  | reading =>
      cases hnext
      simp only [step, hcall] at hstep
      cases hstep
      rcases s.read_calls call input with ⟨⟨p, hp, hadmits⟩, hothers⟩
      refine ⟨⟨p, hp, ?_, fun _ => hadmits⟩, hothers⟩
      intro hphase
      cases hphase
  | takingOver =>
      cases hnext
      simp only [step, hcall] at hstep
      cases hstep
      rcases setCall_calls (s.setSlot input.fingerprint
        ((s.slots input.fingerprint).takeOver s.active input now)) call
        input (.answered .claimed) with ⟨hp, hothers⟩
      refine ⟨⟨_, hp, fun _ => rfl, ?_⟩, hothers⟩
      intro hphase
      cases hphase
  | warning existing =>
      cases hnext
      simp only [step, hcall] at hstep
      cases hstep
      rcases setCall_calls (s.setSlot input.fingerprint
        ((s.slots input.fingerprint).warn s.active input.runId)) call
        input (.answered (.blocked existing.toolName existing.startedAt))
        with ⟨hp, hothers⟩
      refine ⟨⟨_, hp, ?_, ?_⟩, hothers⟩
      · intro hphase
        cases hphase
      · intro hphase
        cases hphase
  | answered claim => cases hnext

/-- Steps of other runs leave a run's calls as they are. -/
theorem byOther_calls {runId : String} {e : ClaimEvent} {c : ClaimCall}
    (hother : s.byOther runId e = true) (hstep : s.step e = some s')
    (hcall : s.calls call = some c) (hown : c.input.runId = runId) :
    s'.calls call = some c := by
  have hne : ∀ other, (s.calls other).any
      (fun c => decide (c.input.runId ≠ runId)) = true → call ≠ other := by
    rintro other hany rfl
    rw [hcall] at hany
    simp [hown] at hany
  have hkeep : ∀ (other now : ℕ) (d : ClaimCall),
      s.calls other = some d → d.phase.next other now = some e →
      call ≠ other → s'.calls call = some c := by
    intro other now d hd hnext hcne
    rw [(next_calls hd hnext hstep).2 call hcne, hcall]
  cases e with
  | create r status =>
      rcases Option.ite_none_right_eq_some.mp hstep with ⟨-, hsome⟩
      cases hsome
      exact hcall
  | setStatus r status =>
      rcases Option.ite_none_right_eq_some.mp hstep with ⟨-, hsome⟩
      cases hsome
      exact hcall
  | insert other input now =>
      rcases insert_calls hstep with ⟨hfree, -, hothers⟩
      have hcne : call ≠ other := by
        rintro rfl
        rw [hcall] at hfree
        cases hfree
      rw [hothers call hcne, hcall]
  | read other =>
      have hcne := hne other hother
      cases hd : s.calls other with
      | none => simp [step, hd] at hstep
      | some d =>
          rcases d with ⟨input, phase⟩
          cases phase with
          | reading => exact hkeep other 0 _ hd rfl hcne
          | _ => simp [step, hd] at hstep
  | takeOver other now =>
      have hcne := hne other hother
      cases hd : s.calls other with
      | none => simp [step, hd] at hstep
      | some d =>
          rcases d with ⟨input, phase⟩
          cases phase with
          | takingOver => exact hkeep other now _ hd rfl hcne
          | _ => simp [step, hd] at hstep
  | warn other =>
      have hcne := hne other hother
      cases hd : s.calls other with
      | none => simp [step, hd] at hstep
      | some d =>
          rcases d with ⟨input, phase⟩
          cases phase with
          | warning existing => exact hkeep other 0 _ hd rfl hcne
          | _ => simp [step, hd] at hstep
  | release fingerprint r =>
      cases hstep
      exact hcall
  | reset => cases hother

end ClaimLedger

namespace MarkedRun

variable {Args : Type} {t : ToolTurn Args} {s s' : MarkedRun} {e : MarkedEvent}

/-- Every call's mark and execution agree. -/
def Kept (t : ToolTurn Args) (s : MarkedRun) : Prop :=
  ∀ id, (s.calls id).Kept t id

variable {id : String}

theorem Kept.setCall (h : s.Kept t) {c : MarkedCall}
    (hc : c.Kept t id) : (s.setCall id c).Kept t := by
  intro other
  change (Function.update s.calls id c other).Kept t other
  by_cases hsame : other = id
  · subst hsame
    rw [Function.update_self]
    exact hc
  · rw [Function.update_of_ne hsame]
    exact h other

theorem answer_claiming {claim : WriteClaim} (h : s.answer id = some claim) :
    ∃ call input, (s.calls id).phase = .claiming call ∧
      s.ledger.calls call = some ⟨input, .answered claim⟩ := by
  unfold answer at h
  split at h
  next call hphase =>
    split at h
    next input found hcall =>
      cases h
      exact ⟨call, input, hphase, hcall⟩
    next => cases h
  next => cases h

theorem step_kept (h : s.Kept t) (hstep : s.step t e = some s') :
    s'.Kept t := by
  cases e with
  | reach id now =>
      rcases Option.ite_none_right_eq_some.mp hstep with ⟨hidle, hsome⟩
      cases hsome
      exact h.setCall ((h id).reach hidle now)
  | bump id now =>
      rcases Option.ite_none_right_eq_some.mp hstep with ⟨hphase, hsome⟩
      cases hsome
      exact h.setCall ((h id).bump hphase now)
  | refuse id now =>
      rcases Option.ite_none_right_eq_some.mp hstep with ⟨hphase, hsome⟩
      cases hsome
      have hclosed := (h id).close (by rw [hphase]; simp)
        (by rw [hphase]; rfl) .interrupted now
      exact h.setCall (hclosed.unpark.judge _)
  | harnessRefuse id =>
      rcases Option.ite_none_right_eq_some.mp hstep with ⟨hphase, hsome⟩
      cases hsome
      exact h.setCall ((h id).unpark.wind (by rw [hphase]; simp) rfl
        (Or.inr ⟨_, rfl⟩))
  | claim id call now =>
      rcases Option.ite_none_right_eq_some.mp hstep with ⟨⟨hphase, -⟩, hsome⟩
      rcases Option.map_eq_some_iff.mp hsome with ⟨ledger, -, rfl⟩
      exact h.setCall ((h id).claim hphase call)
  | advance id now =>
      dsimp only [step] at hstep
      split at hstep
      next call hphase =>
        rcases Option.bind_eq_some_iff.mp hstep with ⟨c, -, hnext⟩
        rcases Option.bind_eq_some_iff.mp hnext with ⟨e, -, hmap⟩
        rcases Option.map_eq_some_iff.mp hmap with ⟨ledger, -, rfl⟩
        exact h
      next => cases hstep
  | start id =>
      rcases Option.ite_none_right_eq_some.mp hstep with ⟨hcond, hsome⟩
      cases hsome
      apply h.setCall
      rcases hcond with ⟨hphase, -⟩ | hanswer
      · exact (h id).start (by rw [hphase]; rfl) (by rw [hphase]; simp)
      · rcases answer_claiming hanswer with ⟨call, input, hphase, -⟩
        exact (h id).start (by rw [hphase]; rfl) (by rw [hphase]; simp)
  | blocked id =>
      dsimp only [step] at hstep
      split at hstep
      next toolName since hanswer =>
        cases hstep
        rcases answer_claiming hanswer with ⟨call, input, hphase, -⟩
        have hended := (h id).unpark.wind (by rw [hphase]; simp) rfl
          (Or.inr ⟨.error, rfl⟩)
        exact h.setCall (hended.judge _)
      next => cases hstep
  | handOver id =>
      rcases Option.ite_none_right_eq_some.mp hstep with ⟨⟨hphase, -⟩, hsome⟩
      cases hsome
      exact h.setCall ((h id).handOver hphase)
  | recordSent id now =>
      rcases Option.ite_none_right_eq_some.mp hstep with ⟨hsending, hsome⟩
      cases hsome
      exact h.setCall ((h id).recordSent hsending now)
  | result id known outcome =>
      dsimp only [step] at hstep
      split at hstep
      next handed hphase =>
        cases hstep
        apply h.setCall
        have hidle : (s.calls id).phase ≠ .idle := by
          rw [hphase]
          simp
        have hparked := (h id).not_parked hidle (by rw [hphase]; rfl)
        unfold MarkedCall.result
        split_ifs
        · exact (h id).wind hidle hparked (Or.inl ⟨_, rfl⟩)
        · exact (h id).wind hidle hparked (Or.inr ⟨_, rfl⟩)
      next => cases hstep
  | release id =>
      dsimp only [step] at hstep
      split at hstep
      next outcome hphase =>
        rcases Option.map_eq_some_iff.mp hstep with ⟨ledger, -, rfl⟩
        have hidle : (s.calls id).phase ≠ .idle := by
          rw [hphase]
          simp
        have hparked := (h id).not_parked hidle (by rw [hphase]; rfl)
        exact h.setCall ((h id).wind hidle hparked (Or.inr ⟨_, rfl⟩))
      next => cases hstep
  | finish id now =>
      dsimp only [step] at hstep
      split at hstep
      next outcome hphase =>
        cases hstep
        exact h.setCall ((h id).close (by rw [hphase]; simp)
          (by rw [hphase]; rfl) outcome now)
      next => cases hstep
  | reset cutoff =>
      cases hstep
      exact fun id => (h id).reset
  | other e =>
      rcases Option.ite_none_right_eq_some.mp hstep with ⟨-, hsome⟩
      rcases Option.map_eq_some_iff.mp hsome with ⟨ledger, -, rfl⟩
      exact h

theorem empty_kept : empty.Kept t :=
  fun _ => MarkedCall.empty_kept

/-- The claim of a parked call is not going to be blocked. -/
def willClaim : ClaimPhase → Prop
  | .reading | .takingOver | .answered .claimed => True
  | .warning _ | .answered (.blocked _ _) => False

/-- Each claiming call has a call of `claimWrite` of its own, and no parked
call was judged. -/
structure Waits (t : ToolTurn Args) (s : MarkedRun) : Prop where
  claims : ∀ id call, (s.calls id).phase = .claiming call →
    ∃ p, s.ledger.calls call = some ⟨t.claimInput id, p⟩ ∧
      ((s.calls id).parked = true → willClaim p)
  distinct : ∀ id other call, (s.calls id).phase = .claiming call →
    (s.calls other).phase = .claiming call → id = other
  judged : ∀ id, (s.calls id).misjudged = false

variable {ledger : ClaimLedger}

/-- A call changes and no longer claims anything; the ledger keeps the calls
of the others. -/
theorem Waits.setCall (h : s.Waits t) {c : MarkedCall}
    (hphase : ∀ call, c.phase ≠ .claiming call)
    (hjudged : c.misjudged = false)
    (hledger : ledger.calls = s.ledger.calls) :
    Waits t { s.setCall id c with ledger := ledger } := by
  have hself : ∀ other, (s.setCall id c).calls other =
      if other = id then c else s.calls other :=
    fun other => Function.update_apply _ _ _ _
  have hclaiming : ∀ other call,
      ((s.setCall id c).calls other).phase = .claiming call →
      (s.setCall id c).calls other = s.calls other := by
    intro other call hother
    rw [hself] at hother ⊢
    split_ifs at hother ⊢ with hsame
    · exact absurd hother (hphase call)
    · rfl
  constructor
  · intro other call hother
    dsimp only at hother ⊢
    have hsame := hclaiming other call hother
    rw [hsame] at hother ⊢
    rw [hledger]
    exact h.claims other call hother
  · intro first second call hfirst hsecond
    dsimp only at hfirst hsecond
    rw [hclaiming first call hfirst] at hfirst
    rw [hclaiming second call hsecond] at hsecond
    exact h.distinct first second call hfirst hsecond
  · intro other
    rw [hself]
    split_ifs
    · exact hjudged
    · exact h.judged other

theorem Waits.congr (h : s.Waits t) {next : MarkedRun}
    (hledger : next.ledger = s.ledger)
    (hcalls : ∀ id, (next.calls id).phase = (s.calls id).phase ∧
      (next.calls id).parked = (s.calls id).parked ∧
      (next.calls id).misjudged = (s.calls id).misjudged) :
    next.Waits t := by
  constructor
  · intro id call hphase
    rw [(hcalls id).1] at hphase
    rw [hledger, (hcalls id).2.1]
    exact h.claims id call hphase
  · intro id other call hphase hother
    rw [(hcalls id).1] at hphase
    rw [(hcalls other).1] at hother
    exact h.distinct id other call hphase hother
  · intro id
    rw [(hcalls id).2.2]
    exact h.judged id

/-- Only the ledger moves, and it keeps what the claiming calls wait for. -/
theorem Waits.setLedger (h : s.Waits t)
    (hkeep : ∀ id call p, (s.calls id).phase = .claiming call →
      s.ledger.calls call = some ⟨t.claimInput id, p⟩ →
      ((s.calls id).parked = true → willClaim p) →
      ∃ p', ledger.calls call = some ⟨t.claimInput id, p'⟩ ∧
        ((s.calls id).parked = true → willClaim p')) :
    Waits t { s with ledger := ledger } := by
  refine { h with claims := ?_ }
  · intro id call hphase
    rcases h.claims id call hphase with ⟨p, hp, hwill⟩
    exact hkeep id call p hphase hp hwill

theorem Waits.claim (h : s.Waits t) {call now : ℕ}
    (hstep : s.ledger.step (.insert call (t.claimInput id) now) =
      some ledger) :
    Waits t { s.setCall id { s.calls id with phase := .claiming call } with
      ledger := ledger } := by
  rcases ClaimLedger.insert_calls hstep with
    ⟨hfree, ⟨p, hp, hphase⟩, hothers⟩
  have hself : ∀ other, (s.setCall id
      { s.calls id with phase := .claiming call }).calls other =
      if other = id then { s.calls id with phase := .claiming call }
      else s.calls other :=
    fun other => Function.update_apply _ _ _ _
  have hnew : ∀ other found, (s.calls other).phase = .claiming found →
      found ≠ call := by
    rintro other found hother rfl
    rcases h.claims other found hother with ⟨p', hp', -⟩
    rw [hfree] at hp'
    cases hp'
  constructor
  · intro other found hother
    dsimp only at hother ⊢
    rw [hself] at hother ⊢
    split_ifs at hother ⊢ with hsame
    · subst hsame
      obtain rfl : call = found := by simpa using hother
      refine ⟨p, hp, fun _ => ?_⟩
      rcases hphase with rfl | rfl
      · trivial
      · trivial
    · rw [hothers found (hnew other found hother)]
      exact h.claims other found hother
  · intro first second found hfirst hsecond
    dsimp only at hfirst hsecond
    rw [hself] at hfirst hsecond
    split_ifs at hfirst hsecond with hone htwo htwo
    · rw [hone, htwo]
    · obtain rfl : call = found := by simpa using hfirst
      exact absurd rfl (hnew second call hsecond)
    · obtain rfl : call = found := by simpa using hsecond
      exact absurd rfl (hnew first call hfirst)
    · exact h.distinct first second found hfirst hsecond
  · intro other
    rw [hself]
    split_ifs
    · exact h.judged id
    · exact h.judged other

theorem Waits.advance (h : s.Waits t) {call now : ℕ}
    {c : ClaimCall} {e : ClaimEvent}
    (hphase : (s.calls id).phase = .claiming call)
    (hcall : s.ledger.calls call = some c)
    (hnext : c.phase.next call now = some e)
    (hstep : s.ledger.step e = some ledger)
    (hfinds : s.FindsNoClaim t (.advance id now)) :
    Waits t { s with ledger := ledger } := by
  rcases ClaimLedger.next_calls hcall hnext hstep with
    ⟨⟨p', hp', htaking, hreading⟩, hothers⟩
  apply h.setLedger
  intro other found p hother hp hwill
  by_cases hsame : found = call
  · subst hsame
    obtain rfl := h.distinct id other found hphase hother
    rw [hcall] at hp
    cases hp
    refine ⟨p', hp', fun hparked => ?_⟩
    have hbefore := hwill hparked
    cases p with
    | reading =>
        have hisReading : s.isReading id = true := by
          unfold isReading
          rw [hphase]
          dsimp only
          rw [hcall]
          rfl
        have hadmits := hfinds hparked hisReading
        rcases hreading rfl hadmits with rfl | rfl
        · trivial
        · trivial
    | takingOver =>
        rw [htaking rfl]
        trivial
    | warning existing => exact hbefore.elim
    | answered claim => cases hnext
  · rw [hothers found hsame]
    exact ⟨p, hp, hwill⟩

theorem step_waits (hkept : s.Kept t) (h : s.Waits t)
    (hfinds : s.FindsNoClaim t e) (hstep : s.step t e = some s') :
    s'.Waits t := by
  have hquiet : ∀ id (c : MarkedCall), (∀ call, c.phase ≠ .claiming call) →
      c.misjudged = false → (s.setCall id c).Waits t :=
    fun id c hphase hjudged => h.setCall hphase hjudged rfl
  cases e with
  | reach id now =>
      rcases Option.ite_none_right_eq_some.mp hstep with ⟨-, hsome⟩
      cases hsome
      apply hquiet
      · intro call
        unfold MarkedCall.reach
        split
        · simp
        · split_ifs <;> simp
      · have hjudged := h.judged id
        unfold MarkedCall.reach
        split
        · exact hjudged
        · split_ifs <;> exact hjudged
  | bump id now =>
      rcases Option.ite_none_right_eq_some.mp hstep with ⟨-, hsome⟩
      cases hsome
      exact hquiet id _ (by simp [MarkedCall.bump]) (h.judged id)
  | refuse id now =>
      rcases Option.ite_none_right_eq_some.mp hstep with ⟨hphase, hsome⟩
      cases hsome
      apply hquiet
      · simp [MarkedCall.refuse]
      · have hparked := (hkept id).not_parked (by rw [hphase]; simp)
          (by rw [hphase]; rfl)
        change ((s.calls id).misjudged || (s.calls id).parked) = false
        rw [h.judged id, hparked]
        rfl
  | harnessRefuse id =>
      rcases Option.ite_none_right_eq_some.mp hstep with ⟨-, hsome⟩
      cases hsome
      exact hquiet id _ (by simp [MarkedCall.harnessRefuse]) (h.judged id)
  | claim id call now =>
      rcases Option.ite_none_right_eq_some.mp hstep with ⟨-, hsome⟩
      rcases Option.map_eq_some_iff.mp hsome with ⟨ledger, hledger, rfl⟩
      exact h.claim hledger
  | advance id now =>
      dsimp only [step] at hstep
      split at hstep
      next call hphase =>
        rcases Option.bind_eq_some_iff.mp hstep with ⟨c, hcall, hnext⟩
        rcases Option.bind_eq_some_iff.mp hnext with ⟨e, he, hmap⟩
        rcases Option.map_eq_some_iff.mp hmap with ⟨ledger, hledger, rfl⟩
        exact h.advance hphase hcall he hledger hfinds
      next => cases hstep
  | start id =>
      rcases Option.ite_none_right_eq_some.mp hstep with ⟨-, hsome⟩
      cases hsome
      exact hquiet id _ (by simp [MarkedCall.start]) (h.judged id)
  | blocked id =>
      dsimp only [step] at hstep
      split at hstep
      next toolName since hanswer =>
        cases hstep
        rcases answer_claiming hanswer with ⟨call, input, hphase, hcall⟩
        apply hquiet
        · simp [MarkedCall.blocked]
        · change ((s.calls id).misjudged || (s.calls id).parked) = false
          rw [h.judged id]
          cases hparked : (s.calls id).parked with
          | false => rfl
          | true =>
              rcases h.claims id call hphase with ⟨p, hp, hwill⟩
              rw [hcall] at hp
              obtain ⟨-, rfl⟩ := ClaimCall.mk.inj (Option.some.inj hp)
              exact (hwill hparked).elim
      next => cases hstep
  | handOver id =>
      rcases Option.ite_none_right_eq_some.mp hstep with ⟨-, hsome⟩
      cases hsome
      exact hquiet id _ (by simp [MarkedCall.handOver]) (h.judged id)
  | recordSent id now =>
      rcases Option.ite_none_right_eq_some.mp hstep with ⟨-, hsome⟩
      cases hsome
      apply h.congr (by rfl)
      intro other
      change (Function.update s.calls id _ other).phase = _ ∧
        (Function.update s.calls id _ other).parked = _ ∧
        (Function.update s.calls id _ other).misjudged = _
      by_cases hsame : other = id
      · subst hsame
        rw [Function.update_self]
        exact ⟨rfl, rfl, rfl⟩
      · rw [Function.update_of_ne hsame]
        exact ⟨rfl, rfl, rfl⟩
  | result id known outcome =>
      dsimp only [step] at hstep
      split at hstep
      next handed hphase =>
        cases hstep
        have hjudged := h.judged id
        apply hquiet
        · intro call
          unfold MarkedCall.result
          split_ifs <;> simp
        · unfold MarkedCall.result
          split_ifs <;> exact hjudged
      next => cases hstep
  | release id =>
      dsimp only [step] at hstep
      split at hstep
      next outcome hphase =>
        cases hstep
        exact h.setCall (by simp) (h.judged id) rfl
      next => cases hstep
  | finish id now =>
      dsimp only [step] at hstep
      split at hstep
      next outcome hphase =>
        cases hstep
        exact hquiet id _ (by simp [MarkedCall.finish]) (h.judged id)
      next => cases hstep
  | reset cutoff =>
      cases hstep
      constructor
      · intro id call hphase
        cases hphase
      · intro id other call hphase
        cases hphase
      · exact h.judged
  | other e =>
      rcases Option.ite_none_right_eq_some.mp hstep with ⟨hother, hsome⟩
      rcases Option.map_eq_some_iff.mp hsome with ⟨ledger, hledger, rfl⟩
      apply h.setLedger
      intro id call p hphase hp hwill
      exact ⟨p, ClaimLedger.byOther_calls hother hledger hp rfl, hwill⟩

theorem empty_waits : empty.Waits t := by
  constructor
  · intro id call hphase
    cases hphase
  · intro id other call hphase
    cases hphase
  · exact fun _ => rfl

/-- A parked call stays parked, is started again or is judged. -/
def Owes (c next : MarkedCall) : Prop := c.started ≤ next.started ∧
    (c.parked = true → next.parked = true ∨ c.started < next.started ∨
      next.misjudged = true)

theorem owes_same {c next : MarkedCall} (hstarted : next.started = c.started)
    (hparked : next.parked = c.parked) : Owes c next :=
  ⟨hstarted.ge, fun h => Or.inl (hparked.trans h)⟩

theorem owes_setCall {other : String} {c : MarkedCall}
    (h : other = id → Owes (s.calls other) c) :
    Owes (s.calls id) ((s.setCall other c).calls id) := by
  change Owes _ (Function.update s.calls other c id)
  by_cases hsame : id = other
  · subst hsame
    rw [Function.update_self]
    exact h rfl
  · rw [Function.update_of_ne hsame]
    exact owes_same rfl rfl

theorem step_owes (hstep : s.step t e = some s')
    (hrefused : e ≠ .harnessRefuse id) : Owes (s.calls id) (s'.calls id) := by
  have hjudged : ∀ {c next : MarkedCall}, next.started = c.started →
      next.misjudged = (c.misjudged || c.parked) → Owes c next := by
    intro c next hstarted hnext
    refine ⟨hstarted.ge, fun hparked => Or.inr (Or.inr ?_)⟩
    rw [hnext, hparked, Bool.or_true]
  cases e with
  | reach other now =>
      rcases Option.ite_none_right_eq_some.mp hstep with ⟨-, hsome⟩
      cases hsome
      refine owes_setCall fun _ => ?_
      unfold MarkedCall.reach
      split
      · exact owes_same rfl rfl
      · split_ifs <;> exact owes_same rfl rfl
  | bump other now =>
      rcases Option.ite_none_right_eq_some.mp hstep with ⟨-, hsome⟩
      cases hsome
      exact owes_setCall fun _ => owes_same rfl rfl
  | refuse other now =>
      rcases Option.ite_none_right_eq_some.mp hstep with ⟨-, hsome⟩
      cases hsome
      exact owes_setCall fun _ => hjudged rfl rfl
  | harnessRefuse other =>
      rcases Option.ite_none_right_eq_some.mp hstep with ⟨-, hsome⟩
      cases hsome
      exact owes_setCall fun hsame => absurd (hsame ▸ rfl) hrefused
  | claim other call now =>
      rcases Option.ite_none_right_eq_some.mp hstep with ⟨-, hsome⟩
      rcases Option.map_eq_some_iff.mp hsome with ⟨ledger, -, rfl⟩
      exact owes_setCall fun _ => owes_same rfl rfl
  | advance other now =>
      dsimp only [step] at hstep
      split at hstep
      next call hphase =>
        rcases Option.bind_eq_some_iff.mp hstep with ⟨c, -, hnext⟩
        rcases Option.bind_eq_some_iff.mp hnext with ⟨e, -, hmap⟩
        rcases Option.map_eq_some_iff.mp hmap with ⟨ledger, -, rfl⟩
        exact owes_same rfl rfl
      next => cases hstep
  | start other =>
      rcases Option.ite_none_right_eq_some.mp hstep with ⟨-, hsome⟩
      cases hsome
      exact owes_setCall fun _ =>
        ⟨Nat.le_succ _, fun _ => Or.inr (Or.inl (Nat.lt_succ_self _))⟩
  | blocked other =>
      dsimp only [step] at hstep
      split at hstep
      next =>
        cases hstep
        exact owes_setCall fun _ => hjudged rfl rfl
      next => cases hstep
  | handOver other | recordSent other now =>
      rcases Option.ite_none_right_eq_some.mp hstep with ⟨-, hsome⟩
      cases hsome
      exact owes_setCall fun _ => owes_same rfl rfl
  | result other known outcome =>
      dsimp only [step] at hstep
      split at hstep
      next =>
        cases hstep
        refine owes_setCall fun _ => ?_
        unfold MarkedCall.result
        split_ifs <;> exact owes_same rfl rfl
      next => cases hstep
  | release other =>
      dsimp only [step] at hstep
      split at hstep
      next =>
        rcases Option.map_eq_some_iff.mp hstep with ⟨ledger, -, rfl⟩
        exact owes_setCall fun _ => owes_same rfl rfl
      next => cases hstep
  | finish other now =>
      dsimp only [step] at hstep
      split at hstep
      next =>
        cases hstep
        exact owes_setCall fun _ => owes_same rfl rfl
      next => cases hstep
  | reset cutoff =>
      cases hstep
      refine ⟨le_rfl, fun hparked => Or.inl ?_⟩
      change ((s.calls id).parked || _) = true
      rw [hparked, Bool.true_or]
  | other e =>
      rcases Option.ite_none_right_eq_some.mp hstep with ⟨-, hsome⟩
      rcases Option.map_eq_some_iff.mp hsome with ⟨ledger, -, rfl⟩
      exact owes_same rfl rfl

/-- From a reset that finds the call parked to its end, its handler is
started. -/
theorem parked_starts {front back rest : List MarkedEvent} {cutoff now : ℕ}
    {waiting ended : MarkedRun}
    (hfinds : Transition.Meets (fun s => s.step t) (fun s => s.FindsNoClaim t)
      empty (front ++ .reset cutoff :: (back ++ .finish id now :: rest)))
    (hfront : Transition.run (fun s => s.step t) empty front = some waiting)
    (hphase : (waiting.calls id).phase = .running false)
    (hwrite : t.frontendWrite id = true) (hrefused : .harnessRefuse id ∉ back)
    (hrun : Transition.run (fun s => s.step t) waiting
      (.reset cutoff :: (back ++ [.finish id now])) = some ended) :
    (waiting.calls id).started < (ended.calls id).started := by
  have hstep : ∀ (s s' : MarkedRun) (e : MarkedEvent), s.Kept t ∧ s.Waits t →
      s.FindsNoClaim t e → s.step t e = some s' → s'.Kept t ∧ s'.Waits t :=
    fun _ _ _ hinv hcond hstep =>
      ⟨step_kept hinv.1 hstep, step_waits hinv.1 hinv.2 hcond hstep⟩
  rcases Transition.Meets.append.mp hfinds with ⟨hbefore, hafter⟩
  have hinv := Transition.run_preserves_of_meets hstep hbefore
    ⟨empty_kept, empty_waits⟩ hfront
  rcases Transition.run_cons_eq_some.mp hrun with ⟨cut, hcut, hback⟩
  have hinvCut := hstep _ _ _ hinv (hafter _ hfront).head hcut
  rcases Transition.run_append_eq_some.mp hback with ⟨mid, hmid, hlast⟩
  have howed : (cut.calls id).started = (waiting.calls id).started ∧
      (cut.calls id).parked = true := by
    cases hcut
    simp [MarkedCall.reset, hphase, hwrite]
  have hmeets := (Transition.Meets.append.mp
    ((hafter _ hfront).tail hcut)).1.and (Transition.meets_of_forall_mem
      (P := fun e => e ≠ .harnessRefuse id)
      fun _ he heq => hrefused (heq ▸ he))
  have hkept := Transition.run_preserves_of_meets
    (I := fun s => (s.Kept t ∧ s.Waits t) ∧
      ((waiting.calls id).started < (s.calls id).started ∨
        (waiting.calls id).started ≤ (s.calls id).started ∧
          (s.calls id).parked = true))
    (fun s s' e hinv hcond hs => by
      have hnext := hstep s s' e hinv.1 hcond.1 hs
      have howes : Owes (s.calls id) (s'.calls id) := step_owes hs hcond.2
      refine ⟨hnext, ?_⟩
      rcases hinv.2 with hlt | ⟨hle, hparked⟩
      · exact Or.inl (hlt.trans_le howes.1)
      · rcases howes.2 hparked with hstill | hstarted | hjudged
        · exact Or.inr ⟨hle.trans howes.1, hstill⟩
        · exact Or.inl (hle.trans_lt hstarted)
        · rw [hnext.2.judged id] at hjudged
          cases hjudged)
    hmeets ⟨hinvCut, Or.inr ⟨howed.1.ge, howed.2⟩⟩ hmid
  rcases Transition.run_cons_eq_some.mp hlast with ⟨last, hfinish, hsame⟩
  cases hsame
  have hgrown : Owes (mid.calls id) (ended.calls id) :=
    step_owes hfinish (by simp)
  have hended : (mid.calls id).parked = false := by
    dsimp only [step] at hfinish
    split at hfinish
    next outcome hending =>
      exact (hkept.1.1 id).not_parked (by rw [hending]; simp)
        (by rw [hending]; rfl)
    next => cases hfinish
  rcases hkept.2 with hlt | ⟨-, hparked⟩
  · exact hlt.trans_le hgrown.1
  · rw [hended] at hparked
    cases hparked

/-- In every run, whatever the ledger answers, a write that is no frontend
tool starts at most once and a recorded hand-over is not repeated. -/
theorem Kept.writes (h : s.Kept t) (id : String)
    (hwrite : t.effect id = .write) :
    (t.frontend id = false → (s.calls id).started ≤ 1) ∧
      (t.frontend id = true → (s.calls id).handedAgain = false) := by
  constructor
  · exact (h id).once hwrite
  · exact fun hfront =>
      (h id).handed (MarkedCall.frontendWrite_iff.mpr ⟨hwrite, hfront⟩)

/-- While the read behind the claim of a parked call finds no row that stands
in its way, marks and claims compose. -/
theorem resume_holds (t : ToolTurn Args) (es : List MarkedEvent)
    (s : MarkedRun)
    (hfinds : Transition.Meets (fun s => s.step t) (fun s => s.FindsNoClaim t)
      empty es)
    (hrun : Transition.run (fun s => s.step t) empty es = some s) :
    ResumeHolds t es s := by
  have hboth : s.Kept t ∧ s.Waits t := Transition.run_preserves_of_meets
      (I := fun s => s.Kept t ∧ s.Waits t)
      (fun _ _ _ hinv hcond hstep =>
        ⟨step_kept hinv.1 hstep, step_waits hinv.1 hinv.2 hcond hstep⟩)
      hfinds ⟨empty_kept, empty_waits⟩ hrun
  constructor
  · exact fun id hwrite => (hboth.1.writes id hwrite).1
  · exact fun id hwrite => (hboth.1.writes id hwrite).2
  · exact hboth.2.judged
  · rintro front back rest id cutoff now waiting ended rfl hfront hphase
      hwrite hrefused hended
    exact parked_starts hfinds hfront hphase hwrite hrefused hended

/-- A run `r` whose tools are all frontend writes; the effect of a call is
its tool and arguments. -/
def frontendTurn : ToolTurn String where
  runId := "r"
  sessionId := "s"
  effectOf := fun _ => .write
  isFrontend := fun _ => true
  isSubagent := fun _ => false
  operationKey := fun name args session =>
    name ++ ":" ++ args ++ ":" ++ session.getD ""
  toolName := fun _ => "mutate_topic"
  args := fun _ => "title"

/-- `c1` is parked when the object restarts, and its claim is older than the
retention. -/
def parkedThenRun : List MarkedEvent :=
  [.other (.create "r" .running), .reach "c1" 1, .claim "c1" 0 1,
    .start "c1", .reset 9, .reach "c1" 9, .bump "c1" 9, .claim "c1" 0 9,
    .start "c1", .handOver "c1", .recordSent "c1" 9, .result "c1" false .ok,
    .finish "c1" 10]

theorem resume_holds_parkedThenRun :
    ∃ s, Transition.run (fun s => s.step frontendTurn) empty parkedThenRun =
        some s ∧ (s.calls "c1").started = 2 ∧
      ResumeHolds frontendTurn parkedThenRun s := by
  refine ⟨_, rfl, by decide +kernel, ?_⟩
  apply resume_holds frontendTurn parkedThenRun
  · decide +kernel
  · rfl

/-- `c1` is parked when the object restarts; the claim it took blocks it in
the next attempt. -/
def parkedThenBlocked : List MarkedEvent :=
  [.other (.create "r" .running), .reach "c1" 1, .claim "c1" 0 1,
    .start "c1", .reset 0, .reach "c1" 2, .bump "c1" 2, .claim "c1" 0 2,
    .advance "c1" 2, .advance "c1" 2, .blocked "c1"]

theorem parked_write_is_blocked :
    ¬ ∀ (t : ToolTurn String) (es : List MarkedEvent) (s : MarkedRun),
      Transition.run (fun s => s.step t) empty es = some s →
      ResumeHolds t es s := by
  intro h
  have hjudged := (h frontendTurn parkedThenBlocked _ rfl).parkedRuns "c1"
  revert hjudged
  decide +kernel

end MarkedRun
end QiForge
