import QiForge.RunCoordinatorRuns

/-!
# The calls of `begin`

The calls of a session take turns, and one that was admitted finds its session
empty when it opens its run (`BeginsKept`), as long as recovery stays out of
its way.
-/

namespace QiForge

namespace BeginPhase

def inTurn : BeginPhase → Bool
  | .waiting | .over => false
  | .cancelling _ | .grace | .admitted _ _ | .created _ _ => true

/-- The attempt will start at once. -/
def startsNow : BeginPhase → Bool
  | .admitted queued _ | .created queued _ => !queued
  | .waiting | .cancelling _ | .grace | .over => false

def isCreated : BeginPhase → Bool
  | .created _ _ => true
  | .waiting | .cancelling _ | .grace | .admitted _ _ | .over => false

theorem inTurn_of_isAdmitted {phase : BeginPhase}
    (h : phase.isAdmitted = true) : phase.inTurn = true := by
  cases phase <;> simp_all [isAdmitted, inTurn]

theorem isAdmitted_of_startsNow {phase : BeginPhase}
    (h : phase.startsNow = true) : phase.isAdmitted = true := by
  cases phase <;> simp_all [isAdmitted, startsNow]

theorem isAdmitted_of_isCreated {phase : BeginPhase}
    (h : phase.isCreated = true) : phase.isAdmitted = true := by
  cases phase <;> simp_all [isAdmitted, isCreated]

end BeginPhase

namespace RunCoordinator

variable {s s' : RunCoordinator}

structure BeginsKept (s : RunCoordinator) : Prop where
  turns : ∀ (j k : ℕ) (bj bk : BeginCall), j < k →
    s.begins[j]? = some bj → s.begins[k]? = some bk →
    bj.sessionId = bk.sessionId → bk.phase.inTurn = true → bj.phase = .over
  admitted : ∀ b ∈ s.begins, b.phase.startsNow = true →
    b.superseded = false → ∀ r ∈ s.runs, r.live = true →
    r.sessionId ≠ b.sessionId
  created : ∀ b ∈ s.begins, b.phase.isCreated = true →
    (∃ row ∈ s.rows, row.runId = b.runId) ∧
      ∀ r ∈ s.runs, r.live = true → r.runId ≠ b.runId
  createdOnce : ∀ (j k : ℕ) (bj bk : BeginCall),
    s.begins[j]? = some bj → s.begins[k]? = some bk →
    bj.phase.isCreated = true → bk.phase.isCreated = true →
    bj.runId = bk.runId → j = k

/-- The step leaves the calls of `begin`, adds no run to the map and drops no
row. -/
structure Steady (s s' : RunCoordinator) : Prop where
  begins : s'.begins = s.begins
  runs : ∀ r' ∈ s'.runs, r'.live = true → ∃ r ∈ s.runs, r.live = true ∧
    r.runId = r'.runId ∧ r.sessionId = r'.sessionId
  rows : ∀ row ∈ s.rows, ∃ row' ∈ s'.rows, row'.runId = row.runId

theorem Steady.refl (s : RunCoordinator) : s.Steady s :=
  ⟨rfl, fun r hr hlive => ⟨r, hr, hlive, rfl, rfl⟩,
    fun row hrow => ⟨row, hrow, rfl⟩⟩

theorem Steady.of_eq (hbegins : s'.begins = s.begins)
    (hruns : s'.runs = s.runs) (hrows : s'.rows = s.rows) : s.Steady s' := by
  constructor
  · exact hbegins
  · intro r hr hlive
    rw [hruns] at hr
    exact ⟨r, hr, hlive, rfl, rfl⟩
  · intro row hrow
    rw [hrows]
    exact ⟨row, hrow, rfl⟩

theorem Steady.trans {s'' : RunCoordinator} (h : s.Steady s')
    (h' : s'.Steady s'') : s.Steady s'' := by
  constructor
  · exact h'.begins.trans h.begins
  · intro r'' hr'' hlive''
    rcases h'.runs r'' hr'' hlive'' with ⟨r', hr', hlive', hid', hsession'⟩
    rcases h.runs r' hr' hlive' with ⟨r, hr, hlive, hid, hsession⟩
    exact ⟨r, hr, hlive, hid.trans hid', hsession.trans hsession'⟩
  · intro row hrow
    rcases h.rows row hrow with ⟨row', hrow', hid'⟩
    rcases h'.rows row' hrow' with ⟨row'', hrow'', hid''⟩
    exact ⟨row'', hrow'', hid''.trans hid'⟩

theorem BeginsKept.steady (h : s.BeginsKept) (hsteady : s.Steady s') :
    s'.BeginsKept := by
  constructor
  · rw [hsteady.begins]
    exact h.turns
  · rw [hsteady.begins]
    intro b hb hstarts hnot r' hr' hlive'
    rcases hsteady.runs r' hr' hlive' with ⟨r, hr, hlive, -, hsession⟩
    rw [← hsession]
    exact h.admitted b hb hstarts hnot r hr hlive
  · rw [hsteady.begins]
    intro b hb hcreated
    rcases h.created b hb hcreated with ⟨⟨row, hrow, hid⟩, hnone⟩
    rcases hsteady.rows row hrow with ⟨row', hrow', hid'⟩
    refine ⟨⟨row', hrow', hid'.trans hid⟩, ?_⟩
    intro r' hr' hlive'
    rcases hsteady.runs r' hr' hlive' with ⟨r, hr, hlive, hrun, -⟩
    rw [← hrun]
    exact hnone r hr hlive
  · rw [hsteady.begins]
    exact h.createdOnce

/-- A change of one run that keeps its names and puts nothing in the map. -/
def Mild (f : LiveRun → LiveRun) : Prop :=
  ∀ r, (f r).runId = r.runId ∧ (f r).sessionId = r.sessionId ∧
    ((f r).live = true → r.live = true)

theorem steady_setRun {f : LiveRun → LiveRun} (hf : Mild f) (i : ℕ) :
    s.Steady (s.setRun i f) := by
  refine ⟨rfl, ?_, fun row hrow => ⟨row, hrow, rfl⟩⟩
  intro r' hr' hlive'
  rcases List.mem_iff_getElem?.mp hr' with ⟨j, hj⟩
  by_cases hsame : j = i
  · subst hsame
    unfold RunCoordinator.setRun at hj
    dsimp only at hj
    rw [List.getElem?_modify_eq] at hj
    rcases Option.map_eq_some_iff.mp hj with ⟨r, hr, rfl⟩
    rcases hf r with ⟨hid, hsession, hlive⟩
    exact ⟨r, List.mem_of_getElem? hr, hlive hlive', hid.symm, hsession.symm⟩
  · rw [setRun_other hsame] at hj
    exact ⟨r', List.mem_of_getElem? hj, hlive', rfl, rfl⟩

theorem steady_updateRow (runId : String) (status : RunStatus)
    (nextAttemptAt : Option ℕ) :
    s.Steady (s.updateRow runId status nextAttemptAt) :=
  ⟨rfl, fun r hr hlive => ⟨r, hr, hlive, rfl, rfl⟩,
    updateRow_rows s runId status nextAttemptAt⟩

theorem steady_write (i : ℕ) (status : RunStatus) (nextAttemptAt : Option ℕ) :
    s.Steady (s.write i status nextAttemptAt) := by
  unfold RunCoordinator.write
  cases s.runs[i]? with
  | none => exact Steady.refl s
  | some r =>
      have hmild : Mild fun r : LiveRun =>
          { r with status := status, nextAttemptAt := nextAttemptAt } :=
        fun _ => ⟨rfl, rfl, id⟩
      exact (steady_updateRow r.runId status nextAttemptAt).trans
        (steady_setRun hmild i)

theorem steady_finalize (i : ℕ) (status : RunStatus) :
    s.Steady (s.finalize i status) := by
  unfold RunCoordinator.finalize
  split_ifs
  · have hmild : Mild fun r => { r with live := false } :=
      fun _ => ⟨rfl, rfl, by simp⟩
    have hset := steady_setRun (s := s) hmild i
    exact { hset with }
  · exact Steady.refl s

theorem steady_abortRun (i : ℕ) : s.Steady (s.abortRun i) := by
  have hmild : Mild fun r => { r with aborted := true } :=
    fun _ => ⟨rfl, rfl, id⟩
  have hset := steady_setRun (s := s) hmild i
  unfold RunCoordinator.abortRun
  dsimp only
  split_ifs
  · exact hset
  · exact hset.trans (steady_finalize i _)

theorem steady_land (activity i : ℕ) : s.Steady (s.land activity i) := by
  have hmild : Mild fun r => { r with attemptInFlight := false } :=
    fun _ => ⟨rfl, rfl, id⟩
  have hset := steady_setRun (s := s) hmild i
  exact { hset with }

theorem steady_become (activity i : ℕ) (a : RunActivity) :
    s.Steady (s.become activity i a) :=
  Steady.of_eq rfl rfl rfl

theorem steady_startNextQueued (sessionId : String) :
    s.Steady (s.startNextQueued sessionId) := by
  unfold RunCoordinator.startNextQueued
  split_ifs
  · exact Steady.refl s
  · cases s.firstIndex fun r =>
        r.isQueued && decide (r.sessionId = sessionId) with
    | none => exact Steady.refl s
    | some i =>
        have hmild : Mild fun r =>
            { r with attemptInFlight := true, status := .running } :=
          fun _ => ⟨rfl, rfl, id⟩
        have hset := steady_setRun (s := s) hmild i
        exact { hset with }

theorem steady_startAttempt (i : ℕ) : s.Steady (s.startAttempt i) := by
  have hmild : Mild fun r => { r with attemptInFlight := true } :=
    fun _ => ⟨rfl, rfl, id⟩
  have hset := steady_setRun (s := s) hmild i
  exact { hset with }

theorem steady_cancelEach (runs : List ℕ) : s.Steady (s.cancelEach runs) := by
  unfold RunCoordinator.cancelEach
  induction runs generalizing s with
  | nil => exact Steady.refl s
  | cons i runs ih =>
      rw [List.foldl_cons]
      apply Steady.trans _ ih
      split_ifs
      · exact steady_finalize i _
      · exact Steady.refl s

theorem steady_abortEach (runs : List ℕ) : s.Steady (s.abortEach runs) := by
  unfold RunCoordinator.abortEach
  induction runs generalizing s with
  | nil => exact Steady.refl s
  | cons i runs ih =>
      rw [List.foldl_cons]
      apply Steady.trans _ ih
      split_ifs
      · exact Steady.refl s
      · exact steady_abortRun i

theorem BeginsKept.supersedePending (h : s.BeginsKept)
    (sessionId : String) : (s.supersedePending sessionId).BeginsKept := by
  set f : BeginCall → BeginCall := fun b =>
    if b.sessionId = sessionId ∧ b.phase ≠ .over then
      { b with superseded := true }
    else b with hf
  have hsame : ∀ b, (f b).phase = b.phase ∧ (f b).sessionId = b.sessionId ∧
      (f b).runId = b.runId ∧
      ((f b).superseded = false → b.superseded = false) := by
    intro b
    rw [hf]
    dsimp only
    split_ifs
    · exact ⟨rfl, rfl, rfl, by simp⟩
    · exact ⟨rfl, rfl, rfl, id⟩
  have hget : ∀ (k : ℕ) (b' : BeginCall),
      (s.supersedePending sessionId).begins[k]? = some b' →
      ∃ b, s.begins[k]? = some b ∧ b' = f b := by
    intro k b' hk
    change (s.begins.map f)[k]? = some b' at hk
    rw [List.getElem?_map] at hk
    rcases Option.map_eq_some_iff.mp hk with ⟨b, hb, rfl⟩
    exact ⟨b, hb, rfl⟩
  have hmem : ∀ b' ∈ (s.supersedePending sessionId).begins,
      ∃ b ∈ s.begins, b' = f b := by
    intro b' hb'
    rcases List.mem_map.mp hb' with ⟨b, hb, rfl⟩
    exact ⟨b, hb, rfl⟩
  constructor
  · intro j k bj bk hlt hj hk hsession hturn
    rcases hget j bj hj with ⟨b, hb, rfl⟩
    rcases hget k bk hk with ⟨c, hc, rfl⟩
    rw [(hsame b).2.1, (hsame c).2.1] at hsession
    rw [(hsame c).1] at hturn
    rw [(hsame b).1]
    exact h.turns j k b c hlt hb hc hsession hturn
  · intro b' hb' hstarts hnot r hr hlive
    rcases hmem b' hb' with ⟨b, hb, rfl⟩
    rw [(hsame b).2.1]
    rw [(hsame b).1] at hstarts
    exact h.admitted b hb hstarts ((hsame b).2.2.2 hnot) r hr hlive
  · intro b' hb' hcreated
    rcases hmem b' hb' with ⟨b, hb, rfl⟩
    rw [(hsame b).2.2.1]
    rw [(hsame b).1] at hcreated
    exact h.created b hb hcreated
  · intro j k bj bk hj hk hjc hkc hid
    rcases hget j bj hj with ⟨b, hb, rfl⟩
    rcases hget k bk hk with ⟨c, hc, rfl⟩
    rw [(hsame b).1] at hjc
    rw [(hsame c).1] at hkc
    rw [(hsame b).2.2.1, (hsame c).2.2.1] at hid
    exact h.createdOnce j k b c hb hc hjc hkc hid

/-- A call of `begin` moves on. -/
theorem BeginsKept.setBegin (h : s.BeginsKept) {call : ℕ} {b : BeginCall}
    (hb : s.begins[call]? = some b) (phase : BeginPhase)
    (hover : b.phase ≠ .over)
    (hturn : phase.inTurn = true → ∀ (j : ℕ) (bj : BeginCall), j < call →
      s.begins[j]? = some bj → bj.sessionId = b.sessionId →
      bj.phase = .over)
    (hadmitted : phase.startsNow = true → b.superseded = false →
      ∀ r ∈ s.runs, r.live = true → r.sessionId ≠ b.sessionId)
    (hcreated : phase.isCreated = true →
      (∃ row ∈ s.rows, row.runId = b.runId) ∧
        (∀ r ∈ s.runs, r.live = true → r.runId ≠ b.runId) ∧
        ∀ (j : ℕ) (bj : BeginCall), s.begins[j]? = some bj →
          bj.phase.isCreated = true → bj.runId ≠ b.runId) :
    (s.setBegin call phase).BeginsKept := by
  have hcases : ∀ (j : ℕ) (bj : BeginCall),
      (s.setBegin call phase).begins[j]? = some bj →
      j = call ∧ bj = { b with phase := phase } ∨
        j ≠ call ∧ s.begins[j]? = some bj := by
    intro j bj hj
    unfold RunCoordinator.setBegin at hj
    dsimp only at hj
    by_cases hsame : j = call
    · subst hsame
      rw [List.getElem?_modify_eq, hb] at hj
      exact Or.inl ⟨rfl, (Option.some.inj hj).symm⟩
    · rw [List.getElem?_modify_ne _ _ (Ne.symm hsame)] at hj
      exact Or.inr ⟨hsame, hj⟩
  have hmem : ∀ c ∈ (s.setBegin call phase).begins,
      c = { b with phase := phase } ∨ c ∈ s.begins := by
    intro c hc
    rcases List.mem_iff_getElem?.mp hc with ⟨j, hj⟩
    rcases hcases j c hj with ⟨-, hnew⟩ | ⟨-, hold⟩
    · exact Or.inl hnew
    · exact Or.inr (List.mem_of_getElem? hold)
  constructor
  · intro j k bj bk hlt hj hk hsession hinTurn
    rcases hcases k bk hk with ⟨rfl, rfl⟩ | ⟨hkne, hk'⟩
    · rcases hcases j bj hj with ⟨rfl, rfl⟩ | ⟨hjne, hj'⟩
      · omega
      · exact hturn hinTurn j bj hlt hj' hsession
    · rcases hcases j bj hj with ⟨rfl, rfl⟩ | ⟨hjne, hj'⟩
      · exact absurd (h.turns j k b bk hlt hb hk' hsession hinTurn) hover
      · exact h.turns j k bj bk hlt hj' hk' hsession hinTurn
  · intro c hc hstarts hnot
    rcases hmem c hc with rfl | hold
    · exact hadmitted hstarts hnot
    · exact h.admitted c hold hstarts hnot
  · intro c hc hcr
    rcases hmem c hc with rfl | hold
    · exact ⟨(hcreated hcr).1, (hcreated hcr).2.1⟩
    · exact h.created c hold hcr
  · intro j k bj bk hj hk hjc hkc hid
    rcases hcases j bj hj with ⟨rfl, rfl⟩ | ⟨hjne, hj'⟩
    · rcases hcases k bk hk with ⟨rfl, rfl⟩ | ⟨hkne, hk'⟩
      · rfl
      · exact absurd hid.symm ((hcreated hjc).2.2 k bk hk' hkc)
    · rcases hcases k bk hk with ⟨rfl, rfl⟩ | ⟨hkne, hk'⟩
      · exact absurd hid ((hcreated hkc).2.2 j bj hj' hjc)
      · exact h.createdOnce j k bj bk hj' hk' hjc hkc hid

/-- A run comes into the map while no call of `begin` counts on its session
or its name. -/
theorem BeginsKept.open (h : s.BeginsKept) {r : LiveRun}
    (hfresh : ∀ old ∈ s.runs, old.live = true → old.runId ≠ r.runId)
    (hadmitted : ∀ b ∈ s.begins, b.phase.isAdmitted = true →
      b.sessionId ≠ r.sessionId)
    (hcreated : ∀ b ∈ s.begins, b.phase.isCreated = true → b.runId ≠ r.runId) :
    (s.open r).BeginsKept := by
  have hruns := open_runs hfresh
  constructor
  · exact h.turns
  · intro b hb hstarts hnot r' hr' hlive
    rw [hruns] at hr'
    rcases List.mem_append.mp hr' with hold | hnew
    · exact h.admitted b hb hstarts hnot r' hold hlive
    · rw [List.mem_singleton.mp hnew]
      exact (hadmitted b hb (BeginPhase.isAdmitted_of_startsNow hstarts)).symm
  · intro b hb hcr
    rcases h.created b hb hcr with ⟨hrow, hnone⟩
    refine ⟨hrow, ?_⟩
    intro r' hr' hlive
    rw [hruns] at hr'
    rcases List.mem_append.mp hr' with hold | hnew
    · exact hnone r' hold hlive
    · rw [List.mem_singleton.mp hnew]
      exact (hcreated b hb hcr).symm
  · exact h.createdOnce

end RunCoordinator
end QiForge
