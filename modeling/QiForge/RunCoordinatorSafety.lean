import QiForge.RunCoordinatorBegins

/-!
# One attempt per session

Every step that recovers alone keeps the runs and the calls of `begin`, so in
every state of such a run no two attempts of a session are in flight.
-/

namespace QiForge
namespace RunCoordinator

variable {s s' : RunCoordinator}

structure Kept (s : RunCoordinator) : Prop where
  runs : s.RunsKept
  begins : s.BeginsKept

theorem empty_kept (rows : List RunRow) :
    Kept { empty with rows := rows } := by
  constructor
  · exact empty_runsKept rows
  · constructor <;> simp [empty]

/-- Nothing but the calls of `begin` moves. -/
theorem Kept.of_begins (h : s.Kept) (hruns : s'.runs = s.runs)
    (hacts : s'.activities = s.activities) (hrows : s'.rows = s.rows)
    (hdue : s'.due = s.due) (hfinals : s'.finals = s.finals)
    (hrecoveries : s'.recoveries = s.recoveries)
    (hbegins : s'.BeginsKept) : s'.Kept := by
  refine ⟨?_, hbegins⟩
  apply h.runs.congr hruns hacts
  · intro row hrow
    rw [hrows]
    exact ⟨row, hrow, rfl⟩
  · rw [hdue]
    exact fun _ he => he
  · rw [hfinals]
    exact fun _ hf => hf
  · rw [hrecoveries]
    exact h.runs.recovering

theorem Kept.setBegin (h : s.Kept) (call : ℕ) (phase : BeginPhase)
    (hbegins : (s.setBegin call phase).BeginsKept) :
    (s.setBegin call phase).Kept :=
  h.of_begins rfl rfl rfl rfl rfl rfl hbegins

/-- The runs change and no call of `begin` moves. -/
theorem Kept.steady (h : s.Kept) (hruns : s'.RunsKept)
    (hsteady : s.Steady s') : s'.Kept :=
  ⟨hruns, h.begins.steady hsteady⟩

/-- A session with no active run has none in the map. -/
theorem RunsKept.session_empty (h : s.RunsKept) {sessionId : String}
    (hnone : s.activeForSession sessionId = none) :
    ∀ r ∈ s.runs, r.live = true → r.sessionId ≠ sessionId := by
  unfold activeForSession firstIndex at hnone
  rcases (Option.orElse_eq_none _ _).mp hnone with ⟨hbusy, hqueued⟩
  intro r hr hlive hsession
  rcases List.mem_iff_getElem?.mp hr with ⟨i, hi⟩
  by_cases hstatus : r.status = .queued
  · have hno := List.findIdx?_eq_none_iff.mp hqueued r hr
    simp [LiveRun.isQueued, hlive, hstatus, hsession] at hno
  · have hno := List.findIdx?_eq_none_iff.mp hbusy r hr
    have hb := (h.proper i r hi).busy hlive hstatus
    simp [hb, hsession] at hno

/-- A call in its turn has the earlier calls of its session behind it. -/
theorem BeginsKept.behind (h : s.BeginsKept) {call : ℕ} {b : BeginCall}
    (hb : s.begins[call]? = some b) (hturn : b.phase.inTurn = true) :
    ∀ (j : ℕ) (bj : BeginCall), j < call → s.begins[j]? = some bj →
      bj.sessionId = b.sessionId → bj.phase = .over :=
  fun j bj hlt hj hsession => h.turns j call bj b hlt hj hb hsession hturn

section Begin

variable {call : ℕ} {b : BeginCall}

theorem supersedePending_kept (h : s.Kept) (sessionId : String) :
    (s.supersedePending sessionId).Kept :=
  h.of_begins rfl rfl rfl rfl rfl rfl (h.begins.supersedePending sessionId)

/-- A new call waits for its turn. -/
theorem Kept.append_begin (h : s.Kept) (hphase : b.phase = .waiting) :
    Kept { s with begins := s.begins ++ [b] } := by
  have hcases : ∀ (j : ℕ) (bj : BeginCall), (s.begins ++ [b])[j]? = some bj →
      s.begins[j]? = some bj ∨ j = s.begins.length ∧ bj = b := by
    intro j bj hj
    rw [List.getElem?_append] at hj
    split_ifs at hj with hlt
    · exact Or.inl hj
    · rw [List.getElem?_singleton] at hj
      rcases Option.ite_none_right_eq_some.mp hj with ⟨hzero, hsome⟩
      exact Or.inr ⟨by omega, (Option.some.inj hsome).symm⟩
  apply h.of_begins (by rfl) (by rfl) (by rfl) (by rfl) (by rfl) (by rfl)
  constructor
  · intro j k bj bk hlt hj hk hsession hturn
    rcases hcases k bk hk with hk' | ⟨hlast, rfl⟩
    · rcases hcases j bj hj with hj' | ⟨hlast, rfl⟩
      · exact h.begins.turns j k bj bk hlt hj' hk' hsession hturn
      · have hk'' := (List.getElem?_eq_some_iff.mp hk').1
        omega
    · rw [hphase] at hturn
      cases hturn
  · intro c hc hstarts
    rcases List.mem_append.mp hc with hold | hnew
    · exact h.begins.admitted c hold hstarts
    · rw [List.mem_singleton.mp hnew, hphase] at hstarts
      cases hstarts
  · intro c hc hcreated
    rcases List.mem_append.mp hc with hold | hnew
    · exact h.begins.created c hold hcreated
    · rw [List.mem_singleton.mp hnew, hphase] at hcreated
      cases hcreated
  · intro j k bj bk hj hk hjc hkc hid
    rcases hcases j bj hj with hj' | ⟨hlast, rfl⟩
    · rcases hcases k bk hk with hk' | ⟨hlast, rfl⟩
      · exact h.begins.createdOnce j k bj bk hj' hk' hjc hkc hid
      · rw [hphase] at hkc
        cases hkc
    · rw [hphase] at hjc
      cases hjc

/-- A call in its turn is admitted, or goes on. -/
theorem Kept.move (h : s.Kept) (hb : s.begins[call]? = some b)
    (hturn : ∀ (j : ℕ) (bj : BeginCall), j < call →
      s.begins[j]? = some bj → bj.sessionId = b.sessionId →
      bj.phase = .over)
    (hover : b.phase ≠ .over) (phase : BeginPhase)
    (hcreated : phase.isCreated = false)
    (hadmitted : phase.startsNow = true → b.superseded = false →
      ∀ r ∈ s.runs, r.live = true → r.sessionId ≠ b.sessionId) :
    (s.setBegin call phase).Kept := by
  apply h.setBegin
  apply h.begins.setBegin hb phase hover (fun _ => hturn) hadmitted
  intro hcr
  rw [hcreated] at hcr
  cases hcr

theorem enterTurn_kept (h : s.Kept) (hb : s.begins[call]? = some b)
    (hphase : b.phase = .waiting)
    (hearlier : ∀ earlier ∈ s.begins.take call,
      earlier.sessionId = b.sessionId → earlier.phase = .over) :
    (s.enterTurn call b).Kept := by
  have hturn : ∀ (j : ℕ) (bj : BeginCall), j < call →
      s.begins[j]? = some bj → bj.sessionId = b.sessionId →
      bj.phase = .over := by
    intro j bj hlt hj hsession
    apply hearlier bj _ hsession
    apply List.mem_of_getElem? (i := j)
    rw [List.getElem?_take, if_pos hlt]
    exact hj
  have hover : b.phase ≠ .over := by
    rw [hphase]
    simp
  unfold enterTurn
  split_ifs with hsuperseded
  · apply h.move hb hturn hover _ rfl
    intro _ hnot
    rw [hsuperseded] at hnot
    cases hnot
  · cases hactive : s.activeForSession b.sessionId with
    | none =>
        exact h.move hb hturn hover _ rfl fun _ _ =>
          h.runs.session_empty hactive
    | some i =>
        cases b.multitask with
        | interrupt =>
            exact h.move hb hturn hover _ rfl (by simp [BeginPhase.startsNow])
        | enqueue =>
            exact h.move hb hturn hover _ rfl (by simp [BeginPhase.startsNow])

theorem steady_begin (hsteady : s.Steady s')
    (hb : s.begins[call]? = some b) : s'.begins[call]? = some b := by
  rw [hsteady.begins]
  exact hb

theorem cancelNext_kept (h : s.Kept) (hb : s.begins[call]? = some b)
    {rest : List ℕ} (hphase : b.phase = .cancelling rest) :
    (s.cancelNext call b rest).Kept := by
  have hinTurn : b.phase.inTurn = true := by
    rw [hphase]
    rfl
  have hover : b.phase ≠ .over := by
    rw [hphase]
    simp
  have hturn := h.begins.behind hb hinTurn
  cases rest with
  | nil =>
      unfold cancelNext
      cases hactive : s.activeForSession b.sessionId with
      | none =>
          exact h.move hb hturn hover _ rfl fun _ _ =>
            h.runs.session_empty hactive
      | some i =>
          have hsteady := steady_abortRun (s := s) i
          have haborted := h.steady (h.runs.abortRun i) hsteady
          have hb' := steady_begin hsteady hb
          exact haborted.move hb' (haborted.begins.behind hb' hinTurn) hover
            _ rfl (by simp [BeginPhase.startsNow])
  | cons i rest =>
      have hmoved := h.move hb hturn hover (.cancelling rest) rfl
        (by simp [BeginPhase.startsNow])
      unfold cancelNext
      dsimp only
      split_ifs with hqueued
      · apply hmoved.steady _ (steady_finalize i _)
        apply hmoved.runs.cancelQueued
        intro r hr _
        rw [show (s.setBegin call (.cancelling rest)).runs[i]? =
          s.runs[i]? from rfl] at hr hqueued
        rw [hr] at hqueued
        simp only [Option.any_some, decide_eq_true_eq] at hqueued
        exact hqueued.2
      · exact hmoved

theorem graceOver_kept (h : s.Kept) (hb : s.begins[call]? = some b)
    (hphase : b.phase = .grace) : (s.graceOver call b).Kept := by
  have hinTurn : b.phase.inTurn = true := by
    rw [hphase]
    rfl
  have hover : b.phase ≠ .over := by
    rw [hphase]
    simp
  have hturn := h.begins.behind hb hinTurn
  unfold graceOver
  split_ifs with hactive
  · exact h.move hb hturn hover _ rfl (by simp [BeginPhase.startsNow])
  · apply h.move hb hturn hover _ rfl
    intro _ hnot
    apply h.runs.session_empty
    cases hsession : s.activeForSession b.sessionId with
    | none => rfl
    | some i => exact absurd ⟨hnot, by rw [hsession]; rfl⟩ hactive

/-- The row of the run is new. -/
theorem create_kept (h : s.Kept) (hb : s.begins[call]? = some b)
    {queued behind : Bool} (hphase : b.phase = .admitted queued behind)
    (hfresh : ∀ row ∈ s.rows, row.runId ≠ b.runId) :
    (s.create call b queued behind).Kept := by
  have hinTurn : b.phase.inTurn = true := by
    rw [hphase]
    rfl
  have hover : b.phase ≠ .over := by
    rw [hphase]
    simp
  set row : RunRow := ⟨b.runId, b.sessionId,
    if queued || b.superseded then .queued else .running, none⟩ with hrow
  have hrows : Kept { s with rows := s.rows ++ [row] } := by
    apply h.steady
    · apply h.runs.congr (by rfl) (by rfl)
      · exact fun old hold => ⟨old, List.mem_append_left _ hold, rfl⟩
      · exact fun _ he => he
      · exact fun _ hf => hf
      · exact h.runs.recovering
    · constructor
      · rfl
      · exact fun r hr hlive => ⟨r, hr, hlive, rfl, rfl⟩
      · exact fun old hold => ⟨old, List.mem_append_left _ hold, rfl⟩
  change (setBegin { s with rows := s.rows ++ [row] } call
    (.created queued behind)).Kept
  apply hrows.setBegin
  apply hrows.begins.setBegin hb _ hover (fun _ => h.begins.behind hb hinTurn)
  · intro hstarts hnot
    apply h.begins.admitted b (List.mem_of_getElem? hb) _ hnot
    rw [hphase]
    exact hstarts
  · intro _
    refine ⟨⟨row, List.mem_append_right _ (List.mem_singleton_self _),
      rfl⟩, ?_, ?_⟩
    · intro r hr hlive hid
      rcases List.mem_iff_getElem?.mp hr with ⟨i, hi⟩
      rcases h.runs.known i r hi hlive with ⟨old, hold, hold'⟩
      exact hfresh old hold (hold'.trans hid)
    · intro j bj hj hcr hid
      rcases (h.begins.created bj (List.mem_of_getElem? hj) hcr).1 with
        ⟨old, hold, hold'⟩
      exact hfresh old hold (hold'.trans hid)

/-- The run of a call comes into the map. -/
theorem openBegun_kept (h : s.Kept) (hb : s.begins[call]? = some b)
    {queued behind : Bool} (hphase : b.phase = .created queued behind) :
    (s.openBegun call b queued behind).Kept := by
  have hmem := List.mem_of_getElem? hb
  have hinTurn : b.phase.inTurn = true := by
    rw [hphase]
    rfl
  have hisCreated : b.phase.isCreated = true := by
    rw [hphase]
    rfl
  have hover : b.phase ≠ .over := by
    rw [hphase]
    simp
  rcases h.begins.created b hmem hisCreated with ⟨hknown, hnone⟩
  have hmoved : (s.setBegin call .over).Kept :=
    h.move hb (h.begins.behind hb hinTurn) hover _ rfl
      (by simp [BeginPhase.startsNow])
  have hcases : ∀ c ∈ (s.setBegin call .over).begins, c.phase = .over ∨
      ∃ j, j ≠ call ∧ s.begins[j]? = some c := by
    intro c hc
    rcases List.mem_iff_getElem?.mp hc with ⟨j, hj⟩
    change (s.begins.modify call _)[j]? = some c at hj
    by_cases hsame : j = call
    · subst hsame
      rw [List.getElem?_modify_eq, hb] at hj
      rw [← Option.some.inj hj]
      exact Or.inl rfl
    · rw [List.getElem?_modify_ne _ _ (Ne.symm hsame)] at hj
      exact Or.inr ⟨j, hsame, hj⟩
  have hopen : ∀ r : LiveRun, r.runId = b.runId →
      r.sessionId = b.sessionId → r.Proper →
      (r.isBusy = true → b.phase.startsNow = true ∧ b.superseded = false) →
      ((s.setBegin call .over).open r).Kept := by
    intro r hid hsession hproper hbusy
    have hfresh : ∀ old ∈ s.runs, old.live = true → old.runId ≠ r.runId := by
      rw [hid]
      exact hnone
    constructor
    · apply hmoved.runs.open hfresh _ hproper
      · intro hrbusy old hold holdbusy
        rcases hbusy hrbusy with ⟨hstarts, hnot⟩
        rw [hsession]
        exact h.begins.admitted b hmem hstarts hnot old hold
          (LiveRun.isBusy_iff.mp holdbusy).1
      · rw [hid]
        exact hknown
    · apply hmoved.begins.open hfresh
      · intro c hc hadm hsame
        rw [hsession] at hsame
        rcases hcases c hc with hdone | ⟨j, hne, hj⟩
        · rw [hdone] at hadm
          cases hadm
        · have hcTurn := BeginPhase.inTurn_of_isAdmitted hadm
          rcases Nat.lt_or_gt_of_ne hne with hlt | hgt
          · have hdone := h.begins.behind hb hinTurn j c hlt hj hsame
            rw [hdone] at hadm
            cases hadm
          · exact hover (h.begins.behind hj hcTurn call b hgt hb hsame.symm)
      · intro c hc hcr hsame
        rw [hid] at hsame
        rcases hcases c hc with hdone | ⟨j, hne, hj⟩
        · rw [hdone] at hcr
          cases hcr
        · exact hne (h.begins.createdOnce j call c b hj hb hcr hisCreated
            hsame)
  unfold RunCoordinator.openBegun
  split_ifs with hsuperseded hqueued
  · have hopened := hopen (.ofRow ⟨b.runId, b.sessionId, .queued, none⟩)
      rfl rfl (fun _ => ⟨rfl, fun hflight => by cases hflight⟩)
      (by simp [LiveRun.isBusy, LiveRun.ofRow])
    apply hopened.steady _ (steady_finalize _ _)
    apply hopened.runs.cancelQueued
    intro r hr _
    have hlast := open_last (s := s.setBegin call .over)
      (r := .ofRow ⟨b.runId, b.sessionId, .queued, none⟩) hnone
    rw [hlast] at hr
    rw [← Option.some.inj hr]
    rfl
  · have hopened := hopen
      { LiveRun.ofRow ⟨b.runId, b.sessionId, .queued, none⟩ with
        queuedBehindSuperseded := behind }
      rfl rfl (fun _ => ⟨rfl, fun hflight => by cases hflight⟩)
      (by simp [LiveRun.isBusy, LiveRun.ofRow])
    exact hopened.steady (hopened.runs.startNextQueued _)
      (steady_startNextQueued _)
  · have hopened := hopen (.ofRow ⟨b.runId, b.sessionId, .running, none⟩)
      rfl rfl (fun _ => ⟨rfl, fun hflight => by cases hflight⟩)
      (fun _ => ⟨by simp [hphase, BeginPhase.startsNow, hqueued],
        by simpa using hsuperseded⟩)
    apply hopened.steady _ (steady_startAttempt _)
    apply hopened.runs.take (open_last (s := s.setBegin call .over) hnone) rfl
    · exact fun _ hstatus => by cases hstatus
    · exact fun _ hstatus => by cases hstatus
    · exact Or.inl rfl

end Begin

section Aborts

theorem cancelEach_kept (h : s.Kept) (runs : List ℕ) :
    (s.cancelEach runs).Kept :=
  h.steady (h.runs.cancelEach runs) (steady_cancelEach runs)

theorem abortEach_kept (h : s.Kept) (runs : List ℕ) :
    (s.abortEach runs).Kept :=
  h.steady (h.runs.abortEach runs) (steady_abortEach runs)

theorem abortRun_kept (h : s.Kept) (i : ℕ) : (s.abortRun i).Kept :=
  h.steady (h.runs.abortRun i) (steady_abortRun i)

theorem startNextQueued_kept (h : s.Kept) (sessionId : String) :
    (s.startNextQueued sessionId).Kept :=
  h.steady (h.runs.startNextQueued sessionId)
    (steady_startNextQueued sessionId)

theorem abortSession_kept (h : s.Kept) (sessionId : String) :
    (s.abortSession sessionId).Kept := by
  unfold RunCoordinator.abortSession
  have hsup := supersedePending_kept h sessionId
  have hcancelled := cancelEach_kept hsup
    ((s.supersedePending sessionId).indices fun r =>
      decide (r.sessionId = sessionId) && r.queuedBehindSuperseded)
  dsimp only
  split
  · exact hcancelled
  · next i _ =>
      split_ifs with hqueued
      · exact hcancelled.steady (hcancelled.runs.cancelQueued i
            fun r hr _ => hasStatus_spec hqueued r hr)
          (steady_finalize i _)
      · exact abortRun_kept hcancelled i

theorem abortByIds_kept (h : s.Kept) (runIds : List String) :
    (s.abortByIds runIds).Kept :=
  abortEach_kept (cancelEach_kept h _) _

theorem abortAllForSession_kept (h : s.Kept) (sessionId : String) :
    (s.abortAllForSession sessionId).Kept :=
  abortEach_kept (cancelEach_kept (supersedePending_kept h sessionId) _) _

end Aborts

section Activities

variable {k i : ℕ} {a : RunActivity}

theorem land_run {r : LiveRun} (hr : s.runs[i]? = some r) (k : ℕ) :
    (s.land k i).runs[i]? = some { r with attemptInFlight := false } :=
  setRun_self hr _

/-- The run leaves the map when its attempt is over. -/
theorem land_finalize_kept (h : s.Kept)
    (hk : s.activities[k]? = some (i, a)) {status : RunStatus}
    (hstatus : status.isActive = false)
    (hwaits : a ≠ .resuming ∨ s.isAborted i = true) :
    ((s.land k i).finalize i status).Kept := by
  rcases h.runs.holder hk with ⟨r, hr, hflight, hnot, hb⟩
  rcases h.runs.land hk with ⟨hlanded, hidle⟩
  apply h.steady _ ((steady_land k i).trans (steady_finalize i status))
  apply hlanded.finalize i hstatus hidle
  intro r' hr' _
  rw [land_run hr] at hr'
  cases hr'
  rcases hwaits with hwritten | haborted
  · exact Or.inr (hnot hwritten)
  · unfold isAborted at haborted
    rw [hr] at haborted
    exact Or.inl haborted

theorem attemptDefers_kept (h : s.Kept)
    (hk : s.activities[k]? = some (i, .attempting))
    (decision : Option ℕ) : (s.attemptDefers k i decision).Kept := by
  unfold RunCoordinator.attemptDefers
  split_ifs with haborted
  · exact land_finalize_kept h hk rfl (Or.inr haborted)
  · cases decision with
    | none => exact land_finalize_kept h hk rfl (Or.inl (by simp))
    | some nextAt =>
        apply h.steady _ (steady_become k i _)
        apply h.runs.become hk
        rintro r - ⟨hflight, hnot, hb⟩
        refine ⟨hflight, fun _ => hnot (by simp), ?_⟩
        rcases hb with hlive | ⟨hresume, -⟩
        · exact Or.inl hlive
        · cases hresume

theorem deferWritten_kept (h : s.Kept) {nextAt : ℕ}
    (hk : s.activities[k]? = some (i, .deferring nextAt)) :
    let s' := (s.write i .recovering (some nextAt)).land k i
    (if s'.isAborted i then s'.finalize i .aborted else s').Kept := by
  rcases h.runs.writeDeferred (some nextAt) hk with ⟨hdeferred, hidle⟩
  have hsteady : s.Steady ((s.write i .recovering (some nextAt)).land k i) :=
    (steady_write i _ _).trans (steady_land k i)
  dsimp only
  split_ifs with haborted
  · apply h.steady _ (hsteady.trans (steady_finalize i _))
    apply hdeferred.finalize i rfl hidle
    intro r hr _
    unfold isAborted at haborted
    rw [hr] at haborted
    exact Or.inl haborted
  · exact h.steady hdeferred hsteady

theorem write_activities (i : ℕ) (status : RunStatus)
    (nextAttemptAt : Option ℕ) :
    (s.write i status nextAttemptAt).activities = s.activities := by
  unfold RunCoordinator.write
  cases s.runs[i]? with
  | none => rfl
  | some r => rfl

theorem write_kept (h : s.Kept) (hk : s.activities[k]? = some (i, a)) :
    (s.write i .running none).Kept ∧
      (s.write i .running none).activities[k]? = some (i, a) := by
  constructor
  · exact h.steady (h.runs.write none hk) (steady_write i _ _)
  · rw [write_activities]
    exact hk

theorem become_attempting_kept (h : s.Kept)
    (hk : s.activities[k]? = some (i, a)) (hwritten : a ≠ .resuming)
    (haborted : ¬ s.isAborted i = true) :
    (s.become k i .attempting).Kept := by
  apply h.steady _ (steady_become k i _)
  apply h.runs.become hk
  rintro r hr ⟨hflight, hnot, hb⟩
  refine ⟨hflight, fun _ => hnot hwritten, ?_⟩
  rcases hb with hlive | ⟨-, hab⟩
  · exact Or.inl hlive
  · unfold isAborted at haborted
    rw [hr] at haborted
    exact absurd hab haborted

/-- The attempt starts, unless the run was aborted meanwhile. -/
theorem startOrAbort_kept (h : s.Kept)
    (hk : s.activities[k]? = some (i, a)) (hwritten : a ≠ .resuming) :
    (if s.isAborted i then (s.land k i).finalize i .aborted
      else s.become k i .attempting).Kept := by
  split_ifs with haborted
  · exact land_finalize_kept h hk rfl (Or.inl hwritten)
  · exact become_attempting_kept h hk hwritten haborted

theorem resumeWritten_kept (h : s.Kept)
    (hk : s.activities[k]? = some (i, .resuming)) :
    ((s.write i .running none).become k i .resumed).Kept := by
  rcases write_kept h hk with ⟨hwritten, hk'⟩
  rcases h.runs.holder hk with ⟨r, hr, -⟩
  have hstatus : ∀ r', (s.write i .running none).runs[i]? = some r' →
      r'.status = .running := by
    intro r' hr'
    unfold RunCoordinator.write at hr'
    rw [hr] at hr'
    have hself := setRun_self (s := s.updateRow r.runId .running none) hr
      (fun r => { r with status := .running, nextAttemptAt := none })
    rw [← Option.some.inj (hself.symm.trans hr')]
  apply hwritten.steady _ (steady_become k i _)
  apply hwritten.runs.become hk'
  rintro r' hr' ⟨hflight, -, hb⟩
  refine ⟨hflight, fun _ => ?_, ?_⟩
  · rw [hstatus r' hr']
    simp
  · rcases hb with hlive | ⟨-, haborted⟩
    · exact Or.inl hlive
    · exact Or.inr ⟨rfl, haborted⟩

theorem throws_kept (h : s.Kept) (hk : s.activities[k]? = some (i, a)) :
    (s.throws k i a).Kept := by
  have hlanded : (s.land k i).Kept :=
    h.steady (h.runs.land hk).1 (steady_land k i)
  have hresume : (if s.isAborted i then (s.land k i).finalize i .aborted
      else s.land k i).Kept := by
    split_ifs with haborted
    · exact land_finalize_kept h hk rfl (Or.inr haborted)
    · exact hlanded
  have hover : ∀ status, (if s.isAborted i then RunStatus.aborted
      else .failed) = status → status.isActive = false := by
    rintro status rfl
    split_ifs <;> rfl
  unfold RunCoordinator.throws
  cases a with
  | resuming => exact hresume
  | resumed => exact hresume
  | dequeuing =>
      exact land_finalize_kept h hk (hover _ rfl) (Or.inl (by simp))
  | attempting =>
      exact land_finalize_kept h hk (hover _ rfl) (Or.inl (by simp))
  | deferring nextAt =>
      exact land_finalize_kept h hk (hover _ rfl) (Or.inl (by simp))

end Activities

section Closing

variable {call i : ℕ}

theorem steady_closeSettles (status : RunStatus) (written : Bool) :
    s.Steady { (if written then s.write i status none else s) with
      finals := s.finals.set call ⟨i, status, true⟩ } := by
  have hwrite : s.Steady (if written then s.write i status none else s) := by
    split_ifs
    · exact steady_write i status none
    · exact Steady.refl s
  exact { hwrite with }

theorem closeSettles_kept (h : s.Kept) {status : RunStatus} (written : Bool)
    (hcall : s.finals[call]? = some ⟨i, status, false⟩) :
    Kept { (if written then s.write i status none else s) with
      finals := s.finals.set call ⟨i, status, true⟩ } :=
  h.steady (h.runs.closeSettles hcall) (steady_closeSettles status written)

theorem finalizeEnds_kept (h : s.Kept) (sessionId : String) :
    (startNextQueued { s with finals := s.finals.eraseIdx call }
      sessionId).Kept := by
  apply startNextQueued_kept
  apply h.steady _ (Steady.of_eq (by rfl) (by rfl) (by rfl))
  apply h.runs.congr (by rfl) (by rfl)
  · exact fun row hrow => ⟨row, hrow, rfl⟩
  · exact fun _ he => he
  · exact fun _ hf => List.mem_of_mem_eraseIdx hf
  · exact h.runs.recovering

end Closing

section Recovery

variable {call : ℕ} {record : RunRow} {rest : List RunRow}

/-- A recovery moves on among the rows it has read. -/
theorem Kept.setRecoveries (h : s.Kept) (recoveries : List RecoverPhase)
    (hrecords : ∀ p ∈ recoveries, ∀ record ∈ p.records,
      ∃ row ∈ s.rows, row.runId = record.runId) :
    Kept { s with recoveries := recoveries } := by
  apply h.steady _ (Steady.of_eq (by rfl) (by rfl) (by rfl))
  apply h.runs.congr (by rfl) (by rfl)
  · exact fun row hrow => ⟨row, hrow, rfl⟩
  · exact fun _ he => he
  · exact fun _ hf => hf
  · exact hrecords

theorem Kept.setRecovery (h : s.Kept) {old next : RecoverPhase}
    (hcall : s.recoveries[call]? = some old)
    (hrecords : ∀ record ∈ next.records, record ∈ old.records) :
    Kept { s with recoveries := s.recoveries.set call next } := by
  apply h.setRecoveries
  intro p hp record hrecord
  rcases List.mem_or_eq_of_mem_set hp with hold | rfl
  · exact h.runs.recovering p hold record hrecord
  · exact h.runs.recovering old (List.mem_of_getElem? hcall) record
      (hrecords record hrecord)

theorem recoverOrphans_kept (h : s.Kept) : Kept { s with
      recoveries := s.recoveries ++
        [.reading (s.rows.filter fun row => row.status.isActive)] } := by
  apply h.setRecoveries
  intro p hp record hrecord
  rcases List.mem_append.mp hp with hold | hnew
  · exact h.runs.recovering p hold record hrecord
  · rw [List.mem_singleton.mp hnew] at hrecord
    exact ⟨record, List.mem_of_mem_filter hrecord, rfl⟩

theorem isLive_eq_false {runId : String} (h : s.isLive runId = false) :
    ∀ r ∈ s.runs, r.live = true → r.runId ≠ runId := by
  intro r hr hlive hid
  have hno := List.any_eq_false.mp h r hr
  simp [hlive, hid] at hno

/-- A run that recovery opens to be attempted. -/
theorem open_recovered_kept (h : s.Kept) {r : LiveRun} (row : RunRow)
    (hid : r.runId = row.runId) (hsession : r.sessionId = row.sessionId)
    (hlive : s.isLive row.runId = false) (hnone : s.NoneAdmitted row)
    (hknown : ∃ old ∈ s.rows, old.runId = row.runId) (hproper : r.Proper)
    (hbusy : r.isBusy = true → ∀ old ∈ s.runs, old.isBusy = true →
      old.sessionId ≠ row.sessionId) :
    (s.open r).Kept := by
  have hfresh : ∀ old ∈ s.runs, old.live = true → old.runId ≠ r.runId := by
    rw [hid]
    exact isLive_eq_false hlive
  constructor
  · apply h.runs.open hfresh _ hproper
    · rw [hsession]
      exact hbusy
    · rw [hid]
      exact hknown
  · apply h.begins.open hfresh
    · intro b hb hadm hsame
      rw [hsession] at hsame
      rw [hnone b hb (Or.inl hsame)] at hadm
      cases hadm
    · intro b hb hcr hsame
      rw [hid] at hsame
      have hadm := BeginPhase.isAdmitted_of_isCreated hcr
      rw [hnone b hb (Or.inr hsame)] at hadm
      cases hadm

/-- A run that is opened and closed at once never is in the map. -/
theorem open_finalize {r : LiveRun} (hlive : r.live = true)
    (hfresh : ∀ old ∈ s.runs, old.live = true → old.runId ≠ r.runId)
    (status : RunStatus) :
    (s.open r).finalize s.runs.length status = { s with
        runs := s.runs ++ [{ r with live := false }]
        finals := s.finals ++ [⟨s.runs.length, status, false⟩] } := by
  have hlast := open_last hfresh
  have hruns := open_runs hfresh
  unfold RunCoordinator.finalize RunCoordinator.setRun
  rw [hlast]
  simp only [Option.any_some, hlive, if_true]
  rw [hruns]
  have hmodify : (s.runs ++ [r]).modify s.runs.length
      (fun r => { r with live := false }) =
      s.runs ++ [{ r with live := false }] := by
    apply List.ext_getElem?
    intro j
    rw [List.getElem?_modify]
    by_cases hlt : j < s.runs.length
    · rw [List.getElem?_append_left hlt, List.getElem?_append_left hlt]
      cases s.runs[j]? <;> simp [Nat.ne_of_gt hlt]
    · rw [List.getElem?_append_right (Nat.le_of_not_lt hlt),
        List.getElem?_append_right (Nat.le_of_not_lt hlt)]
      by_cases hsame : s.runs.length = j
      · simp [hsame]
      · rw [List.getElem?_singleton, List.getElem?_singleton, if_neg, if_neg]
        · rfl
        · omega
        · omega
  rw [hmodify]
  rfl

/-- A run that recovery closes as interrupted. -/
theorem open_closed_kept (h : s.Kept) {r : LiveRun}
    (hlive : r.live = true) (hnone : s.isLive r.runId = false)
    (hknown : ∃ old ∈ s.rows, old.runId = r.runId) :
    ((s.open r).finalize s.runs.length .interrupted).Kept := by
  have hfresh := isLive_eq_false hnone
  rw [open_finalize hlive hfresh]
  have hopened : (s.open { r with live := false }).RunsKept := by
    apply RunsKept.open h.runs (r := { r with live := false }) hfresh hknown
    · intro hl
      cases hl
    · intro hbusy
      cases (LiveRun.isBusy_iff.mp hbusy).1
  have hruns := open_runs (r := { r with live := false }) hfresh
  have hsame : s.open { r with live := false } =
      { s with runs := s.runs ++ [{ r with live := false }] } := by
    rw [← hruns]
    rfl
  rw [hsame] at hopened
  constructor
  · refine { hopened with closing := ?_ }
    · intro f hf
      rcases List.mem_append.mp hf with hold | hnew
      · exact hopened.closing f hold
      · rw [List.mem_singleton.mp hnew]
        refine ⟨rfl, { r with live := false }, ?_, rfl⟩
        rw [List.getElem?_append_right (le_refl _)]
        simp
  · apply h.begins.steady
    constructor
    · rfl
    · intro old hold hl
      rcases List.mem_append.mp hold with hold' | hnew
      · exact ⟨old, hold', hl, rfl, rfl⟩
      · rw [List.mem_singleton.mp hnew] at hl
        cases hl
    · exact fun row hrow => ⟨row, hrow, rfl⟩

theorem recoverNext_kept (h : s.Kept) {rest : List RunRow}
    (hcall : s.recoveries[call]? = some (.reading rest))
    (halone : s.RecoversAlone (.recoverNext call)) :
    (s.recoverNext call rest).Kept := by
  cases rest with
  | nil => exact h.setRecovery hcall (by simp [RecoverPhase.records])
  | cons record rest =>
      have hskipped : Kept { s with
          recoveries := s.recoveries.set call (.reading rest) } :=
        h.setRecovery hcall fun _ hr => List.mem_cons_of_mem _ hr
      unfold RunCoordinator.recoverNext
      dsimp only
      split_ifs with hlive hqueued
      · exact hskipped
      · have hdead := Bool.eq_false_iff.mpr hlive
        have hnone : s.NoneAdmitted record :=
          halone record (by rw [hcall]; rfl) hqueued hdead
        apply open_recovered_kept hskipped record rfl rfl hdead hnone
        · exact h.runs.recovering _ (List.mem_of_getElem? hcall) record
            List.mem_cons_self
        · intro _
          refine ⟨?_, fun hflight => by cases hflight⟩
          change record.status.isActive = true
          rw [hqueued]
          rfl
        · intro hbusy
          have hb := (LiveRun.isBusy_iff.mp hbusy).2
          change record.status = .running ∨ record.status = .recovering at hb
          rw [hqueued] at hb
          simp at hb
      · exact h.setRecovery hcall fun r hr => hr

theorem recoverOpens_kept (h : s.Kept) {decision : Option ℕ}
    (hcall : s.recoveries[call]? = some (.deciding record rest))
    (halone : s.RecoversAlone (.recoverOpens call decision)) :
    (recoverOpens { s with
      recoveries := s.recoveries.set call (.reading rest) } record
      decision).Kept := by
  have hmoved : Kept { s with
      recoveries := s.recoveries.set call (.reading rest) } :=
    h.setRecovery hcall fun r hr => List.mem_cons_of_mem _ hr
  have hknown := h.runs.recovering _ (List.mem_of_getElem? hcall) record
    List.mem_cons_self
  rcases halone record (by rw [hcall]; rfl) with ⟨hlive, hrecovers⟩
  cases decision with
  | none => exact open_closed_kept hmoved rfl hlive hknown
  | some nextAt =>
      rcases hrecovers rfl with ⟨hnone, hothers⟩
      unfold RunCoordinator.recoverOpens
      have hupdated := hmoved.steady
        (hmoved.runs.updateRow record.runId .recovering (some nextAt))
        (steady_updateRow record.runId .recovering (some nextAt))
      apply open_recovered_kept hupdated record rfl rfl hlive hnone
      · rcases hknown with ⟨old, hold, hid⟩
        rcases updateRow_rows s record.runId .recovering (some nextAt) old
          hold with ⟨old', hold', hid'⟩
        exact ⟨old', hold', hid'.trans hid⟩
      · exact fun _ => ⟨rfl, fun hflight => by cases hflight⟩
      · exact fun _ => hothers

theorem recoverDequeues_kept (h : s.Kept) {i : ℕ} {rest : List ℕ}
    {r : LiveRun} (hcall : s.recoveries[call]? = some (.dequeuing (i :: rest))) :
    (if r.status = .queued then
      startNextQueued { s with
        recoveries := s.recoveries.set call (.dequeuing rest) } r.sessionId
      else { s with
        recoveries := s.recoveries.set call (.dequeuing rest) }).Kept := by
  have hmoved : Kept { s with
      recoveries := s.recoveries.set call (.dequeuing rest) } :=
    h.setRecovery hcall fun _ hr => hr
  split_ifs
  · exact startNextQueued_kept hmoved _
  · exact hmoved

end Recovery

section Due

theorem resumeDue_kept (h : s.Kept) (now : ℕ) : Kept { s with
      due := s.due ++ (s.indices fun _ => true).map fun i => (i, now) } := by
  apply h.steady _ (Steady.of_eq (by rfl) (by rfl) (by rfl))
  refine ⟨h.runs.known, h.runs.proper, h.runs.alone, h.runs.holds,
    h.runs.once, ?_, h.runs.closing, h.runs.recovering⟩
  intro i when' hentry
  rcases List.mem_append.mp hentry with hold | hnew
  · exact h.runs.due i when' hold
  · rcases List.mem_map.mp hnew with ⟨j, hj, hpair⟩
    obtain ⟨rfl, -⟩ := Prod.mk.inj hpair
    have hlive := (List.mem_filter.mp hj).2
    rcases Option.any_eq_true _ _ |>.mp hlive with ⟨r, hr, hrlive⟩
    rw [Bool.and_true] at hrlive
    exact ⟨r, hr, Or.inl hrlive⟩

theorem erase_due_kept (h : s.Kept) (entry : ℕ) :
    Kept { s with due := s.due.eraseIdx entry } := by
  apply h.steady _ (Steady.of_eq (by rfl) (by rfl) (by rfl))
  apply h.runs.congr (by rfl) (by rfl)
  · exact fun row hrow => ⟨row, hrow, rfl⟩
  · exact fun _ he => List.mem_of_mem_eraseIdx he
  · exact fun _ hf => hf
  · exact h.runs.recovering

/-- A run that is due is taken: it is in the map, or was aborted since the
pass began. -/
theorem resumeNext_kept (h : s.Kept) {entry i now : ℕ}
    (hentry : s.due[entry]? = some (i, now))
    (hdue : (s.runs[i]?).any (isDue now) = true) :
    Kept { setRun { s with due := s.due.eraseIdx entry } i
        fun r => { r with attemptInFlight := true } with
      activities := s.activities ++ [(i, .resuming)] } := by
  have herased := erase_due_kept h entry
  rcases h.runs.due i now (List.mem_of_getElem? hentry) with
    ⟨r, hr, hwaits⟩
  rw [hr, Option.any_some] at hdue
  unfold isDue at hdue
  simp only [Bool.and_eq_true, Bool.not_eq_true', decide_eq_true_eq] at hdue
  rcases hdue with ⟨⟨hstatus, hflight⟩, -⟩
  have hlive : r.live = true ∨
      RunActivity.isResume .resuming = true ∧ r.aborted = true := by
    rcases hwaits with hl | hab | hnot
    · exact Or.inl hl
    · exact Or.inr ⟨rfl, hab⟩
    · exact absurd hstatus hnot
  apply herased.steady
  · apply herased.runs.take hr hflight
    · intro _
      rw [hstatus]
      simp
    · intro hne
      exact absurd rfl hne
    · exact hlive
  · have hset := steady_startAttempt
      (s := { s with due := s.due.eraseIdx entry }) i
    exact { hset with }

end Due

theorem step_kept {e : RunEvent} (h : s.Kept) (halone : s.RecoversAlone e)
    (hstep : s.step e = some s') : s'.Kept := by
  cases e with
  | begin runId sessionId multitask =>
      cases hstep
      split_ifs
      · exact (supersedePending_kept h sessionId).append_begin rfl
      · exact h.append_begin rfl
  | enterTurn call =>
      dsimp only [step] at hstep
      split at hstep
      next b hb =>
        rcases Option.ite_none_right_eq_some.mp hstep with ⟨hturn, hsome⟩
        cases hsome
        exact enterTurn_kept h hb hturn.1 hturn.2
      next => cases hstep
  | cancelNext call =>
      dsimp only [step] at hstep
      split at hstep
      next b hb =>
        split at hstep
        next rest hphase =>
          cases hstep
          exact cancelNext_kept h hb hphase
        next => cases hstep
      next => cases hstep
  | graceOver call =>
      dsimp only [step] at hstep
      split at hstep
      next b hb =>
        rcases Option.ite_none_right_eq_some.mp hstep with ⟨hphase, hsome⟩
        cases hsome
        exact graceOver_kept h hb hphase
      next => cases hstep
  | create call =>
      dsimp only [step] at hstep
      split at hstep
      next b hb =>
        split at hstep
        next queued behind hphase =>
          rcases Option.ite_none_right_eq_some.mp hstep with ⟨hnew, hsome⟩
          cases hsome
          exact create_kept h hb hphase hnew
        next => cases hstep
      next => cases hstep
  | openBegun call =>
      dsimp only [step] at hstep
      split at hstep
      next b hb =>
        split at hstep
        next queued behind hphase =>
          cases hstep
          exact openBegun_kept h hb hphase
        next => cases hstep
      next => cases hstep
  | beginThrows call =>
      dsimp only [step] at hstep
      split at hstep
      next b hb =>
        split at hstep
        next queued behind hphase =>
          cases hstep
          have hinTurn : b.phase.inTurn = true := by
            rw [hphase]
            rfl
          exact h.move hb (h.begins.behind hb hinTurn) (by simp [hphase]) _
            rfl (by simp [BeginPhase.startsNow])
        next => cases hstep
      next => cases hstep
  | abortSession sessionId =>
      cases hstep
      exact abortSession_kept h sessionId
  | abortByIds runIds =>
      cases hstep
      exact abortByIds_kept h runIds
  | abortAllForSession sessionId =>
      cases hstep
      exact abortAllForSession_kept h sessionId
  | attemptEnds activity status =>
      dsimp only [step] at hstep
      split at hstep
      next i hk =>
        rcases Option.ite_none_left_eq_some.mp hstep with ⟨hover, hsome⟩
        cases hsome
        exact land_finalize_kept h hk (Bool.eq_false_iff.mpr hover)
          (Or.inl (by simp))
      next => cases hstep
  | attemptDefers activity decision =>
      dsimp only [step] at hstep
      split at hstep
      next i hk =>
        cases hstep
        exact attemptDefers_kept h hk decision
      next => cases hstep
  | deferWritten activity =>
      dsimp only [step] at hstep
      split at hstep
      next i nextAt hk =>
        cases hstep
        exact deferWritten_kept h hk
      next => cases hstep
  | dequeueWritten activity =>
      dsimp only [step] at hstep
      split at hstep
      next i hk =>
        cases hstep
        rcases write_kept h hk with ⟨hwritten, hk'⟩
        exact startOrAbort_kept hwritten hk' (by simp)
      next => cases hstep
  | resumeWritten activity =>
      dsimp only [step] at hstep
      split at hstep
      next i hk =>
        cases hstep
        exact resumeWritten_kept h hk
      next => cases hstep
  | resumeStarts activity =>
      dsimp only [step] at hstep
      split at hstep
      next i hk =>
        cases hstep
        exact startOrAbort_kept h hk (by simp)
      next => cases hstep
  | throws activity =>
      dsimp only [step] at hstep
      split at hstep
      next i a hk =>
        cases hstep
        exact throws_kept h hk
      next => cases hstep
  | closeSettles call written =>
      dsimp only [step] at hstep
      split at hstep
      next i status hcall =>
        cases hstep
        have hsettled := closeSettles_kept h written hcall
        have hfinals : (if written then s.write i status none
            else s).finals = s.finals := by
          split_ifs
          · unfold RunCoordinator.write
            cases s.runs[i]? <;> rfl
          · rfl
        dsimp only at hsettled ⊢
        rw [hfinals]
        exact hsettled
      next => cases hstep
  | finalizeEnds call =>
      dsimp only [step] at hstep
      split at hstep
      next i status hcall =>
        split at hstep
        next r hr =>
          cases hstep
          exact finalizeEnds_kept h r.sessionId
        next => cases hstep
      next => cases hstep
  | recoverOrphans =>
      cases hstep
      exact recoverOrphans_kept h
  | recoverNext call =>
      dsimp only [step] at hstep
      split at hstep
      next rest hcall =>
        cases hstep
        exact recoverNext_kept h hcall halone
      next => cases hstep
  | recoverOpens call decision =>
      dsimp only [step] at hstep
      split at hstep
      next record rest hcall =>
        cases hstep
        exact recoverOpens_kept h hcall halone
      next => cases hstep
  | recoverThrows call =>
      dsimp only [step] at hstep
      split at hstep
      next record rest hcall =>
        cases hstep
        exact h.setRecovery hcall (by simp [RecoverPhase.records])
      next => cases hstep
  | recoverDequeues call =>
      dsimp only [step] at hstep
      split at hstep
      next i rest hcall =>
        split at hstep
        next r hr =>
          cases hstep
          exact recoverDequeues_kept h hcall
        next => cases hstep
      next hcall =>
        cases hstep
        exact h.setRecovery hcall (by simp [RecoverPhase.records])
      next => cases hstep
  | resumeDue now =>
      cases hstep
      exact resumeDue_kept h now
  | resumeNext entry =>
      dsimp only [step] at hstep
      split at hstep
      next i now hentry =>
        split_ifs at hstep with hdue
        · cases hstep
          exact resumeNext_kept h hentry hdue
        · cases hstep
          exact erase_due_kept h entry
      next => cases hstep
  | reset =>
      cases hstep
      exact empty_kept s.rows

/-- An attempting run is busy. -/
theorem Attempting.busy (h : s.RunsKept) {i : ℕ} {r : LiveRun}
    (hr : s.runs[i]? = some r) (hattempting : s.Attempting i) :
    r.isBusy = true := by
  have hflying : r.live = true ∧ r.attemptInFlight = true := by
    rcases hattempting with ⟨r', hr', hlive, hflight⟩ | hmem
    · rw [hr] at hr'
      cases hr'
      exact ⟨hlive, hflight⟩
    · rcases h.holds i _ hmem with ⟨r', hr', hflight, -, hb⟩
      rw [hr] at hr'
      cases hr'
      rcases hb with hlive | ⟨hresume, -⟩
      · exact ⟨hlive, hflight⟩
      · cases hresume
  exact (h.proper i r hr).busy hflying.1
    ((h.proper i r hr hflying.1).2 hflying.2)

theorem Kept.oneAttempt (h : s.Kept) : s.OneAttempt := by
  intro i j ri rj hi hj hsession hiflies hjflies
  exact h.runs.alone i j ri rj hi hj (hiflies.busy h.runs hi)
    (hjflies.busy h.runs hj) hsession

/-- While recovery opens its runs alone, every session has at most one
attempt in flight. -/
theorem one_attempt (es : List RunEvent) (s : RunCoordinator)
    (halone : Transition.Meets step RecoversAlone empty es)
    (hrun : Transition.run step empty es = some s) : s.OneAttempt :=
  (Transition.run_preserves_of_meets
    (fun _ _ _ hkept hcond hstep => step_kept hkept hcond hstep)
    halone (empty_kept []) hrun).oneAttempt

/-- A message is answered and another one deferred when the object is reset;
recovery opens the second again, and its attempt starts. -/
def recoveredAlone : List RunEvent :=
  [.begin "m1" "s" .interrupt, .enterTurn 0, .create 0, .openBegun 0,
    .attemptEnds 0 .finished, .closeSettles 0 true, .finalizeEnds 0,
    .begin "m2" "s" .interrupt, .enterTurn 1, .create 1, .openBegun 1,
    .attemptDefers 0 (some 5), .deferWritten 0, .reset,
    .recoverOrphans, .recoverNext 0, .recoverOpens 0 (some 7),
    .recoverNext 0, .resumeDue 7, .resumeNext 0, .resumeWritten 0,
    .resumeStarts 0]

theorem one_attempt_recoveredAlone :
    ∃ s, Transition.run step empty recoveredAlone = some s ∧
      s.activities = [(0, .attempting)] ∧ s.OneAttempt :=
  ⟨_, rfl, by decide +kernel,
    one_attempt recoveredAlone _ (by decide +kernel) rfl⟩

/-- The closing write of the first message fails, so its row stays `running`
beside that of the second. -/
def recoveredBeside : List RunEvent :=
  [.begin "m1" "s" .interrupt, .enterTurn 0, .create 0, .openBegun 0,
    .attemptEnds 0 .finished, .closeSettles 0 false, .finalizeEnds 0,
    .begin "m2" "s" .interrupt, .enterTurn 1, .create 1, .openBegun 1,
    .reset,
    .recoverOrphans, .recoverNext 0, .recoverOpens 0 (some 7),
    .recoverNext 0, .recoverOpens 0 (some 7), .resumeDue 7, .resumeNext 0,
    .resumeNext 0]

/-- Both are then attempted at once. -/
theorem recovered_beside :
    ¬ ∀ es s, Transition.run step empty es = some s → s.OneAttempt := by
  intro h
  have hsame : (0 : ℕ) = 1 := h recoveredBeside _ rfl 0 1 _ _ rfl rfl rfl
      (Or.inl ⟨_, rfl, rfl, rfl⟩) (Or.inl ⟨_, rfl, rfl, rfl⟩)
  cases hsame

end RunCoordinator
end QiForge
