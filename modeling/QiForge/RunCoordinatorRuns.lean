import QiForge.RunCoordinator

/-!
# The runs a coordinator holds

What every step keeps of the runs, of who waits for them and of the calls that
close them (`RunsKept`).  A step changes one run (`setRun`), takes one out of
the map (`finalize`) or puts one in (`open`).
-/

namespace QiForge

def RunActivity.isResume : RunActivity → Bool
  | .resuming | .resumed => true
  | .dequeuing | .attempting | .deferring _ => false

def RecoverPhase.records : RecoverPhase → List RunRow
  | .reading rest => rest
  | .deciding record rest => record :: rest
  | .dequeuing _ | .over => []

namespace LiveRun

/-- The run may have the activity. -/
def Holds (r : LiveRun) (a : RunActivity) : Prop :=
  r.attemptInFlight = true ∧ (a ≠ .resuming → r.status ≠ .recovering) ∧
    (r.live = true ∨ a.isResume = true ∧ r.aborted = true)

/-- A pass over the due runs may meet the run. -/
def Waits (r : LiveRun) : Prop :=
  r.live = true ∨ r.aborted = true ∨ r.status ≠ .recovering

/-- A run in the map is active, and not queued while its attempt is in
flight. -/
def Proper (r : LiveRun) : Prop := r.live = true → r.status.isActive = true ∧
    (r.attemptInFlight = true → r.status ≠ .queued)

theorem isBusy_iff {r : LiveRun} : r.isBusy = true ↔
    r.live = true ∧ (r.status = .running ∨ r.status = .recovering) := by
  simp [isBusy]

theorem Proper.busy {r : LiveRun} (h : r.Proper) (hlive : r.live = true)
    (hqueued : r.status ≠ .queued) : r.isBusy = true := by
  have hactive := (h hlive).1
  rw [isBusy_iff]
  refine ⟨hlive, ?_⟩
  cases hstatus : r.status <;> simp_all [RunStatus.isActive]

end LiveRun

namespace RunCoordinator

variable {s s' : RunCoordinator}

structure RunsKept (s : RunCoordinator) : Prop where
  known : ∀ (i : ℕ) (r : LiveRun), s.runs[i]? = some r → r.live = true →
    ∃ row ∈ s.rows, row.runId = r.runId
  proper : ∀ (i : ℕ) (r : LiveRun), s.runs[i]? = some r → r.Proper
  alone : ∀ (i j : ℕ) (ri rj : LiveRun), s.runs[i]? = some ri →
    s.runs[j]? = some rj → ri.isBusy = true → rj.isBusy = true →
    ri.sessionId = rj.sessionId → i = j
  holds : ∀ (i : ℕ) (a : RunActivity), (i, a) ∈ s.activities →
    ∃ r, s.runs[i]? = some r ∧ r.Holds a
  once : (s.activities.map Prod.fst).Nodup
  due : ∀ (i now : ℕ), (i, now) ∈ s.due → ∃ r, s.runs[i]? = some r ∧ r.Waits
  closing : ∀ f ∈ s.finals, f.status.isActive = false ∧
    ∃ r, s.runs[f.run]? = some r ∧ r.live = false
  recovering : ∀ p ∈ s.recoveries, ∀ record ∈ p.records,
    ∃ row ∈ s.rows, row.runId = record.runId

theorem setRun_self {i : ℕ} {r : LiveRun} (hr : s.runs[i]? = some r)
    (f : LiveRun → LiveRun) : (s.setRun i f).runs[i]? = some (f r) := by
  unfold RunCoordinator.setRun
  rw [List.getElem?_modify_eq, hr]
  rfl

theorem setRun_other {i j : ℕ} (hne : j ≠ i) (f : LiveRun → LiveRun) :
    (s.setRun i f).runs[j]? = s.runs[j]? :=
  List.getElem?_modify_ne _ _ (Ne.symm hne)

theorem setRun_cases {i j : ℕ} {r rj : LiveRun} {f : LiveRun → LiveRun}
    (hr : s.runs[i]? = some r)
    (hj : (s.setRun i f).runs[j]? = some rj) :
    j = i ∧ rj = f r ∨ j ≠ i ∧ s.runs[j]? = some rj := by
  by_cases hsame : j = i
  · subst hsame
    rw [setRun_self hr] at hj
    exact Or.inl ⟨rfl, (Option.some.inj hj).symm⟩
  · rw [setRun_other hsame] at hj
    exact Or.inr ⟨hsame, hj⟩

theorem empty_runsKept (rows : List RunRow) :
    RunsKept { empty with rows := rows } := by
  constructor <;> simp [empty]

/-- One run changes, and the activities with it. -/
theorem RunsKept.setRun (h : s.RunsKept) {i : ℕ} {r : LiveRun}
    (hr : s.runs[i]? = some r) (f : LiveRun → LiveRun)
    (acts : List (ℕ × RunActivity))
    (hids : (f r).runId = r.runId ∧ (f r).sessionId = r.sessionId)
    (hlive : (f r).live = true → r.live = true)
    (hproper : (f r).Proper)
    (hbusy : (f r).isBusy = true → r.isBusy = true ∨
      ∀ (j : ℕ) (rj : LiveRun), s.runs[j]? = some rj → rj.isBusy = true →
        rj.sessionId ≠ r.sessionId)
    (hothers : ∀ j a, (j, a) ∈ acts → j ≠ i → (j, a) ∈ s.activities)
    (hself : ∀ a, (i, a) ∈ acts → (f r).Holds a)
    (honce : (acts.map Prod.fst).Nodup)
    (hwaits : r.Waits → (f r).Waits) :
    RunsKept { s.setRun i f with activities := acts } := by
  have hself' := setRun_self hr f
  constructor
  · intro j rj hj hjlive
    rcases setRun_cases hr hj with ⟨rfl, rfl⟩ | ⟨-, hold⟩
    · rw [hids.1]
      exact h.known j r hr (hlive hjlive)
    · exact h.known j rj hold hjlive
  · intro j rj hj
    rcases setRun_cases hr hj with ⟨rfl, rfl⟩ | ⟨-, hold⟩
    · exact hproper
    · exact h.proper j rj hold
  · intro j k rj rk hj hk hjbusy hkbusy hsame
    rcases setRun_cases hr hj with ⟨rfl, rfl⟩ | ⟨hjne, hjold⟩
    · rcases setRun_cases hr hk with ⟨rfl, rfl⟩ | ⟨hkne, hkold⟩
      · rfl
      · rw [hids.2] at hsame
        rcases hbusy hjbusy with hwas | hnone
        · exact h.alone j k r rk hr hkold hwas hkbusy hsame
        · exact absurd hsame.symm (hnone k rk hkold hkbusy)
    · rcases setRun_cases hr hk with ⟨rfl, rfl⟩ | ⟨hkne, hkold⟩
      · rw [hids.2] at hsame
        rcases hbusy hkbusy with hwas | hnone
        · exact h.alone j k rj r hjold hr hjbusy hwas hsame
        · exact absurd hsame (hnone j rj hjold hjbusy)
      · exact h.alone j k rj rk hjold hkold hjbusy hkbusy hsame
  · intro j a hja
    by_cases hsame : j = i
    · subst hsame
      exact ⟨f r, hself', hself a hja⟩
    · rcases h.holds j a (hothers j a hja hsame) with ⟨rj, hj, hholds⟩
      exact ⟨rj, (setRun_other hsame f).trans hj, hholds⟩
  · exact honce
  · intro j now hj
    rcases h.due j now hj with ⟨rj, hrj, hwait⟩
    by_cases hsame : j = i
    · subst hsame
      rw [hr] at hrj
      cases hrj
      exact ⟨f r, hself', hwaits hwait⟩
    · exact ⟨rj, (setRun_other hsame f).trans hrj, hwait⟩
  · intro fin hfin
    rcases h.closing fin hfin with ⟨hstatus, rj, hrj, hgone⟩
    refine ⟨hstatus, ?_⟩
    by_cases hsame : fin.run = i
    · rw [hsame] at hrj ⊢
      rw [hr] at hrj
      cases hrj
      refine ⟨f r, hself', ?_⟩
      cases hflive : (f r).live with
      | false => rfl
      | true =>
          rw [hlive hflive] at hgone
          cases hgone
    · exact ⟨rj, (setRun_other hsame f).trans hrj, hgone⟩
  · exact h.recovering

/-- The parts a step leaves alone. -/
theorem RunsKept.congr (h : s.RunsKept) (hruns : s'.runs = s.runs)
    (hacts : s'.activities = s.activities)
    (hrows : ∀ row ∈ s.rows, ∃ row' ∈ s'.rows, row'.runId = row.runId)
    (hdue : ∀ entry ∈ s'.due, entry ∈ s.due)
    (hfinals : ∀ f ∈ s'.finals, f ∈ s.finals)
    (hrecovers : ∀ p ∈ s'.recoveries, ∀ record ∈ p.records,
      ∃ row ∈ s.rows, row.runId = record.runId) :
    s'.RunsKept := by
  constructor
  · intro i r hr hlive
    rw [hruns] at hr
    rcases h.known i r hr hlive with ⟨row, hrow, hid⟩
    rcases hrows row hrow with ⟨row', hrow', hid'⟩
    exact ⟨row', hrow', hid'.trans hid⟩
  · rw [hruns]
    exact h.proper
  · rw [hruns]
    exact h.alone
  · rw [hruns, hacts]
    exact h.holds
  · rw [hacts]
    exact h.once
  · intro i now hdue'
    rw [hruns]
    exact h.due i now (hdue _ hdue')
  · intro f hf
    rw [hruns]
    exact h.closing f (hfinals f hf)
  · intro p hp record hrecord
    rcases hrecovers p hp record hrecord with ⟨row, hrow, hid⟩
    rcases hrows row hrow with ⟨row', hrow', hid'⟩
    exact ⟨row', hrow', hid'.trans hid⟩

theorem updateRow_rows (s : RunCoordinator) (runId : String)
    (status : RunStatus) (nextAttemptAt : Option ℕ) :
    ∀ row ∈ s.rows, ∃ row' ∈ (s.updateRow runId status nextAttemptAt).rows,
      row'.runId = row.runId := by
  intro row hrow
  refine ⟨_, List.mem_map_of_mem hrow, ?_⟩
  split_ifs <;> rfl

theorem RunsKept.updateRow (h : s.RunsKept) (runId : String)
    (status : RunStatus) (nextAttemptAt : Option ℕ) :
    (s.updateRow runId status nextAttemptAt).RunsKept :=
  h.congr rfl rfl (updateRow_rows s runId status nextAttemptAt)
    (fun _ he => he) (fun _ hf => hf) h.recovering

/-- Only a run that nothing waits for has no activity. -/
theorem RunsKept.no_activity (h : s.RunsKept) {i : ℕ} {r : LiveRun}
    (hr : s.runs[i]? = some r) (hflight : r.attemptInFlight = false)
    (a : RunActivity) : (i, a) ∉ s.activities := by
  intro hmem
  rcases h.holds i a hmem with ⟨r', hr', hholds⟩
  rw [hr] at hr'
  cases hr'
  rw [hholds.1] at hflight
  cases hflight

theorem RunsKept.finalize (h : s.RunsKept) (i : ℕ) {status : RunStatus}
    (hstatus : status.isActive = false)
    (hidle : ∀ a, (i, a) ∉ s.activities)
    (hwaits : ∀ r, s.runs[i]? = some r → r.live = true →
      r.aborted = true ∨ r.status ≠ .recovering) :
    (s.finalize i status).RunsKept := by
  unfold RunCoordinator.finalize
  split_ifs with hlive
  · rcases Option.any_eq_true _ _ |>.mp hlive with ⟨r, hr, hrlive⟩
    have hset := h.setRun hr (fun r => { r with live := false })
      s.activities ⟨rfl, rfl⟩ (by simp) (by simp [LiveRun.Proper])
      (by simp [LiveRun.isBusy]) (fun _ _ hmem _ => hmem)
      (fun a hmem => absurd hmem (hidle a)) h.once
      (fun _ => Or.inr (hwaits r hr hrlive))
    refine { hset with closing := ?_ }
    · intro f hf
      rcases List.mem_append.mp hf with hold | hnew
      · exact hset.closing f hold
      · rw [List.mem_singleton.mp hnew]
        exact ⟨hstatus, { r with live := false }, setRun_self hr _, rfl⟩
  · exact h

theorem RunsKept.setActivities (h : s.RunsKept) (acts : List (ℕ × RunActivity))
    (hholds : ∀ i a, (i, a) ∈ acts → ∃ r, s.runs[i]? = some r ∧ r.Holds a)
    (honce : (acts.map Prod.fst).Nodup) :
    RunsKept { s with activities := acts } :=
  { h with holds := hholds, once := honce }

section Activities

variable {acts : List (ℕ × RunActivity)} {k i : ℕ} {a b : RunActivity}

theorem not_mem_eraseIdx (honce : (acts.map Prod.fst).Nodup)
    (hk : acts[k]? = some (i, a)) : (i, b) ∉ acts.eraseIdx k := by
  rcases List.getElem?_eq_some_iff.mp hk with ⟨hlt, hget⟩
  have hsplit : acts = acts.take k ++ (i, a) :: acts.drop (k + 1) := by
    rw [← hget, ← List.drop_eq_getElem_cons hlt, List.take_append_drop]
  rw [hsplit, List.map_append, List.map_cons] at honce
  have hmid := List.nodup_middle.mp honce
  rw [← List.map_append, List.nodup_cons] at hmid
  rw [List.eraseIdx_eq_take_drop_succ]
  intro hmem
  exact hmid.1 (List.mem_map.mpr ⟨(i, b), hmem, rfl⟩)

theorem nodup_eraseIdx (honce : (acts.map Prod.fst).Nodup) (k : ℕ) :
    ((acts.eraseIdx k).map Prod.fst).Nodup :=
  honce.sublist ((List.eraseIdx_sublist acts k).map Prod.fst)

theorem map_set_fst (hk : acts[k]? = some (i, a)) :
    (acts.set k (i, b)).map Prod.fst = acts.map Prod.fst := by
  rcases List.getElem?_eq_some_iff.mp hk with ⟨hlt, hget⟩
  rw [List.map_set]
  have hlt' : k < (acts.map Prod.fst).length := by simpa using hlt
  have hsame : (i, b).1 = (acts.map Prod.fst)[k] := by
    rw [List.getElem_map, hget]
  rw [hsame, List.set_getElem_self hlt']

end Activities

section Steps

variable {k i : ℕ} {a b : RunActivity}

theorem RunsKept.holder (h : s.RunsKept)
    (hk : s.activities[k]? = some (i, a)) :
    ∃ r, s.runs[i]? = some r ∧ r.Holds a :=
  h.holds i a (List.mem_of_getElem? hk)

/-- The run's attempt is no longer in flight; nothing else holds it. -/
theorem RunsKept.land (h : s.RunsKept) (hk : s.activities[k]? = some (i, a)) :
    (s.land k i).RunsKept ∧ ∀ b, (i, b) ∉ (s.land k i).activities := by
  rcases h.holder hk with ⟨r, hr, hholds⟩
  have hgone : ∀ b, (i, b) ∉ s.activities.eraseIdx k :=
    fun b => not_mem_eraseIdx h.once hk
  refine ⟨?_, hgone⟩
  apply h.setRun hr (fun r => { r with attemptInFlight := false })
  · exact ⟨rfl, rfl⟩
  · exact id
  · intro hlive
    refine ⟨(h.proper i r hr hlive).1, ?_⟩
    intro hflight
    cases hflight
  · exact Or.inl
  · exact fun j a hmem _ => List.mem_of_mem_eraseIdx hmem
  · exact fun b hmem => absurd hmem (hgone b)
  · exact nodup_eraseIdx h.once k
  · exact id

theorem RunsKept.become (h : s.RunsKept) (hk : s.activities[k]? = some (i, a))
    (hnext : ∀ r, s.runs[i]? = some r → r.Holds a → r.Holds b) :
    (s.become k i b).RunsKept := by
  apply h.setActivities
  · intro j c hmem
    rcases List.mem_or_eq_of_mem_set hmem with hold | hnew
    · exact h.holds j c hold
    · rcases h.holder hk with ⟨r, hr, hholds⟩
      obtain ⟨rfl, rfl⟩ := Prod.mk.inj hnew
      exact ⟨r, hr, hnext r hr hholds⟩
  · rw [map_set_fst hk]
    exact h.once

/-- The row and the record of a run whose attempt is in flight. -/
theorem RunsKept.write (h : s.RunsKept) (nextAttemptAt : Option ℕ)
    (hk : s.activities[k]? = some (i, a)) :
    (s.write i .running nextAttemptAt).RunsKept := by
  rcases h.holder hk with ⟨r, hr, hholds⟩
  unfold RunCoordinator.write
  rw [hr]
  have hrow := h.updateRow r.runId .running nextAttemptAt
  have hr' : (s.updateRow r.runId .running nextAttemptAt).runs[i]? =
      some r := hr
  apply hrow.setRun hr' (fun r =>
    { r with status := .running, nextAttemptAt := nextAttemptAt })
  · exact ⟨rfl, rfl⟩
  · exact id
  · exact fun _ => ⟨rfl, fun _ => by simp⟩
  · intro hbusy
    have hlive : r.live = true := (LiveRun.isBusy_iff.mp hbusy).1
    exact Or.inl ((h.proper i r hr).busy hlive
      ((h.proper i r hr hlive).2 hholds.1))
  · exact fun _ _ hmem _ => hmem
  · intro b hmem
    rcases h.holds i b hmem with ⟨r', hr'', hflight, -, hb⟩
    rw [hr] at hr''
    cases hr''
    exact ⟨hflight, fun _ => by simp, hb⟩
  · exact h.once
  · exact fun _ => Or.inr (Or.inr (by simp))

/-- A deferred run waits in the map. -/
theorem RunsKept.writeDeferred (h : s.RunsKept) (nextAttemptAt : Option ℕ)
    {nextAt : ℕ} (hk : s.activities[k]? = some (i, .deferring nextAt)) :
    ((s.write i .recovering nextAttemptAt).land k i).RunsKept ∧ ∀ b, (i, b) ∉
        ((s.write i .recovering nextAttemptAt).land k i).activities := by
  rcases h.holder hk with ⟨r, hr, hflight, -, hb⟩
  have hlive : r.live = true := by
    rcases hb with hlive | ⟨hresume, -⟩
    · exact hlive
    · cases hresume
  have hgone : ∀ b, (i, b) ∉ s.activities.eraseIdx k :=
    fun b => not_mem_eraseIdx h.once hk
  have hrow := h.updateRow r.runId .recovering nextAttemptAt
  have hr' : (s.updateRow r.runId .recovering nextAttemptAt).runs[i]? =
      some r := hr
  have hset := hrow.setRun hr' (fun r =>
    { r with
      status := .recovering
      nextAttemptAt := nextAttemptAt
      attemptInFlight := false }) (s.activities.eraseIdx k) ⟨rfl, rfl⟩ id
    (fun _ => ⟨rfl, fun hnot => by cases hnot⟩)
    (fun _ => Or.inl ((h.proper i r hr).busy hlive
      ((h.proper i r hr hlive).2 hflight)))
    (fun _ _ hmem _ => List.mem_of_mem_eraseIdx hmem)
    (fun b hmem => absurd hmem (hgone b)) (nodup_eraseIdx h.once k)
    (fun _ => Or.inl hlive)
  have hsame : (s.write i .recovering nextAttemptAt).land k i =
      { (s.updateRow r.runId .recovering nextAttemptAt).setRun i fun r =>
          { r with
            status := .recovering
            nextAttemptAt := nextAttemptAt
            attemptInFlight := false } with
        activities := s.activities.eraseIdx k } := by
    unfold RunCoordinator.write
    rw [hr]
    unfold RunCoordinator.land RunCoordinator.setRun
    rw [List.modify_modify_eq]
    rfl
  rw [hsame]
  exact ⟨hset, hgone⟩

theorem RunsKept.markAborted (h : s.RunsKept) (i : ℕ) :
    (s.setRun i fun r => { r with aborted := true }).RunsKept := by
  cases hr : s.runs[i]? with
  | none =>
      have hsame : s.runs.modify i (fun r => { r with aborted := true }) =
          s.runs := by
        apply List.ext_getElem?
        intro j
        rw [List.getElem?_modify]
        by_cases hij : i = j
        · subst hij
          rw [hr]
          rfl
        · cases s.runs[j]? <;> simp [hij]
      exact h.congr hsame rfl (fun row hrow => ⟨row, hrow, rfl⟩)
        (fun _ he => he) (fun _ hf => hf) h.recovering
  | some r =>
      apply h.setRun hr (fun r => { r with aborted := true })
      · exact ⟨rfl, rfl⟩
      · exact id
      · exact h.proper i r hr
      · exact Or.inl
      · exact fun _ _ hmem _ => hmem
      · intro b hmem
        rcases h.holds i b hmem with ⟨r', hr', hflight, hstatus, hb⟩
        rw [hr] at hr'
        cases hr'
        refine ⟨hflight, hstatus, ?_⟩
        rcases hb with hlive | ⟨hresume, -⟩
        · exact Or.inl hlive
        · exact Or.inr ⟨hresume, rfl⟩
      · exact h.once
      · exact fun _ => Or.inr (Or.inl rfl)

theorem RunsKept.abortRun (h : s.RunsKept) (i : ℕ) :
    (s.abortRun i).RunsKept := by
  unfold RunCoordinator.abortRun
  have hmarked := h.markAborted i
  dsimp only
  split_ifs with hflight
  · exact hmarked
  · apply hmarked.finalize i rfl
    · intro b hmem
      rcases hmarked.holds i b hmem with ⟨r, hr, hb⟩
      apply hflight
      unfold isInFlight
      rw [hr]
      exact hb.1
    · intro r hr _
      left
      rcases List.getElem?_eq_some_iff.mp hr with ⟨hlt, -⟩
      have hlt' : i < s.runs.length := by
        simpa [RunCoordinator.setRun] using hlt
      rw [setRun_self (List.getElem?_eq_getElem hlt')] at hr
      rw [← Option.some.inj hr]

/-- A queued run has no attempt in flight. -/
theorem RunsKept.cancelQueued (h : s.RunsKept) (i : ℕ)
    (hqueued : ∀ r, s.runs[i]? = some r → r.live = true →
      r.status = .queued) : (s.cancelQueued i).RunsKept := by
  unfold RunCoordinator.cancelQueued
  by_cases hlive : (s.runs[i]?).any LiveRun.live = true
  · rcases Option.any_eq_true _ _ |>.mp hlive with ⟨r, hr, hrlive⟩
    have hstatus := hqueued r hr hrlive
    apply h.finalize i rfl
    · apply h.no_activity hr
      cases hflight : r.attemptInFlight with
      | false => rfl
      | true =>
          exact absurd hstatus ((h.proper i r hr hrlive).2 hflight)
    · intro r' hr' _
      rw [hr] at hr'
      rw [← Option.some.inj hr', hstatus]
      exact Or.inr (by simp)
  · unfold RunCoordinator.finalize
    rw [if_neg hlive]
    exact h

theorem hasStatus_spec {status : RunStatus} (h : s.hasStatus i status = true) :
    ∀ r, s.runs[i]? = some r → r.status = status := by
  intro r hr
  unfold hasStatus at h
  rw [hr] at h
  simpa using h

theorem RunsKept.cancelEach (h : s.RunsKept) (runs : List ℕ) :
    (s.cancelEach runs).RunsKept := by
  unfold RunCoordinator.cancelEach
  induction runs generalizing s with
  | nil => exact h
  | cons i runs ih =>
      rw [List.foldl_cons]
      apply ih
      split_ifs with hqueued
      · exact h.cancelQueued i fun r hr _ => hasStatus_spec hqueued r hr
      · exact h

theorem RunsKept.abortEach (h : s.RunsKept) (runs : List ℕ) :
    (s.abortEach runs).RunsKept := by
  unfold RunCoordinator.abortEach
  induction runs generalizing s with
  | nil => exact h
  | cons i runs ih =>
      rw [List.foldl_cons]
      apply ih
      split_ifs with hqueued
      · exact h
      · exact h.abortRun i

theorem firstIndex_spec {p : LiveRun → Bool} (h : s.firstIndex p = some i) :
    ∃ r, s.runs[i]? = some r ∧ p r = true := by
  unfold firstIndex at h
  rcases List.findIdx?_eq_some_iff_getElem.mp h with ⟨hlt, hp, -⟩
  exact ⟨_, List.getElem?_eq_getElem hlt, hp⟩

theorem append_once {acts : List (ℕ × RunActivity)}
    (honce : (acts.map Prod.fst).Nodup) (hidle : ∀ b, (i, b) ∉ acts) :
    ((acts ++ [(i, a)]).map Prod.fst).Nodup := by
  rw [List.map_append, List.nodup_append]
  refine ⟨honce, by simp, ?_⟩
  intro x hx y hy
  rcases List.mem_map.mp hx with ⟨⟨j, b⟩, hmem, rfl⟩
  simp only [List.map_cons, List.map_nil, List.mem_singleton] at hy
  rw [hy]
  rintro rfl
  exact hidle b hmem

/-- The session's first queued run is taken, when no other run of it is
busy. -/
theorem RunsKept.startNextQueued (h : s.RunsKept) (sessionId : String) :
    (s.startNextQueued sessionId).RunsKept := by
  unfold RunCoordinator.startNextQueued
  split_ifs with hbusy
  · exact h
  · have hnone : ∀ (j : ℕ) (rj : LiveRun), s.runs[j]? = some rj →
        rj.isBusy = true → rj.sessionId ≠ sessionId := by
      intro j rj hj hjbusy hsame
      apply hbusy
      unfold firstIndex
      rw [List.findIdx?_isSome, List.any_eq_true]
      exact ⟨rj, List.mem_of_getElem? hj, by simp [hjbusy, hsame]⟩
    cases hnext : s.firstIndex fun r =>
        r.isQueued && decide (r.sessionId = sessionId) with
    | none => exact h
    | some i =>
        rcases firstIndex_spec hnext with ⟨r, hr, hp⟩
        simp only [LiveRun.isQueued, Bool.and_eq_true,
          decide_eq_true_eq] at hp
        rcases hp with ⟨⟨hlive, hqueued⟩, hsession⟩
        have hidle : ∀ b, (i, b) ∉ s.activities := by
          apply h.no_activity hr
          cases hflight : r.attemptInFlight with
          | false => rfl
          | true =>
              exact absurd hqueued ((h.proper i r hr hlive).2 hflight)
        apply h.setRun hr (fun r =>
          { r with attemptInFlight := true, status := .running })
        · exact ⟨rfl, rfl⟩
        · exact id
        · exact fun _ => ⟨rfl, fun _ => by simp⟩
        · intro _
          right
          rw [hsession]
          exact hnone
        · intro j b hmem hne
          rcases List.mem_append.mp hmem with hold | hnew
          · exact hold
          · rw [List.mem_singleton] at hnew
            exact absurd (Prod.mk.inj hnew).1 hne
        · intro b hmem
          exact ⟨rfl, fun _ => by simp, Or.inl hlive⟩
        · exact append_once h.once hidle
        · exact fun _ => Or.inl hlive

/-- A run with no attempt in flight is taken for one. -/
theorem RunsKept.take (h : s.RunsKept) {r : LiveRun}
    (hr : s.runs[i]? = some r) (hflight : r.attemptInFlight = false)
    (hqueued : r.live = true → r.status ≠ .queued)
    (hstatus : a ≠ .resuming → r.status ≠ .recovering)
    (hlive : r.live = true ∨ a.isResume = true ∧ r.aborted = true) :
    RunsKept { s.setRun i fun r => { r with attemptInFlight := true } with
      activities := s.activities ++ [(i, a)] } := by
  have hidle := h.no_activity hr hflight
  apply h.setRun hr (fun r => { r with attemptInFlight := true })
  · exact ⟨rfl, rfl⟩
  · exact id
  · exact fun hl => ⟨(h.proper i r hr hl).1, fun _ => hqueued hl⟩
  · exact Or.inl
  · intro j b hmem hne
    rcases List.mem_append.mp hmem with hold | hnew
    · exact hold
    · rw [List.mem_singleton] at hnew
      exact absurd (Prod.mk.inj hnew).1 hne
  · intro b hmem
    rcases List.mem_append.mp hmem with hold | hnew
    · exact absurd hold (hidle b)
    · rw [List.mem_singleton] at hnew
      obtain rfl := (Prod.mk.inj hnew).2
      exact ⟨rfl, hstatus, hlive⟩
  · exact append_once h.once hidle
  · exact id

theorem open_runs {r : LiveRun}
    (hfresh : ∀ old ∈ s.runs, old.live = true → old.runId ≠ r.runId) :
    (s.open r).runs = s.runs ++ [r] := by
  unfold RunCoordinator.open
  have hsame : ∀ old ∈ s.runs, (if old.runId = r.runId then
      { old with live := false } else old) = old := by
    intro old hold
    split_ifs with hid
    · cases hlive : old.live with
      | false => rw [← hlive]
      | true => exact absurd hid (hfresh old hold hlive)
    · rfl
  rw [List.map_congr_left hsame, List.map_id']

/-- A new run comes into the map. -/
theorem RunsKept.open (h : s.RunsKept) {r : LiveRun}
    (hfresh : ∀ old ∈ s.runs, old.live = true → old.runId ≠ r.runId)
    (hknown : ∃ row ∈ s.rows, row.runId = r.runId) (hproper : r.Proper)
    (hbusy : r.isBusy = true → ∀ old ∈ s.runs, old.isBusy = true →
      old.sessionId ≠ r.sessionId) :
    (s.open r).RunsKept := by
  have hruns := open_runs hfresh
  have hcases : ∀ (j : ℕ) (rj : LiveRun), (s.open r).runs[j]? = some rj →
      s.runs[j]? = some rj ∨ j = s.runs.length ∧ rj = r := by
    intro j rj hj
    rw [hruns, List.getElem?_append] at hj
    split_ifs at hj with hlt
    · exact Or.inl hj
    · rw [List.getElem?_singleton] at hj
      rcases Option.ite_none_right_eq_some.mp hj with ⟨hzero, hsome⟩
      exact Or.inr ⟨by omega, (Option.some.inj hsome).symm⟩
  have hold : ∀ (j : ℕ) (rj : LiveRun), s.runs[j]? = some rj →
      (s.open r).runs[j]? = some rj := by
    intro j rj hj
    rw [hruns, List.getElem?_append_left]
    · exact hj
    · exact (List.getElem?_eq_some_iff.mp hj).1
  constructor
  · intro j rj hj hlive
    rcases hcases j rj hj with hj' | ⟨-, rfl⟩
    · exact h.known j rj hj' hlive
    · exact hknown
  · intro j rj hj
    rcases hcases j rj hj with hj' | ⟨-, rfl⟩
    · exact h.proper j rj hj'
    · exact hproper
  · intro j k rj rk hj hk hjbusy hkbusy hsame
    rcases hcases j rj hj with hj' | ⟨hjlast, rfl⟩
    · rcases hcases k rk hk with hk' | ⟨hklast, rfl⟩
      · exact h.alone j k rj rk hj' hk' hjbusy hkbusy hsame
      · exact absurd hsame (hbusy hkbusy rj (List.mem_of_getElem? hj') hjbusy)
    · rcases hcases k rk hk with hk' | ⟨hklast, rfl⟩
      · exact absurd hsame.symm
          (hbusy hjbusy rk (List.mem_of_getElem? hk') hkbusy)
      · rw [hjlast, hklast]
  · intro j b hmem
    rcases h.holds j b hmem with ⟨rj, hj, hb⟩
    exact ⟨rj, hold j rj hj, hb⟩
  · exact h.once
  · intro j now hmem
    rcases h.due j now hmem with ⟨rj, hj, hw⟩
    exact ⟨rj, hold j rj hj, hw⟩
  · intro f hf
    rcases h.closing f hf with ⟨hstatus, rj, hj, hgone⟩
    exact ⟨hstatus, rj, hold f.run rj hj, hgone⟩
  · exact h.recovering

theorem open_last {r : LiveRun}
    (hfresh : ∀ old ∈ s.runs, old.live = true → old.runId ≠ r.runId) :
    (s.open r).runs[s.runs.length]? = some r := by
  rw [open_runs hfresh, List.getElem?_append_right (le_refl _)]
  simp

/-- The closing write of a run that left the map. -/
theorem RunsKept.closeSettles (h : s.RunsKept) {status : RunStatus}
    {written : Bool} {call : ℕ}
    (hcall : s.finals[call]? = some ⟨i, status, false⟩) :
    RunsKept { (if written then s.write i status none else s) with
      finals := s.finals.set call ⟨i, status, true⟩ } := by
  rcases h.closing _ (List.mem_of_getElem? hcall) with
    ⟨hover, r, hr, hgone⟩
  have hwritten : (if written then s.write i status none else s).RunsKept := by
    split_ifs
    · unfold RunCoordinator.write
      rw [show s.runs[i]? = some r from hr]
      have hrow := h.updateRow r.runId status none
      have hr' : (s.updateRow r.runId status none).runs[i]? = some r := hr
      apply hrow.setRun hr' (fun r =>
        { r with status := status, nextAttemptAt := none })
      · exact ⟨rfl, rfl⟩
      · exact id
      · intro hlive
        rw [show r.live = true from hlive] at hgone
        cases hgone
      · intro hbusy
        rw [(LiveRun.isBusy_iff.mp hbusy).1] at hgone
        cases hgone
      · exact fun _ _ hmem _ => hmem
      · intro b hmem
        rcases h.holds i b hmem with ⟨r', hr'', hb⟩
        rw [show s.runs[i]? = some r from hr] at hr''
        cases hr''
        refine ⟨hb.1, fun _ => ?_, hb.2.2⟩
        rintro rfl
        cases hover
      · exact h.once
      · intro _
        refine Or.inr (Or.inr ?_)
        rintro rfl
        cases hover
    · exact h
  have hfinals : (if written then s.write i status none else s).finals =
      s.finals := by
    split_ifs
    · unfold RunCoordinator.write
      rw [show s.runs[i]? = some r from hr]
      rfl
    · rfl
  refine ⟨hwritten.known, hwritten.proper, hwritten.alone, hwritten.holds,
    hwritten.once, hwritten.due, ?_, hwritten.recovering⟩
  intro f hf
  rcases List.mem_or_eq_of_mem_set hf with hold | rfl
  · exact hwritten.closing f (by rw [hfinals]; exact hold)
  · exact hwritten.closing ⟨i, status, false⟩
      (by rw [hfinals]; exact List.mem_of_getElem? hcall)

end Steps

end RunCoordinator
end QiForge
