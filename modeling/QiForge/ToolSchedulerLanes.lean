import QiForge.ToolScheduler

/-!
# What the lanes of the tool scheduler guarantee

A lane counts the calls that hold one of its slots, and its queue lists its
queued calls in the order they arrived (`Core`).  It has no free slot while a
call waits (`Full`), and a per-session lane is kept only for a call that is
still in `run` (`Retained`).
-/

namespace QiForge

namespace CallPhase

/-- The call has a slot of its lane. -/
def inFlight : CallPhase → Bool
  | .granted | .running => true
  | .queued | .rejected | .settled | .thrown => false

/-- The call is in its lane: it has a slot or waits for one. -/
def inUse : CallPhase → Bool
  | .queued | .granted | .running => true
  | .rejected | .settled | .thrown => false

/-- `run` has not returned yet. -/
def inProgress : CallPhase → Bool
  | .queued | .granted | .running | .rejected => true
  | .settled | .thrown => false

def everGranted : CallPhase → Bool
  | .granted | .running | .settled => true
  | .queued | .rejected | .thrown => false

def slots (phase : CallPhase) : ℕ := if phase.inFlight then 1 else 0

theorem inUse_iff {phase : CallPhase} :
    phase.inUse = true ↔ phase = .queued ∨ phase.inFlight = true := by
  cases phase <;> simp [inUse, inFlight]

theorem inProgress_of_inUse {phase : CallPhase}
    (h : phase.inUse = true) : phase.inProgress = true := by
  cases phase <;> simp_all [inUse, inProgress]

end CallPhase

theorem ToolLane.sessionLaneKey_inj {lane lane' : ToolLane}
    {sessionId sessionId' : String}
    (h : sessionLaneKey lane sessionId = sessionLaneKey lane' sessionId') :
    lane = lane' ∧ sessionId = sessionId' := by
  have hlists := congrArg String.toList h
  cases lane <;> cases lane' <;>
    simp_all [sessionLaneKey, ToolLane.name, String.ext_iff]

theorem laneKey_inj {lane lane' : ToolLane}
    {sessionId sessionId' : Option String} {key : String}
    (h : laneKey lane sessionId = some key)
    (h' : laneKey lane' sessionId' = some key) :
    lane = lane' ∧ sessionId = sessionId' := by
  unfold laneKey at h h'
  split_ifs at h h'
  rcases Option.map_eq_some_iff.mp h with ⟨id, rfl, rfl⟩
  rcases Option.map_eq_some_iff.mp h' with ⟨id', rfl, heq⟩
  rcases ToolLane.sessionLaneKey_inj heq with ⟨rfl, rfl⟩
  exact ⟨rfl, rfl⟩

theorem countP_set_add {α : Type*} {p : α → Bool} {l : List α} {i : ℕ}
    {a : α} (b : α) (h : l[i]? = some a) :
    (l.set i b).countP p + (if p a then 1 else 0) =
      l.countP p + (if p b then 1 else 0) := by
  induction l generalizing i with
  | nil => exact absurd h (by simp)
  | cons x l ih =>
      cases i with
      | zero =>
          obtain rfl : x = a := by simpa using h
          simp only [List.set_cons_zero, List.countP_cons]
          omega
      | succ i =>
          have htail := ih (i := i) (by simpa using h)
          simp only [List.set_cons_succ, List.countP_cons]
          omega

theorem getElem?_concat_eq_some {α : Type*} {l : List α} {a b : α} {i : ℕ} :
    (l ++ [a])[i]? = some b ↔ l[i]? = some b ∨ i = l.length ∧ a = b := by
  rw [List.getElem?_append]
  split_ifs with hlt
  · have hne : i ≠ l.length := by omega
    simp [hne]
  · have hnone : l[i]? = none := List.getElem?_eq_none (by omega)
    rw [hnone, List.getElem?_singleton]
    split_ifs with hzero
    · have heq : i = l.length := by omega
      simp [heq]
    · have hne : i ≠ l.length := by omega
      simp [hne]

namespace ToolCall

/-- Where the call's lane is: a fixed lane, or an object made for its
session. -/
def Placed (created : ℕ) (call : ToolCall) : Prop :=
  match call.key with
  | none =>
      call.lane.isSessionLane = false ∧
        call.slot = if call.lane = .read then .read else .write
  | some key => ∃ n, n < created ∧ call.slot = .session key n

def holdsSlot (slot : LaneRef) (call : ToolCall) : Bool :=
  call.phase.inFlight && decide (call.slot = slot)

section OnAbort

variable {signal : ℕ} {call : ToolCall}

@[simp] theorem slot_onAbort : (call.onAbort signal).slot = call.slot := by
  unfold onAbort
  split_ifs <;> rfl

@[simp] theorem lane_onAbort : (call.onAbort signal).lane = call.lane := by
  unfold onAbort
  split_ifs <;> rfl

@[simp] theorem signal_onAbort :
    (call.onAbort signal).signal = call.signal := by
  unfold onAbort
  split_ifs <;> rfl

@[simp] theorem key_onAbort : (call.onAbort signal).key = call.key := by
  unfold onAbort
  split_ifs <;> rfl

theorem queued_onAbort : (call.onAbort signal).phase = .queued ↔
    call.phase = .queued ∧ call.listens signal = false := by
  unfold onAbort
  cases hlistens : call.listens signal <;> cases hphase : call.phase <;>
    simp [hphase]

@[simp] theorem inFlight_onAbort :
    (call.onAbort signal).phase.inFlight = call.phase.inFlight := by
  unfold onAbort
  cases hphase : call.phase <;> split_ifs <;>
    simp_all [CallPhase.inFlight]

@[simp] theorem inProgress_onAbort :
    (call.onAbort signal).phase.inProgress = call.phase.inProgress := by
  unfold onAbort
  cases hphase : call.phase <;> split_ifs <;>
    simp_all [CallPhase.inProgress]

@[simp] theorem everGranted_onAbort :
    (call.onAbort signal).phase.everGranted = call.phase.everGranted := by
  unfold onAbort
  cases hphase : call.phase <;> split_ifs <;>
    simp_all [CallPhase.everGranted]

theorem inUse_of_onAbort (h : (call.onAbort signal).phase.inUse = true) :
    call.phase.inUse = true := by
  unfold onAbort at h
  split_ifs at h
  · exact absurd h (by simp [CallPhase.inUse])
  · exact h

end OnAbort

end ToolCall

namespace ToolScheduler

variable {maxReads maxSubagents : ℕ} {s : ToolScheduler}

def limit (maxReads maxSubagents : ℕ) : ToolLane → ℕ
  | .read => maxReads
  | .write => 1
  | .frontend => 1
  | .subagent => maxSubagents

structure Core (maxReads maxSubagents : ℕ) (s : ToolScheduler) : Prop where
  subagents : s.maxSubagents = maxSubagents
  read : (s.lanes .read).capacity = maxReads
  write : (s.lanes .write).capacity = 1
  placed : ∀ c ∈ s.calls, c.Placed s.created
  capacity : ∀ c ∈ s.calls,
    (s.lanes c.slot).capacity = limit maxReads maxSubagents c.lane
  active : ∀ slot,
    (s.lanes slot).active = s.calls.countP (ToolCall.holdsSlot slot)
  waiting : ∀ slot (i : ℕ), i ∈ (s.lanes slot).waiting ↔
    ∃ c, s.calls[i]? = some c ∧ c.slot = slot ∧ c.phase = .queued
  sorted : ∀ slot, (s.lanes slot).waiting.Pairwise (· < ·)
  bounded : ∀ slot, (s.lanes slot).active ≤ (s.lanes slot).capacity
  mapped : ∀ key n, s.sessionLanes key = some n → n < s.created
  current : ∀ c ∈ s.calls, c.phase.inUse = true → ∀ key n,
    c.slot = .session key n → s.sessionLanes key = some n
  fifo : ∀ (i j : ℕ) (ci cj : ToolCall), i < j →
    s.calls[i]? = some ci → s.calls[j]? = some cj → ci.lane = cj.lane → ci.key = cj.key →
    ci.phase = .queued → cj.phase.everGranted = false

/-- No slot is free while a call waits for one. -/
def Full (s : ToolScheduler) : Prop := ∀ slot, (s.lanes slot).waiting ≠ [] →
    (s.lanes slot).capacity ≤ (s.lanes slot).active

/-- Every per-session lane in the map, except perhaps one, is that of a call
that is still in `run`. -/
def Retained (s : ToolScheduler) (except : Option LaneRef) : Prop :=
  ∀ key n, s.sessionLanes key = some n → except = some (.session key n) ∨
      ∃ c ∈ s.calls, c.slot = .session key n ∧ c.phase.inProgress = true

section Queue

variable (h : s.Core maxReads maxSubagents)

include h

theorem Core.same_slot {c : ToolCall} {new : ToolCall}
    (hc : c ∈ s.calls) (huse : c.phase.inUse = true)
    (hplaced : new.Placed s.created)
    (hcurrent : ∀ key n, new.slot = .session key n →
      s.sessionLanes key = some n)
    (hlane : c.lane = new.lane) (hkey : c.key = new.key) :
    c.slot = new.slot := by
  have hold := h.placed c hc
  unfold ToolCall.Placed at hold hplaced
  rw [hkey, hlane] at hold
  cases hnew : new.key with
  | none =>
      rw [hnew] at hold hplaced
      rw [hold.2, hplaced.2]
  | some key =>
      rw [hnew] at hold hplaced
      rcases hold with ⟨n, -, hslot⟩
      rcases hplaced with ⟨m, -, hslot'⟩
      have hn := h.current c hc huse key n hslot
      rw [hcurrent key m hslot'] at hn
      rw [hslot, hslot', Option.some.inj hn]

/-- A call in its lane keeps the lane from being idle. -/
theorem Core.not_idle {c : ToolCall} (hc : c ∈ s.calls)
    (huse : c.phase.inUse = true) : (s.lanes c.slot).idle = false := by
  rcases CallPhase.inUse_iff.mp huse with hqueued | hflight
  · rcases List.getElem?_of_mem hc with ⟨i, hi⟩
    have hmem := (h.waiting c.slot i).mpr ⟨c, hi, rfl, hqueued⟩
    have hne : (s.lanes c.slot).waiting ≠ [] := List.ne_nil_of_mem hmem
    simp [Lane.idle, hne]
  · have hpos : 0 < (s.lanes c.slot).active := by
      rw [h.active, List.countP_pos_iff]
      exact ⟨c, hc, by simp [ToolCall.holdsSlot, hflight]⟩
    have hne : (s.lanes c.slot).active ≠ 0 := by omega
    simp [Lane.idle, hne]

/-- A lane that is not idle is the lane of a call in it. -/
theorem Core.exists_of_not_idle {slot : LaneRef}
    (hidle : (s.lanes slot).idle = false) :
    ∃ c ∈ s.calls, c.slot = slot ∧ c.phase.inUse = true := by
  by_cases hactive : (s.lanes slot).active = 0
  · have hne : (s.lanes slot).waiting ≠ [] := by
      intro hnil
      simp [Lane.idle, hactive, hnil] at hidle
    rcases List.exists_mem_of_ne_nil _ hne with ⟨i, hi⟩
    rcases (h.waiting slot i).mp hi with ⟨c, hcall, hslot, hphase⟩
    exact ⟨c, List.mem_of_getElem? hcall, hslot, by
      simp [hphase, CallPhase.inUse]⟩
  · have hpos : 0 < (s.lanes slot).active := by omega
    rw [h.active, List.countP_pos_iff] at hpos
    rcases hpos with ⟨c, hc, hholds⟩
    simp only [ToolCall.holdsSlot, Bool.and_eq_true,
      decide_eq_true_eq] at hholds
    exact ⟨c, hc, hholds.2, CallPhase.inUse_iff.mpr (Or.inr hholds.1)⟩

end Queue

/-- A new call enters the lane object `new.slot`. -/
theorem Core.append {new : ToolCall} {entered : Lane}
    (h : s.Core maxReads maxSubagents)
    (hplaced : new.Placed s.created)
    (hlimit : (s.lanes new.slot).capacity =
      limit maxReads maxSubagents new.lane)
    (hcurrent : ∀ key n, new.slot = .session key n →
      s.sessionLanes key = some n)
    (hcapacity : entered.capacity = (s.lanes new.slot).capacity)
    (hactive : entered.active = (s.lanes new.slot).active + new.phase.slots)
    (hwaiting : entered.waiting = (s.lanes new.slot).waiting ++
      if new.phase = .queued then [s.calls.length] else [])
    (hbounded : entered.active ≤ entered.capacity)
    (hfree : new.phase.everGranted = true → (s.lanes new.slot).waiting = []) :
    Core maxReads maxSubagents { s with
        lanes := Function.update s.lanes new.slot entered
        calls := s.calls ++ [new] } := by
  have hcap : ∀ slot,
      (Function.update s.lanes new.slot entered slot).capacity =
        (s.lanes slot).capacity := by
    intro slot
    rw [Function.update_apply]
    split_ifs with hslot
    · rw [hslot, hcapacity]
    · rfl
  constructor
  · exact h.subagents
  · exact (hcap _).trans h.read
  · exact (hcap _).trans h.write
  · intro c hc
    rcases List.mem_append.mp hc with hc | hc
    · exact h.placed c hc
    · obtain rfl : c = new := by simpa using hc
      exact hplaced
  · intro c hc
    refine (hcap _).trans ?_
    rcases List.mem_append.mp hc with hc | hc
    · exact h.capacity c hc
    · obtain rfl : c = new := by simpa using hc
      exact hlimit
  · intro slot
    dsimp only
    rw [Function.update_apply, List.countP_append, List.countP_singleton]
    split_ifs with hslot hholds hholds
    · rw [hactive, hslot, h.active]
      have hflight : new.phase.inFlight = true := by
        simp only [ToolCall.holdsSlot, Bool.and_eq_true] at hholds
        exact hholds.1
      simp [CallPhase.slots, hflight]
    · rw [hactive, hslot, h.active]
      have hflight : new.phase.inFlight = false := by
        simpa [ToolCall.holdsSlot, hslot] using hholds
      simp [CallPhase.slots, hflight]
    · simp only [ToolCall.holdsSlot, Bool.and_eq_true,
        decide_eq_true_eq] at hholds
      exact absurd hholds.2.symm hslot
    · exact h.active slot
  · intro slot i
    have hold : (∃ c, (s.calls ++ [new])[i]? = some c ∧ c.slot = slot ∧
        c.phase = .queued) ↔
        i ∈ (s.lanes slot).waiting ∨
          i = s.calls.length ∧ new.slot = slot ∧ new.phase = .queued := by
      simp only [getElem?_concat_eq_some, h.waiting, or_and_right,
        exists_or, and_assoc, exists_and_left, exists_eq_left']
    dsimp only
    rw [hold, Function.update_apply]
    split_ifs with hslot
    · rw [hwaiting, hslot]
      split_ifs with hqueued
      · simp [hqueued]
      · simp [hqueued]
    · simp [Ne.symm hslot]
  · intro slot
    dsimp only
    rw [Function.update_apply]
    split_ifs with hslot
    · rw [hwaiting, List.pairwise_append]
      refine ⟨h.sorted _, ?_, ?_⟩
      · split_ifs <;> simp
      · intro i hi j hj
        rcases (h.waiting _ i).mp hi with ⟨c, hcall, -⟩
        have hlt := (List.getElem?_eq_some_iff.mp hcall).1
        split_ifs at hj with hqueued
        · simp only [List.mem_singleton] at hj
          omega
        · exact absurd hj (by simp)
    · exact h.sorted slot
  · intro slot
    dsimp only
    rw [Function.update_apply]
    split_ifs
    · exact hbounded
    · exact h.bounded slot
  · exact h.mapped
  · intro c hc huse key n hslot
    rcases List.mem_append.mp hc with hc | hc
    · exact h.current c hc huse key n hslot
    · obtain rfl : c = new := by simpa using hc
      exact hcurrent key n hslot
  · intro i j ci cj hij hi hj hlane hkey hqueued
    rcases getElem?_concat_eq_some.mp hi with hi | ⟨hi, rfl⟩
    · rcases getElem?_concat_eq_some.mp hj with hj | ⟨-, rfl⟩
      · exact h.fifo i j ci cj hij hi hj hlane hkey hqueued
      · have hmem : ci ∈ s.calls := List.mem_of_getElem? hi
        have hslot := h.same_slot hmem (by simp [hqueued, CallPhase.inUse])
          hplaced hcurrent hlane hkey
        by_contra hgranted
        have hnil := hfree (by simpa using hgranted)
        have hwaits := (h.waiting _ i).mpr ⟨ci, hi, hslot, hqueued⟩
        rw [hnil] at hwaits
        exact absurd hwaits (by simp)
    · rcases getElem?_concat_eq_some.mp hj with hj | ⟨hj, -⟩
      · have hlt := (List.getElem?_eq_some_iff.mp hj).1
        omega
      · omega

theorem getElem?_set_phase {calls : List ToolCall} {i j : ℕ}
    {c d : ToolCall} {phase : CallPhase} (hcall : calls[i]? = some c)
    (hd : (calls.set i { c with phase := phase })[j]? = some d) :
    j = i ∧ d = { c with phase := phase } ∨ j ≠ i ∧ calls[j]? = some d := by
  have hlt := (List.getElem?_eq_some_iff.mp hcall).1
  rw [List.getElem?_set] at hd
  split_ifs at hd with hsame
  · left
    exact ⟨hsame.symm, (Option.some.inj hd).symm⟩
  · right
    exact ⟨Ne.symm hsame, hd⟩

variable {i : ℕ}

theorem mem_set_phase {calls : List ToolCall} {c d : ToolCall}
    {phase : CallPhase} (hcall : calls[i]? = some c)
    (hd : d ∈ calls.set i { c with phase := phase }) :
    d = { c with phase := phase } ∨ d ∈ calls := by
  rcases List.getElem?_of_mem hd with ⟨j, hj⟩
  rcases getElem?_set_phase hcall hj with ⟨-, hsame⟩ | ⟨-, hold⟩
  · exact Or.inl hsame
  · exact Or.inr (List.mem_of_getElem? hold)

/-- Call `i` goes on to the phase `phase` and its lane becomes `left`. -/
theorem Core.rephase {c : ToolCall} {phase : CallPhase}
    {left : Lane} (h : s.Core maxReads maxSubagents)
    (hcall : s.calls[i]? = some c)
    (hcapacity : left.capacity = (s.lanes c.slot).capacity)
    (hactive : left.active + c.phase.slots =
      (s.lanes c.slot).active + phase.slots)
    (hwaiting : ∀ j, j ∈ left.waiting ↔ j ∈ (s.lanes c.slot).waiting ∧ j ≠ i)
    (hsorted : left.waiting.Pairwise (· < ·))
    (hbounded : left.active ≤ left.capacity)
    (hphase : phase ≠ .queued)
    (huse : phase.inUse = true → c.phase.inUse = true)
    (hfirst : phase.everGranted = true → c.phase.everGranted = false →
      c.phase = .queued ∧ ∀ j ∈ (s.lanes c.slot).waiting, i ≤ j) :
    Core maxReads maxSubagents { s with
        lanes := Function.update s.lanes c.slot left
        calls := s.calls.set i { c with phase := phase } } := by
  have hmem : c ∈ s.calls := List.mem_of_getElem? hcall
  have hcap : ∀ slot, (Function.update s.lanes c.slot left slot).capacity =
      (s.lanes slot).capacity := by
    intro slot
    rw [Function.update_apply]
    split_ifs with hslot
    · rw [hslot, hcapacity]
    · rfl
  constructor
  · exact h.subagents
  · exact (hcap _).trans h.read
  · exact (hcap _).trans h.write
  · intro d hd
    rcases mem_set_phase hcall hd with rfl | hd
    · exact h.placed c hmem
    · exact h.placed d hd
  · intro d hd
    refine (hcap _).trans ?_
    rcases mem_set_phase hcall hd with rfl | hd
    · exact h.capacity c hmem
    · exact h.capacity d hd
  · intro slot
    have hcount := countP_set_add (p := ToolCall.holdsSlot slot)
      { c with phase := phase } hcall
    have hold := h.active slot
    dsimp only
    rw [Function.update_apply]
    split_ifs with hslot
    · subst hslot
      simp only [ToolCall.holdsSlot, decide_true, Bool.and_true] at hcount
      unfold CallPhase.slots at hactive
      omega
    · simp only [ToolCall.holdsSlot, Ne.symm hslot, decide_false,
        Bool.and_false, Bool.false_eq_true, if_false] at hcount
      omega
  · intro slot j
    have hwaits : (∃ d, (s.calls.set i { c with phase := phase })[j]? =
        some d ∧ d.slot = slot ∧ d.phase = .queued) ↔
        j ∈ (s.lanes slot).waiting ∧ j ≠ i := by
      rw [h.waiting]
      constructor
      · rintro ⟨d, hd, hslot, hqueued⟩
        rcases getElem?_set_phase hcall hd with ⟨-, rfl⟩ | ⟨hne, hold⟩
        · exact absurd hqueued hphase
        · exact ⟨⟨d, hold, hslot, hqueued⟩, hne⟩
      · rintro ⟨⟨d, hd, hslot, hqueued⟩, hne⟩
        refine ⟨d, ?_, hslot, hqueued⟩
        rw [List.getElem?_set_ne (Ne.symm hne)]
        exact hd
    dsimp only
    rw [hwaits, Function.update_apply]
    split_ifs with hslot
    · rw [hwaiting, hslot]
    · constructor
      · intro hj
        refine ⟨hj, ?_⟩
        rintro rfl
        rcases (h.waiting slot j).mp hj with ⟨d, hd, hdslot, -⟩
        rw [hcall] at hd
        cases hd
        exact hslot hdslot.symm
      · exact fun hj => hj.1
  · intro slot
    dsimp only
    rw [Function.update_apply]
    split_ifs
    · exact hsorted
    · exact h.sorted slot
  · intro slot
    dsimp only
    rw [Function.update_apply]
    split_ifs
    · exact hbounded
    · exact h.bounded slot
  · exact h.mapped
  · intro d hd hduse key n hslot
    rcases mem_set_phase hcall hd with rfl | hd
    · exact h.current c hmem (huse hduse) key n hslot
    · exact h.current d hd hduse key n hslot
  · intro a b ca cb hab ha hb hlane hkey hqueued
    rcases getElem?_set_phase hcall ha with ⟨-, rfl⟩ | ⟨-, haold⟩
    · exact absurd hqueued hphase
    · rcases getElem?_set_phase hcall hb with ⟨hbi, rfl⟩ | ⟨-, hbold⟩
      · subst hbi
        by_contra hgranted
        have hphaseGranted : phase.everGranted = true := by
          simpa using hgranted
        have hbefore := h.fifo a b ca c hab haold hcall hlane hkey hqueued
        rcases hfirst hphaseGranted hbefore with ⟨hcqueued, hleast⟩
        have hslot := h.same_slot (List.mem_of_getElem? haold)
          (by simp [hqueued, CallPhase.inUse]) (h.placed c hmem)
          (h.current c hmem (by simp [hcqueued, CallPhase.inUse])) hlane
          hkey
        have hwaits := (h.waiting c.slot a).mpr ⟨ca, haold, hslot, hqueued⟩
        have hle := hleast a hwaits
        omega
      · exact h.fifo a b ca cb hab haold hbold hlane hkey hqueued

theorem setPhase_eq {c : ToolCall} {phase : CallPhase}
    (hcall : s.calls[i]? = some c) :
    s.setPhase i phase =
      { s with calls := s.calls.set i { c with phase := phase } } := by
  have hmodify : s.calls.modify i (fun c => { c with phase := phase }) =
      s.calls.set i { c with phase := phase } := by
    apply List.ext_getElem?
    intro j
    rw [List.getElem?_modify, List.getElem?_set]
    split_ifs with hsame hlt
    · simp [← hsame, hcall]
    · exact absurd (List.getElem?_eq_some_iff.mp hcall).1 hlt
    · simp
  unfold setPhase
  rw [hmodify]

/-- A call that has no slot and does not wait moves on. -/
theorem Core.rephase_aside {c : ToolCall} {phase : CallPhase}
    (h : s.Core maxReads maxSubagents) (hcall : s.calls[i]? = some c)
    (hqueued : c.phase ≠ .queued) (hphase : phase ≠ .queued)
    (hslots : c.phase.slots = phase.slots)
    (huse : phase.inUse = true → c.phase.inUse = true)
    (hgranted : phase.everGranted = true → c.phase.everGranted = true) :
    Core maxReads maxSubagents (s.setPhase i phase) := by
  have hset : s.setPhase i phase = { s with
      lanes := Function.update s.lanes c.slot (s.lanes c.slot)
      calls := s.calls.set i { c with phase := phase } } := by
    rw [Function.update_eq_self]
    exact setPhase_eq hcall
  rw [hset]
  apply h.rephase hcall rfl
  · rw [hslots]
  · intro j
    constructor
    · intro hj
      refine ⟨hj, ?_⟩
      rintro rfl
      rcases (h.waiting _ j).mp hj with ⟨d, hd, -, hdqueued⟩
      rw [hcall] at hd
      cases hd
      exact hqueued hdqueued
    · exact fun hj => hj.1
  · exact h.sorted _
  · exact h.bounded _
  · exact hphase
  · exact huse
  · intro hnow hbefore
    rw [hgranted hnow] at hbefore
    exact Bool.noConfusion hbefore

variable {slot : LaneRef}

theorem release_free (hwaiting : (s.lanes slot).waiting = []) :
    s.release slot = { s with
        lanes := Function.update s.lanes slot
          { s.lanes slot with active := (s.lanes slot).active - 1 } } := by
  cases hlane : s.lanes slot with
  | mk capacity active waiting =>
      rw [hlane] at hwaiting
      dsimp only at hwaiting
      simp [release, Lane.release, hlane, hwaiting]

theorem release_next {next : ℕ} {rest : List ℕ}
    (hwaiting : (s.lanes slot).waiting = next :: rest) :
    s.release slot = ({ s with
        lanes := Function.update s.lanes slot
          { s.lanes slot with waiting := rest } } : ToolScheduler).setPhase
        next .granted := by
  simp [release, Lane.release, hwaiting]

/-- A finished call gives its slot to the first waiter or back to the
lane. -/
theorem Core.settle {c : ToolCall}
    (h : s.Core maxReads maxSubagents) (hcall : s.calls[i]? = some c)
    (hrunning : c.phase = .running) :
    Core maxReads maxSubagents ((s.setPhase i .settled).release c.slot) := by
  have hpos : 0 < (s.lanes c.slot).active := by
    rw [h.active, List.countP_pos_iff]
    refine ⟨c, List.mem_of_getElem? hcall, ?_⟩
    simp [ToolCall.holdsSlot, hrunning, CallPhase.inFlight]
  have hslots : c.phase.slots = 1 := by
    simp [hrunning, CallPhase.slots, CallPhase.inFlight]
  have hgiven : Core maxReads maxSubagents { s with
        lanes := Function.update s.lanes c.slot
          { s.lanes c.slot with active := (s.lanes c.slot).active - 1 }
        calls := s.calls.set i { c with phase := .settled } } := by
    apply h.rephase hcall
    · rfl
    · have hsettled : CallPhase.settled.slots = 0 := rfl
      rw [hslots, hsettled]
      dsimp only
      omega
    · intro j
      constructor
      · intro hj
        refine ⟨hj, ?_⟩
        rintro rfl
        rcases (h.waiting _ j).mp hj with ⟨d, hd, -, hdqueued⟩
        rw [hcall] at hd
        cases hd
        rw [hrunning] at hdqueued
        exact absurd hdqueued (by simp)
      · exact fun hj => hj.1
    · exact h.sorted _
    · have hle := h.bounded c.slot
      dsimp only
      omega
    · simp
    · simp [CallPhase.inUse]
    · simp [hrunning, CallPhase.everGranted]
  rw [setPhase_eq hcall]
  cases hwaiting : (s.lanes c.slot).waiting with
  | nil =>
      rw [release_free (s := { s with
        calls := s.calls.set i { c with phase := .settled } }) hwaiting]
      exact hgiven
  | cons next rest =>
      have hnext : next ∈ (s.lanes c.slot).waiting := by simp [hwaiting]
      rcases (h.waiting _ next).mp hnext with ⟨d, hd, hslot, hqueued⟩
      have hne : i ≠ next := by
        rintro rfl
        rw [hcall] at hd
        cases hd
        rw [hrunning] at hqueued
        exact absurd hqueued (by simp)
      have hset : (s.calls.set i { c with phase := .settled })[next]? =
          some d := by
        rw [List.getElem?_set_ne hne]
        exact hd
      have hsorted := h.sorted c.slot
      rw [hwaiting, List.pairwise_cons] at hsorted
      rw [release_next (s := { s with
        calls := s.calls.set i { c with phase := .settled } }) hwaiting]
      rw [setPhase_eq (c := d) hset]
      have hgranted := @Core.rephase _ _ _ next d .granted
        { s.lanes c.slot with waiting := rest } hgiven hset
      dsimp only at hgranted
      rw [hslot, Function.update_self, Function.update_idem] at hgranted
      rw [hslot]
      apply hgranted rfl
      · have hnone : d.phase.slots = 0 := by rw [hqueued]; rfl
        have hone : CallPhase.granted.slots = 1 := rfl
        rw [hnone, hone]
        dsimp only
        omega
      · intro j
        rw [hwaiting, List.mem_cons]
        constructor
        · intro hj
          have hlt := hsorted.1 j hj
          exact ⟨Or.inr hj, by omega⟩
        · rintro ⟨rfl | hj, hjne⟩
          · exact absurd rfl hjne
          · exact hj
      · exact hsorted.2
      · exact h.bounded c.slot
      · simp
      · simp [hqueued, CallPhase.inUse]
      · intro _ _
        refine ⟨hqueued, ?_⟩
        intro j hj
        rw [hwaiting, List.mem_cons] at hj
        rcases hj with rfl | hj
        · exact le_rfl
        · exact (hsorted.1 j hj).le

/-- The abort event takes the listening waiters out of their lanes. -/
theorem Core.abort (h : s.Core maxReads maxSubagents) (signal : ℕ) :
    (s.abort signal).Core maxReads maxSubagents := by
  unfold ToolScheduler.abort
  split_ifs
  · exact h
  · constructor
    · exact h.subagents
    · exact h.read
    · exact h.write
    · intro d hd
      rcases List.mem_map.mp hd with ⟨c, hc, rfl⟩
      have hplaced := h.placed c hc
      unfold ToolCall.Placed at hplaced ⊢
      simpa using hplaced
    · intro d hd
      rcases List.mem_map.mp hd with ⟨c, hc, rfl⟩
      simpa using h.capacity c hc
    · intro slot
      rw [h.active, List.countP_map]
      congr 1
      funext c
      simp [ToolCall.holdsSlot]
    · intro slot i
      have hwaits : (∃ d, (s.calls.map (ToolCall.onAbort signal))[i]? =
          some d ∧ d.slot = slot ∧ d.phase = .queued) ↔
          ∃ c, s.calls[i]? = some c ∧ c.slot = slot ∧
            c.phase = .queued ∧ c.listens signal = false := by
        simp [List.getElem?_map, ToolCall.queued_onAbort]
      rw [hwaits, List.mem_filter, h.waiting]
      constructor
      · rintro ⟨⟨c, hc, hslot, hqueued⟩, hlistens⟩
        rw [hc] at hlistens
        exact ⟨c, hc, hslot, hqueued, by simpa using hlistens⟩
      · rintro ⟨c, hc, hslot, hqueued, hlistens⟩
        refine ⟨⟨c, hc, hslot, hqueued⟩, ?_⟩
        simp [hc, hlistens]
    · intro slot
      exact (h.sorted slot).filter _
    · exact h.bounded
    · exact h.mapped
    · intro d hd huse key n hslot
      rcases List.mem_map.mp hd with ⟨c, hc, rfl⟩
      exact h.current c hc (ToolCall.inUse_of_onAbort huse) key n
        (by simpa using hslot)
    · intro i j ci cj hij hi hj hlane hkey hqueued
      dsimp only at hi hj
      rw [List.getElem?_map, Option.map_eq_some_iff] at hi hj
      rcases hi with ⟨ci, hi, rfl⟩
      rcases hj with ⟨cj, hj, rfl⟩
      rw [ToolCall.everGranted_onAbort]
      exact h.fifo i j ci cj hij hi hj (by simpa using hlane)
        (by simpa using hkey) (ToolCall.queued_onAbort.mp hqueued).1

/-- `dropIfIdle` removes at most the mapping of one idle lane. -/
theorem dropIfIdle_differs (s : ToolScheduler) (key : Option String)
    (slot : LaneRef) :
    s.dropIfIdle key slot = s ∨ ∃ k n, key = some k ∧ slot = .session k n ∧
        (s.lanes slot).idle = true ∧ s.sessionLanes k = some n ∧
        s.dropIfIdle key slot = { s with
            sessionLanes := Function.update s.sessionLanes k none } := by
  unfold dropIfIdle
  cases key with
  | none => exact Or.inl rfl
  | some k =>
      dsimp only
      split_ifs with hcond
      · right
        simp only [Bool.and_eq_true, decide_eq_true_eq,
          Option.map_eq_some_iff] at hcond
        rcases hcond with ⟨hidle, n, hmapped, rfl⟩
        exact ⟨k, n, rfl, rfl, hidle, hmapped, rfl⟩
      · exact Or.inl rfl

theorem Core.dropIfIdle (h : s.Core maxReads maxSubagents)
    (key : Option String) (slot : LaneRef) :
    (s.dropIfIdle key slot).Core maxReads maxSubagents := by
  rcases dropIfIdle_differs s key slot with
    hsame | ⟨k, n, -, hslot, hidle, hmapped, hdropped⟩
  · rw [hsame]
    exact h
  · rw [hdropped]
    refine { h with mapped := ?_, current := ?_ }
    · intro key m hkey
      dsimp only at hkey
      rw [Function.update_apply] at hkey
      split_ifs at hkey
      exact h.mapped key m hkey
    · intro c hc huse key m hcslot
      have hold := h.current c hc huse key m hcslot
      dsimp only
      rw [Function.update_apply]
      split_ifs with hsame
      · subst hsame
        rw [hmapped] at hold
        cases hold
        have hbusy := h.not_idle hc huse
        rw [hcslot, ← hslot, hidle] at hbusy
        exact Bool.noConfusion hbusy
      · exact hold

/-- A finished call leaves no idle lane behind. -/
theorem Retained.dropIfIdle {key : Option String}
    (hcore : s.Core maxReads maxSubagents)
    (h : s.Retained (some slot))
    (hslot : ∀ k n, slot = .session k n → key = some k) :
    (s.dropIfIdle key slot).Retained none := by
  intro k n hmapped
  right
  have hcalls : (s.dropIfIdle key slot).calls = s.calls := by
    rcases dropIfIdle_differs s key slot with
      hsame | ⟨_, _, _, _, _, _, hdropped⟩
    · rw [hsame]
    · rw [hdropped]
  rw [hcalls]
  have hold : s.sessionLanes k = some n := by
    rcases dropIfIdle_differs s key slot with
      hsame | ⟨k', _, _, _, _, _, hdropped⟩
    · rw [← hsame]
      exact hmapped
    · rw [hdropped] at hmapped
      dsimp only at hmapped
      rw [Function.update_apply] at hmapped
      split_ifs at hmapped
      exact hmapped
  rcases h k n hold with hexcept | hcall
  · cases hexcept
    have hbusy : (s.lanes (.session k n)).idle = false := by
      by_contra hidle
      have hdrops : (s.lanes (.session k n)).idle = true := by
        simpa using hidle
      rw [hslot k n rfl] at hmapped
      simp [ToolScheduler.dropIfIdle, hdrops, hold] at hmapped
    rcases hcore.exists_of_not_idle hbusy with ⟨c, hc, hcslot, huse⟩
    exact ⟨c, hc, hcslot, CallPhase.inProgress_of_inUse huse⟩
  · exact hcall

variable {except : Option LaneRef}

theorem Retained.weaken (h : s.Retained none) : s.Retained except := by
  intro k n hmapped
  rcases h k n hmapped with hnone | hcall
  · exact absurd hnone (by simp)
  · exact Or.inr hcall

theorem Retained.setPhase {c : ToolCall} {phase : CallPhase}
    (h : s.Retained except)
    (hcall : s.calls[i]? = some c)
    (hphase : phase.inProgress = true ∨ except = some c.slot) :
    (s.setPhase i phase).Retained except := by
  rw [setPhase_eq hcall]
  intro k n hmapped
  rcases h k n hmapped with hexcept | ⟨d, hd, hslot, hprogress⟩
  · exact Or.inl hexcept
  · rcases List.getElem?_of_mem hd with ⟨j, hj⟩
    by_cases hsame : j = i
    · subst hsame
      rw [hcall] at hj
      cases hj
      rcases hphase with hphase | hexcept
      · right
        refine ⟨{ c with phase := phase }, ?_, hslot, hphase⟩
        have hlt := (List.getElem?_eq_some_iff.mp hcall).1
        exact List.mem_of_getElem? (List.getElem?_set_self hlt)
      · left
        rw [hexcept, hslot]
    · right
      refine ⟨d, ?_, hslot, hprogress⟩
      apply List.mem_of_getElem? (i := j)
      rw [List.getElem?_set_ne (Ne.symm hsame)]
      exact hj

theorem Retained.release
    (hcore : ∀ i ∈ (s.lanes slot).waiting, ∃ c, s.calls[i]? = some c)
    (h : s.Retained except) : (s.release slot).Retained except := by
  cases hwaiting : (s.lanes slot).waiting with
  | nil =>
      rw [release_free hwaiting]
      exact h
  | cons next rest =>
      rw [release_next hwaiting]
      rcases hcore next (by simp [hwaiting]) with ⟨c, hc⟩
      have hlanes : ({ s with
          lanes := Function.update s.lanes slot
            { s.lanes slot with waiting := rest } } :
          ToolScheduler).Retained except := h
      exact hlanes.setPhase hc (Or.inl rfl)

theorem Retained.abort (h : s.Retained except)
    (signal : ℕ) : (s.abort signal).Retained except := by
  unfold ToolScheduler.abort
  split_ifs
  · exact h
  · intro k n hmapped
    rcases h k n hmapped with hexcept | ⟨c, hc, hslot, hprogress⟩
    · exact Or.inl hexcept
    · right
      refine ⟨c.onAbort signal, List.mem_map_of_mem hc, ?_, ?_⟩
      · simpa using hslot
      · simpa using hprogress

theorem Full.release (h : s.Full) : (s.release slot).Full := by
  intro r hne
  cases hwaiting : (s.lanes slot).waiting with
  | nil =>
      rw [release_free hwaiting] at hne ⊢
      dsimp only at hne ⊢
      rw [Function.update_apply] at hne ⊢
      split_ifs at hne ⊢
      · exact absurd hwaiting hne
      · exact h r hne
  | cons next rest =>
      rw [release_next hwaiting] at hne ⊢
      unfold setPhase at hne ⊢
      dsimp only at hne ⊢
      rw [Function.update_apply] at hne ⊢
      split_ifs at hne ⊢
      · exact h slot (by simp [hwaiting])
      · exact h r hne

theorem Full.abort (h : s.Full) (signal : ℕ) : (s.abort signal).Full := by
  unfold ToolScheduler.abort
  split_ifs
  · exact h
  · intro slot hne
    apply h slot
    intro hnil
    simp [hnil] at hne

structure Inv (maxReads maxSubagents : ℕ) (s : ToolScheduler) : Prop where
  core : s.Core maxReads maxSubagents
  full : s.Full
  retained : s.Retained none

/-- The lane object a new call is about to enter. -/
structure LaneFound (maxReads maxSubagents : ℕ) (lane : ToolLane)
    (sessionId : Option String) (slot : LaneRef) (s : ToolScheduler) :
    Prop where
  core : s.Core maxReads maxSubagents
  full : s.Full
  retained : s.Retained (some slot)
  placed : ∀ signal phase,
    ToolCall.Placed s.created ⟨lane, sessionId, signal, slot, phase⟩
  capacity : (s.lanes slot).capacity = limit maxReads maxSubagents lane
  current : ∀ key n, slot = .session key n → s.sessionLanes key = some n

theorem Inv.new (maxReads maxSubagents : ℕ) :
    (new maxReads maxSubagents).Inv maxReads maxSubagents := by
  constructor
  · constructor <;> simp [ToolScheduler.new, Lane.empty]
    · rintro (_ | _ | _) <;> simp
    · rintro (_ | _ | _) <;> simp
    · rintro (_ | _ | _) <;> simp
    · rintro (_ | _ | _) <;> simp
  · rintro (_ | _ | _) <;> simp [ToolScheduler.new, Lane.empty]
  · intro key n hmapped
    exact absurd hmapped (by simp [ToolScheduler.new])

theorem Core.key_of_slot {c : ToolCall} {key : String} {n : ℕ}
    (h : s.Core maxReads maxSubagents) (hc : c ∈ s.calls)
    (hslot : c.slot = .session key n) : c.key = some key := by
  have hplaced := h.placed c hc
  unfold ToolCall.Placed at hplaced
  cases hkey : c.key with
  | none =>
      rw [hkey] at hplaced
      rw [hplaced.2] at hslot
      split_ifs at hslot
  | some k =>
      rw [hkey] at hplaced
      rcases hplaced with ⟨m, -, hm⟩
      rw [hm] at hslot
      rw [(LaneRef.session.inj hslot).1]

/-- A lane object made for a key that has none. -/
theorem Inv.created {key : String} (capacity : ℕ)
    (h : s.Inv maxReads maxSubagents)
    (hnone : s.sessionLanes key = none) :
    let s' : ToolScheduler := { s with
      lanes := Function.update s.lanes (.session key s.created)
        (.empty capacity)
      created := s.created + 1
      sessionLanes := Function.update s.sessionLanes key (some s.created) }
    s'.Core maxReads maxSubagents ∧ s'.Full ∧
      s'.Retained (some (.session key s.created)) := by
  have hcore := h.core
  have hfresh : ∀ c ∈ s.calls, c.slot ≠ .session key s.created := by
    intro c hc hslot
    have hplaced := hcore.placed c hc
    unfold ToolCall.Placed at hplaced
    rw [hcore.key_of_slot hc hslot] at hplaced
    rcases hplaced with ⟨n, hlt, hn⟩
    rw [hn] at hslot
    have heq := (LaneRef.session.inj hslot).2
    omega
  have hother : ∀ slot, slot ≠ .session key s.created →
      Function.update s.lanes (.session key s.created) (.empty capacity)
        slot = s.lanes slot :=
    fun slot hne => Function.update_of_ne hne _ _
  refine ⟨?_, ?_, ?_⟩
  · constructor
    · exact hcore.subagents
    · dsimp only
      rw [hother _ (by simp)]
      exact hcore.read
    · dsimp only
      rw [hother _ (by simp)]
      exact hcore.write
    · intro c hc
      have hplaced := hcore.placed c hc
      unfold ToolCall.Placed at hplaced ⊢
      cases hkey : c.key with
      | none =>
          rw [hkey] at hplaced
          exact hplaced
      | some k =>
          rw [hkey] at hplaced
          rcases hplaced with ⟨n, hlt, hn⟩
          exact ⟨n, Nat.lt_succ_of_lt hlt, hn⟩
    · intro c hc
      dsimp only
      rw [hother _ (hfresh c hc)]
      exact hcore.capacity c hc
    · intro slot
      dsimp only
      by_cases hslot : slot = .session key s.created
      · rw [hslot, Function.update_self]
        symm
        change _ = 0
        rw [List.countP_eq_zero]
        intro c hc hholds
        simp only [ToolCall.holdsSlot, Bool.and_eq_true,
          decide_eq_true_eq] at hholds
        exact hfresh c hc hholds.2
      · rw [hother _ hslot]
        exact hcore.active slot
    · intro slot i
      dsimp only
      by_cases hslot : slot = .session key s.created
      · rw [hslot, Function.update_self]
        constructor
        · intro hi
          exact absurd hi (by simp [Lane.empty])
        · rintro ⟨c, hc, hcslot, -⟩
          exact absurd hcslot (hfresh c (List.mem_of_getElem? hc))
      · rw [hother _ hslot]
        exact hcore.waiting slot i
    · intro slot
      dsimp only
      by_cases hslot : slot = .session key s.created
      · rw [hslot, Function.update_self]
        exact List.Pairwise.nil
      · rw [hother _ hslot]
        exact hcore.sorted slot
    · intro slot
      dsimp only
      by_cases hslot : slot = .session key s.created
      · rw [hslot, Function.update_self]
        exact Nat.zero_le _
      · rw [hother _ hslot]
        exact hcore.bounded slot
    · intro k n hmapped
      dsimp only at hmapped
      rw [Function.update_apply] at hmapped
      split_ifs at hmapped
      · cases hmapped
        exact Nat.lt_succ_self _
      · exact Nat.lt_succ_of_lt (hcore.mapped k n hmapped)
    · intro c hc huse k n hslot
      have hold := hcore.current c hc huse k n hslot
      dsimp only
      rw [Function.update_of_ne]
      · exact hold
      · rintro rfl
        rw [hnone] at hold
        exact absurd hold (by simp)
    · exact hcore.fifo
  · intro slot hne
    dsimp only at hne ⊢
    by_cases hslot : slot = .session key s.created
    · rw [hslot, Function.update_self] at hne
      exact absurd rfl hne
    · rw [hother _ hslot] at hne ⊢
      exact h.full slot hne
  · intro k n hmapped
    dsimp only at hmapped
    rw [Function.update_apply] at hmapped
    split_ifs at hmapped with hsame
    · left
      rw [hsame, Option.some.inj hmapped]
    · rcases h.retained k n hmapped with hexcept | hcall
      · exact absurd hexcept (by simp)
      · exact Or.inr hcall

theorem Inv.laneFor (h : s.Inv maxReads maxSubagents) (lane : ToolLane)
    (sessionId : Option String)
    (hsession : (lane.isSessionLane && sessionId.isNone) = false) :
    LaneFound maxReads maxSubagents lane sessionId
      (s.laneFor lane (laneKey lane sessionId)).1
      (s.laneFor lane (laneKey lane sessionId)).2 := by
  cases hkey : laneKey lane sessionId with
  | none =>
      have hfixed : lane.isSessionLane = false := by
        cases hlane : lane.isSessionLane with
        | false => rfl
        | true =>
            cases sessionId with
            | none => simp [hlane] at hsession
            | some sessionId => simp [laneKey, hlane] at hkey
      constructor
      · exact h.core
      · exact h.full
      · exact h.retained.weaken
      · intro signal phase
        have hcallKey : ToolCall.key ⟨lane, sessionId, signal,
            (s.laneFor lane none).1, phase⟩ = none := hkey
        unfold ToolCall.Placed
        rw [hcallKey]
        exact ⟨hfixed, rfl⟩
      · cases lane with
        | read => exact h.core.read
        | write => exact h.core.write
        | frontend => exact absurd hfixed (by simp [ToolLane.isSessionLane])
        | subagent => exact absurd hfixed (by simp [ToolLane.isSessionLane])
      · intro key n hslot
        simp only [ToolScheduler.laneFor] at hslot
        split_ifs at hslot
  | some key =>
      have hlane : lane.isSessionLane = true := by
        by_contra hlane
        simp [laneKey, hlane] at hkey
      unfold ToolScheduler.laneFor
      dsimp only
      cases hmapped : s.sessionLanes key with
      | some n =>
          rcases h.retained key n hmapped with hexcept | hcall
          · exact absurd hexcept (by simp)
          · rcases hcall with ⟨c, hc, hslot, -⟩
            have hcallKey : c.key = some key := h.core.key_of_slot hc hslot
            have hsame : c.lane = lane := (laneKey_inj hcallKey hkey).1
            constructor
            · exact h.core
            · exact h.full
            · exact h.retained.weaken
            · intro signal phase
              have hcallKey : ToolCall.key ⟨lane, sessionId, signal,
                  .session key n, phase⟩ = some key := hkey
              unfold ToolCall.Placed
              rw [hcallKey]
              exact ⟨n, h.core.mapped key n hmapped, rfl⟩
            · dsimp only
              rw [← hslot, h.core.capacity c hc, hsame]
            · intro k m hslot'
              rcases LaneRef.session.inj hslot' with ⟨rfl, rfl⟩
              exact hmapped
      | none =>
          rcases h.created (if lane = .frontend then 1 else s.maxSubagents)
            hmapped with ⟨hcore, hfull, hretained⟩
          constructor
          · exact hcore
          · exact hfull
          · exact hretained
          · intro signal phase
            have hcallKey : ToolCall.key ⟨lane, sessionId, signal,
                .session key s.created, phase⟩ = some key := hkey
            unfold ToolCall.Placed
            rw [hcallKey]
            exact ⟨s.created, Nat.lt_succ_self _, rfl⟩
          · dsimp only
            rw [Function.update_self, h.core.subagents]
            cases lane with
            | read => exact absurd hlane (by simp [ToolLane.isSessionLane])
            | write => exact absurd hlane (by simp [ToolLane.isSessionLane])
            | frontend => rfl
            | subagent => rfl
          · intro k m hslot
            rcases LaneRef.session.inj hslot with ⟨rfl, rfl⟩
            simp

theorem LaneFound.enter {lane : ToolLane} {sessionId : Option String}
    (h : LaneFound maxReads maxSubagents lane sessionId slot s)
    (signal : Option ℕ) :
    (s.enter lane sessionId signal slot).Inv maxReads maxSubagents := by
  have hretained : ∀ (entered : Lane) (phase : CallPhase),
      phase.inProgress = true →
      Retained { s with
        lanes := Function.update s.lanes slot entered
        calls := s.calls ++ [⟨lane, sessionId, signal, slot, phase⟩] }
        none := by
    intro entered phase hprogress k n hmapped
    right
    rcases h.retained k n hmapped with hexcept | ⟨c, hc, hslot, hc'⟩
    · refine ⟨⟨lane, sessionId, signal, slot, phase⟩, ?_, ?_, hprogress⟩
      · simp
      · exact Option.some.inj hexcept
    · exact ⟨c, List.mem_append_left _ hc, hslot, hc'⟩
  have hfull : ∀ (entered : Lane) (calls : List ToolCall),
      (entered.waiting ≠ [] → entered.capacity ≤ entered.active) →
      Full { s with
        lanes := Function.update s.lanes slot entered
        calls := calls } := by
    intro entered calls hentered r hne
    dsimp only at hne ⊢
    rw [Function.update_apply] at hne ⊢
    split_ifs at hne ⊢
    · exact hentered hne
    · exact h.full r hne
  unfold ToolScheduler.enter Lane.acquire
  split_ifs with haborted hfree
  · constructor
    · apply h.core.append (h.placed _ _) h.capacity h.current
      · rfl
      · rfl
      · simp
      · exact h.core.bounded slot
      · simp [CallPhase.everGranted]
    · exact hfull _ _ (h.full slot)
    · exact hretained _ _ rfl
  · have hnil : (s.lanes slot).waiting = [] := by
      by_contra hne
      have hle := h.full slot hne
      omega
    constructor
    · apply h.core.append (h.placed _ _) h.capacity h.current
      · rfl
      · rfl
      · simp
      · exact hfree
      · exact fun _ => hnil
    · exact hfull _ _ fun hne => absurd hnil hne
    · exact hretained _ _ rfl
  · constructor
    · apply h.core.append (h.placed _ _) h.capacity h.current
      · rfl
      · rfl
      · simp
      · exact h.core.bounded slot
      · simp [CallPhase.everGranted]
    · exact hfull _ _ fun _ => not_lt.mp hfree
    · exact hretained _ _ rfl

theorem Inv.run (h : s.Inv maxReads maxSubagents) (lane : ToolLane)
    (sessionId : Option String) (signal : Option ℕ) :
    (s.run lane sessionId signal).Inv maxReads maxSubagents := by
  unfold ToolScheduler.run
  split_ifs with hthrows
  · exact h
  · have hsession : (lane.isSessionLane && sessionId.isNone) = false :=
      Bool.not_eq_true _ ▸ hthrows
    exact (h.laneFor lane sessionId hsession).enter signal

theorem Full.dropIfIdle (h : s.Full) (key : Option String)
    (slot : LaneRef) : (s.dropIfIdle key slot).Full := by
  rcases dropIfIdle_differs s key slot with
    hsame | ⟨_, _, _, _, _, _, hdropped⟩
  · rw [hsame]
    exact h
  · rw [hdropped]
    exact h

theorem Inv.step {e : SchedulerEvent} {s' : ToolScheduler}
    (h : s.Inv maxReads maxSubagents) (hstep : s.step e = some s') :
    s'.Inv maxReads maxSubagents := by
  have hcore := h.core
  cases e with
  | run lane sessionId signal =>
      cases hstep
      exact h.run lane sessionId signal
  | start i =>
      rcases Option.bind_eq_some_iff.mp hstep with ⟨c, hcall, hite⟩
      rcases Option.ite_none_right_eq_some.mp hite with ⟨hphase, hsome⟩
      cases hsome
      constructor
      · apply hcore.rephase_aside hcall
        · simp [hphase]
        · simp
        · rw [hphase]
          rfl
        · simp [hphase, CallPhase.inUse]
        · simp [hphase, CallPhase.everGranted]
      · exact h.full
      · exact h.retained.setPhase hcall (Or.inl rfl)
  | settle i =>
      rcases Option.bind_eq_some_iff.mp hstep with ⟨c, hcall, hite⟩
      rcases Option.ite_none_right_eq_some.mp hite with ⟨hphase, hsome⟩
      cases hsome
      have hsettled := hcore.settle hcall hphase
      constructor
      · exact hsettled.dropIfIdle _ _
      · have hfull : (s.setPhase i .settled).Full := h.full
        exact hfull.release.dropIfIdle _ _
      · apply Retained.dropIfIdle hsettled
        · apply Retained.release
          · intro j hj
            rcases (hcore.waiting _ j).mp hj with ⟨d, hd, -⟩
            have hlt : j < (s.setPhase i .settled).calls.length := by
              rw [setPhase_eq hcall]
              simpa using (List.getElem?_eq_some_iff.mp hd).1
            exact ⟨_, List.getElem?_eq_getElem hlt⟩
          · exact h.retained.weaken.setPhase hcall (Or.inr rfl)
        · exact fun k n => hcore.key_of_slot (List.mem_of_getElem? hcall)
  | abort signal =>
      cases hstep
      exact ⟨hcore.abort signal, h.full.abort signal, h.retained.abort signal⟩
  | leave i =>
      rcases Option.bind_eq_some_iff.mp hstep with ⟨c, hcall, hite⟩
      rcases Option.ite_none_right_eq_some.mp hite with ⟨hphase, hsome⟩
      cases hsome
      have hthrown : (s.setPhase i .thrown).Core maxReads maxSubagents := by
        apply hcore.rephase_aside hcall
        · simp [hphase]
        · simp
        · rw [hphase]
          rfl
        · simp [CallPhase.inUse]
        · simp [CallPhase.everGranted]
      constructor
      · exact hthrown.dropIfIdle _ _
      · have hfull : (s.setPhase i .thrown).Full := h.full
        exact hfull.dropIfIdle _ _
      · apply Retained.dropIfIdle hthrown
        · exact h.retained.weaken.setPhase hcall (Or.inr rfl)
        · exact fun k n => hcore.key_of_slot (List.mem_of_getElem? hcall)

end ToolScheduler
end QiForge
