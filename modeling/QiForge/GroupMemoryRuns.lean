import QiForge.GroupMemory
import QiForge.Transition

/-!
# Group memory counts a message once

An event is its id and its room.  As long as the buffer still holds every
event that comes again, and knows no new event's id from another room, each
observed event is either buffered or in one chunk, and the chunks of a room
and its buffer count the events observed in it.  An event that comes again
once it is summarised is counted a second time.
-/

namespace QiForge

namespace GroupMemory

def BufferRow.event (row : BufferRow) : String × String :=
  (row.roomId, row.message.eventId)

def StoredChunk.summarized (stored : StoredChunk) : List (String × String) :=
  stored.events.map fun id => (stored.chunk.roomId, id)

def bufferedEvents (s : GroupMemory) : List (String × String) :=
  s.buffer.map BufferRow.event

def summarizedEvents (s : GroupMemory) : List (String × String) :=
  s.chunks.flatMap StoredChunk.summarized

/-- The messages the room's chunks count. -/
def chunkCount (s : GroupMemory) (roomId : String) : ℕ :=
  ((s.chunks.filter fun stored => decide (stored.chunk.roomId = roomId)).map
    fun stored => stored.chunk.messageCount).sum

def observedCount (s : GroupMemory) (roomId : String) : ℕ :=
  s.observed.countP fun event => decide (event.1 = roomId)

structure CountsOnce (s : GroupMemory) : Prop where
  distinct : s.observed.Nodup
  kept : ∀ event ∈ s.observed,
    event ∈ s.bufferedEvents ∨ event ∈ s.summarizedEvents
  once : s.summarizedEvents.Nodup
  single : (s.running.map CompactRun.roomId).Nodup
  count : ∀ roomId,
    s.chunkCount roomId + s.bufferCount roomId = s.observedCount roomId

/-- An event is in the buffer exactly when it was observed before. -/
def Remembers (s : GroupMemory) : GroupEvent → Prop
  | .observe roomId message _ =>
      s.isBuffered message.eventId = true ↔
        (roomId, message.eventId) ∈ s.observed
  | .compactJustInTime _ _ | .summarized _ _ _ _ | .ends _ | .reset => True

/-! ## What the tables hold -/

structure Recorded (s : GroupMemory) : Prop where
  ids : (s.buffer.map fun row => row.message.eventId).Nodup
  apart : ∀ event ∈ s.bufferedEvents, event ∉ s.summarizedEvents
  seen : ∀ event, event ∈ s.observed ↔
    event ∈ s.bufferedEvents ∨ event ∈ s.summarizedEvents
  distinct : s.observed.Nodup
  once : s.summarizedEvents.Nodup
  count : ∀ roomId,
    s.chunkCount roomId + s.bufferCount roomId = s.observedCount roomId

/-- What the compactions hold that have not ended. -/
structure Compacting (s : GroupMemory) : Prop where
  single : (s.running.map CompactRun.roomId).Nodup
  flagged : ∀ run ∈ s.running, s.compacting run.roomId = true
  drained : ∀ run ∈ s.running, ∀ drained, run.phase = .summarizing drained →
    (drained.map ObservedMessage.eventId).Nodup ∧
      ∀ message ∈ drained, ⟨run.roomId, message⟩ ∈ s.buffer

structure Sound (s : GroupMemory) : Prop where
  recorded : s.Recorded
  compactions : s.Compacting

variable {s : GroupMemory}

theorem Sound.countsOnce (h : s.Sound) : s.CountsOnce := { h.recorded with
    kept := fun event hevent => (h.recorded.seen event).mp hevent
    single := h.compactions.single }

theorem Sound.empty : empty.Sound := by
  constructor
  · constructor <;> simp [GroupMemory.empty, bufferedEvents,
      summarizedEvents, chunkCount, bufferCount, observedCount]
  · constructor <;> simp [GroupMemory.empty]

theorem Recorded.congr {s s' : GroupMemory} (h : s.Recorded)
    (hbuffer : s'.buffer = s.buffer) (hchunks : s'.chunks = s.chunks)
    (hobserved : s'.observed = s.observed) : s'.Recorded := by
  rcases h with ⟨hids, hapart, hseen, hdistinct, honce, hcount⟩
  simp only [bufferedEvents, summarizedEvents, chunkCount, bufferCount,
    observedCount] at hapart hseen honce hcount
  constructor <;> simp only [bufferedEvents, summarizedEvents, chunkCount,
    bufferCount, observedCount, hbuffer, hchunks, hobserved] <;> assumption

theorem Compacting.congr {s s' : GroupMemory} (h : s.Compacting)
    (hrunning : s'.running = s.running)
    (hcompacting : s'.compacting = s.compacting)
    (hbuffer : s.buffer ⊆ s'.buffer) : s'.Compacting := by
  constructor
  · rw [hrunning]
    exact h.single
  · rw [hrunning, hcompacting]
    exact h.flagged
  · rw [hrunning]
    intro run hrun drained hphase
    rcases h.drained run hrun drained hphase with ⟨hnodup, hrows⟩
    exact ⟨hnodup, fun message hmessage => hbuffer (hrows message hmessage)⟩

theorem isBuffered_iff {eventId : String} : s.isBuffered eventId = true ↔
      ∃ row ∈ s.buffer, row.message.eventId = eventId := by
  simp [isBuffered, List.any_eq_true]

/-- An id has one row. -/
theorem Recorded.row_unique (h : s.Recorded)
    {left right : BufferRow} (hleft : left ∈ s.buffer)
    (hright : right ∈ s.buffer)
    (hid : left.message.eventId = right.message.eventId) : left = right :=
  List.inj_on_of_nodup_map h.ids hleft hright hid

/-! ## Compactions -/

variable {roomId : String} {message : ObservedMessage}

theorem mem_bufferRows (h : message ∈ s.bufferRows roomId) :
    ⟨roomId, message⟩ ∈ s.buffer := by
  rcases List.mem_map.mp h with ⟨row, hrow, rfl⟩
  have hsorted := List.mem_of_mem_take hrow
  rw [List.mem_insertionSort, List.mem_filter, decide_eq_true_eq] at hsorted
  rcases hsorted with ⟨hmem, rfl⟩
  exact hmem

theorem bufferRows_nodup (h : s.Recorded) (roomId : String) :
    ((s.bufferRows roomId).map ObservedMessage.eventId).Nodup := by
  unfold bufferRows
  rw [List.map_map]
  set rows := s.buffer.filter fun row => decide (row.roomId = roomId)
  have hrows : (rows.map fun row => row.message.eventId).Nodup :=
    h.ids.sublist (List.filter_sublist.map _)
  have hperm := (List.perm_insertionSort
    (fun a b : BufferRow => a.message.timestamp ≤ b.message.timestamp)
    rows).map fun row => row.message.eventId
  exact (hperm.nodup_iff.mpr hrows).sublist ((List.take_sublist _ _).map _)

/-- A room without a compaction may start one. -/
theorem Compacting.start (h : s.Compacting) {phase : CompactPhase}
    (hfree : s.compacting roomId = false)
    (hdrained : ∀ drained, phase = .summarizing drained →
      (drained.map ObservedMessage.eventId).Nodup ∧
        ∀ message ∈ drained, ⟨roomId, message⟩ ∈ s.buffer) :
    Compacting { s with
      compacting := Function.update s.compacting roomId true
      running := s.running ++ [⟨roomId, phase⟩] } := by
  have hnew : ∀ run ∈ s.running, run.roomId ≠ roomId := by
    rintro run hrun rfl
    have hflag := h.flagged run hrun
    rw [hfree] at hflag
    cases hflag
  constructor
  · dsimp only
    rw [List.map_append, List.map_singleton]
    refine List.Nodup.append h.single (List.nodup_singleton _) ?_
    intro room hroom hsame
    rcases List.mem_map.mp hroom with ⟨run, hrun, rfl⟩
    exact hnew run hrun (List.mem_singleton.mp hsame)
  · intro run hrun
    dsimp only
    rcases List.mem_append.mp hrun with hold | hlast
    · rw [Function.update_of_ne (hnew run hold)]
      exact h.flagged run hold
    · rw [List.mem_singleton.mp hlast, Function.update_self]
  · intro run hrun drained hphase
    rcases List.mem_append.mp hrun with hold | hlast
    · exact h.drained run hold drained hphase
    · rw [List.mem_singleton.mp hlast] at hphase ⊢
      exact hdrained drained hphase

theorem Sound.compact (h : s.Sound) (roomId : String) :
    (s.compact roomId).Sound := by
  unfold GroupMemory.compact
  dsimp only
  split_ifs with hrunning hempty
  · exact h
  · exact ⟨h.recorded.congr rfl rfl rfl,
      h.compactions.start (Bool.not_eq_true _ ▸ hrunning) nofun⟩
  · refine ⟨h.recorded.congr rfl rfl rfl,
      h.compactions.start (Bool.not_eq_true _ ▸ hrunning) ?_⟩
    intro drained hphase
    obtain rfl := CompactPhase.summarizing.inj hphase
    exact ⟨bufferRows_nodup h.recorded roomId,
      fun message hmessage => mem_bufferRows hmessage⟩

/-! ## Captures -/

theorem Recorded.bufferAppend (h : s.Recorded)
    (hfree : s.isBuffered message.eventId = false)
    (hnew : (roomId, message.eventId) ∉ s.observed) :
    Recorded { s with
      buffer := s.buffer ++ [⟨roomId, message⟩]
      observed := s.observed ++ [(roomId, message.eventId)] } := by
  have hids : ∀ row ∈ s.buffer, row.message.eventId ≠ message.eventId := by
    intro row hrow hsame
    have hbuffered := isBuffered_iff.mpr ⟨row, hrow, hsame⟩
    rw [hfree] at hbuffered
    cases hbuffered
  have hnone : (roomId, message.eventId) ∉ s.summarizedEvents :=
    fun hmem => hnew ((h.seen _).mpr (.inr hmem))
  constructor
  · dsimp only
    rw [List.map_append, List.map_singleton]
    refine List.Nodup.append h.ids (List.nodup_singleton _) ?_
    intro id hid hsame
    rcases List.mem_map.mp hid with ⟨row, hrow, rfl⟩
    exact hids row hrow (List.mem_singleton.mp hsame)
  · intro event hevent
    simp only [bufferedEvents, List.map_append, List.map_singleton,
      List.mem_append, List.mem_singleton] at hevent
    rcases hevent with hold | rfl
    · exact h.apart event hold
    · exact hnone
  · intro event
    simp only [bufferedEvents, List.map_append, List.map_singleton,
      List.mem_append, List.mem_singleton]
    have hseen := h.seen event
    simp only [bufferedEvents] at hseen
    rw [hseen]
    simp only [summarizedEvents, BufferRow.event]
    tauto
  · dsimp only
    refine List.Nodup.append h.distinct (List.nodup_singleton _) ?_
    intro event hevent hsame
    rw [List.mem_singleton.mp hsame] at hevent
    exact hnew hevent
  · exact h.once
  · intro room
    have hcount := h.count room
    simp only [chunkCount, bufferCount, observedCount, List.countP_append,
      List.countP_singleton] at hcount ⊢
    omega

theorem Sound.observe (h : s.Sound) {now : ℕ}
    (hremembers : s.Remembers (.observe roomId message now)) :
    (s.observe roomId message now).Sound := by
  unfold GroupMemory.observe
  dsimp only
  by_cases hbuffered : s.isBuffered message.eventId = true
  · rw [if_pos hbuffered, if_pos (hremembers.mp hbuffered)]
    exact h
  · have hnew : (roomId, message.eventId) ∉ s.observed :=
      fun hmem => hbuffered (hremembers.mpr hmem)
    rw [Bool.not_eq_true] at hbuffered
    have hsound : Sound { s with
        buffer := s.buffer ++ [⟨roomId, message⟩]
        observed := s.observed ++ [(roomId, message.eventId)] } :=
      ⟨h.recorded.bufferAppend hbuffered hnew,
        h.compactions.congr rfl rfl (List.subset_append_left _ _)⟩
    have happend : ∀ observed, GroupMemory.bufferAppend
        { s with observed := observed } roomId message =
        { s with
          buffer := s.buffer ++ [⟨roomId, message⟩]
          observed := observed } := by
      intro observed
      have hfree : isBuffered { s with observed := observed }
          message.eventId = false := hbuffered
      simp [GroupMemory.bufferAppend, hfree]
    rw [if_neg (by rw [hbuffered]; decide), if_neg hnew, happend]
    split_ifs
    · exact hsound.compact roomId
    · exact hsound

theorem Sound.compactJustInTime (h : s.Sound) (roomId : String) (now : ℕ) :
    (s.compactJustInTime roomId now).Sound := by
  unfold GroupMemory.compactJustInTime
  split_ifs
  · exact h
  · exact h
  · exact h.compact roomId

/-! ## Chunks -/

variable {drained : List ObservedMessage}

/-- What the buffer holds of the drained messages. -/
theorem Recorded.drained_rows (h : s.Recorded)
    (hnodup : (drained.map ObservedMessage.eventId).Nodup)
    (hrows : ∀ message ∈ drained, ⟨roomId, message⟩ ∈ s.buffer) :
    (s.buffer.filter fun row =>
      decide (row.message.eventId ∈ drained.map ObservedMessage.eventId)).Perm
      (drained.map fun message => ⟨roomId, message⟩) := by
  rw [List.perm_ext_iff_of_nodup]
  · intro row
    rw [List.mem_filter, decide_eq_true_eq]
    constructor
    · rintro ⟨hrow, hid⟩
      rcases List.mem_map.mp hid with ⟨message, hmessage, hsame⟩
      rw [h.row_unique hrow (hrows message hmessage) hsame.symm]
      exact List.mem_map_of_mem hmessage
    · intro hrow
      rcases List.mem_map.mp hrow with ⟨message, hmessage, rfl⟩
      exact ⟨hrows message hmessage, List.mem_map_of_mem hmessage⟩
  · exact (h.ids.of_map _).filter _
  · apply List.Nodup.of_map (fun row => row.message.eventId)
    rw [List.map_map]
    exact hnodup

theorem Recorded.bufferCount_drained (h : s.Recorded)
    (hnodup : (drained.map ObservedMessage.eventId).Nodup)
    (hrows : ∀ message ∈ drained, ⟨roomId, message⟩ ∈ s.buffer)
    (room : String) :
    s.bufferCount room =
      (s.bufferDelete (drained.map ObservedMessage.eventId)).bufferCount room +
        if roomId = room then drained.length else 0 := by
  unfold bufferCount bufferDelete
  rw [List.countP_eq_countP_filter_add s.buffer _ fun row =>
      decide (row.message.eventId ∈ drained.map ObservedMessage.eventId),
    (h.drained_rows hnodup hrows).countP_eq, Nat.add_comm]
  simp only [List.countP_map]
  congr 1
  split_ifs with hroom
  · exact List.countP_eq_length.mpr fun _ _ => by simp [hroom]
  · exact List.countP_eq_zero.mpr fun _ _ => by simp [hroom]

/-- A chunk of drained messages takes their place. -/
theorem Recorded.store {s s' : GroupMemory} (h : s.Recorded)
    {chunk : ChannelMemoryChunk}
    (hnodup : (drained.map ObservedMessage.eventId).Nodup)
    (hrows : ∀ message ∈ drained, ⟨chunk.roomId, message⟩ ∈ s.buffer)
    (hcounts : chunk.messageCount = drained.length)
    (hbuffer : s'.buffer = (s.bufferDelete
      (drained.map ObservedMessage.eventId)).buffer)
    (hchunks : s'.chunks = s.chunks ++
      [⟨chunk, drained.map ObservedMessage.eventId⟩])
    (hobserved : s'.observed = s.observed) : s'.Recorded := by
  have hsummarized : s'.summarizedEvents = s.summarizedEvents ++
      drained.map fun message => (chunk.roomId, message.eventId) := by
    simp only [summarizedEvents, hchunks, List.flatMap_append,
      List.flatMap_singleton, StoredChunk.summarized, List.map_map]
    rfl
  have hmoved : ∀ message ∈ drained,
      (chunk.roomId, message.eventId) ∈ s.bufferedEvents :=
    fun message hmessage => List.mem_map_of_mem (hrows message hmessage)
  have hleft : ∀ event, event ∈ s'.bufferedEvents ↔ event ∈ s.bufferedEvents ∧
        event.2 ∉ drained.map ObservedMessage.eventId := by
    intro event
    simp only [bufferedEvents, hbuffer, bufferDelete]
    constructor
    · intro hevent
      rcases List.mem_map.mp hevent with ⟨row, hrow, rfl⟩
      rw [List.mem_filter, Bool.not_eq_true', decide_eq_false_iff_not] at hrow
      exact ⟨List.mem_map_of_mem hrow.1, hrow.2⟩
    · rintro ⟨hevent, hkept⟩
      rcases List.mem_map.mp hevent with ⟨row, hrow, rfl⟩
      apply List.mem_map_of_mem
      rw [List.mem_filter, Bool.not_eq_true', decide_eq_false_iff_not]
      exact ⟨hrow, hkept⟩
  constructor
  · rw [hbuffer]
    exact h.ids.sublist (List.filter_sublist.map _)
  · intro event hevent hchunk
    rcases (hleft event).mp hevent with ⟨hbuffered, hkept⟩
    rw [hsummarized] at hchunk
    rcases List.mem_append.mp hchunk with hold | hnew
    · exact h.apart event hbuffered hold
    · rcases List.mem_map.mp hnew with ⟨message, hmessage, rfl⟩
      exact hkept (List.mem_map_of_mem hmessage)
  · intro event
    rw [hobserved, h.seen, hleft, hsummarized, List.mem_append]
    constructor
    · rintro (hbuffered | hold)
      · by_cases hdrained : event.2 ∈ drained.map ObservedMessage.eventId
        · rcases List.mem_map.mp hdrained with ⟨message, hmessage, hid⟩
          rcases List.mem_map.mp hbuffered with ⟨row, hrow, rfl⟩
          have hsame := h.row_unique hrow (hrows message hmessage) hid.symm
          subst hsame
          exact .inr (.inr (List.mem_map_of_mem hmessage))
        · exact .inl ⟨hbuffered, hdrained⟩
      · exact .inr (.inl hold)
    · rintro (⟨hbuffered, -⟩ | hold | hnew)
      · exact .inl hbuffered
      · exact .inr hold
      · rcases List.mem_map.mp hnew with ⟨message, hmessage, rfl⟩
        exact .inl (hmoved message hmessage)
  · rw [hobserved]
    exact h.distinct
  · rw [hsummarized]
    refine List.Nodup.append h.once ?_ ?_
    · apply List.Nodup.of_map Prod.snd
      rw [List.map_map]
      exact hnodup
    · intro event hold hnew
      rcases List.mem_map.mp hnew with ⟨message, hmessage, rfl⟩
      exact h.apart _ (hmoved message hmessage) hold
  · intro room
    have hcount := h.count room
    have hbufferCount : s'.bufferCount room = (s.bufferDelete
        (drained.map ObservedMessage.eventId)).bufferCount room := by
      unfold bufferCount
      rw [hbuffer]
    have hchunkCount : s'.chunkCount room = s.chunkCount room +
        if chunk.roomId = room then drained.length else 0 := by
      unfold chunkCount
      rw [hchunks, List.filter_append, List.map_append, List.sum_append]
      split_ifs with hroom <;> simp [hroom, hcounts]
    have hobservedCount : s'.observedCount room = s.observedCount room := by
      unfold observedCount
      rw [hobserved]
    rw [h.bufferCount_drained hnodup hrows] at hcount
    rw [hbufferCount, hchunkCount, hobservedCount]
    omega

theorem settle_cases (s : GroupMemory) (roomId : String)
    (drained : List ObservedMessage) (outcome : SummaryOutcome) (now : ℕ)
    (newId : String) :
    let s' := s.settle roomId drained outcome now newId
    (s'.running = s.running ∧ s'.compacting = s.compacting ∧
        s'.observed = s.observed) ∧
      ((s'.buffer = s.buffer ∧ s'.chunks = s.chunks) ∨
        ∃ chunk : ChannelMemoryChunk, chunk.roomId = roomId ∧
          chunk.messageCount = drained.length ∧
          s'.buffer = (s.bufferDelete
            (drained.map ObservedMessage.eventId)).buffer ∧
          s'.chunks = s.chunks ++
            [⟨chunk, drained.map ObservedMessage.eventId⟩]) := by
  unfold settle
  split
  next summary first last _ _ =>
    split_ifs
    · exact ⟨⟨rfl, rfl, rfl⟩, .inl ⟨rfl, rfl⟩⟩
    · exact ⟨⟨rfl, rfl, rfl⟩, .inr ⟨_, rfl, rfl, rfl, rfl⟩⟩
  next => exact ⟨⟨rfl, rfl, rfl⟩, .inl ⟨rfl, rfl⟩⟩

/-- A room has one compaction. -/
theorem Compacting.index_unique (h : s.Compacting)
    {i j : ℕ} {left right : CompactRun} (hleft : s.running[i]? = some left)
    (hright : s.running[j]? = some right)
    (hroom : left.roomId = right.roomId) : i = j := by
  have hlt : i < (s.running.map CompactRun.roomId).length := by
    rw [List.length_map]
    exact (List.getElem?_eq_some_iff.mp hleft).1
  apply (List.getElem?_inj hlt h.single).mp
  rw [List.getElem?_map, List.getElem?_map, hleft, hright, Option.map_some,
    Option.map_some, hroom]

theorem rooms_set {runs : List CompactRun} {index : ℕ}
    {old new : CompactRun} (hold : runs[index]? = some old)
    (hroom : new.roomId = old.roomId) :
    (runs.set index new).map CompactRun.roomId =
      runs.map CompactRun.roomId := by
  apply List.ext_getElem?
  intro i
  rw [List.getElem?_map, List.getElem?_map, List.getElem?_set]
  split_ifs with hi hlt
  · subst hi
    rw [hold, Option.map_some, Option.map_some, hroom]
  · subst hi
    exact absurd (List.getElem?_eq_some_iff.mp hold).1 hlt
  · rfl

/-- A room's compaction is the only one that drains its messages. -/
theorem Sound.kept_row (h : s.Sound) {run other : ℕ}
    {roomId room : String} {drained held : List ObservedMessage}
    (hrun : s.running[run]? = some ⟨roomId, .summarizing drained⟩)
    (hother : s.running[other]? = some ⟨room, .summarizing held⟩)
    (hne : other ≠ run)
    (hmessage : message ∈ held) :
    ⟨room, message⟩ ∈ (s.bufferDelete
      (drained.map ObservedMessage.eventId)).buffer := by
  have hrow := (h.compactions.drained _ (List.mem_of_getElem? hother) held
    rfl).2 message hmessage
  unfold bufferDelete
  rw [List.mem_filter, Bool.not_eq_true', decide_eq_false_iff_not]
  refine ⟨hrow, fun hdrained => hne ?_⟩
  rcases List.mem_map.mp hdrained with ⟨twin, htwin, hid⟩
  have htwinRow := (h.compactions.drained _ (List.mem_of_getElem? hrun)
    drained rfl).2 twin htwin
  have hsame := h.recorded.row_unique hrow htwinRow hid.symm
  have hroom : room = roomId := congrArg BufferRow.roomId hsame
  subst hroom
  exact h.compactions.index_unique hother hrun rfl

theorem Sound.summarized {s s' : GroupMemory} (h : s.Sound) {run : ℕ}
    {outcome : SummaryOutcome} {now : ℕ} {newId : String}
    (hstep : s.summarized run outcome now newId = some s') : s'.Sound := by
  unfold GroupMemory.summarized at hstep
  split at hstep
  next roomId drained hrun =>
    cases hstep
    have hmem := List.mem_of_getElem? hrun
    rcases h.compactions.drained _ hmem drained rfl with ⟨hnodup, hrows⟩
    rcases settle_cases s roomId drained outcome now newId with
      ⟨⟨hrunning, hcompacting, hobserved⟩, hcase⟩
    constructor
    · rcases hcase with ⟨hbuffer, hchunks⟩ |
        ⟨chunk, rfl, hcounts, hbuffer, hchunks⟩
      · exact h.recorded.congr hbuffer hchunks hobserved
      · exact h.recorded.store hnodup hrows hcounts hbuffer hchunks hobserved
    · constructor
      · dsimp only
        have hrooms : (s.running.set run ⟨roomId, .settled⟩).map
            CompactRun.roomId = s.running.map CompactRun.roomId :=
          rooms_set hrun rfl
        rw [hrunning, hrooms]
        exact h.compactions.single
      · intro other hother
        dsimp only at hother ⊢
        rw [hrunning] at hother
        rw [hcompacting]
        rcases List.mem_or_eq_of_mem_set hother with hold | rfl
        · exact h.compactions.flagged other hold
        · have hflag := h.compactions.flagged _ hmem
          exact hflag
      · intro other hother held hphase
        dsimp only at hother ⊢
        rw [hrunning] at hother
        rcases List.getElem?_of_mem hother with ⟨index, hindex⟩
        rw [List.getElem?_set] at hindex
        split_ifs at hindex with hsame hlt
        · cases hindex
          cases hphase
        · have hold := List.mem_of_getElem? hindex
          refine ⟨(h.compactions.drained other hold held hphase).1,
            fun message hmessage => ?_⟩
          rcases hcase with ⟨hbuffer, -⟩ | ⟨chunk, -, -, hbuffer, -⟩
          · rw [hbuffer]
            exact (h.compactions.drained other hold held hphase).2 message
              hmessage
          · rw [hbuffer]
            rcases other with ⟨room, phase⟩
            dsimp only at hphase
            subst hphase
            exact h.kept_row hrun hindex (Ne.symm hsame) hmessage
  next => cases hstep
  next => cases hstep

theorem Sound.ends {s s' : GroupMemory} (h : s.Sound) {run : ℕ}
    (hstep : s.ends run = some s') : s'.Sound := by
  unfold GroupMemory.ends at hstep
  split at hstep
  next roomId hrun =>
    cases hstep
    refine ⟨h.recorded.congr rfl rfl rfl, ?_⟩
    have hsub := List.eraseIdx_sublist s.running run
    constructor
    · exact h.compactions.single.sublist (hsub.map _)
    · intro other hother
      dsimp only
      rw [Function.update_of_ne]
      · exact h.compactions.flagged other (hsub.subset hother)
      · intro hroom
        rcases List.mem_eraseIdx_iff_getElem?.mp hother with
          ⟨index, hne, hindex⟩
        exact hne (h.compactions.index_unique hindex hrun hroom)
    · intro other hother
      exact h.compactions.drained other (hsub.subset hother)
  next => cases hstep
  next => cases hstep

theorem Sound.reset (h : s.Sound) : s.reset.Sound := by
  refine ⟨h.recorded.congr rfl rfl rfl, ?_⟩
  constructor
  · exact List.nodup_nil
  · intro run hrun
    cases hrun
  · intro run hrun
    cases hrun

theorem Sound.step {s s' : GroupMemory} {event : GroupEvent} (h : s.Sound)
    (hremembers : s.Remembers event) (hstep : s.step event = some s') :
    s'.Sound := by
  cases event with
  | observe roomId message now =>
      cases hstep
      exact h.observe hremembers
  | compactJustInTime roomId now =>
      cases hstep
      exact h.compactJustInTime roomId now
  | summarized run outcome now newId => exact h.summarized hstep
  | ends run => exact h.ends hstep
  | reset =>
      cases hstep
      exact h.reset

/-! ## Events that come again -/

theorem compact_count (s : GroupMemory) (roomId room : String) :
    (s.compact roomId).chunkCount room = s.chunkCount room ∧
      (s.compact roomId).bufferCount room = s.bufferCount room ∧
      (s.compact roomId).observedCount room = s.observedCount room := by
  unfold compact
  split_ifs <;> exact ⟨rfl, rfl, rfl⟩

theorem Sound.breaks (h : s.Sound) {event : GroupEvent}
    (hforgets : ¬ s.Remembers event) :
    ∃ s', s.step event = some s' ∧ ¬ s'.CountsOnce := by
  cases event with
  | compactJustInTime _ _ => exact absurd trivial hforgets
  | summarized _ _ _ _ => exact absurd trivial hforgets
  | ends _ => exact absurd trivial hforgets
  | reset => exact absurd trivial hforgets
  | observe roomId message now =>
      refine ⟨_, rfl, fun hcounts => ?_⟩
      have hafter := hcounts.count roomId
      have hbefore := h.recorded.count roomId
      unfold GroupMemory.observe at hafter
      dsimp only at hafter
      by_cases hbuffered : s.isBuffered message.eventId = true
      · have hnew : (roomId, message.eventId) ∉ s.observed :=
          fun hmem => hforgets ⟨fun _ => hmem, fun _ => hbuffered⟩
        rw [if_pos hbuffered, if_neg hnew] at hafter
        simp only [chunkCount, bufferCount, observedCount,
          List.countP_append, List.countP_singleton] at hafter hbefore
        simp at hafter
        omega
      · have hold : (roomId, message.eventId) ∈ s.observed := by
          by_contra hnew
          exact hforgets ⟨fun hmem => absurd hmem hbuffered,
            fun hmem => absurd hmem hnew⟩
        rw [Bool.not_eq_true] at hbuffered
        have happend : s.bufferAppend roomId message =
            { s with buffer := s.buffer ++ [⟨roomId, message⟩] } := by
          simp [GroupMemory.bufferAppend, hbuffered]
        rw [if_neg (by rw [hbuffered]; decide), if_pos hold] at hafter
        have hsame : ({ s with observed := s.observed } : GroupMemory) = s :=
          rfl
        rw [hsame, happend] at hafter
        have hchunk : chunkCount { s with
            buffer := s.buffer ++ [⟨roomId, message⟩] } roomId =
            s.chunkCount roomId := rfl
        have hbuffer : bufferCount { s with
            buffer := s.buffer ++ [⟨roomId, message⟩] } roomId =
            s.bufferCount roomId + 1 := by
          simp [bufferCount]
        have hobserved : observedCount { s with
            buffer := s.buffer ++ [⟨roomId, message⟩] } roomId =
            s.observedCount roomId := rfl
        split_ifs at hafter
        · rcases compact_count { s with
            buffer := s.buffer ++ [⟨roomId, message⟩] } roomId roomId with
            ⟨hchunk', hbuffer', hobserved'⟩
          rw [hchunk', hbuffer', hobserved', hchunk, hbuffer, hobserved]
            at hafter
          omega
        · rw [hchunk, hbuffer, hobserved] at hafter
          omega

/-- In exactly the runs where no event comes again after it left the buffer,
nor with the id of another room's buffered event, each event is counted once
in every state. -/
theorem counts_once (events : List GroupEvent) :
    (∀ front back s, events = front ++ back →
        Transition.run step empty front = some s → s.CountsOnce) ↔
      Transition.Meets step Remembers empty events :=
  Transition.forall_states_iff_meets
    (fun _ _ _ h hremembers hstep => h.step hremembers hstep)
    (fun _ h => h.countsOnce) (fun _ _ h hforgets => h.breaks hforgets)
    Sound.empty

section Runs

def said (eventId : String) (timestamp : ℤ) : ObservedMessage where
  eventId := eventId
  threadId := "$thread"
  senderDid := "did:ixo:alice"
  senderMatrixUserId := "@alice:ixo.world"
  senderDisplayName := "Alice"
  body := "hello"
  timestamp := timestamp

/-- Five messages are summarised before the bot answers, and the object is
restarted before it could take the last one out of its inbox. -/
def replayed : List GroupEvent :=
  [.observe "!room" (said "$1" 1) 10, .observe "!room" (said "$2" 2) 20,
    .observe "!room" (said "$3" 3) 30, .observe "!room" (said "$4" 4) 40,
    .observe "!room" (said "$5" 5) 50, .compactJustInTime "!room" 60,
    .summarized 0 (.text "They said hello.") 70 "chunk-1", .ends 0, .reset,
    .observe "!room" (said "$5" 5) 80]

/-- The replayed event is counted a second time. -/
theorem replayed_counted_twice :
    ∃ s, Transition.run step empty replayed = some s ∧
      s.observedCount "!room" = 5 ∧
      s.chunkCount "!room" + s.bufferCount "!room" = 6 ∧
      ¬ s.CountsOnce := by
  cases hrun : Transition.run step empty replayed with
  | none =>
      have hruns : (Transition.run step empty replayed).isSome = true := by
        decide +kernel
      rw [hrun] at hruns
      cases hruns
  | some s =>
      have hcounts : (Transition.run step empty replayed).map (fun s =>
          (s.observedCount "!room",
            s.chunkCount "!room" + s.bufferCount "!room")) =
          some (5, 6) := by
        decide +kernel
      rw [hrun, Option.map_some, Option.some.injEq, Prod.mk.injEq] at hcounts
      refine ⟨s, rfl, hcounts.1, hcounts.2, fun honce => ?_⟩
      have hcount := honce.count "!room"
      rw [hcounts.1, hcounts.2] at hcount
      cases hcount

end Runs

end GroupMemory

end QiForge
