import QiForge.RunStream

/-!
# Delivery under drops

Between two connections the client has handed out exactly the frames up to its
cursor (`Caught`).  Reading a connection, cut anywhere, moves the cursor on or
ends the stream with all of them.
-/

namespace QiForge

/-- The run id is one the client re-joins with. -/
def RunStreamState.hasRun (s : RunStreamState) : Bool :=
  s.runId.any fun r => decide (r ≠ [])

theorem RunStreamState.hasRun_iff {s : RunStreamState} :
    s.hasRun = true ↔ ∃ r, s.runId = some r ∧ r ≠ [] := by
  unfold RunStreamState.hasRun
  rw [Option.any_eq_true]
  simp

/-- The events of the frames a client knows. -/
def eventsOf (frames : List RunFrame) : List SSEEvent :=
  frames.filterMap RunFrame.toEvent?

def framesOf (writes : List SseWrite) : List RunFrame := writes.filterMap fun
    | .frame f => some f
    | .heartbeat => none

/-- The text a frame makes of the one shown, when it announces no restart. -/
def applyText (text : JsString) (event : SSEEvent) : JsString :=
  match event.event with
  | .message => text ++ event.content
  | .done => event.replacedText.getD text
  | _ => text

/-- The frames of a run that was never restarted. -/
structure NumberedRun (frames : List RunFrame) : Prop where
  ids : frames.map RunFrame.id = List.range' 1 frames.length
  ends : ∃ front last event, frames = front ++ [last] ∧
    last.toEvent? = some event ∧ event.event = .done ∧
    ∀ e ∈ eventsOf front, e.event ≠ .done
  notRestarted : ∀ e ∈ eventsOf frames, e.event = .run → e.isResumed = false

/-- The response carries the frames behind the cursor, perhaps with older ones
in between, and is cut at some byte unless it is whole. -/
def Delivers (frames : List RunFrame) (after : ℕ) (whole : Bool)
    (response : SseResponse) : Prop :=
  response.ok = true ∧ ∃ writes body k, response.body = some body ∧
    (∀ f ∈ framesOf writes, f ∈ frames) ∧
    ((framesOf writes).filter fun f => decide (after < f.id)) =
      (frames.filter fun f => decide (after < f.id)) ∧
    body.chunks.flatten = (encodeText (writes.flatMap SseWrite.text)).take k ∧
    (whole = true → (encodeText (writes.flatMap SseWrite.text)).length ≤ k)

section Frames

variable {event : SSEEvent} {s : RunStreamState}

theorem moveCursor_lastId :
    (moveCursor s event).lastId = max s.lastId (event.id.getD 0) := by
  unfold moveCursor
  cases event.id with
  | none => simp
  | some id =>
      dsimp only [Option.getD_some]
      split_ifs with hlt
      · exact (Nat.max_eq_right hlt.le).symm
      · exact (Nat.max_eq_left (not_lt.mp hlt)).symm

theorem moveCursor_differs :
    ∃ id, moveCursor s event = { s with lastId := id } := by
  unfold moveCursor
  cases event.id with
  | none => exact ⟨s.lastId, rfl⟩
  | some id =>
      dsimp only
      split_ifs
      · exact ⟨id, rfl⟩
      · exact ⟨s.lastId, rfl⟩

/-- What a frame's data does to the state: the cursor stays, a known run id
stays, and the text changes as `applyText` says. -/
theorem applyData_spec
    (hrestart : event.event = .run → event.isResumed = false) :
    (applyData s event).lastId = s.lastId ∧
      (s.hasRun = true → (applyData s event).hasRun = true) ∧
      (applyData s event).text = applyText s.text event := by
  unfold applyData applyText
  cases hevent : event.event with
  | run =>
      rw [if_neg (by simp [hrestart hevent])]
      refine ⟨rfl, ?_, rfl⟩
      intro hknown
      rcases RunStreamState.hasRun_iff.mp hknown with ⟨runId, hrun, hne⟩
      simp [RunStreamState.hasRun, hrun, hne]
  | done =>
      cases event.replacedText with
      | none => exact ⟨rfl, id, rfl⟩
      | some text => exact ⟨rfl, id, rfl⟩
  | _ => exact ⟨rfl, id, rfl⟩

theorem applyFrame_spec
    (hrestart : event.event = .run → event.isResumed = false) :
    (applyFrame s event).lastId = max s.lastId (event.id.getD 0) ∧
      (s.hasRun = true → (applyFrame s event).hasRun = true) ∧
      (applyFrame s event).text = applyText s.text event := by
  rcases @applyData_spec event (moveCursor s event) hrestart with
    ⟨hlast, hrun, htext⟩
  rcases @moveCursor_differs event s with ⟨id, hmoved⟩
  refine ⟨?_, ?_, ?_⟩
  · exact hlast.trans moveCursor_lastId
  · rw [hmoved] at hrun
    unfold applyFrame
    rw [hmoved]
    exact hrun
  · unfold applyFrame
    rw [htext, hmoved]

end Frames

section Events

variable {frames front back : List RunFrame}

theorem eventsOf_append (front back : List RunFrame) :
    eventsOf (front ++ back) = eventsOf front ++ eventsOf back :=
  List.filterMap_append

theorem toEvent?_id {f : RunFrame} {e : SSEEvent}
    (h : f.toEvent? = some e) (hid : 0 < f.id) : e.id = some f.id := by
  unfold RunFrame.toEvent? at h
  rcases Option.map_eq_some_iff.mp h with ⟨known, -, rfl⟩
  simp [hid]

/-- Frames at or below the cursor are skipped. -/
theorem consumeEvents_filter {c : ℕ} {s : RunStreamState}
    (hc : c ≤ s.lastId) (frames : List RunFrame)
    (hids : ∀ f ∈ frames, 0 < f.id)
    (hrestart : ∀ e ∈ eventsOf frames, e.event = .run → e.isResumed = false) :
    consumeEvents s (eventsOf frames) = consumeEvents s
        (eventsOf (frames.filter fun f => decide (c < f.id))) := by
  induction frames generalizing s with
  | nil => rfl
  | cons f frames ih =>
      have hrest : ∀ g ∈ frames, 0 < g.id :=
        fun g hg => hids g (List.mem_cons_of_mem _ hg)
      cases hevent : f.toEvent? with
      | none =>
          have hcons : eventsOf (f :: frames) = eventsOf frames :=
            List.filterMap_cons_none hevent
          rw [hcons] at hrestart ⊢
          have hsame := ih hc hrest hrestart
          rw [hsame, List.filter_cons]
          split_ifs
          · rw [show eventsOf (f :: frames.filter fun f =>
              decide (c < f.id)) = eventsOf (frames.filter fun f =>
              decide (c < f.id)) from List.filterMap_cons_none hevent]
          · rfl
      | some e =>
          have hcons : ∀ l, eventsOf (f :: l) = e :: eventsOf l :=
            fun l => List.filterMap_cons_some hevent
          rw [hcons] at hrestart ⊢
          have hid := toEvent?_id hevent (hids f (by simp))
          have hnext : ∀ e' ∈ eventsOf frames, e'.event = .run →
              e'.isResumed = false :=
            fun e' he' => hrestart e' (List.mem_cons_of_mem _ he')
          rw [List.filter_cons]
          by_cases hlt : c < f.id
          · rw [if_pos (by simpa using hlt), hcons]
            have hgrow : c ≤ (applyFrame s e).lastId := by
              rw [(applyFrame_spec (hrestart e (by simp))).1]
              exact hc.trans (Nat.le_max_left _ _)
            simp only [consumeEvents]
            rw [ih hc hrest hnext, ih hgrow hrest hnext]
          · rw [if_neg (by simpa using hlt)]
            have hskip : (e.id.any fun id => decide (id ≤ s.lastId)) =
                true := by
              rw [hid]
              simp
              omega
            rw [consumeEvents, if_pos hskip]
            exact ih hc hrest hnext

/-- What reading frames above the cursor comes to, when `done` is not among
them. -/
structure Progress (s : RunStreamState) (frames : List RunFrame)
    (r : Consumed) : Prop where
  handed : r.handed = eventsOf frames
  isOpen : r.done = none
  text : r.state.text = (eventsOf frames).foldl applyText s.text
  cursor : r.state.lastId = s.lastId ∨ ∃ f ∈ frames, r.state.lastId = f.id
  grows : s.lastId ≤ r.state.lastId
  unknown : ∀ f ∈ frames, r.state.lastId < f.id → f.toEvent? = none
  run : s.hasRun = true → r.state.hasRun = true

theorem consumeEvents_progress {s : RunStreamState} (frames : List RunFrame)
    (hsorted : frames.Pairwise fun f g => f.id < g.id)
    (hnew : ∀ f ∈ frames, s.lastId < f.id)
    (hrestart : ∀ e ∈ eventsOf frames, e.event = .run → e.isResumed = false)
    (hdone : ∀ e ∈ eventsOf frames, e.event ≠ .done) :
    Progress s frames (consumeEvents s (eventsOf frames)) := by
  induction frames generalizing s with
  | nil =>
      constructor
      · rfl
      · rfl
      · rfl
      · exact Or.inl rfl
      · exact le_rfl
      · exact fun f hf => absurd hf (by simp)
      · exact id
  | cons f frames ih =>
      rw [List.pairwise_cons] at hsorted
      have hf : s.lastId < f.id := hnew f (by simp)
      cases hevent : f.toEvent? with
      | none =>
          have hcons : eventsOf (f :: frames) = eventsOf frames :=
            List.filterMap_cons_none hevent
          rw [hcons] at hrestart hdone ⊢
          have hrest := ih hsorted.2
            (fun g hg => hf.trans (hsorted.1 g hg)) hrestart hdone
          constructor
          · rw [hcons]
            exact hrest.handed
          · exact hrest.isOpen
          · rw [hcons]
            exact hrest.text
          · rcases hrest.cursor with hsame | ⟨g, hg, hid⟩
            · exact Or.inl hsame
            · exact Or.inr ⟨g, List.mem_cons_of_mem _ hg, hid⟩
          · exact hrest.grows
          · intro g hg hlt
            rcases List.mem_cons.mp hg with rfl | hg
            · exact hevent
            · exact hrest.unknown g hg hlt
          · exact hrest.run
      | some e =>
          have hcons : eventsOf (f :: frames) = e :: eventsOf frames :=
            List.filterMap_cons_some hevent
          have hid := toEvent?_id hevent (by omega)
          have hspec := @applyFrame_spec e s (hrestart e (by simp [hcons]))
          have hlast : (applyFrame s e).lastId = f.id := by
            rw [hspec.1, hid]
            exact Nat.max_eq_right hf.le
          have hrest := @ih (applyFrame s e) hsorted.2 (fun g hg => by
              rw [hlast]
              exact hsorted.1 g hg)
            (fun e' he' => hrestart e' (by simp [hcons, he']))
            (fun e' he' => hdone e' (by simp [hcons, he']))
          have hskip : ¬(e.id.any fun id => decide (id ≤ s.lastId)) =
              true := by
            rw [hid]
            simp
            omega
          have hstep : consumeEvents s (eventsOf (f :: frames)) =
              { consumeEvents (applyFrame s e) (eventsOf frames) with
                handed := e :: (consumeEvents (applyFrame s e)
                  (eventsOf frames)).handed } := by
            rw [hcons, consumeEvents, if_neg hskip]
            exact if_neg (hdone e (by simp [hcons]))
          rw [hstep]
          constructor
          · rw [hcons, hrest.handed]
          · exact hrest.isOpen
          · rw [hcons, List.foldl_cons, ← hspec.2.2]
            exact hrest.text
          · right
            rcases hrest.cursor with hsame | ⟨g, hg, hgid⟩
            · exact ⟨f, by simp, hsame.trans hlast⟩
            · exact ⟨g, List.mem_cons_of_mem _ hg, hgid⟩
          · have hgrows := hrest.grows
            rw [hlast] at hgrows
            exact hf.le.trans hgrows
          · intro g hg hlt
            rcases List.mem_cons.mp hg with rfl | hg
            · have hgrows := hrest.grows
              rw [hlast] at hgrows
              exact absurd hgrows (not_le.mpr hlt)
            · exact hrest.unknown g hg hlt
          · exact fun hrun => hrest.run (hspec.2.1 hrun)

theorem consumeEvents_append {s : RunStreamState} {front : List SSEEvent}
    (hopen : (consumeEvents s front).done = none) (back : List SSEEvent) :
    consumeEvents s (front ++ back) =
      { consumeEvents (consumeEvents s front).state back with
        handed := (consumeEvents s front).handed ++
          (consumeEvents (consumeEvents s front).state back).handed } := by
  induction front generalizing s with
  | nil => rfl
  | cons e front ih =>
      simp only [List.cons_append, consumeEvents] at hopen ⊢
      split_ifs at hopen ⊢ with hskip hdone
      · exact ih hopen
      · rw [ih hopen]
        rfl

/-- Behind the frames, the `done` frame. -/
theorem consumeEvents_done {s : RunStreamState} {front : List RunFrame}
    {last : RunFrame} {event : SSEEvent}
    (hfront : Progress s front (consumeEvents s (eventsOf front)))
    (hlast : last.toEvent? = some event) (hevent : event.event = .done)
    (hnew : (consumeEvents s (eventsOf front)).state.lastId < last.id) :
    let r := consumeEvents s (eventsOf (front ++ [last]))
    r.handed = eventsOf (front ++ [last]) ∧ r.done = some event.data ∧
      r.state.text = (eventsOf (front ++ [last])).foldl applyText s.text := by
  have hsingle : eventsOf [last] = [event] := by
    simp [eventsOf, hlast]
  have hid := toEvent?_id hlast (by omega)
  have hskip : ¬(event.id.any fun id => decide
      (id ≤ (consumeEvents s (eventsOf front)).state.lastId)) = true := by
    rw [hid]
    simp
    omega
  have hread : consumeEvents (consumeEvents s (eventsOf front)).state [event] =
      ⟨applyFrame (consumeEvents s (eventsOf front)).state event, [event],
        some event.data⟩ := by
    rw [consumeEvents, if_neg hskip]
    exact if_pos hevent
  rw [eventsOf_append, hsingle]
  rw [consumeEvents_append hfront.isOpen, hread]
  refine ⟨?_, rfl, ?_⟩
  · rw [hfront.handed]
  · rw [List.foldl_append, ← hfront.text]
    apply (applyFrame_spec _).2.2
    simp [hevent]

end Events

section Sorted

variable {frames : List RunFrame}

theorem filter_split
    (hsorted : frames.Pairwise fun f g => f.id < g.id) (c : ℕ) :
    frames = (frames.filter fun f => decide (f.id ≤ c)) ++
      frames.filter fun f => decide (c < f.id) := by
  induction frames with
  | nil => rfl
  | cons f frames ih =>
      rw [List.pairwise_cons] at hsorted
      by_cases hle : f.id ≤ c
      · have hnot : ¬c < f.id := by omega
        simp only [List.filter_cons, hle, hnot, decide_true, if_true,
          decide_false, Bool.false_eq_true, if_false, List.cons_append]
        rw [← ih hsorted.2]
      · have hlt : c < f.id := by omega
        have hnone : (frames.filter fun g => decide (g.id ≤ c)) = [] := by
          rw [List.filter_eq_nil_iff]
          intro g hg
          have := hsorted.1 g hg
          simp
          omega
        have hall : (frames.filter fun g => decide (c < g.id)) = frames := by
          rw [List.filter_eq_self]
          intro g hg
          have := hsorted.1 g hg
          simp
          omega
        simp [hle, hlt, hnone, hall]

/-- Frames above the cursor that the client does not know change nothing. -/
theorem eventsOf_filter {c : ℕ} (l : List RunFrame)
    (hunknown : ∀ f ∈ l, c < f.id → f.toEvent? = none) :
    eventsOf (l.filter fun f => decide (f.id ≤ c)) = eventsOf l := by
  induction l with
  | nil => rfl
  | cons f l ih =>
      have hrest := ih fun g hg => hunknown g (List.mem_cons_of_mem _ hg)
      rw [List.filter_cons]
      split_ifs with hle
      · cases hevent : f.toEvent? with
        | none =>
            simp only [eventsOf, List.filterMap_cons, hevent]
            exact hrest
        | some e =>
            simp only [eventsOf, List.filterMap_cons, hevent]
            rw [← eventsOf, ← eventsOf, hrest]
      · have hlt : c < f.id := by simpa using hle
        rw [hrest]
        simp [eventsOf, hunknown f (by simp) hlt]

end Sorted

def upTo (frames : List RunFrame) (c : ℕ) : List RunFrame :=
  frames.filter fun f => decide (f.id ≤ c)

/-- Between two connections. -/
structure Caught (frames : List RunFrame) (c : Consumed) : Prop where
  handed : c.handed = eventsOf (upTo frames c.state.lastId)
  text : c.state.text =
    (eventsOf (upTo frames c.state.lastId)).foldl applyText []
  before : c.state.lastId < frames.length
  run : c.state.hasRun = true
  isOpen : c.done = none

/-- The `done` frame has arrived. -/
structure Finished (frames : List RunFrame) (c : Consumed) : Prop where
  handed : c.handed = eventsOf frames
  text : c.state.text = (eventsOf frames).foldl applyText []
  isDone : c.done.isSome = true

namespace NumberedRun

variable {frames : List RunFrame} (h : NumberedRun frames)

include h

theorem sorted : frames.Pairwise fun f g => f.id < g.id := by
  have hids : (frames.map RunFrame.id).Pairwise (· < ·) := by
    rw [h.ids]
    exact List.pairwise_lt_range'
  rwa [List.pairwise_map] at hids

theorem id_pos {f : RunFrame} (hf : f ∈ frames) : 0 < f.id := by
  have hmem : f.id ∈ frames.map RunFrame.id := List.mem_map_of_mem hf
  rw [h.ids, List.mem_range'] at hmem
  omega

/-- The `done` frame has the highest number. -/
theorem front_lt {front : List RunFrame} {last f : RunFrame}
    (hframes : frames = front ++ [last]) (hf : f ∈ front) :
    f.id < frames.length := by
  have hsorted := h.sorted
  rw [hframes, List.pairwise_append] at hsorted
  have hlt := hsorted.2.2 f hf last (by simp)
  have hmem : last.id ∈ frames.map RunFrame.id :=
    List.mem_map_of_mem (by simp [hframes])
  rw [h.ids, List.mem_range'] at hmem
  omega

theorem last_id {front : List RunFrame} {last : RunFrame}
    (hframes : frames = front ++ [last]) : last.id = frames.length := by
  have hlast : (frames.map RunFrame.id).getLast? =
      (List.range' 1 frames.length).getLast? := by rw [h.ids]
  rw [hframes] at hlast
  simp only [List.map_append, List.map_cons, List.map_nil,
    List.getLast?_concat, List.length_append, List.length_singleton,
    List.range'_concat] at hlast
  rw [hframes, List.length_append, List.length_singleton]
  have hvalue := Option.some.inj hlast
  omega

end NumberedRun

theorem eventsOf_framesOf (writes : List SseWrite) :
    writes.filterMap SseWrite.toEvent? = eventsOf (framesOf writes) := by
  unfold eventsOf framesOf
  rw [List.filterMap_filterMap]
  congr 1
  funext w
  cases w <;> rfl

/-- What was read of a response: a prefix of its frames, or all of them. -/
theorem parse_frames {writes : List SseWrite} {body : SseBody} {k : ℕ}
    {whole : Bool}
    (hbytes : body.chunks.flatten =
      (encodeText (writes.flatMap SseWrite.text)).take k)
    (hwhole : whole = true →
      (encodeText (writes.flatMap SseWrite.text)).length ≤ k) :
    ∃ read, read <+: framesOf writes ∧ parseSSEStream body = eventsOf read ∧
      (whole = true → read = framesOf writes) := by
  cases whole with
  | true =>
      rw [List.take_of_length_le (hwhole rfl)] at hbytes
      refine ⟨framesOf writes, List.prefix_refl _, ?_, fun _ => rfl⟩
      rw [parseSSEStream_whole writes body hbytes, eventsOf_framesOf]
  | false =>
      rcases parseSSEStream_cut writes body k hbytes with ⟨n, -, hevents⟩
      refine ⟨framesOf (writes.take n), ?_, ?_, by simp⟩
      · exact (List.take_prefix n writes).filterMap _
      · rw [hevents, eventsOf_framesOf]

/-- The frames up to the new cursor are those up to the old one and those
read. -/
theorem eventsOf_upTo {frames read rest : List RunFrame} {cursor c : ℕ}
    (hsorted : frames.Pairwise fun f g => f.id < g.id)
    (hsplit : (frames.filter fun f => decide (cursor < f.id)) = read ++ rest)
    (hgrows : cursor ≤ c)
    (hcursor : c = cursor ∨ ∃ f ∈ read, c = f.id)
    (hunknown : ∀ f ∈ read, c < f.id → f.toEvent? = none) :
    eventsOf (upTo frames c) =
      eventsOf (upTo frames cursor) ++ eventsOf read := by
  have hbehind : (frames.filter fun f => decide (cursor < f.id)).Pairwise
      fun f g => f.id < g.id := hsorted.filter _
  rw [hsplit, List.pairwise_append] at hbehind
  have hrest : (rest.filter fun f => decide (f.id ≤ c)) = [] := by
    rw [List.filter_eq_nil_iff]
    intro f hf
    have hlt : c < f.id := by
      rcases hcursor with rfl | ⟨g, hg, rfl⟩
      · have hmem : f ∈ frames.filter fun f => decide (c < f.id) := by
          rw [hsplit]
          exact List.mem_append_right _ hf
        simpa using (List.mem_filter.mp hmem).2
      · exact hbehind.2.2 g hg f hf
    simpa using hlt
  have hfront : (upTo frames cursor).filter (fun f => decide (f.id ≤ c)) =
      upTo frames cursor := by
    rw [List.filter_eq_self]
    intro f hf
    have hle : f.id ≤ cursor := by
      simpa using (List.mem_filter.mp hf).2
    simpa using hle.trans hgrows
  calc
    eventsOf (upTo frames c) =
        eventsOf (((upTo frames cursor) ++ (read ++ rest)).filter
          fun f => decide (f.id ≤ c)) := by
      rw [← hsplit, upTo, upTo, ← filter_split hsorted cursor]
    _ = eventsOf (upTo frames cursor) ++
        (eventsOf (read.filter fun f => decide (f.id ≤ c)) ++
          eventsOf (rest.filter fun f => decide (f.id ≤ c))) := by
      rw [List.filter_append, List.filter_append, hfront, eventsOf_append,
        eventsOf_append]
    _ = eventsOf (upTo frames cursor) ++ eventsOf read := by
      rw [eventsOf_filter read hunknown, hrest]
      simp [eventsOf]

namespace NumberedRun

variable {frames : List RunFrame} (h : NumberedRun frames)

include h

/-- One connection read from the cursor on. -/
theorem consume_step {c : Consumed} {whole : Bool} {response : SseResponse}
    (hcaught : Caught frames c)
    (hdelivers : Delivers frames c.state.lastId whole response)
    (requestId : Option JsString) :
    let next := consume response { c.state with requestId := requestId }
    let c' : Consumed := { next with handed := c.handed ++ next.handed }
    Finished frames c' ∨ whole = false ∧ Caught frames c' := by
  rcases hdelivers with
    ⟨-, writes, body, k, hbody, hmem, hframes, hbytes, hwhole⟩
  rcases h.ends with ⟨front, last, event, hends, hlast, hevent, hfront⟩
  rcases parse_frames hbytes hwhole with ⟨read, hread, hparse, hall⟩
  have hsorted := h.sorted
  have hlastId := h.last_id hends
  have hreadMem : ∀ f ∈ read, f ∈ frames :=
    fun f hf => hmem f (hread.subset hf)
  have hrestart : ∀ {l : List RunFrame}, (∀ f ∈ l, f ∈ frames) →
      ∀ e ∈ eventsOf l, e.event = .run → e.isResumed = false := by
    intro l hl e he
    rcases List.mem_filterMap.mp he with ⟨f, hf, hfe⟩
    exact h.notRestarted e (List.mem_filterMap.mpr ⟨f, hl f hf, hfe⟩)
  set cursor := c.state.lastId with hcursor
  set new := read.filter fun f => decide (cursor < f.id) with hnew
  have hprefix : new <+: frames.filter fun f => decide (cursor < f.id) := by
    rw [← hframes]
    exact hread.filter _
  have hbehind : (frames.filter fun f => decide (cursor < f.id)) =
      (front.filter fun f => decide (cursor < f.id)) ++ [last] := by
    have hlt : cursor < last.id := by
      rw [hlastId]
      exact hcaught.before
    rw [hends, List.filter_append]
    simp [hlt]
  have hconsume : consume response { c.state with requestId := requestId } =
      consumeEvents { c.state with requestId := requestId }
        (eventsOf new) := by
    unfold consume
    rw [hbody]
    dsimp only
    rw [hparse]
    exact @consumeEvents_filter cursor
      { c.state with requestId := requestId } (Nat.le_of_eq hcursor) read
      (fun f hf => h.id_pos (hreadMem f hf)) (hrestart hreadMem)
  have hprogress : ∀ l : List RunFrame,
      l <+: (front.filter fun f => decide (cursor < f.id)) →
      Progress { c.state with requestId := requestId } l
        (consumeEvents { c.state with requestId := requestId }
          (eventsOf l)) := by
    intro l hl
    have hlFront : ∀ f ∈ l, f ∈ front := fun f hf =>
      List.mem_of_mem_filter (hl.subset hf)
    apply consumeEvents_progress l
    · have hfrontSorted : front.Pairwise fun f g => f.id < g.id := by
        rw [hends, List.pairwise_append] at hsorted
        exact hsorted.1
      exact (hfrontSorted.filter _).sublist hl.sublist
    · intro f hf
      simpa using (List.mem_filter.mp (hl.subset hf)).2
    · exact hrestart fun f hf => by
        rw [hends]
        exact List.mem_append_left _ (hlFront f hf)
    · intro e he
      rcases List.mem_filterMap.mp he with ⟨f, hf, hfe⟩
      exact hfront e (List.mem_filterMap.mpr ⟨f, hlFront f hf, hfe⟩)
  have hcursorLt : ∀ l : List RunFrame,
      l <+: (front.filter fun f => decide (cursor < f.id)) →
      (consumeEvents { c.state with requestId := requestId }
        (eventsOf l)).state.lastId < frames.length := by
    intro l hl
    rcases (hprogress l hl).cursor with hsame | ⟨f, hf, hid⟩
    · rw [hsame]
      exact hcaught.before
    · rw [hid]
      exact h.front_lt hends (List.mem_of_mem_filter (hl.subset hf))
  rw [hconsume]
  by_cases hcomplete :
      new = (front.filter fun f => decide (cursor < f.id)) ++ [last]
  · left
    have hfrontRead := hprogress _ (List.prefix_refl _)
    have hdoneNew := hcursorLt _ (List.prefix_refl _)
    rw [← hlastId] at hdoneNew
    rcases consumeEvents_done hfrontRead hlast hevent hdoneNew with
      ⟨hhanded, hdone, htext⟩
    rw [hcomplete]
    have hjoin : eventsOf (upTo frames cursor) ++
        eventsOf ((front.filter fun f => decide (cursor < f.id)) ++
          [last]) = eventsOf frames := by
      rw [← eventsOf_append, ← hbehind, upTo, ← filter_split hsorted cursor]
    constructor
    · dsimp only
      rw [hhanded, hcaught.handed, hjoin]
    · dsimp only
      rw [htext, ← hjoin, List.foldl_append, ← hcaught.text]
    · dsimp only
      rw [hdone]
      rfl
  · right
    have hfrontPrefix :
        new <+: front.filter fun f => decide (cursor < f.id) := by
      rw [hbehind] at hprefix
      rcases List.prefix_concat_iff.mp hprefix with hsame | hfront'
      · exact absurd hsame hcomplete
      · exact hfront'
    have hread' := hprogress new hfrontPrefix
    have hhead : ∃ rest, (frames.filter fun f =>
        decide (cursor < f.id)) = new ++ rest := by
      rcases hprefix with ⟨rest, hrest⟩
      exact ⟨rest, hrest.symm⟩
    rcases hhead with ⟨rest, hrest⟩
    have hupTo := eventsOf_upTo hsorted hrest hread'.grows hread'.cursor
      hread'.unknown
    constructor
    · cases whole with
      | false => rfl
      | true =>
          have hsame : new = frames.filter fun f =>
              decide (cursor < f.id) := by
            rw [hnew, hall rfl, hframes]
          rw [hbehind] at hsame
          exact absurd hsame hcomplete
    · constructor
      · dsimp only
        rw [hread'.handed, hcaught.handed, hupTo]
      · dsimp only
        rw [hread'.text, hupTo, List.foldl_append, ← hcaught.text]
      · exact hcursorLt new hfrontPrefix
      · exact hread'.run hcaught.run
      · exact hread'.isOpen

end NumberedRun

/-- What the re-joins come to: connection number `drops` is the first one that
is not cut, and a re-join before it may also fail or be answered by an error
of the server. -/
def Rejoins (frames : List RunFrame) (drops : ℕ) (input : StreamRunInput) :
    Prop :=
  ∀ attempt runId after, after < frames.length →
    match input.join (attempt + 1) runId after with
    | none => attempt + 1 ≠ drops
    | some response =>
        Delivers frames after (decide (attempt + 1 = drops)) response ∨
          attempt + 1 ≠ drops ∧ response.ok = false ∧
            response.isAuthRefusal = false ∧ response.status ≠ 404

/-- The first connection: the answer to the turn, which names the run, or the
first join of a run that is resumed from its beginning. -/
def Begins (frames : List RunFrame) (drops : ℕ) (input : StreamRunInput) :
    Prop :=
  match input.resume with
  | none =>
      (∃ runId, input.start.runId = some runId ∧ runId ≠ []) ∧
        Delivers frames 0 (decide (drops = 0)) input.start
  | some (runId, after) =>
      runId ≠ [] ∧ after = 0 ∧ ∃ response, input.join 0 runId 0 =
        some response ∧ Delivers frames 0 (decide (drops = 0)) response

/-- The frames were handed out in order, each once, and the stream ended with
their text. -/
structure Delivered (frames : List RunFrame) (r : StreamRunResult) :
    Prop where
  handed : r.handed = eventsOf frames
  ended : r.ended = .done
  text : r.state.text = (eventsOf frames).foldl applyText []

section Loop

variable {frames : List RunFrame} {drops : ℕ} {input : StreamRunInput}

theorem ok_statuses {response : SseResponse} (h : response.ok = true) :
    response.isAuthRefusal = false ∧ response.status ≠ 404 := by
  simp only [SseResponse.ok, decide_eq_true_eq] at h
  constructor
  · simp only [SseResponse.isAuthRefusal, decide_eq_false_iff_not]
    omega
  · omega

theorem rejoinLoop_delivers (h : NumberedRun frames)
    (hjoins : Rejoins frames drops input) (left attempt : ℕ) (c : Consumed)
    (hc : Finished frames c ∨ attempt < drops ∧ Caught frames c)
    (hleft : drops ≤ attempt + left) :
    Delivered frames (rejoinLoop input attempt left c) := by
  induction left generalizing attempt c with
  | zero =>
      rcases hc with hfinished | ⟨hlt, -⟩
      · rcases Option.isSome_iff_exists.mp hfinished.isDone with ⟨data, hdone⟩
        unfold rejoinLoop
        rw [hdone]
        exact ⟨hfinished.handed, rfl, hfinished.text⟩
      · omega
  | succ left ih =>
      rcases hc with hfinished | ⟨hlt, hcaught⟩
      · rcases Option.isSome_iff_exists.mp hfinished.isDone with ⟨data, hdone⟩
        unfold rejoinLoop
        rw [hdone]
        exact ⟨hfinished.handed, rfl, hfinished.text⟩
      · rcases RunStreamState.hasRun_iff.mp hcaught.run with
          ⟨runId, hrun, hne⟩
        have hanswer := hjoins attempt runId c.state.lastId hcaught.before
        unfold rejoinLoop
        rw [hcaught.isOpen, hrun]
        rw [Option.filter_some_pos (by simpa using hne)]
        dsimp only
        cases hjoin : input.join (attempt + 1) runId c.state.lastId with
        | none =>
            rw [hjoin] at hanswer
            have hne : attempt + 1 ≠ drops := hanswer
            exact ih (attempt + 1) c (Or.inr ⟨by omega, hcaught⟩) (by omega)
        | some response =>
            rw [hjoin] at hanswer
            dsimp only at hanswer ⊢
            rcases hanswer with hdelivers | ⟨hne, hfailed, hauth, hgone⟩
            · rcases ok_statuses hdelivers.1 with ⟨hauth, hgone⟩
              rw [hauth, if_neg Bool.false_ne_true, if_neg hgone,
                if_pos hdelivers.1]
              apply ih
              · rcases h.consume_step hcaught hdelivers
                    (response.requestId <|> c.state.requestId) with
                    hfinished | ⟨hcut, hcaught'⟩
                · exact Or.inl hfinished
                · have hne : attempt + 1 ≠ drops := by simpa using hcut
                  exact Or.inr ⟨by omega, hcaught'⟩
              · omega
            · rw [hauth, if_neg Bool.false_ne_true, if_neg hgone,
                hfailed, if_neg Bool.false_ne_true]
              exact ih (attempt + 1) c (Or.inr ⟨by omega, hcaught⟩)
                (by omega)

theorem first_caught (h : NumberedRun frames) (state : RunStreamState)
    (hlast : state.lastId = 0) (htext : state.text = [])
    (hrun : state.hasRun = true) :
    Caught frames ⟨state, [], none⟩ := by
  have hnone : upTo frames 0 = [] := by
    unfold upTo
    rw [List.filter_eq_nil_iff]
    intro f hf
    have hpos := h.id_pos hf
    simp
    omega
  rcases h.ends with ⟨front, last, event, hends, -⟩
  constructor
  · rw [hlast, hnone]
    rfl
  · rw [hlast, hnone, htext]
    rfl
  · rw [hlast, hends]
    simp
  · exact hrun
  · rfl

/-- The first connection and the re-joins behind it. -/
theorem delivers_from (h : NumberedRun frames)
    (hjoins : Rejoins frames drops input) (state : RunStreamState)
    (hlast : state.lastId = 0) (htext : state.text = [])
    (hrun : state.hasRun = true) {response : SseResponse}
    (hfirst : Delivers frames 0 (decide (drops = 0)) response)
    (hdrops : drops ≤ input.maxRejoins) :
    Delivered frames
      (rejoinLoop input 0 input.maxRejoins (consume response state)) := by
  have hcaught := first_caught h state hlast htext hrun
  have hstep := h.consume_step hcaught
    (by rw [hlast]; exact hfirst) state.requestId
  apply rejoinLoop_delivers h hjoins
  · rcases hstep with hfinished | ⟨hcut, hcaught'⟩
    · exact Or.inl hfinished
    · have hne : drops ≠ 0 := by simpa using hcut
      exact Or.inr ⟨Nat.pos_of_ne_zero hne, hcaught'⟩
  · omega

end Loop

/-- The contents of the `message` frames, one after the other. -/
def messageText (frames : List RunFrame) : JsString :=
  (eventsOf frames).flatMap fun e =>
    if e.event = .message then e.content else []

theorem foldl_applyText {events : List SSEEvent} (text : JsString)
    (hdone : ∀ e ∈ events, e.event ≠ .done) :
    events.foldl applyText text = text ++ events.flatMap fun e =>
      if e.event = .message then e.content else [] := by
  induction events generalizing text with
  | nil => simp
  | cons e events ih =>
      have hstep : applyText text e =
          text ++ if e.event = .message then e.content else [] := by
        unfold applyText
        cases hevent : e.event with
        | done => exact absurd hevent (hdone e (by simp))
        | _ => simp
      rw [List.foldl_cons, hstep,
        ih _ fun e' he' => hdone e' (List.mem_cons_of_mem _ he')]
      simp

/-- The text a client that saw every frame shows. -/
theorem NumberedRun.text {frames : List RunFrame} (h : NumberedRun frames) :
    (eventsOf frames).foldl applyText [] =
      ((eventsOf frames).getLast?.bind SSEEvent.replacedText).getD
        (messageText frames) := by
  rcases h.ends with ⟨front, last, event, hends, hlast, hevent, hfront⟩
  have hsplit : eventsOf frames = eventsOf front ++ [event] := by
    rw [hends, eventsOf_append]
    simp [eventsOf, hlast]
  unfold messageText
  rw [hsplit, List.foldl_append, foldl_applyText [] hfront]
  simp [applyText, hevent]

/-- However often the connection drops, a client that may re-join once for
each drop hands out every frame it knows once and in order, and ends `done`
with the text of the `message` frames, or with the text the `done` frame of an
unfinished run put in its place. -/
theorem streamRun_delivers (frames : List RunFrame) (drops : ℕ)
    (input : StreamRunInput) (hframes : NumberedRun frames)
    (hbegins : Begins frames drops input)
    (hjoins : Rejoins frames drops input)
    (hdrops : drops < input.maxRejoins) :
    ∃ r, streamRun input = .ok r ∧ r.handed = eventsOf frames ∧
      r.ended = .done ∧
      r.state.text =
        ((eventsOf frames).getLast?.bind SSEEvent.replacedText).getD
          (messageText frames) := by
  unfold Begins at hbegins
  unfold streamRun
  cases hresume : input.resume with
  | none =>
      rw [hresume] at hbegins
      rcases hbegins with ⟨⟨runId, hrun, hne⟩, hstart⟩
      have hdelivered := delivers_from hframes hjoins
        ⟨input.start.requestId, input.start.runId, 0, [], 0⟩ rfl rfl
        (RunStreamState.hasRun_iff.mpr ⟨runId, hrun, hne⟩) hstart hdrops.le
      rw [if_pos hstart.1]
      refine ⟨_, rfl, hdelivered.handed, hdelivered.ended, ?_⟩
      rw [hdelivered.text, hframes.text]
  | some resume =>
      rcases resume with ⟨runId, after⟩
      rw [hresume] at hbegins
      rcases hbegins with ⟨hne, rfl, response, hjoin, hfirst⟩
      rcases ok_statuses hfirst.1 with ⟨hauth, -⟩
      have hdelivered := delivers_from hframes hjoins
        ⟨response.requestId, some runId, 0, [], 0⟩ rfl rfl
        (RunStreamState.hasRun_iff.mpr ⟨runId, rfl, hne⟩) hfirst hdrops.le
      dsimp only
      rw [hjoin]
      dsimp only
      rw [hauth, if_neg Bool.false_ne_true, if_pos hfirst.1]
      refine ⟨_, rfl, hdelivered.handed, hdelivered.ended, ?_⟩
      rw [hdelivered.text, hframes.text]

/-- A response that carries all frames of a run, cut at a byte. -/
def cutResponse (frames : List RunFrame) (k : ℕ) : SseResponse :=
  ⟨200, none, some [114], some ⟨[(encodeText
    (frames.flatMap RunFrame.formatSSE)).take k], true⟩⟩

theorem delivers_cutResponse (frames : List RunFrame) (after k : ℕ)
    (whole : Bool)
    (hwhole : whole = true →
      (encodeText (frames.flatMap RunFrame.formatSSE)).length ≤ k) :
    Delivers frames after whole (cutResponse frames k) := by
  have hframes : framesOf (frames.map SseWrite.frame) = frames := by
    unfold framesOf
    rw [List.filterMap_map]
    exact List.filterMap_some
  have htext : (frames.map SseWrite.frame).flatMap SseWrite.text =
      frames.flatMap RunFrame.formatSSE := by
    rw [List.flatMap_map]
    rfl
  refine ⟨rfl, frames.map SseWrite.frame, _, k, rfl, ?_, ?_, ?_, ?_⟩
  · rw [hframes]
    exact fun f hf => hf
  · rw [hframes]
  · rw [htext]
    exact List.append_nil _
  · rw [htext]
    exact hwhole

/-- `{"content":"hi"}` -/
def helloPayload : List Char :=
  ['\x7b', '"', 'c', 'o', 'n', 't', 'e', 'n', 't', '"', ':', '"', 'h', 'i',
    '"', '\x7d']

/-- `{"partialText":"h"}` -/
def keptPayload : List Char :=
  ['\x7b', '"', 'p', 'a', 'r', 't', 'i', 'a', 'l', 'T', 'e', 'x', 't', '"',
    ':', '"', 'h', '"', '\x7d']

def helloFrame : RunFrame where
  event := ['m', 'e', 's', 's', 'a', 'g', 'e']
  id := 1
  payload := helloPayload
  fields := [(utf16 ['c', 'o', 'n', 't', 'e', 'n', 't'],
    .str (utf16 ['h', 'i']))]
  event_plain := @of_decide_eq_true _ (List.decidableBAll _ _) rfl
  payload_line := @of_decide_eq_true _ (List.decidableBAll _ _) rfl
  payload_parses := by rfl

/-- The end of a run that was interrupted. -/
def keptFrame : RunFrame where
  event := ['d', 'o', 'n', 'e']
  id := 2
  payload := keptPayload
  fields := [(utf16 ['p', 'a', 'r', 't', 'i', 'a', 'l', 'T', 'e', 'x', 't'],
    .str (utf16 ['h']))]
  event_plain := @of_decide_eq_true _ (List.decidableBAll _ _) rfl
  payload_line := @of_decide_eq_true _ (List.decidableBAll _ _) rfl
  payload_parses := by rfl

theorem interrupted_numbered : NumberedRun [helloFrame, keptFrame] := by
  constructor
  · rfl
  · refine ⟨[helloFrame], keptFrame, ⟨.done, .obj keptFrame.fields, some 2⟩,
      rfl, by rfl, rfl, ?_⟩
    have hevents : eventsOf [helloFrame] =
        [⟨.message, .obj helloFrame.fields, some 1⟩] := by rfl
    rw [hevents]
    simp
  · have hevents : eventsOf [helloFrame, keptFrame] =
        [⟨.message, .obj helloFrame.fields, some 1⟩,
          ⟨.done, .obj keptFrame.fields, some 2⟩] := by rfl
    rw [hevents]
    simp

/-- The answer to the turn is cut inside its first frame; every join answers
with the whole run. -/
def droppedRun (k : ℕ) : StreamRunInput where
  start := cutResponse [helloFrame, keptFrame] k
  join := fun _ _ _ => some (cutResponse [helloFrame, keptFrame] 200)
  maxRejoins := 2
  resume := none

theorem streamRun_delivers_dropped : ∃ r, streamRun (droppedRun 30) = .ok r ∧
      r.handed = eventsOf [helloFrame, keptFrame] ∧ r.ended = .done ∧
      r.state.text = ((eventsOf [helloFrame, keptFrame]).getLast?.bind
          SSEEvent.replacedText).getD
          (messageText [helloFrame, keptFrame]) := by
  apply streamRun_delivers _ 1 _ interrupted_numbered
  · constructor
    · exact ⟨_, rfl, by simp⟩
    · apply delivers_cutResponse
      simp
  · intro attempt runId after hafter
    left
    apply delivers_cutResponse
    intro _
    decide
  · decide

/-- An interrupted run: its `done` frame puts the kept text in place of the
one shown, which the `message` frames had added up to. -/
theorem interrupted_text_replaced :
    ¬ ∀ (frames : List RunFrame) (drops : ℕ) (input : StreamRunInput),
      NumberedRun frames → Begins frames drops input →
      Rejoins frames drops input → drops < input.maxRejoins →
      ∃ r, streamRun input = .ok r ∧ r.handed = eventsOf frames ∧
        r.ended = .done ∧ r.state.text = messageText frames := by
  intro h
  have hwhole : ∀ after whole, Delivers [helloFrame, keptFrame] after whole
      (cutResponse [helloFrame, keptFrame] 200) := by
    intro after whole
    apply delivers_cutResponse
    intro _
    decide
  have hbegins : Begins [helloFrame, keptFrame] 0 (droppedRun 200) :=
    ⟨⟨_, rfl, by simp⟩, hwhole _ _⟩
  have hjoins : Rejoins [helloFrame, keptFrame] 0 (droppedRun 200) :=
    fun _ _ _ _ => Or.inl (hwhole _ _)
  rcases h _ _ _ interrupted_numbered hbegins hjoins (by decide) with
    ⟨r, hrun, -, -, htext⟩
  have hshown : (streamRun (droppedRun 200)).toOption.map
      (fun r => r.state.text) = some (utf16 ['h']) := by
    decide +kernel
  have hmessages : messageText [helloFrame, keptFrame] = utf16 ['h', 'i'] := by
    decide +kernel
  rw [hrun] at hshown
  have hkept : r.state.text = utf16 ['h'] := Option.some.inj hshown
  rw [htext, hmessages] at hkept
  revert hkept
  decide

end QiForge
