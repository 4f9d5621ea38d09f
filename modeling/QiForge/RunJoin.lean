import QiForge.RunBuffer

/-!
# What a join replays

The frames of a run are those of the settled or landed writes, then those in
flight, then the tail (`Stitched`).  A join has every frame behind its cursor
exactly when no write that its read missed settles before it returns, and no
frame is pushed before its caller subscribes.
-/

namespace QiForge

open RunBuffer (Frame PackedSegment framesOfSegments)

namespace JoinedRun

variable {D : Type} {s s' : JoinedRun D} {e : JoinEvent D}

def bySeq (f g : Frame D) : Prop := f.seq < g.seq

instance bySeq_antisymm : Std.Antisymm (bySeq (D := D)) where
  antisymm _ _ hfg hgf := absurd hfg (Nat.lt_asymm hgf)

instance bySeq_irrefl : Std.Irrefl (bySeq (D := D)) where
  irrefl f := Nat.lt_irrefl f.seq

def unsettled (s : JoinedRun D) : List (Frame D) :=
  s.buffer.inFlight.flatten ++ s.buffer.tail

/-- The batches whose write is not in the store yet. -/
def unlanded (s : JoinedRun D) : List (List (Frame D)) :=
  if s.landed then s.buffer.inFlight.tail else s.buffer.inFlight

structure Stitched (s : JoinedRun D) : Prop where
  isOpen : s.buffer.closed = false
  frames : s.frames = s.stored.flatMap PackedSegment.frames ++
    s.unlanded.flatten ++ s.buffer.tail
  landedHead : s.landed = true → ∃ batch rest front,
    s.buffer.inFlight = batch :: rest ∧ s.stored = front ++ [RunBuffer.segmentOf batch]
  sorted : s.frames.Pairwise bySeq
  bounds : ∀ f ∈ s.frames, 0 < f.seq ∧ f.seq ≤ s.buffer.seq
  segments : ∀ seg ∈ s.stored, seg = RunBuffer.segmentOf seg.frames ∧ seg.frames ≠ []
  batches : ∀ batch ∈ s.buffer.inFlight, batch ≠ []

theorem Opened.stitched (h : s.Opened) : s.Stitched := by
  rcases h.quiet with ⟨hflight, htail, hlanded⟩
  refine { h with frames := ?_, landedHead := ?_, batches := ?_ }
  · rw [h.frames, unlanded, hlanded, hflight, htail]
    simp
  · intro hl
    rw [hlanded] at hl
    cases hl
  · rw [hflight]
    simp

variable {f : Frame D}

theorem Stitched.mem_frames (h : s.Stitched) : f ∈ s.frames ↔
      f ∈ s.stored.flatMap PackedSegment.frames ∨ f ∈ s.unsettled := by
  rw [h.frames, unsettled, unlanded]
  cases hlanded : s.landed with
  | false => simp
  | true =>
      rcases h.landedHead hlanded with ⟨batch, rest, front, hflight, hstored⟩
      rw [hflight, hstored]
      simp only [RunBuffer.segmentOf, if_true, List.tail_cons, List.flatMap_append,
        List.flatMap_cons, List.flatMap_nil, List.append_nil,
        List.flatten_cons, List.mem_append]
      constructor
      · rintro (((hfront | hbatch) | hrest) | htail)
        · exact Or.inl (Or.inl hfront)
        · exact Or.inl (Or.inr hbatch)
        · exact Or.inr (Or.inl (Or.inr hrest))
        · exact Or.inr (Or.inr htail)
      · rintro ((hfront | hbatch) | (hbatch | hrest) | htail)
        · exact Or.inl (Or.inl (Or.inl hfront))
        · exact Or.inl (Or.inl (Or.inr hbatch))
        · exact Or.inl (Or.inl (Or.inr hbatch))
        · exact Or.inl (Or.inr hrest)
        · exact Or.inr htail

/-- A batch that has not landed lies behind everything stored. -/
theorem Stitched.appendSegment (h : s.Stitched) {batch : List (Frame D)}
    {rest : List (List (Frame D))} (hlanded : s.landed = false)
    (hflight : s.buffer.inFlight = batch :: rest) :
    QiForge.appendSegment s.stored (RunBuffer.segmentOf batch) =
      s.stored ++ [RunBuffer.segmentOf batch] := by
  have hbatch : batch ≠ [] := h.batches batch (by rw [hflight]; simp)
  have hsorted := h.sorted
  rw [h.frames, unlanded, hlanded, hflight] at hsorted
  have hbefore : ∀ seg ∈ s.stored, seg.seqFrom < (RunBuffer.segmentOf batch).seqFrom := by
    intro seg hseg
    rcases h.segments seg hseg with ⟨hsegment, hne⟩
    rcases List.exists_cons_of_ne_nil hne with ⟨f, fs, hfs⟩
    rcases List.exists_cons_of_ne_nil hbatch with ⟨g, gs, hgs⟩
    have hf : f ∈ s.stored.flatMap PackedSegment.frames :=
      List.mem_flatMap.mpr ⟨seg, hseg, by rw [hfs]; simp⟩
    have hlt : f.seq < g.seq := by
      rw [List.append_assoc] at hsorted
      exact (List.pairwise_append.mp hsorted).2.2 f hf g (by simp [hgs])
    rw [hsegment, hfs, hgs]
    exact hlt
  unfold QiForge.appendSegment
  have hall : (s.stored.filter fun seg =>
      decide (seg.seqFrom < (RunBuffer.segmentOf batch).seqFrom)) = s.stored := by
    rw [List.filter_eq_self]
    exact fun seg hseg => by simpa using hbefore seg hseg
  have hnone : (s.stored.filter fun seg =>
      decide ((RunBuffer.segmentOf batch).seqFrom < seg.seqFrom)) = [] := by
    rw [List.filter_eq_nil_iff]
    intro seg hseg
    simpa using (hbefore seg hseg).le
  rw [hall, hnone]

theorem step_stitched (h : s.Stitched) (hstep : s.step e = some s') :
    s'.Stitched := by
  cases e with
  | push event data =>
      dsimp only [step] at hstep
      rw [h.isOpen, if_neg Bool.false_ne_true] at hstep
      cases hstep
      refine { h with frames := ?_, sorted := ?_, bounds := ?_ }
      · change s.frames ++ [_] = _ ++ _ ++ (s.buffer.tail ++ [_])
        rw [h.frames]
        simp [unlanded, RunBuffer.push]
      · change (s.frames ++ [_]).Pairwise bySeq
        rw [List.pairwise_append]
        refine ⟨h.sorted, by simp, ?_⟩
        intro f hf g hg
        rw [List.mem_singleton.mp hg]
        exact Nat.lt_succ_of_le (h.bounds f hf).2
      · intro f hf
        change 0 < f.seq ∧ f.seq ≤ s.buffer.seq + 1
        rcases List.mem_append.mp hf with hold | hnew
        · have hbound := h.bounds f hold
          omega
        · rw [List.mem_singleton.mp hnew]
          simp [RunBuffer.nextFrame]
  | flush =>
      cases hstep
      unfold RunBuffer.flush
      split_ifs with htail
      · exact h
      · refine { h with frames := ?_, landedHead := ?_, batches := ?_ }
        · dsimp only
          rw [h.frames, unlanded, unlanded]
          cases hlanded : s.landed with
          | false => simp
          | true =>
              rcases h.landedHead hlanded with
                ⟨batch, rest, front, hflight, -⟩
              rw [hflight]
              simp
        · intro hlanded
          rcases h.landedHead hlanded with
            ⟨batch, rest, front, hflight, hstored⟩
          refine ⟨batch, rest ++ [s.buffer.tail], front, ?_, hstored⟩
          rw [hflight]
          rfl
        · intro batch hbatch
          rcases List.mem_append.mp hbatch with hold | hnew
          · exact h.batches batch hold
          · rw [List.mem_singleton.mp hnew]
            exact htail
  | land =>
      dsimp only [step] at hstep
      split at hstep
      next batch rest hlanded hflight =>
        cases hstep
        have happend := h.appendSegment hlanded hflight
        refine { h with frames := ?_, landedHead := ?_, segments := ?_ }
        · dsimp only
          rw [h.frames, happend, unlanded, unlanded, hlanded, hflight]
          simp [RunBuffer.segmentOf]
        · intro _
          exact ⟨batch, rest, s.stored, hflight, happend⟩
        · intro seg hseg
          dsimp only at hseg
          rw [happend] at hseg
          rcases List.mem_append.mp hseg with hold | hnew
          · exact h.segments seg hold
          · rw [List.mem_singleton.mp hnew]
            exact ⟨rfl, h.batches batch (by rw [hflight]; simp)⟩
      next => cases hstep
  | settle =>
      dsimp only [step] at hstep
      split at hstep
      next batch rest hlanded hflight =>
        cases hstep
        refine { h with frames := ?_, landedHead := ?_, batches := ?_ }
        · dsimp only
          rw [h.frames, unlanded, unlanded, hlanded]
          rfl
        · intro hfalse
          cases hfalse
        · intro other hother
          exact h.batches other (List.mem_of_mem_tail hother)
      next => cases hstep
  | join after =>
      dsimp only [step] at hstep
      split at hstep
      next =>
        rcases Option.ite_none_right_eq_some.mp hstep with ⟨-, hsome⟩
        cases hsome
        exact { h with }
      next => cases hstep
  | readSegments =>
      dsimp only [step] at hstep
      split at hstep
      next after hjoin =>
        cases hstep
        exact { h with }
      next => cases hstep
  | «return» | subscribe =>
      dsimp only [step] at hstep
      split at hstep
      next after replay hjoin =>
        cases hstep
        exact { h with }
      next => cases hstep

/-- The frames behind the cursor. -/
def behind (s : JoinedRun D) (after : ℕ) : List (Frame D) :=
  s.frames.filter fun f => decide (after < f.seq)

variable {after : ℕ}

theorem mem_behind : f ∈ s.behind after ↔ f ∈ s.frames ∧ after < f.seq := by
  simp [behind]

/-- What a join's read returned: frames behind the cursor, and none left out
before the last of them. -/
structure ReadOf (s : JoinedRun D) (after : ℕ) (replay : List (Frame D)) :
    Prop where
  sorted : replay.Pairwise bySeq
  behind : ∀ f ∈ replay, f ∈ s.behind after
  closed : ∀ f ∈ replay, ∀ g ∈ s.behind after, g.seq ≤ f.seq → g ∈ replay

/-- The cursor is of the run, and a read that was made is one of its reads. -/
def Following (s : JoinedRun D) : Prop :=
  match s.join with
  | .idle => True
  | .reading after => after ≤ s.buffer.seq
  | .read after replay => after ≤ s.buffer.seq ∧ s.ReadOf after replay
  | .returned after replay => after ≤ s.buffer.seq ∧ replay ⊆ s.frames
  | .joined after _ => after ≤ s.buffer.seq

/-- Nothing behind the cursor is lost so far. -/
def Complete (s : JoinedRun D) : Prop :=
  match s.join with
  | .read after replay =>
      ∀ f ∈ s.behind after, f ∈ replay ∨ f ∈ s.unsettled
  | .returned after received | .joined after received =>
      received = s.behind after
  | _ => True

/-- `f` is behind the cursor and will not reach the client. -/
def Lost (s : JoinedRun D) (f : Frame D) : Prop :=
  match s.join with
  | .read after replay =>
      f ∈ s.behind after ∧ f ∉ replay ∧ f ∉ s.unsettled
  | .returned after received | .joined after received =>
      f ∈ s.behind after ∧ f ∉ received
  | _ => False

theorem le_last {l : List (Frame D)} (hl : l.Pairwise bySeq)
    (hf : f ∈ l) (after : ℕ) : f.seq ≤ (l.getLast?.map Frame.seq).getD after := by
  rcases List.eq_nil_or_concat l with rfl | ⟨front, last, rfl⟩
  · cases hf
  · rw [List.concat_eq_append] at hl hf ⊢
    rw [List.getLast?_concat]
    dsimp only [Option.map_some, Option.getD_some]
    rcases List.mem_append.mp hf with hfront | hlast
    · exact ((List.pairwise_append.mp hl).2.2 f hfront last (by simp)).le
    · rw [List.mem_singleton.mp hlast]

theorem Stitched.stored_sublist (h : s.Stitched) :
    (s.stored.flatMap PackedSegment.frames).Sublist s.frames := by
  rw [h.frames, List.append_assoc]
  exact List.sublist_append_left _ _

theorem Stitched.mem_read (h : s.Stitched) :
    f ∈ framesOfSegments (readSegments s.stored after) after ↔
      f ∈ s.stored.flatMap PackedSegment.frames ∧ after < f.seq := by
  unfold framesOfSegments readSegments
  simp only [List.mem_filter, List.mem_flatMap, decide_eq_true_eq]
  constructor
  · rintro ⟨⟨seg, ⟨hseg, -⟩, hf⟩, hlt⟩
    exact ⟨⟨seg, hseg, hf⟩, hlt⟩
  · rintro ⟨⟨seg, hseg, hf⟩, hlt⟩
    refine ⟨⟨seg, ⟨hseg, ?_⟩, hf⟩, hlt⟩
    have hsub : seg.frames.Sublist s.frames := (List.sublist_flatten_of_mem
        (List.mem_map_of_mem hseg)).trans h.stored_sublist
    have hle := le_last (h.sorted.sublist hsub) hf 0
    rw [(h.segments seg hseg).1]
    exact hlt.trans_le hle

/-- The read of the store returns a sorted, closed part of the frames. -/
theorem Stitched.readOf (h : s.Stitched) (after : ℕ) : s.ReadOf after
      (framesOfSegments (readSegments s.stored after) after) := by
  constructor
  · have hsub : (framesOfSegments (readSegments s.stored after) after).Sublist
        (s.stored.flatMap PackedSegment.frames) := by
      unfold framesOfSegments readSegments
      exact List.filter_sublist.trans
        ((List.filter_sublist.map PackedSegment.frames).flatten)
    exact h.sorted.sublist (hsub.trans h.stored_sublist)
  · intro f hf
    rcases h.mem_read.mp hf with ⟨hstored, hlt⟩
    exact mem_behind.mpr ⟨h.stored_sublist.subset hstored, hlt⟩
  · intro f hf g hg hle
    rcases h.mem_read.mp hf with ⟨hstored, -⟩
    rcases mem_behind.mp hg with ⟨hframes, hlt⟩
    refine h.mem_read.mpr ⟨?_, hlt⟩
    have hsorted := h.sorted
    rw [h.frames, List.append_assoc] at hframes hsorted
    rcases List.mem_append.mp hframes with hin | hlater
    · exact hin
    · have hlt' := (List.pairwise_append.mp hsorted).2.2 f hstored g hlater
      exact absurd hle (Nat.not_le.mpr hlt')

/-- What a step does to the frames, to the unsettled ones and to the join. -/
inductive Move (s s' : JoinedRun D) : JoinEvent D → Prop where
  | push (event : String) (data : D) (frame : Frame D)
      (seq : frame.seq = s.buffer.seq + 1)
      (next : s'.buffer.seq = frame.seq)
      (frames : s'.frames = s.frames ++ [frame])
      (unsettled : s'.unsettled = s.unsettled ++ [frame])
      (join : s'.join =
        match s.join with
        | .joined after received => .joined after (received ++ [frame])
        | phase => phase) : Move s s' (.push event data)
  | quiet (e : JoinEvent D) (seq : s'.buffer.seq = s.buffer.seq)
      (frames : s'.frames = s.frames) (unsettled : s'.unsettled = s.unsettled)
      (join : s'.join = s.join) : Move s s' e
  | settle (batch : List (Frame D)) (rest : List (List (Frame D)))
      (oldest : s.buffer.inFlight = batch :: rest)
      (seq : s'.buffer.seq = s.buffer.seq) (frames : s'.frames = s.frames)
      (unsettled : s.unsettled = batch ++ s'.unsettled)
      (join : s'.join = s.join) : Move s s' .settle
  | join (after : ℕ) (idle : s.join = .idle)
      (cursor : after = 0 ∨ ∃ f ∈ s.frames, f.seq = after)
      (moved : s' = { s with join := .reading after }) :
      Move s s' (.join after)
  | read (after : ℕ) (reading : s.join = .reading after)
      (moved : s' = { s with
        join := .read after
          (framesOfSegments (readSegments s.stored after) after) }) :
      Move s s' .readSegments
  | returned (after : ℕ) (replay : List (Frame D))
      (hasRead : s.join = .read after replay)
      (moved : s' = { s with
        join := .returned after (replay ++
          s.buffer.tailAfter (lastReplayed after replay)) }) :
      Move s s' .return
  | subscribed (after : ℕ) (replay : List (Frame D))
      (returned : s.join = .returned after replay)
      (moved : s' = { s with join := .joined after replay }) :
      Move s s' .subscribe

theorem Stitched.move (h : s.Stitched) (hstep : s.step e = some s') :
    Move s s' e := by
  cases e with
  | push event data =>
      dsimp only [step] at hstep
      rw [h.isOpen, if_neg Bool.false_ne_true] at hstep
      cases hstep
      apply Move.push event data (s.buffer.nextFrame event data)
      · rfl
      · rfl
      · rfl
      · simp [unsettled, RunBuffer.push]
      · rfl
  | flush =>
      cases hstep
      apply Move.quiet
      · dsimp only [RunBuffer.flush]
        split_ifs <;> rfl
      · rfl
      · dsimp only [unsettled, RunBuffer.flush]
        split_ifs
        · rfl
        · simp
      · rfl
  | land =>
      dsimp only [step] at hstep
      split at hstep
      next batch rest hlanded hflight =>
        cases hstep
        exact Move.quiet _ rfl rfl rfl rfl
      next => cases hstep
  | settle =>
      dsimp only [step] at hstep
      split at hstep
      next batch rest hlanded hflight =>
        cases hstep
        apply Move.settle batch rest hflight
        · rfl
        · rfl
        · simp [unsettled, RunBuffer.settle, hflight]
        · rfl
      next => cases hstep
  | join after =>
      dsimp only [step] at hstep
      split at hstep
      next hidle =>
        rcases Option.ite_none_right_eq_some.mp hstep with ⟨hcursor, hsome⟩
        exact Move.join after hidle hcursor (Option.some.inj hsome).symm
      next => cases hstep
  | readSegments =>
      dsimp only [step] at hstep
      split at hstep
      next after hjoin =>
        exact Move.read after hjoin (Option.some.inj hstep).symm
      next => cases hstep
  | «return» =>
      dsimp only [step] at hstep
      split at hstep
      next after replay hjoin =>
        exact Move.returned after replay hjoin (Option.some.inj hstep).symm
      next => cases hstep
  | subscribe =>
      dsimp only [step] at hstep
      split at hstep
      next after replay hjoin =>
        exact Move.subscribed after replay hjoin (Option.some.inj hstep).symm
      next => cases hstep

theorem behind_push {frame : Frame D}
    (hframes : s'.frames = s.frames ++ [frame])
    (hseq : frame.seq = s.buffer.seq + 1) (hafter : after ≤ s.buffer.seq) :
    s'.behind after = s.behind after ++ [frame] := by
  unfold behind
  rw [hframes, List.filter_append]
  congr 1
  have hlt : after < frame.seq := by omega
  simp [hlt]

theorem Stitched.le_seq (h : s.Stitched)
    (hf : f ∈ s.behind after) : f.seq ≤ s.buffer.seq :=
  (h.bounds f (mem_behind.mp hf).1).2

variable {replay : List (Frame D)}

theorem lastReplayed_spec
    (hsorted : replay.Pairwise bySeq) (hbehind : ∀ f ∈ replay, after < f.seq) :
    (∀ f ∈ replay, f.seq ≤ lastReplayed after replay) ∧
      (lastReplayed after replay = after ∧ replay = [] ∨
        ∃ f ∈ replay, f.seq = lastReplayed after replay) ∧
      after ≤ lastReplayed after replay := by
  refine ⟨fun f hf => le_last hsorted hf after, ?_⟩
  rcases List.eq_nil_or_concat replay with rfl | ⟨front, last, rfl⟩
  · exact ⟨Or.inl ⟨rfl, rfl⟩, le_rfl⟩
  · have hlast : lastReplayed after (front.concat last) = last.seq := by
      simp [lastReplayed]
    rw [hlast]
    exact ⟨Or.inr ⟨last, by simp, rfl⟩, (hbehind last (by simp)).le⟩

theorem Stitched.unsettled_sublist (h : s.Stitched) :
    s.unsettled.Sublist s.frames := by
  rw [h.frames, unsettled, unlanded]
  cases hlanded : s.landed with
  | false =>
      rw [if_neg Bool.false_ne_true, List.append_assoc]
      exact List.sublist_append_right _ _
  | true =>
      rcases h.landedHead hlanded with ⟨batch, rest, front, hflight, hstored⟩
      rw [hflight, hstored]
      simp [RunBuffer.segmentOf]

theorem Stitched.tailAfter (h : s.Stitched) (after : ℕ) :
    s.buffer.tailAfter after =
      s.unsettled.filter fun f => decide (after < f.seq) := by
  unfold RunBuffer.tailAfter unsettled
  rw [h.isOpen]
  cases s.buffer.doneFrame with
  | none => rfl
  | some done => simp

/-- The client is given what the read returned and the unsettled frames behind
the last of it. -/
theorem Stitched.mem_return (h : s.Stitched) :
    f ∈ replay ++ s.buffer.tailAfter (lastReplayed after replay) ↔
      f ∈ replay ∨ f ∈ s.unsettled ∧ lastReplayed after replay < f.seq := by
  rw [h.tailAfter]
  simp

theorem behind_congr (hframes : s'.frames = s.frames) (after : ℕ) :
    s'.behind after = s.behind after := by
  rw [behind, hframes, behind]

theorem ReadOf.congr
    (h : s.ReadOf after replay) (hframes : s'.frames = s.frames) :
    s'.ReadOf after replay := by
  constructor
  · exact h.sorted
  · rw [behind_congr hframes]
    exact h.behind
  · rw [behind_congr hframes]
    exact h.closed

theorem step_following (h : s.Stitched) (hfollow : s.Following)
    (hstep : s.step e = some s') : s'.Following := by
  cases h.move hstep with
  | push event data frame hseq hnext hframes hunsettled hjoin =>
      unfold Following at hfollow ⊢
      rw [hjoin]
      cases hphase : s.join with
      | idle => trivial
      | reading after =>
          rw [hphase] at hfollow
          dsimp only at hfollow ⊢
          omega
      | read after replay =>
          rw [hphase] at hfollow
          rcases hfollow with ⟨hafter, hread⟩
          have hbehind := behind_push hframes hseq hafter
          refine ⟨by omega, hread.sorted, ?_, ?_⟩
          · intro f hf
            rw [hbehind]
            exact List.mem_append_left _ (hread.behind f hf)
          · intro f hf g hg hle
            rw [hbehind] at hg
            rcases List.mem_append.mp hg with hold | hnew
            · exact hread.closed f hf g hold hle
            · have hf' := h.le_seq (hread.behind f hf)
              rw [List.mem_singleton.mp hnew] at hle
              omega
      | returned after replay =>
          rw [hphase] at hfollow
          refine ⟨by omega, List.Subset.trans hfollow.2 ?_⟩
          rw [hframes]
          exact List.subset_append_left _ _
      | joined after received =>
          rw [hphase] at hfollow
          dsimp only at hfollow ⊢
          omega
  | quiet _ hseq hframes _ hjoin | settle _ _ _ hseq hframes _ hjoin =>
      unfold Following at hfollow ⊢
      rw [hjoin, hseq]
      cases hphase : s.join with
      | read after replay =>
          rw [hphase] at hfollow
          exact ⟨hfollow.1, hfollow.2.congr hframes⟩
      | returned after replay =>
          rw [hphase] at hfollow
          exact ⟨hfollow.1, hframes ▸ hfollow.2⟩
      | _ =>
          rw [hphase] at hfollow
          exact hfollow
  | join after hidle hcursor hmoved =>
      subst hmoved
      rcases hcursor with rfl | ⟨f, hf, rfl⟩
      · exact Nat.zero_le _
      · exact (h.bounds f hf).2
  | read after hreading hmoved =>
      subst hmoved
      unfold Following at hfollow
      rw [hreading] at hfollow
      exact ⟨hfollow, (h.readOf after).congr rfl⟩
  | returned after replay hread hmoved =>
      subst hmoved
      unfold Following at hfollow
      rw [hread] at hfollow
      refine ⟨hfollow.1, fun f hf => ?_⟩
      rcases h.mem_return.mp hf with hin | ⟨hin, -⟩
      · exact (mem_behind.mp (hfollow.2.behind f hin)).1
      · exact h.unsettled_sublist.subset hin
  | subscribed after replay hreturned hmoved =>
      subst hmoved
      unfold Following at hfollow
      rw [hreturned] at hfollow
      exact hfollow.1

theorem return_complete (h : s.Stitched) (hread : s.ReadOf after replay)
    (hcomplete : ∀ f ∈ s.behind after, f ∈ replay ∨ f ∈ s.unsettled) :
    replay ++ s.buffer.tailAfter (lastReplayed after replay) =
      s.behind after := by
  rcases lastReplayed_spec hread.sorted
      (fun f hf => (mem_behind.mp (hread.behind f hf)).2) with
    ⟨hmax, hlast, hafter⟩
  have hsorted : (replay ++
      s.buffer.tailAfter (lastReplayed after replay)).Pairwise bySeq := by
    rw [List.pairwise_append, h.tailAfter]
    refine ⟨hread.sorted, ?_, ?_⟩
    · exact h.sorted.sublist (List.filter_sublist.trans h.unsettled_sublist)
    · intro f hf g hg
      have hlt : lastReplayed after replay < g.seq := by
        simpa using (List.mem_filter.mp hg).2
      exact (hmax f hf).trans_lt hlt
  apply hsorted.eq_of_mem_iff (h.sorted.sublist List.filter_sublist)
  intro f
  rw [h.mem_return]
  constructor
  · rintro (hf | ⟨hf, hlt⟩)
    · exact hread.behind f hf
    · exact mem_behind.mpr ⟨h.unsettled_sublist.subset hf, hafter.trans_lt hlt⟩
  · intro hf
    by_cases hin : f ∈ replay
    · exact Or.inl hin
    · rcases hcomplete f hf with hold | hunsettled
      · exact Or.inl hold
      · refine Or.inr ⟨hunsettled, ?_⟩
        rcases hlast with ⟨hsame, -⟩ | ⟨g, hg, hseq⟩
        · rw [hsame]
          exact (mem_behind.mp hf).2
        · rw [← hseq]
          by_contra hle
          exact hin (hread.closed g hg f hf (Nat.not_lt.mp hle))

theorem step_complete (h : s.Stitched) (hfollow : s.Following)
    (hcomplete : s.Complete) (hmisses : s.MissesNothing e)
    (hstep : s.step e = some s') : s'.Complete := by
  unfold Complete at hcomplete
  unfold Following at hfollow
  unfold MissesNothing at hmisses
  cases h.move hstep with
  | push event data frame hseq hnext hframes hunsettled hjoin =>
      unfold Complete
      rw [hjoin]
      cases hphase : s.join with
      | idle | reading => trivial
      | read after replay =>
          rw [hphase] at hcomplete hfollow
          intro f hf
          rw [behind_push hframes hseq hfollow.1] at hf
          rw [hunsettled]
          rcases List.mem_append.mp hf with hold | hnew
          · rcases hcomplete f hold with hreplay | hstill
            · exact Or.inl hreplay
            · exact Or.inr (List.mem_append_left _ hstill)
          · exact Or.inr (List.mem_append_right _ hnew)
      | returned after replay =>
          rw [hphase] at hmisses
          exact hmisses.elim
      | joined after received =>
          rw [hphase] at hcomplete hfollow
          dsimp only at hcomplete ⊢
          rw [behind_push hframes hseq hfollow, hcomplete]
  | quiet _ hseq hframes hunsettled hjoin =>
      unfold Complete
      rw [hjoin]
      cases hphase : s.join with
      | idle | reading => trivial
      | read after replay =>
          rw [hphase] at hcomplete
          dsimp only
          rw [behind_congr hframes, hunsettled]
          exact hcomplete
      | returned after received | joined after received =>
          rw [hphase] at hcomplete
          dsimp only
          rw [behind_congr hframes]
          exact hcomplete
  | settle batch rest holdest hseq hframes hunsettled hjoin =>
      unfold Complete
      rw [hjoin]
      cases hphase : s.join with
      | idle | reading => trivial
      | read after replay =>
          rw [hphase] at hcomplete
          rw [hphase, holdest] at hmisses
          intro f hf
          rw [behind_congr hframes] at hf
          rcases hcomplete f hf with hreplay | hstill
          · exact Or.inl hreplay
          · rw [hunsettled] at hstill
            rcases List.mem_append.mp hstill with hbatch | hrest
            · exact Or.inl (hmisses f hbatch (mem_behind.mp hf).2)
            · exact Or.inr hrest
      | returned after received | joined after received =>
          rw [hphase] at hcomplete
          dsimp only
          rw [behind_congr hframes]
          exact hcomplete
  | join after hidle hcursor hmoved =>
      subst hmoved
      trivial
  | read after hreading hmoved =>
      subst hmoved
      intro f hf
      rcases mem_behind.mp hf with ⟨hframes, hlt⟩
      rcases h.mem_frames.mp hframes with hstored | hunsettled
      · exact Or.inl (h.mem_read.mpr ⟨hstored, hlt⟩)
      · exact Or.inr hunsettled
  | returned after replay hread hmoved =>
      subst hmoved
      rw [hread] at hcomplete hfollow
      exact return_complete h hfollow.2 hcomplete
  | subscribed after replay hreturned hmoved =>
      subst hmoved
      rw [hreturned] at hcomplete
      exact hcomplete

theorem Lost.mem_frames (hlost : s.Lost f) : f ∈ s.frames := by
  unfold Lost at hlost
  cases hphase : s.join with
  | idle | reading =>
      rw [hphase] at hlost
      exact hlost.elim
  | read | returned | joined =>
      rw [hphase] at hlost
      exact (mem_behind.mp hlost.1).1

/-- While the join stands still, a lost frame can only come back unsettled. -/
theorem Lost.kept (hlost : s.Lost f) (hjoin : s'.join = s.join)
    (hframes : s.frames ⊆ s'.frames)
    (hunsettled : f ∈ s'.unsettled → f ∈ s.unsettled) : s'.Lost f := by
  have hbehind : ∀ {after}, f ∈ s.behind after → f ∈ s'.behind after :=
    fun hf => mem_behind.mpr ((mem_behind.mp hf).imp_left (@hframes f))
  unfold Lost at hlost ⊢
  rw [hjoin]
  cases hphase : s.join with
  | idle | reading =>
      rw [hphase] at hlost
      exact hlost
  | read after replay =>
      rw [hphase] at hlost
      exact ⟨hbehind hlost.1, hlost.2.1, hlost.2.2 ∘ hunsettled⟩
  | returned after received | joined after received =>
      rw [hphase] at hlost
      exact ⟨hbehind hlost.1, hlost.2⟩

/-- A frame that is lost stays lost. -/
theorem step_lost (h : s.Stitched) (hlost : s.Lost f)
    (hstep : s.step e = some s') : s'.Lost f := by
  cases h.move hstep with
  | push event data frame hseq hnext hframes hunsettled hjoin =>
      have hsub : s.frames ⊆ s'.frames := by
        rw [hframes]
        exact List.subset_append_left _ _
      have hne : f ≠ frame := by
        rintro rfl
        have hle := (h.bounds f hlost.mem_frames).2
        omega
      cases hphase : s.join with
      | joined after received =>
          unfold Lost at hlost ⊢
          rw [hphase] at hlost
          rw [hjoin, hphase]
          refine ⟨mem_behind.mpr
            ((mem_behind.mp hlost.1).imp_left (@hsub f)), ?_⟩
          rw [List.mem_append, List.mem_singleton]
          exact not_or.mpr ⟨hlost.2, hne⟩
      | _ =>
          rw [hphase] at hjoin
          refine hlost.kept (hjoin.trans hphase.symm) hsub fun hf => ?_
          rw [hunsettled, List.mem_append, List.mem_singleton] at hf
          exact hf.resolve_right hne
  | quiet _ hseq hframes hunsettled hjoin =>
      exact hlost.kept hjoin (hframes ▸ List.Subset.refl _) (hunsettled ▸ id)
  | settle batch rest holdest hseq hframes hunsettled hjoin =>
      refine hlost.kept hjoin (hframes ▸ List.Subset.refl _) fun hf => ?_
      rw [hunsettled]
      exact List.mem_append_right _ hf
  | join after hidle hcursor hmoved =>
      unfold Lost at hlost
      rw [hidle] at hlost
      exact hlost.elim
  | read after hreading hmoved =>
      unfold Lost at hlost
      rw [hreading] at hlost
      exact hlost.elim
  | returned after replay hread hmoved =>
      subst hmoved
      unfold Lost at hlost
      rw [hread] at hlost
      rcases hlost with ⟨hf, hreplay, hgone⟩
      refine ⟨hf, ?_⟩
      rw [h.mem_return]
      rintro (hin | ⟨hin, -⟩)
      · exact hreplay hin
      · exact hgone hin
  | subscribed after replay hreturned hmoved =>
      subst hmoved
      unfold Lost at hlost
      rw [hreturned] at hlost
      exact hlost

/-- A step that settles a missed write, or pushes a frame before the caller
subscribes, loses a frame. -/
theorem step_loses (h : s.Stitched) (hfollow : s.Following)
    (hmisses : ¬ s.MissesNothing e) (hstep : s.step e = some s') :
    ∃ f, s'.Lost f := by
  cases e with
  | push event data =>
      cases hphase : s.join with
      | returned after replay =>
          dsimp only [step] at hstep
          rw [h.isOpen, if_neg Bool.false_ne_true, hphase] at hstep
          cases hstep
          unfold Following at hfollow
          rw [hphase] at hfollow
          refine ⟨s.buffer.nextFrame event data, mem_behind.mpr
            ⟨by simp, Nat.lt_succ_of_le hfollow.1⟩, fun hin => ?_⟩
          have hle := (h.bounds _ (hfollow.2 hin)).2
          exact absurd hle (Nat.not_succ_le_self _)
      | _ =>
          unfold MissesNothing at hmisses
          rw [hphase] at hmisses
          exact absurd trivial hmisses
  | settle =>
      cases h.move hstep with
      | quiet _ hseq hframes hunsettled hjoin =>
          dsimp only [step] at hstep
          split at hstep
          next batch rest hlanded hflight =>
            cases hstep
            have hempty : batch = [] := by
              simpa [unsettled, RunBuffer.settle, hflight] using hunsettled
            exact absurd hempty (h.batches batch (by rw [hflight]; simp))
          next => cases hstep
      | settle batch rest holdest hseq hframes hunsettled hjoin =>
          unfold MissesNothing at hmisses
          cases hphase : s.join with
          | read after replay =>
              rw [hphase, holdest] at hmisses
              dsimp only at hmisses
              push Not at hmisses
              rcases hmisses with ⟨f, hf, hlt, hreplay⟩
              have hnodup : s.unsettled.Nodup :=
                (h.sorted.sublist h.unsettled_sublist).nodup
              rw [hunsettled] at hnodup
              have hin : f ∈ s.frames := by
                apply h.unsettled_sublist.subset
                rw [hunsettled]
                exact List.mem_append_left _ hf
              refine ⟨f, ?_⟩
              unfold Lost
              rw [hjoin, hphase]
              dsimp only
              rw [behind_congr hframes]
              exact ⟨mem_behind.mpr ⟨hin, hlt⟩, hreplay,
                fun hgone => (List.nodup_append.mp hnodup).2.2 f hf f hgone rfl⟩
          | _ =>
              rw [hphase] at hmisses
              exact absurd trivial hmisses
  | _ => exact absurd trivial hmisses

theorem run_lost {es : List (JoinEvent D)} (h : s.Stitched)
    (hfollow : s.Following) (hrun : Transition.run step s es = some s')
    (hmisses : ¬ Transition.Meets step MissesNothing s es) :
    ∃ f, s'.Lost f := by
  induction es generalizing s with
  | nil => exact absurd trivial hmisses
  | cons e es ih =>
      rcases Transition.run_cons_eq_some.mp hrun with ⟨mid, hmid, hrest⟩
      have hstitched := step_stitched h hmid
      have hfollowing := step_following h hfollow hmid
      by_cases hhead : s.MissesNothing e
      · apply ih hstitched hfollowing hrest
        intro htail
        apply hmisses
        unfold Transition.Meets
        rw [hmid]
        exact ⟨hhead, htail⟩
      · rcases step_loses h hfollow hhead hmid with ⟨f, hf⟩
        have hkept := Transition.run_preserves (I := fun s : JoinedRun D =>
            s.Stitched ∧ s.Following ∧ s.Lost f)
          (fun _ _ _ hinv hstep => ⟨step_stitched hinv.1 hstep,
            step_following hinv.1 hinv.2.1 hstep,
            step_lost hinv.1 hinv.2.2 hstep⟩)
          ⟨hstitched, hfollowing, hf⟩ hrest
        exact ⟨f, hkept.2.2⟩

/-- A client that joined a live run has exactly its frames behind the cursor,
in order, when and only when every write settled between the join's read and
its return was in the read or at or below the cursor, and no frame was pushed
between its return and the subscription. -/
theorem join_complete (opened s : JoinedRun D) (es : List (JoinEvent D))
    (after : ℕ) (received : List (Frame D)) (hopened : opened.Opened)
    (hrun : Transition.run step opened es = some s)
    (hjoined : s.join = .joined after received) :
    received = (s.frames.filter fun f => decide (after < f.seq)) ↔
      Transition.Meets step MissesNothing opened es := by
  have hfollowing : opened.Following := by
    unfold Following
    rw [hopened.join]
    trivial
  constructor
  · intro hall
    by_contra hmisses
    rcases run_lost hopened.stitched hfollowing hrun hmisses with ⟨f, hlost⟩
    unfold Lost at hlost
    rw [hjoined] at hlost
    apply hlost.2
    rw [hall]
    exact hlost.1
  · intro hmeets
    have hcomplete : opened.Complete := by
      unfold Complete
      rw [hopened.join]
      trivial
    have hkept := Transition.run_preserves_of_meets
      (I := fun s : JoinedRun D => s.Stitched ∧ s.Following ∧ s.Complete)
      (fun _ _ _ hinv hmisses hstep => ⟨step_stitched hinv.1 hstep,
        step_following hinv.1 hinv.2.1 hstep,
        step_complete hinv.1 hinv.2.1 hinv.2.2 hmisses hstep⟩)
      hmeets ⟨hopened.stitched, hfollowing, hcomplete⟩ hrun
    have hall := hkept.2.2
    unfold Complete at hall
    rw [hjoined] at hall
    exact hall

/-- A run at its opening, with nothing packed. -/
def fresh : JoinedRun String :=
  ⟨⟨0, [], [], none, false, 0⟩, [], false, [], .idle⟩

theorem fresh_opened : fresh.Opened := by
  constructor
  · rfl
  · rfl
  · exact ⟨rfl, rfl, rfl⟩
  · rfl
  · exact List.Pairwise.nil
  · intro f hf
    cases hf
  · intro seg hseg
    cases hseg

/-- The read finds the first frame in the store and the second in flight; a
third comes after the return. -/
def joinedMidway : List (JoinEvent String) :=
  [.push "message" "a", .flush, .land, .settle, .push "message" "b", .flush,
    .join 0, .readSegments, .land, .return, .settle, .subscribe,
    .push "done" ""]

theorem join_complete_joinedMidway :
    ∃ s received, Transition.run step fresh joinedMidway = some s ∧
      s.join = .joined 0 received ∧ received.map Frame.seq = [1, 2, 3] ∧
      (received = (s.frames.filter fun f => decide (0 < f.seq)) ↔
        Transition.Meets step MissesNothing fresh joinedMidway) :=
  ⟨_, _, rfl, rfl, by decide +kernel,
    join_complete fresh _ joinedMidway 0 _ fresh_opened rfl rfl⟩

/-- The write of the first frame lands and settles between the join's read and
its return, and the second is pushed before the caller subscribes. -/
def joinedTooLate : List (JoinEvent String) :=
  [.push "message" "a", .flush, .join 0, .readSegments, .land, .settle,
    .return, .push "message" "b", .subscribe]

theorem join_loses_settled_write :
    ¬ ∀ (opened s : JoinedRun String) (es : List (JoinEvent String))
      (after : ℕ) (received : List (Frame String)), opened.Opened →
      Transition.run step opened es = some s →
      s.join = .joined after received →
      received = (s.frames.filter fun f => decide (after < f.seq)) := by
  intro h
  have hall := h fresh _ joinedTooLate 0 _ fresh_opened rfl rfl
  revert hall
  decide +kernel

end JoinedRun
end QiForge
