import QiForge.Transition

/-!
# The output buffer of a run, and a client that joins it

`push` and `flush` on the frames of a live run, the segment writes behind
them, which land in the store and settle one after the other, and one `join`:
its read of the store, its return, and the subscription of the caller, who
gets the answer of the promise a moment later.  When a flush comes (timer,
size, an immediate frame) is left open; a live run's buffer is not closed.
-/

namespace QiForge

namespace RunBuffer

structure Frame (D : Type) where
  seq : ℕ
  event : String
  data : D
deriving DecidableEq, Repr

/-- The payload is the text of `frames`. -/
structure PackedSegment (D : Type) where
  seqFrom : ℕ
  seqTo : ℕ
  frames : List (Frame D)
deriving DecidableEq, Repr

end RunBuffer

open RunBuffer (Frame PackedSegment)

structure RunBuffer (D : Type) where
  seq : ℕ
  tail : List (Frame D)
  inFlight : List (List (Frame D))
  doneFrame : Option (Frame D)
  closed : Bool
  packedSeq : ℕ

/-- A join: not begun, called with its cursor, its read done with the frames
it will replay, returned with its answer, or subscribed with the frames the
client has. -/
inductive JoinPhase (D : Type) where
  | idle
  | reading (after : ℕ)
  | read (after : ℕ) (replay : List (Frame D))
  | returned (after : ℕ) (replay : List (Frame D))
  | joined (after : ℕ) (received : List (Frame D))

/-- `stored` is the run's segments in the order of their key, `landed` that
the oldest pending write is in the store, `frames` what the run produced. -/
structure JoinedRun (D : Type) where
  buffer : RunBuffer D
  stored : List (PackedSegment D)
  landed : Bool
  frames : List (Frame D)
  join : JoinPhase D

inductive JoinEvent (D : Type) where
  | push (event : String) (data : D)
  | flush
  | land
  | settle
  | join (after : ℕ)
  | readSegments
  | return
  | subscribe

namespace RunBuffer

variable {D : Type}

/-- The segment of a batch taken from the tail. -/
def segmentOf (batch : List (Frame D)) : PackedSegment D :=
  ⟨(batch.head?.map Frame.seq).getD 0, (batch.getLast?.map Frame.seq).getD 0,
    batch⟩

def framesOfSegments (segments : List (PackedSegment D)) (after : ℕ) :
    List (Frame D) :=
  (segments.flatMap PackedSegment.frames).filter fun f =>
    decide (after < f.seq)

def nextFrame (b : RunBuffer D) (event : String) (data : D) : Frame D :=
  ⟨b.seq + 1, event, data⟩

def push (b : RunBuffer D) (event : String) (data : D) : RunBuffer D :=
  let frame := b.nextFrame event data
  { b with
    seq := frame.seq
    tail := b.tail ++ [frame]
    doneFrame :=
      if event = "done" ∧ b.doneFrame.isNone then some frame
      else b.doneFrame }

def flush (b : RunBuffer D) : RunBuffer D :=
  if b.tail = [] then b
  else { b with tail := [], inFlight := b.inFlight ++ [b.tail] }

/-- The oldest pending write settled. -/
def settle (b : RunBuffer D) (batch : List (Frame D)) : RunBuffer D := { b with
    inFlight := b.inFlight.tail
    packedSeq := max b.packedSeq (segmentOf batch).seqTo }

def tailAfter (b : RunBuffer D) (after : ℕ) : List (Frame D) :=
  let out := (b.inFlight.flatten ++ b.tail).filter fun f =>
    decide (after < f.seq)
  match b.doneFrame with
  | some done =>
      if b.closed = true ∧ after < done.seq ∧ ∀ f ∈ out, f.seq ≠ done.seq then
        out ++ [done]
      else out
  | none => out

end RunBuffer

/-- `INSERT OR REPLACE` by the run's `seq_from`. -/
def appendSegment {D : Type} (stored : List (PackedSegment D))
    (segment : PackedSegment D) : List (PackedSegment D) :=
  (stored.filter fun s => decide (s.seqFrom < segment.seqFrom)) ++
    segment :: stored.filter fun s => decide (segment.seqFrom < s.seqFrom)

def readSegments {D : Type} (stored : List (PackedSegment D)) (after : ℕ) :
    List (PackedSegment D) :=
  stored.filter fun s => decide (after < s.seqTo)

namespace JoinedRun

variable {D : Type}

def lastReplayed (after : ℕ) (replay : List (Frame D)) : ℕ :=
  (replay.getLast?.map Frame.seq).getD after

def step (s : JoinedRun D) : JoinEvent D → Option (JoinedRun D)
  | .push event data =>
      let frame := s.buffer.nextFrame event data
      if s.buffer.closed then none
      else
        some { s with
          buffer := s.buffer.push event data
          frames := s.frames ++ [frame]
          join :=
            match s.join with
            | .joined after received => .joined after (received ++ [frame])
            | phase => phase }
  | .flush => some { s with buffer := s.buffer.flush }
  | .land =>
      match s.landed, s.buffer.inFlight with
      | false, batch :: _ =>
          some { s with
            stored := appendSegment s.stored (RunBuffer.segmentOf batch)
            landed := true }
      | _, _ => none
  | .settle =>
      match s.landed, s.buffer.inFlight with
      | true, batch :: _ =>
          some { s with buffer := s.buffer.settle batch, landed := false }
      | _, _ => none
  | .join after =>
      match s.join with
      | .idle =>
          if after = 0 ∨ ∃ f ∈ s.frames, f.seq = after then
            some { s with join := .reading after }
          else none
      | _ => none
  | .readSegments =>
      match s.join with
      | .reading after =>
          some { s with
            join := .read after (RunBuffer.framesOfSegments
              (QiForge.readSegments s.stored after) after) }
      | _ => none
  | .return =>
      match s.join with
      | .read after replay =>
          some { s with
            join := .returned after
              (replay ++ s.buffer.tailAfter (lastReplayed after replay)) }
      | _ => none
  | .subscribe =>
      match s.join with
      | .returned after replay =>
          some { s with join := .joined after replay }
      | _ => none

/-- A run as an attempt opens it: what earlier attempts packed is in the
store, below the number it continues from. -/
structure Opened (s : JoinedRun D) : Prop where
  join : s.join = .idle
  isOpen : s.buffer.closed = false
  quiet : s.buffer.inFlight = [] ∧ s.buffer.tail = [] ∧ s.landed = false
  frames : s.frames = s.stored.flatMap PackedSegment.frames
  sorted : s.frames.Pairwise fun f g => f.seq < g.seq
  bounds : ∀ f ∈ s.frames, 0 < f.seq ∧ f.seq ≤ s.buffer.seq
  segments : ∀ seg ∈ s.stored, seg = RunBuffer.segmentOf seg.frames ∧
    seg.frames ≠ []

/-- No write settles between the join's read and its return with a frame
behind the cursor that the read missed, and no frame is pushed between the
return and the subscription. -/
def MissesNothing (s : JoinedRun D) : JoinEvent D → Prop
  | .push _ _ =>
      match s.join with
      | .returned _ _ => False
      | _ => True
  | .settle =>
      match s.join, s.buffer.inFlight with
      | .read after replay, batch :: _ =>
          ∀ f ∈ batch, after < f.seq → f ∈ replay
      | _, _ => True
  | _ => True

end JoinedRun
end QiForge
