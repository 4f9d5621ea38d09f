import QiForge.TusUpload

/-!
# The life of a part at the server

Under any faults a part is absent, taken or, once it completed the upload and
the server closed it, gone.  `PartLife` follows this from the faults alone, as
if the client went on with all its attempts; the server holds the parts before
it, and the part itself exactly when it is not absent.
-/

namespace QiForge.Tus

inductive PartLife where
  | absent
  | taken
  | gone
deriving DecidableEq

namespace PartLife

def arrive : PartLife → PartLife
  | .absent => .taken
  | life => life

/-- The upload is closed; `final` tells whether the part completed it. -/
def close (final : Bool) : PartLife → PartLife
  | .taken => if final then .gone else .taken
  | life => life

def pass (offset : ℕ) (final : Bool) (life : PartLife)
    (meanwhile : Meanwhile) : PartLife :=
  let life := if offset ∈ meanwhile.late then life.arrive else life
  if meanwhile.closes then life.close final else life

def receive (offset : ℕ) (final : Bool) (life : PartLife)
    (attempt : Attempt) : PartLife :=
  let life := life.pass offset final attempt.beforePatch
  if attempt.patch.reaches then life.arrive else life

/-- When the probe of the attempt is answered. -/
def probe (offset : ℕ) (final : Bool) (life : PartLife)
    (attempt : Attempt) : PartLife :=
  (life.receive offset final attempt).pass offset final attempt.beforeHead

/-- At the start of an attempt. -/
def start (offset : ℕ) (final : Bool) (attempts : ℕ → Attempt) : ℕ → PartLife
  | 0 => .absent
  | attempt + 1 =>
      (start offset final attempts attempt).probe offset final
        (attempts attempt)

/-- The status a PATCH of the part is refused with. -/
def refusal : PartLife → Option ℕ
  | .absent => none
  | .taken => some 409
  | .gone => some 404

/-- The offset an answered probe tells. -/
def probed (offset length : ℕ) : PartLife → Option ℕ
  | .absent => some offset
  | .taken => some (offset + length)
  | .gone => none

/-- How many parts the server holds when the part is the `index`-th. -/
def parts (index : ℕ) : PartLife → ℕ
  | .absent => index
  | _ => index + 1

@[simp] theorem arrive_gone : arrive .gone = .gone := rfl

@[simp] theorem pass_gone (offset : ℕ) (final : Bool) (meanwhile : Meanwhile) :
    pass offset final .gone meanwhile = .gone := by
  simp [pass, close]

theorem arrive_ne_absent (life : PartLife) : life.arrive ≠ .absent := by
  cases life <;> simp [arrive]

variable {offset : ℕ} {final : Bool} {life : PartLife}

theorem pass_open
    {meanwhile : Meanwhile} (hopen : meanwhile.closes = true → final = false)
    (h : life ≠ .gone) : life.pass offset final meanwhile ≠ .gone := by
  have harrived : (if offset ∈ meanwhile.late then life.arrive else life) ≠
      .gone := by
    cases life <;> (split <;> simp_all [arrive])
  simp only [pass]
  by_cases hcloses : meanwhile.closes = true
  · rw [if_pos hcloses, hopen hcloses]
    cases hlife : (if offset ∈ meanwhile.late then life.arrive else life) <;>
      simp_all [close]
  · rwa [if_neg hcloses]

/-- The upload is not closed, or not complete with this part. -/
def KeepsOpen (final : Bool) (attempt : Attempt) : Prop :=
  (attempt.beforePatch.closes = true → final = false) ∧
    (attempt.beforeHead.closes = true → final = false)

theorem receive_open {attempt : Attempt} (hopen : KeepsOpen final attempt)
    (h : life ≠ .gone) : life.receive offset final attempt ≠ .gone := by
  have hpass := @pass_open offset final life _ hopen.1 h
  unfold receive
  cases hlife : life.pass offset final attempt.beforePatch <;>
    (split <;> simp_all [arrive])

theorem probe_open {attempt : Attempt} (hopen : KeepsOpen final attempt)
    (h : life ≠ .gone) : life.probe offset final attempt ≠ .gone :=
  pass_open hopen.2 (receive_open hopen h)

theorem start_open {attempts : ℕ → Attempt}
    (hopen : ∀ attempt, KeepsOpen final (attempts attempt)) (attempt : ℕ) :
    start offset final attempts attempt ≠ .gone := by
  induction attempt with
  | zero => simp [start]
  | succ attempt ih => exact probe_open (hopen attempt) ih

/-- A part that does not complete the upload is never gone. -/
theorem keepsOpen_of_not_final (attempt : Attempt) :
    KeepsOpen false attempt := ⟨fun _ => rfl, fun _ => rfl⟩

@[simp] theorem probe_gone (offset : ℕ) (final : Bool)
    (attempt : Attempt) : probe offset final .gone attempt = .gone := by
  simp [probe, receive]

theorem probe_of_pass_gone {attempt : Attempt}
    (h : life.pass offset final attempt.beforePatch = .gone) :
    life.probe offset final attempt = .gone := by
  simp [probe, receive, h]

end PartLife

def PatchFate.answers : PatchFate → Bool
  | .answered _ => true
  | _ => false

/-- The PATCH of the attempt is the one that is appended, and answered. -/
def Attempt.Accepted (offset : ℕ) (final : Bool) (life : PartLife)
    (attempt : Attempt) : Prop :=
  attempt.patch.answers = true ∧
    life.pass offset final attempt.beforePatch = .absent

/-- The probe of the attempt is answered, and finds the part taken in a
session still open. -/
def Attempt.Seen (offset : ℕ) (final : Bool) (life : PartLife)
    (attempt : Attempt) : Prop :=
  attempt.head = .answered ∧ life.probe offset final attempt = .taken

/-- From some attempt on, with so many retries left. -/
def KeptFrom (offset : ℕ) (final : Bool) (attempts : ℕ → Attempt)
    (first retries : ℕ) : Prop :=
  (∃ attempt, first ≤ attempt ∧ attempt ≤ first + retries ∧
    (attempts attempt).Accepted offset final
      (PartLife.start offset final attempts attempt)) ∨
  ∃ attempt, first ≤ attempt ∧ attempt < first + retries ∧
    (attempts attempt).Seen offset final
      (PartLife.start offset final attempts attempt)

section Kept

variable {offset first retries : ℕ} {final : Bool} {attempts : ℕ → Attempt}

theorem keptFrom_zero : KeptFrom offset final attempts first 0 ↔
      (attempts first).Accepted offset final
        (PartLife.start offset final attempts first) := by
  constructor
  · rintro (⟨attempt, hge, hle, h⟩ | ⟨attempt, hge, hlt, -⟩)
    · obtain rfl : attempt = first := by omega
      exact h
    · omega
  · exact fun h => .inl ⟨first, le_rfl, le_rfl, h⟩

theorem keptFrom_succ : KeptFrom offset final attempts first (retries + 1) ↔
      (attempts first).Accepted offset final
          (PartLife.start offset final attempts first) ∨
        (attempts first).Seen offset final
          (PartLife.start offset final attempts first) ∨
        KeptFrom offset final attempts (first + 1) retries := by
  constructor
  · rintro (⟨attempt, hge, hle, h⟩ | ⟨attempt, hge, hlt, h⟩)
    · rcases hge.eq_or_lt with rfl | hgt
      · exact .inl h
      · exact .inr (.inr (.inl ⟨attempt, hgt, by omega, h⟩))
    · rcases hge.eq_or_lt with rfl | hgt
      · exact .inr (.inl h)
      · exact .inr (.inr (.inr ⟨attempt, hgt, by omega, h⟩))
  · rintro (h | h | ⟨attempt, hge, hle, h⟩ | ⟨attempt, hge, hlt, h⟩)
    · exact .inl ⟨first, le_rfl, by omega, h⟩
    · exact .inr ⟨first, le_rfl, by omega, h⟩
    · exact .inl ⟨attempt, by omega, by omega, h⟩
    · exact .inr ⟨attempt, by omega, by omega, h⟩

theorem not_accepted_gone (attempt : Attempt) :
    ¬attempt.Accepted offset final .gone := by
  simp [Attempt.Accepted]

theorem not_seen_gone (attempt : Attempt) :
    ¬attempt.Seen offset final .gone := by
  simp [Attempt.Seen]

theorem not_keptFrom_of_gone
    (hgone : PartLife.start offset final attempts first = .gone) :
    ¬KeptFrom offset final attempts first retries := by
  induction retries generalizing first with
  | zero =>
      rw [keptFrom_zero, hgone]
      exact not_accepted_gone _
  | succ retries ih =>
      have hnext : PartLife.start offset final attempts (first + 1) =
          .gone := by
        rw [PartLife.start, hgone, PartLife.probe_gone]
      rw [keptFrom_succ, hgone]
      rintro (h | h | h)
      · exact not_accepted_gone _ h
      · exact not_seen_gone _ h
      · exact ih hnext h

end Kept

/-- The `index`-th part of a source. -/
def slice (size : ℕ) (source : Bytes) (index : ℕ) : ℕ × Bytes :=
  (index * size, (source.drop (index * size)).take size)

/-- The server while the part is sent. -/
structure Holds (size : ℕ) (source : Bytes) (totalLength index : ℕ)
    (life : PartLife) (s : Server) : Prop where
  totalLength : s.totalLength = totalLength
  appended : s.appended =
    (List.range (life.parts index)).map (slice size source)
  committed : s.committed = source.take (life.parts index * size)
  closed : s.closed = decide (life = .gone)
  sent : ∀ patch ∈ s.sent, ∃ i ≤ index, patch = slice size source i

theorem slice_fst (size : ℕ) (source : Bytes) (index : ℕ) :
    (slice size source index).1 = index * size := rfl

theorem take_append_slice (size : ℕ) (source : Bytes) (index : ℕ) :
    source.take (index * size) ++ (slice size source index).2 =
      source.take ((index + 1) * size) := by
  rw [slice, Nat.succ_mul, List.take_add]

namespace Server

variable (s : Server) (patch : ℕ × Bytes) (offset : ℕ) (meanwhile : Meanwhile)

@[simp] theorem append_sent : (s.append patch).1.sent = s.sent := by
  unfold append
  repeat' split
  all_goals rfl

@[simp] theorem arrive_sent : (s.arrive offset).sent = s.sent := by
  unfold arrive
  split
  · rfl
  · exact append_sent s _

theorem foldl_arrive_sent (late : List ℕ) :
    (late.foldl arrive s).sent = s.sent := by
  induction late generalizing s with
  | nil => rfl
  | cons offset late ih => rw [List.foldl_cons, ih, arrive_sent]

@[simp] theorem close_sent : s.close.sent = s.sent := by
  unfold close
  split <;> rfl

@[simp] theorem pass_sent : (s.pass meanwhile).sent = s.sent := by
  simp only [pass]
  split
  · rw [close_sent, foldl_arrive_sent]
  · exact foldl_arrive_sent s _

end Server

section Server

variable {size totalLength index : ℕ} {source : Bytes} {life : PartLife}
  {s : Server}

/-- The part has bytes, within the declared length; `final` tells whether it
completes the upload. -/
structure Fits (size : ℕ) (source : Bytes) (totalLength index : ℕ)
    (final : Bool) : Prop where
  size_pos : 0 < size
  index_lt : index * size < source.length
  within : index * size + (slice size source index).2.length ≤ totalLength
  final_eq : final =
    decide (index * size + (slice size source index).2.length = totalLength)

theorem Fits.slice_pos {final : Bool}
    (hfits : Fits size source totalLength index final) :
    0 < (slice size source index).2.length := by
  have := hfits.size_pos
  have := hfits.index_lt
  simp only [slice, List.length_take, List.length_drop]
  omega

theorem Holds.send (h : Holds size source totalLength index life s) :
    Holds size source totalLength index life
      { s with sent := s.sent ++ [slice size source index] } := by
  refine ⟨h.totalLength, h.appended, h.committed, h.closed, ?_⟩
  intro patch hpatch
  rcases List.mem_append.mp hpatch with hold | hnew
  · exact h.sent patch hold
  · exact ⟨index, le_rfl, List.mem_singleton.mp hnew⟩

variable {final : Bool} (hfits : Fits size source totalLength index final)
include hfits

theorem Holds.length (h : Holds size source totalLength index life s) :
    s.committed.length = index * size +
      if life = .absent then 0 else (slice size source index).2.length := by
  have hlt := hfits.index_lt
  rw [h.committed]
  cases life with
  | absent =>
      simp only [PartLife.parts, List.length_take, if_true]
      omega
  | taken =>
      simp only [PartLife.parts, ← take_append_slice, List.length_append,
        List.length_take, reduceCtorEq, if_false]
      omega
  | gone =>
      simp only [PartLife.parts, ← take_append_slice, List.length_append,
        List.length_take, reduceCtorEq, if_false]
      omega

/-- The part is appended when it is absent, and refused otherwise. -/
theorem Holds.append (h : Holds size source totalLength index life s) :
    Holds size source totalLength index life.arrive
        (s.append (slice size source index)).1 ∧
      (s.append (slice size source index)).2 = life.refusal := by
  have hlength := h.length hfits
  have hpos := hfits.slice_pos
  have hclosed := h.closed
  cases life with
  | absent =>
      have hopen : s.closed = false := by simpa using hclosed
      have hoffset : (slice size source index).1 = s.committed.length := by
        rw [hlength]
        rfl
      simp only [Server.append, hopen, Bool.false_eq_true, if_false,
        if_pos hoffset]
      refine ⟨⟨h.totalLength, ?_, ?_, ?_, h.sent⟩, rfl⟩
      · simp only [h.appended, PartLife.parts, PartLife.arrive,
          List.range_succ, List.map_append, List.map_singleton]
      · simp only [h.committed, PartLife.parts, PartLife.arrive,
          take_append_slice]
      · simp [PartLife.arrive]
  | taken =>
      have hopen : s.closed = false := by simpa using hclosed
      have hoffset : (slice size source index).1 ≠ s.committed.length := by
        rw [hlength, if_neg (by decide), slice_fst]
        omega
      simp only [Server.append, hopen, Bool.false_eq_true, if_false,
        if_neg hoffset]
      exact ⟨h, rfl⟩
  | gone =>
      have hclosed : s.closed = true := by simpa using hclosed
      simp only [Server.append, hclosed, if_true]
      exact ⟨h, rfl⟩

/-- An earlier part is never appended again. -/
theorem Holds.append_earlier {i : ℕ} (hi : i < index)
    (h : Holds size source totalLength index life s) :
    (s.append (slice size source i)).1 = s := by
  have hlt : i * size < index * size :=
    Nat.mul_lt_mul_of_pos_right hi hfits.size_pos
  have hoffset : (slice size source i).1 ≠ s.committed.length := by
    rw [h.length hfits, slice_fst]
    omega
  unfold Server.append
  rw [if_neg hoffset]
  split <;> rfl

theorem Holds.arrive (hsent : slice size source index ∈ s.sent)
    (h : Holds size source totalLength index life s) (offset : ℕ) :
    Holds size source totalLength index
      (if offset = index * size then life.arrive else life)
      (s.arrive offset) := by
  unfold Server.arrive
  cases hfind : s.sent.find? fun patch => decide (patch.1 = offset) with
  | none =>
      have hne : offset ≠ index * size := by
        rintro rfl
        have := List.find?_eq_none.mp hfind _ hsent
        simp [slice] at this
      rw [if_neg hne]
      exact h
  | some patch =>
      have hoffset : patch.1 = offset := by
        simpa using List.find?_some hfind
      obtain ⟨i, hi, rfl⟩ := h.sent patch (List.mem_of_find?_eq_some hfind)
      rw [slice_fst] at hoffset
      dsimp only
      rcases hi.eq_or_lt with rfl | hlt
      · rw [if_pos hoffset.symm]
        exact (h.append hfits).1
      · have hne : offset ≠ index * size := by
          have := Nat.mul_lt_mul_of_pos_right hlt hfits.size_pos
          omega
        rw [if_neg hne, h.append_earlier hfits hlt]
        exact h

theorem Holds.arrivals (hsent : slice size source index ∈ s.sent)
    (h : Holds size source totalLength index life s) (late : List ℕ) :
    Holds size source totalLength index
      (if index * size ∈ late then life.arrive else life)
      (late.foldl Server.arrive s) := by
  induction late generalizing s life with
  | nil => simpa using h
  | cons offset late ih =>
      have hsent' : slice size source index ∈ (s.arrive offset).sent := by
        rwa [Server.arrive_sent]
      have hnext := ih hsent' (h.arrive hfits hsent offset)
      rw [List.foldl_cons]
      convert hnext using 1
      by_cases hoffset : offset = index * size
      · have htwice : life.arrive.arrive = life.arrive := by
          cases life <;> rfl
        simp [hoffset, htwice]
      · simp [hoffset, Ne.symm hoffset]

theorem Holds.close (h : Holds size source totalLength index life s) :
    Holds size source totalLength index (life.close final) s.close := by
  have hlength := h.length hfits
  have hpos := hfits.slice_pos
  have hwithin := hfits.within
  have hfinal := hfits.final_eq
  cases life with
  | absent =>
      have hincomplete : s.committed.length ≠ s.totalLength := by
        rw [hlength, h.totalLength, if_pos rfl]
        omega
      rw [Server.close, if_neg hincomplete]
      exact h
  | taken =>
      have hcomplete : (s.committed.length = s.totalLength) ↔
          final = true := by
        rw [hlength, h.totalLength, if_neg (by simp), hfinal,
          decide_eq_true_iff]
      unfold Server.close
      split
      · next hclosing =>
        rw [hcomplete.mp hclosing]
        exact { h with closed := rfl }
      · next hclosing =>
        have hfalse : final = false := by
          simpa using mt hcomplete.mpr hclosing
        rw [hfalse]
        exact h
  | gone =>
      unfold Server.close
      split
      · exact { h with closed := rfl }
      · exact h

theorem Holds.pass (hsent : slice size source index ∈ s.sent)
    (h : Holds size source totalLength index life s)
    (meanwhile : Meanwhile) :
    Holds size source totalLength index
      (life.pass (index * size) final meanwhile) (s.pass meanwhile) := by
  have harrivals := h.arrivals hfits hsent meanwhile.late
  simp only [Server.pass, PartLife.pass]
  by_cases hcloses : meanwhile.closes
  · rw [if_pos hcloses, if_pos hcloses]
    exact harrivals.close hfits
  · rw [if_neg hcloses, if_neg hcloses]
    exact harrivals

/-- A PATCH of the part, and the status it is refused with if it reached the
server. -/
theorem Holds.receive (h : Holds size source totalLength index life s)
    (attempt : Attempt) :
    Holds size source totalLength index
        (life.receive (index * size) final attempt)
        (s.receive (index * size) (slice size source index).2 attempt).1 ∧
      slice size source index ∈
        (s.receive (index * size) (slice size source index).2 attempt).1.sent ∧
      (attempt.patch.reaches = true →
        (s.receive (index * size) (slice size source index).2 attempt).2 =
          (life.pass (index * size) final attempt.beforePatch).refusal) := by
  have hsent : slice size source index ∈
      s.sent ++ [slice size source index] := by simp
  have hpass := h.send.pass hfits hsent attempt.beforePatch
  have happend := hpass.append hfits
  have hslice : (index * size, (slice size source index).2) =
      slice size source index := rfl
  simp only [Server.receive, PartLife.receive, hslice]
  by_cases hreaches : attempt.patch.reaches
  · rw [if_pos hreaches, if_pos hreaches]
    refine ⟨happend.1, ?_, fun _ => happend.2⟩
    rw [Server.append_sent, Server.pass_sent]
    exact hsent
  · rw [if_neg hreaches, if_neg hreaches]
    refine ⟨hpass, ?_, fun h => absurd h hreaches⟩
    rw [Server.pass_sent]
    exact hsent

/-- What the PATCH of a part answers, by the life of the part. -/
theorem Holds.patch (h : Holds size source totalLength index life s)
    (count : ℕ) (attempt : Attempt) :
    (patch s count (index * size) (slice size source index).2 attempt).1 =
        (s.receive (index * size) (slice size source index).2 attempt).1 ∧
      (patch s count (index * size) (slice size source index).2 attempt).2 =
        match attempt.patch with
        | .answered headers =>
            match (life.pass (index * size) final
                attempt.beforePatch).refusal with
            | none => .ok headers
            | some status => .error (.part count (index * size) status)
        | .status _ status =>
            .error (.part count (index * size) status.val)
        | .lost _ => .error .network
        | .thrown => .error .thrown := by
  have hrefused := (h.receive hfits attempt).2.2
  unfold Tus.patch
  cases hpatch : attempt.patch with
  | answered headers =>
      rw [hpatch] at hrefused
      simp only [hrefused rfl]
      cases (life.pass (index * size) final
        attempt.beforePatch).refusal <;> exact ⟨rfl, rfl⟩
  | status reaches status => exact ⟨rfl, rfl⟩
  | lost reaches => exact ⟨rfl, rfl⟩
  | thrown => exact ⟨rfl, rfl⟩

/-- What an answered probe finds. -/
theorem Holds.committedOffset
    (h : Holds size source totalLength index life s) :
    committedOffset s .answered =
      life.probed (index * size) (slice size source index).2.length := by
  have hlength := h.length hfits
  have hclosed := h.closed
  unfold Tus.committedOffset
  cases life with
  | absent => simp [hclosed, hlength, PartLife.probed]
  | taken => simp [hclosed, hlength, PartLife.probed]
  | gone => simp [hclosed, PartLife.probed]

end Server

end QiForge.Tus
