import QiForge.TusPart

/-!
# The attempts of a part

One attempt either has the part accepted, or fails for good, or finds the part
taken by its probe, or leaves it to the next attempt.  From this the part is
sent exactly when some attempt keeps it, if no failure is for good by itself.
-/

namespace QiForge.Tus

/-- The failures of the attempt itself may be retried. -/
def Attempt.Passing (attempt : Attempt) : Prop :=
  match attempt.patch with
  | .answered _ => True
  | .status _ status => status.val ∉ OwnerStore.fatalStatuses
  | .lost _ => True
  | .thrown => False

theorem Attempt.Accepted.received {attempt : Attempt} {offset : ℕ}
    {final : Bool} {life : PartLife}
    (h : attempt.Accepted offset final life) :
    life.receive offset final attempt ≠ .absent := by
  have hreaches : attempt.patch.reaches = true := by
    have hanswers := h.1
    cases hpatch : attempt.patch <;>
      simp_all [PatchFate.answers, PatchFate.reaches]
  simp only [PartLife.receive, if_pos hreaches]
  exact PartLife.arrive_ne_absent _

section Attempts

variable {size totalLength index count first : ℕ} {source : Bytes}
  {life : PartLife} {s : Server} {final : Bool} {attempts : ℕ → Attempt}
  {delays : List ℕ}
  (hfits : Fits size source totalLength index final)
include hfits

theorem Holds.probe (h : Holds size source totalLength index life s)
    (attempt : Attempt) :
    Holds size source totalLength index
      (life.probe (index * size) final attempt)
      ((s.receive (index * size) (slice size source index).2
        attempt).1.pass attempt.beforeHead) :=
  (h.receive hfits attempt).1.pass hfits (h.receive hfits attempt).2.1
    attempt.beforeHead

/-- A PATCH that is not accepted fails; if for good, the session is gone
or the fault itself is fatal. -/
theorem Holds.patch_cases (h : Holds size source totalLength index life s)
    (count : ℕ) (attempt : Attempt) :
    (attempt.Accepted (index * size) final life ∧
      ∃ headers, (Tus.patch s count (index * size)
        (slice size source index).2 attempt).2 = .ok headers) ∨
    ¬attempt.Accepted (index * size) final life ∧
      ∃ error, (Tus.patch s count (index * size)
          (slice size source index).2 attempt).2 = .error error ∧
        (isRetryable error = false → attempt.Passing →
          life.pass (index * size) final attempt.beforePatch = .gone) := by
  have hanswer := (h.patch hfits count attempt).2
  rw [hanswer]
  cases hpatch : attempt.patch with
  | answered headers =>
      cases hlife : life.pass (index * size) final attempt.beforePatch with
      | absent =>
          exact .inl ⟨⟨by rw [hpatch]; rfl, hlife⟩, headers, rfl⟩
      | taken =>
          refine .inr ⟨?_, _, rfl, fun hfatal => ?_⟩
          · rintro ⟨-, habsent⟩
            rw [hlife] at habsent
            cases habsent
          · simp [isRetryable, OwnerStore.fatalStatuses] at hfatal
      | gone =>
          refine .inr ⟨?_, _, rfl, fun _ _ => rfl⟩
          rintro ⟨-, habsent⟩
          rw [hlife] at habsent
          cases habsent
  | status reaches status =>
      refine .inr ⟨?_, _, rfl, fun hfatal hpassing => ?_⟩
      · rintro ⟨hanswers, -⟩
        rw [hpatch] at hanswers
        cases hanswers
      · simp only [Attempt.Passing, hpatch] at hpassing
        simp [isRetryable, hpassing] at hfatal
  | lost reaches =>
      refine .inr ⟨?_, _, rfl, fun hfatal => by cases hfatal⟩
      rintro ⟨hanswers, -⟩
      rw [hpatch] at hanswers
      cases hanswers
  | thrown =>
      refine .inr ⟨?_, _, rfl, fun _ hpassing => ?_⟩
      · rintro ⟨hanswers, -⟩
        rw [hpatch] at hanswers
        cases hanswers
      · simp only [Attempt.Passing, hpatch] at hpassing

/-- The last attempt. -/
theorem Holds.sendPart_nil (h : Holds size source totalLength index life s) :
    ∃ s', Holds size source totalLength index
        (life.receive (index * size) final (attempts first)) s' ∧
      ((attempts first).Accepted (index * size) final life ∧
          (∃ headers, sendPart attempts count (index * size)
            (slice size source index).2 s first [] =
              (s', .ok (some headers))) ∨
        ¬(attempts first).Accepted (index * size) final life ∧
          ∃ error, sendPart attempts count (index * size)
            (slice size source index).2 s first [] = (s', .error error)) := by
  refine ⟨_, (h.receive hfits (attempts first)).1, ?_⟩
  have hserver := (h.patch hfits count (attempts first)).1
  have hpatch := h.patch_cases hfits count (attempts first)
  rw [sendPart, ← hserver]
  generalize Tus.patch s count (index * size) (slice size source index).2
    (attempts first) = answer at hpatch ⊢
  rcases hpatch with ⟨haccepted, headers, hok⟩ | ⟨hrefused, error, herror, -⟩
  · obtain ⟨s', result⟩ := answer
    dsimp only at hok
    subst hok
    exact .inl ⟨haccepted, headers, rfl⟩
  · obtain ⟨s', result⟩ := answer
    dsimp only at herror
    subst herror
    exact .inr ⟨hrefused, error, rfl⟩

/-- An attempt before the last. -/
theorem Holds.sendPart_cons
    (h : Holds size source totalLength index life s) (count delay : ℕ) :
    (∃ s', Holds size source totalLength index
        (life.receive (index * size) final (attempts first)) s' ∧
      ((attempts first).Accepted (index * size) final life ∧
          (∃ headers, sendPart attempts count (index * size)
            (slice size source index).2 s first (delay :: delays) =
              (s', .ok (some headers))) ∨
        ¬(attempts first).Accepted (index * size) final life ∧
          (∃ error, sendPart attempts count (index * size)
            (slice size source index).2 s first (delay :: delays) =
              (s', .error error)) ∧
          ((attempts first).Passing → life.pass (index * size) final
            (attempts first).beforePatch = .gone))) ∨
    ¬(attempts first).Accepted (index * size) final life ∧
      ∃ s', Holds size source totalLength index
        (life.probe (index * size) final (attempts first)) s' ∧
      ((attempts first).Seen (index * size) final life ∧
          sendPart attempts count (index * size)
            (slice size source index).2 s first (delay :: delays) =
              (s', .ok none) ∨
        ¬(attempts first).Seen (index * size) final life ∧
          sendPart attempts count (index * size)
            (slice size source index).2 s first (delay :: delays) =
          sendPart attempts count (index * size)
            (slice size source index).2 s' (first + 1) delays) := by
  have hreceive := (h.receive hfits (attempts first)).1
  have hprobe := h.probe hfits (attempts first)
  have hserver := (h.patch hfits count (attempts first)).1
  have hpatch := h.patch_cases hfits count (attempts first)
  rw [← hserver] at hreceive hprobe
  simp only [sendPart]
  generalize Tus.patch s count (index * size) (slice size source index).2
    (attempts first) = answer at hpatch hreceive hprobe ⊢
  obtain ⟨s', result⟩ := answer
  dsimp only at hpatch hreceive hprobe
  rcases hpatch with
    ⟨haccepted, headers, rfl⟩ | ⟨hrefused, error, rfl, hfatal⟩
  · exact .inl ⟨s', hreceive, .inl ⟨haccepted, headers, rfl⟩⟩
  · by_cases hretry : isRetryable error = true
    · refine .inr ⟨hrefused, _, hprobe, ?_⟩
      simp only [if_pos hretry]
      have hpos := hfits.slice_pos
      cases hhead : (attempts first).head with
      | answered =>
          rw [hprobe.committedOffset hfits]
          cases hlife : life.probe (index * size) final (attempts first) with
          | absent =>
              refine .inr ⟨fun hseen => ?_, ?_⟩
              · cases hlife.symm.trans hseen.2
              · dsimp only [PartLife.probed]
                rw [if_neg (by omega), if_neg (by simp)]
          | taken =>
              refine .inl ⟨⟨hhead, hlife⟩, ?_⟩
              dsimp only [PartLife.probed]
              rw [if_pos rfl]
          | gone =>
              refine .inr ⟨fun hseen => ?_, rfl⟩
              cases hlife.symm.trans hseen.2
      | status status =>
          refine .inr ⟨fun hseen => ?_, rfl⟩
          cases hhead.symm.trans hseen.1
      | lost =>
          refine .inr ⟨fun hseen => ?_, rfl⟩
          cases hhead.symm.trans hseen.1
    · refine .inl ⟨s', hreceive, .inr ⟨hrefused, ⟨error, ?_⟩, ?_⟩⟩
      · simp only [if_neg hretry]
      · exact hfatal (by simpa using hretry)

/-- Whatever the faults, the server holds the parts before, and the part
itself if it was sent. -/
theorem Holds.sendPart_holds (h : Holds size source totalLength index
      (PartLife.start (index * size) final attempts first) s) :
    ∃ life, Holds size source totalLength index life
        (sendPart attempts count (index * size)
          (slice size source index).2 s first delays).1 ∧
      (final = false → life ≠ .gone) ∧
      ∀ headers, (sendPart attempts count (index * size)
          (slice size source index).2 s first delays).2 = .ok headers →
        life ≠ .absent := by
  have hreceive : final = false → (PartLife.start (index * size) final
      attempts first).receive (index * size) final (attempts first) ≠
        .gone := by
    rintro rfl
    exact PartLife.receive_open (PartLife.keepsOpen_of_not_final _)
      (PartLife.start_open (fun _ => PartLife.keepsOpen_of_not_final _) first)
  induction delays generalizing first s with
  | nil =>
      obtain ⟨s', hs', ⟨haccepted, headers, heq⟩ | ⟨-, error, heq⟩⟩ :=
        @Holds.sendPart_nil size totalLength index count first source _ s
          final attempts hfits h
      · rw [heq]
        exact ⟨_, hs', hreceive, fun _ _ => haccepted.received⟩
      · rw [heq]
        exact ⟨_, hs', hreceive, fun _ hok => by cases hok⟩
  | cons delay delays ih =>
      rcases h.sendPart_cons hfits count delay with
        ⟨s', hs', ⟨haccepted, headers, heq⟩ | ⟨-, ⟨error, heq⟩, -⟩⟩ |
        ⟨-, s', hs', ⟨hseen, heq⟩ | ⟨-, heq⟩⟩
      · rw [heq]
        exact ⟨_, hs', hreceive, fun _ _ => haccepted.received⟩
      · rw [heq]
        exact ⟨_, hs', hreceive, fun _ hok => by cases hok⟩
      · rw [heq]
        refine ⟨_, hs', fun _ => ?_, fun _ _ => ?_⟩
        · rw [hseen.2]
          decide
        · rw [hseen.2]
          decide
      · have hnext : Holds size source totalLength index
            (PartLife.start (index * size) final attempts (first + 1)) s' :=
          hs'
        rw [heq]
        apply ih hnext
        rintro rfl
        exact PartLife.receive_open (PartLife.keepsOpen_of_not_final _)
          (PartLife.start_open
            (fun _ => PartLife.keepsOpen_of_not_final _) (first + 1))

/-- When no fault is fatal, the part is sent exactly when an attempt keeps
it. -/
theorem Holds.sendPart_ok_iff
    (hpassing : ∀ attempt, (attempts attempt).Passing)
    (h : Holds size source totalLength index
      (PartLife.start (index * size) final attempts first) s) :
    (∃ headers, (sendPart attempts count (index * size)
        (slice size source index).2 s first delays).2 = .ok headers) ↔
      KeptFrom (index * size) final attempts first delays.length := by
  induction delays generalizing first s with
  | nil =>
      rw [List.length_nil, keptFrom_zero]
      obtain ⟨s', -, ⟨haccepted, headers, heq⟩ | ⟨hrefused, error, heq⟩⟩ :=
        @Holds.sendPart_nil size totalLength index count first source _ s
          final attempts hfits h
      · rw [heq]
        exact iff_of_true ⟨_, rfl⟩ haccepted
      · rw [heq]
        exact iff_of_false (fun ⟨_, hok⟩ => by cases hok) hrefused
  | cons delay delays ih =>
      rw [List.length_cons, keptFrom_succ]
      rcases h.sendPart_cons hfits count delay with
        ⟨s', -, ⟨haccepted, headers, heq⟩ | ⟨hrefused, ⟨error, heq⟩, hgone⟩⟩ |
        ⟨hrefused, s', hs', ⟨hseen, heq⟩ | ⟨hunseen, heq⟩⟩
      · rw [heq]
        exact iff_of_true ⟨_, rfl⟩ (.inl haccepted)
      · rw [heq]
        refine iff_of_false (fun ⟨_, hok⟩ => by cases hok) ?_
        have hprobe : PartLife.start (index * size) final attempts
            (first + 1) = .gone :=
          PartLife.probe_of_pass_gone (hgone (hpassing first))
        rintro (haccepted | hseen | hkept)
        · exact hrefused haccepted
        · cases hprobe.symm.trans hseen.2
        · exact not_keptFrom_of_gone hprobe hkept
      · rw [heq]
        exact iff_of_true ⟨_, rfl⟩ (.inr (.inl hseen))
      · have hnext : Holds size source totalLength index
            (PartLife.start (index * size) final attempts (first + 1)) s' :=
          hs'
        rw [heq, ih hnext]
        constructor
        · exact fun hkept => .inr (.inr hkept)
        · rintro (haccepted | hseen | hkept)
          · exact absurd haccepted hrefused
          · exact absurd hseen hunseen
          · exact hkept

end Attempts

end QiForge.Tus
