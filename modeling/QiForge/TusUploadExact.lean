import QiForge.TusAttempts

/-!
# The upload is the source

Between two parts the server holds the parts sent so far, and nothing of the
others.  When no fault is fatal and every part is delivered the upload
resolves, but for the last part, which may be gone before its probe.
-/

namespace QiForge.Tus

/-- The first `count` parts were appended, each once. -/
structure Holding (size : ℕ) (source : Bytes) (count : ℕ) (s : Server) :
    Prop where
  appended : s.appended = (List.range count).map (slice size source)
  committed : s.committed = source.take (count * size)
  within : ∀ index < count, index * size < source.length

section Holding

variable {size count : ℕ} {source : Bytes} {s : Server}
  {front back : List (ℕ × Bytes)} {patch : ℕ × Bytes}

theorem slices_flatten (size : ℕ) (source : Bytes) (count : ℕ) :
    (((List.range count).map (slice size source)).map Prod.snd).flatten =
      source.take (count * size) := by
  induction count with
  | zero => simp
  | succ count ih =>
      rw [List.range_succ, List.map_append, List.map_append,
        List.flatten_append, ih, ← take_append_slice]
      simp

theorem Holding.split (h : Holding size source count s)
    (hsplit : s.appended = front ++ patch :: back) :
    front = (List.range front.length).map (slice size source) ∧
      patch = slice size source front.length ∧
      count = front.length + 1 + back.length := by
  have hparts := hsplit
  rw [h.appended] at hparts
  have hlength : count = front.length + 1 + back.length := by
    have := congrArg List.length hparts
    simp only [List.length_map, List.length_range, List.length_append,
      List.length_cons] at this
    omega
  refine ⟨?_, ?_, hlength⟩
  · calc
      front = (front ++ patch :: back).take front.length := by simp
      _ = ((List.range count).map (slice size source)).take front.length := by
        rw [hparts]
      _ = (List.range front.length).map (slice size source) := by
        rw [← List.map_take, List.take_range, Nat.min_eq_left (by omega)]
  · have hget : (front ++ patch :: back)[front.length]? = some patch := by
      simp
    rw [← hparts, List.getElem?_map, List.getElem?_range (by omega)] at hget
    exact (Option.some.inj hget).symm

theorem Holding.offset_eq (h : Holding size source count s)
    (hsplit : s.appended = front ++ patch :: back) :
    patch.1 = (front.map Prod.snd).flatten.length := by
  obtain ⟨hfront, hpatch, hcount⟩ := h.split hsplit
  have hlt := h.within front.length (by omega)
  rw [hfront, slices_flatten, hpatch, slice_fst, List.length_take]
  omega

theorem Holding.full (h : Holding size source count s)
    (hsplit : s.appended = front ++ patch :: back) (hback : back ≠ []) :
    patch.2.length = size := by
  obtain ⟨-, hpatch, hcount⟩ := h.split hsplit
  have hpos := List.length_pos_iff.mpr hback
  have hlt := h.within (front.length + 1) (by omega)
  rw [Nat.succ_mul] at hlt
  rw [hpatch, slice, List.length_take, List.length_drop]
  omega

theorem Holding.increasing (hsize : 0 < size)
    (h : Holding size source count s) :
    s.appended.Pairwise fun earlier later => earlier.1 < later.1 := by
  rw [h.appended, List.pairwise_map]
  exact List.pairwise_lt_range.imp fun hlt =>
    Nat.mul_lt_mul_of_pos_right hlt hsize

end Holding

/-- The server, the reader and the offset with `count` parts sent. -/
structure Between (size : ℕ) (source : Bytes) (totalLength count : ℕ)
    (reader : PartReader) (offset : ℕ) (s : Server) : Prop
    extends Holding size source count s where
  ended : reader.Ended
  rest : reader.rest = source.drop (count * size)
  offset_eq : offset = (source.take (count * size)).length
  offset_le : offset ≤ totalLength
  declared : s.totalLength = totalLength
  closed : offset < totalLength → s.closed = false
  sent : ∀ patch ∈ s.sent, ∃ i < count, patch = slice size source i

section Loop

variable {options : TusUploadOptions} {faults : Faults}
  {reader next : PartReader} {offset count : ℕ} {result : TusUploadResult}
  {s : Server} {source part : Bytes}

theorem sendParts_end (hnext : reader.next options.partSize = (none, next)) :
    sendParts options faults reader offset count result s =
      if offset ≠ options.totalLength then
        (s, .error (.tooShort offset options.totalLength))
      else (s, .ok { result with parts := count }) := by
  rw [sendParts]
  split
  · rfl
  · next hsome =>
    rw [hnext] at hsome
    cases hsome

theorem sendParts_part
    (hnext : reader.next options.partSize = (some part, next)) :
    sendParts options faults reader offset count result s =
      if offset + part.length > options.totalLength then
        (s, .error (.tooLong options.totalLength))
      else
        match sendPart (faults.part (count + 1)) (count + 1) offset part s 0
            options.retryDelaysMs with
        | (s, .error error) => (s, .error error)
        | (s, .ok headers) =>
            sendParts options faults next (offset + part.length) (count + 1)
              (if offset + part.length = options.totalLength then
                (headers.map result.withHeaders).getD result
              else result) s := by
  rw [sendParts]
  split
  · next hnone =>
    rw [hnext] at hnone
    cases hnone
  · next hsome =>
    rw [hnext] at hsome
    cases hsome
    rfl

/-- Nothing is left to send. -/
theorem Between.next_none (hsize : 0 < options.partSize)
    (h : Between options.partSize source options.totalLength count reader
      offset s)
    (hnext : reader.next options.partSize = (none, next)) :
    source.length ≤ count * options.partSize := by
  have hspec := (h.ended.next_spec options.partSize).1
  rw [hnext, h.rest] at hspec
  split at hspec
  · next hnil =>
    by_contra hlt
    have := congrArg List.length hnil
    simp only [List.length_take, List.length_drop, List.length_nil] at this
    omega
  · cases hspec

/-- The next part is the next slice of the source, at its offset. -/
theorem Between.next_some (h : Between options.partSize source
      options.totalLength count reader offset s)
    (hnext : reader.next options.partSize = (some part, next)) :
    part = (slice options.partSize source count).2 ∧
      offset = count * options.partSize ∧
      count * options.partSize < source.length ∧ next.Ended ∧
      next.rest = source.drop ((count + 1) * options.partSize) := by
  have hspec := h.ended.next_spec options.partSize
  have hended := h.ended.next options.partSize
  rw [hnext] at hspec hended
  rw [h.rest] at hspec
  split at hspec
  · cases hspec.1
  · next hpart =>
    have hlt : count * options.partSize < source.length := by
      by_contra hge
      apply hpart
      rw [List.drop_of_length_le (by omega), List.take_nil]
    have hoffset := h.offset_eq
    rw [List.length_take] at hoffset
    refine ⟨Option.some.inj hspec.1, by omega, hlt, hended, ?_⟩
    rw [hspec.2, List.drop_drop, Nat.succ_mul]

/-- The next part may be sent. -/
theorem Between.fits (hsize : 0 < options.partSize)
    (h : Between options.partSize source options.totalLength count reader
      offset s)
    (hlt : count * options.partSize < source.length)
    (hoffset : offset = count * options.partSize)
    (hroom : ¬offset + (slice options.partSize source count).2.length >
      options.totalLength) :
    Fits options.partSize source options.totalLength count
        (decide (offset + (slice options.partSize source count).2.length =
          options.totalLength)) ∧
      Holds options.partSize source options.totalLength count .absent s := by
  have hfits : Fits options.partSize source options.totalLength count
      (decide (offset + (slice options.partSize source count).2.length =
        options.totalLength)) :=
    ⟨hsize, hlt, by omega, by rw [hoffset]⟩
  have hpos := hfits.slice_pos
  refine ⟨hfits, h.declared, h.appended, h.committed, ?_, ?_⟩
  · rw [h.closed (by omega)]
    rfl
  · intro patch hpatch
    obtain ⟨i, hi, rfl⟩ := h.sent patch hpatch
    exact ⟨i, hi.le, rfl⟩

theorem Holds.holding {life : PartLife} {size totalLength index : ℕ}
    (h : Holds size source totalLength index life s)
    (hwithin : ∀ i ≤ index, i * size < source.length) :
    Holding size source (life.parts index) s := by
  refine ⟨h.appended, h.committed, fun i hi => hwithin i ?_⟩
  have hparts : life.parts index ≤ index + 1 := by
    cases life <;> simp [PartLife.parts]
  omega

/-- A part has been sent. -/
theorem Between.sent_part {life : PartLife} {s' : Server}
    (h : Between options.partSize source options.totalLength count reader
      offset s)
    (hnext : reader.next options.partSize = (some part, next))
    (hroom : ¬offset + part.length > options.totalLength)
    (hholds : Holds options.partSize source options.totalLength count life s')
    (hopen : decide (offset + part.length = options.totalLength) = false →
      life ≠ .gone)
    (hlife : life ≠ .absent) :
    Between options.partSize source options.totalLength (count + 1) next
      (offset + part.length) s' := by
  obtain ⟨hpart, hoffset, hlt, hended, hrest⟩ := h.next_some hnext
  have hparts : life.parts count = count + 1 := by
    cases life with
    | absent => exact absurd rfl hlife
    | taken => rfl
    | gone => rfl
  have hwithin : ∀ i ≤ count, i * options.partSize < source.length := by
    intro i hi
    exact (Nat.mul_le_mul_right _ hi).trans_lt hlt
  have hholding := hholds.holding hwithin
  rw [hparts] at hholding
  refine ⟨hholding, hended, hrest, ?_, by omega, hholds.totalLength, ?_, ?_⟩
  · rw [← take_append_slice, List.length_append, ← h.offset_eq, hpart]
  · intro hincomplete
    rw [hholds.closed]
    exact decide_eq_false (hopen (decide_eq_false hincomplete.ne))
  · intro patch hpatch
    obtain ⟨i, hi, rfl⟩ := hholds.sent patch hpatch
    exact ⟨i, by omega, rfl⟩

theorem Between.sendParts_exact (hsize : 0 < options.partSize)
    (h : Between options.partSize source options.totalLength count reader
      offset s) :
    (∃ sent, Holding options.partSize source sent
        (sendParts options faults reader offset count result s).1) ∧
      ∀ resolved, (sendParts options faults reader offset count result s).2 =
          .ok resolved →
        source.length = options.totalLength ∧
          source.length ≤ resolved.parts * options.partSize ∧
          Holding options.partSize source resolved.parts
            (sendParts options faults reader offset count result s).1 := by
  induction hlength : reader.rest.length using Nat.strong_induction_on
    generalizing reader offset count result s with
  | h length ih =>
      rcases hnext : reader.next options.partSize with ⟨_ | part, next⟩
      · have hall := h.next_none hsize hnext
        have hoffset := h.offset_eq
        rw [List.take_of_length_le hall] at hoffset
        rw [sendParts_end hnext]
        split
        · exact ⟨⟨count, h.toHolding⟩, fun _ hok => by cases hok⟩
        · next hcomplete =>
          refine ⟨⟨count, h.toHolding⟩, fun resolved hok => ?_⟩
          cases hok
          exact ⟨by omega, hall, h.toHolding⟩
      · rw [sendParts_part hnext]
        split
        · exact ⟨⟨count, h.toHolding⟩, fun _ hok => by cases hok⟩
        · next hroom =>
          obtain ⟨hpart, hoffset, hlt, -⟩ := h.next_some hnext
          obtain ⟨hfits, habsent⟩ :=
            h.fits hsize hlt hoffset (by rwa [hpart] at hroom)
          have hwithin : ∀ i ≤ count,
              i * options.partSize < source.length := by
            intro i hi
            exact (Nat.mul_le_mul_right _ hi).trans_lt hlt
          obtain ⟨life, hholds, hopen, hsent⟩ :=
            @Holds.sendPart_holds options.partSize options.totalLength count
              (count + 1) 0 source s _ (faults.part (count + 1))
              options.retryDelaysMs hfits habsent
          rw [← hoffset, ← hpart] at hholds hsent
          rw [← hpart] at hopen
          rcases hsend : sendPart (faults.part (count + 1)) (count + 1)
              offset part s 0 options.retryDelaysMs with ⟨s', _ | headers⟩
          · rw [hsend] at hholds
            exact ⟨⟨_, hholds.holding hwithin⟩, fun _ hok => by cases hok⟩
          · rw [hsend] at hholds hsent
            have hbetween := h.sent_part hnext hroom hholds hopen
              (hsent headers rfl)
            exact ih next.rest.length
              (hlength ▸ PartReader.next_shorter hnext) hbetween rfl

/-- Some PATCH is accepted, or a probe is answered once the part is taken,
with the retries there are. -/
def Delivered (offset : ℕ) (final : Bool) (attempts : ℕ → Attempt)
    (retries : ℕ) : Prop :=
  (∃ attempt ≤ retries, (attempts attempt).Accepted offset final
    (PartLife.start offset final attempts attempt)) ∨
  ∃ attempt < retries, (attempts attempt).head = .answered ∧
    (PartLife.start offset final attempts attempt).probe offset final
      (attempts attempt) ≠ .absent

/-- The same, but the session must still be open at the probe. -/
def Kept (offset : ℕ) (final : Bool) (attempts : ℕ → Attempt)
    (retries : ℕ) : Prop :=
  (∃ attempt ≤ retries, (attempts attempt).Accepted offset final
    (PartLife.start offset final attempts attempt)) ∨
  ∃ attempt < retries, (attempts attempt).head = .answered ∧
    (PartLife.start offset final attempts attempt).probe offset final
      (attempts attempt) = .taken

/-- The session is created within the retries. -/
def Creates (fates : ℕ → PostFate) (retries : ℕ) : Prop :=
  ∃ attempt ≤ retries, post (fates attempt) = .ok () ∧
    ∀ earlier < attempt, ∃ error,
      post (fates earlier) = .error error ∧ isRetryable error = true

theorem keptFrom_iff_kept {offset retries : ℕ} {final : Bool}
    {attempts : ℕ → Attempt} :
    KeptFrom offset final attempts 0 retries ↔
      Kept offset final attempts retries := by
  simp only [KeptFrom, Kept, Nat.zero_le, Nat.zero_add, true_and, Attempt.Seen]

/-- A part is kept when the session is not closed on it, as it never is
before the last part. -/
theorem Delivered.kept {offset retries : ℕ} {final : Bool}
    {attempts : ℕ → Attempt}
    (hopen : ∀ attempt, PartLife.KeepsOpen final (attempts attempt))
    (h : Delivered offset final attempts retries) :
    Kept offset final attempts retries := by
  rcases h with haccepted | ⟨attempt, hlt, hhead, hpresent⟩
  · exact .inl haccepted
  · refine .inr ⟨attempt, hlt, hhead, ?_⟩
    have hstart := @PartLife.start_open offset final attempts hopen attempt
    have hnever := @PartLife.probe_open offset _ _ _ (hopen attempt) hstart
    cases hlife : (PartLife.start offset final attempts attempt).probe
        offset final (attempts attempt) with
    | absent => exact absurd hlife hpresent
    | taken => rfl
    | gone => exact absurd hlife hnever

theorem create_ok {fates : ℕ → PostFate} {first : ℕ} {delays : List ℕ}
    {attempt : ℕ} (hge : first ≤ attempt)
    (hle : attempt ≤ first + delays.length)
    (hok : post (fates attempt) = .ok ())
    (hearlier : ∀ earlier, first ≤ earlier → earlier < attempt →
      ∃ error, post (fates earlier) = .error error ∧
        isRetryable error = true) :
    create fates first delays = .ok () := by
  induction delays generalizing first with
  | nil =>
      obtain rfl : attempt = first := by
        simp only [List.length_nil] at hle
        omega
      exact hok
  | cons delay delays ih =>
      rw [create]
      rcases hge.eq_or_lt with rfl | hlt
      · rw [hok]
      · obtain ⟨error, herror, hretry⟩ := hearlier first le_rfl hlt
        rw [herror]
        dsimp only
        rw [if_pos hretry]
        refine ih hlt ?_ fun earlier hle => hearlier earlier (by omega)
        rw [List.length_cons] at hle
        omega

/-- No fault is fatal, and the source has the declared length. -/
theorem Between.sendParts_ok_iff (hsize : 0 < options.partSize)
    (hlength : source.length = options.totalLength)
    (hpassing : ∀ count attempt, (faults.part count attempt).Passing)
    (h : Between options.partSize source options.totalLength count reader
      offset s) :
    (∃ resolved, (sendParts options faults reader offset count result s).2 =
        .ok resolved) ↔
      ∀ index, count ≤ index → index * options.partSize < options.totalLength →
        Kept (index * options.partSize)
          (decide (options.totalLength ≤ (index + 1) * options.partSize))
          (faults.part (index + 1)) options.retryDelaysMs.length := by
  induction hrest : reader.rest.length using Nat.strong_induction_on
    generalizing reader offset count result s with
  | h length ih =>
      rcases hnext : reader.next options.partSize with ⟨_ | part, next⟩
      · have hall := h.next_none hsize hnext
        have hoffset := h.offset_eq
        rw [List.take_of_length_le hall, hlength] at hoffset
        rw [sendParts_end hnext, if_neg (not_not.mpr hoffset)]
        refine iff_of_true ⟨_, rfl⟩ fun index hge hlt => ?_
        have := Nat.mul_le_mul_right options.partSize hge
        omega
      · obtain ⟨hpart, hoffset, hlt, -⟩ := h.next_some hnext
        have hslice : part.length = min options.partSize
              (source.length - count * options.partSize) := by
          rw [hpart, slice, List.length_take, List.length_drop]
        have hroom : ¬offset + part.length > options.totalLength := by omega
        have hfinal : decide (offset + part.length = options.totalLength) =
            decide (options.totalLength ≤ (count + 1) * options.partSize) := by
          rw [decide_eq_decide, Nat.succ_mul]
          omega
        obtain ⟨hfits, habsent⟩ :=
          h.fits hsize hlt hoffset (by rwa [hpart] at hroom)
        have hok_iff :=
          @Holds.sendPart_ok_iff options.partSize options.totalLength count
            (count + 1) 0 source s _ (faults.part (count + 1))
            options.retryDelaysMs hfits (hpassing (count + 1)) habsent
        obtain ⟨life, hholds, hopen, hsent⟩ :=
          @Holds.sendPart_holds options.partSize options.totalLength count
            (count + 1) 0 source s _ (faults.part (count + 1))
            options.retryDelaysMs hfits habsent
        rw [keptFrom_iff_kept, ← hpart, hfinal, ← hoffset] at hok_iff
        rw [← hoffset, ← hpart] at hholds hsent
        rw [← hpart] at hopen
        rw [sendParts_part hnext, if_neg hroom]
        rcases hsend : sendPart (faults.part (count + 1)) (count + 1)
            offset part s 0 options.retryDelaysMs with ⟨s', _ | headers⟩
        · rw [hsend] at hok_iff
          refine iff_of_false (by simp) fun hall => ?_
          have hkept := hall count le_rfl (by omega)
          rw [← hoffset] at hkept
          obtain ⟨_, hok⟩ := hok_iff.mpr hkept
          cases hok
        · rw [hsend] at hok_iff hholds hsent
          have hbetween := h.sent_part hnext hroom hholds hopen
            (hsent headers rfl)
          refine (ih next.rest.length
            (hrest ▸ PartReader.next_shorter hnext) hbetween rfl).trans
            ⟨fun hall index hge hindex => ?_,
              fun hall index hge => hall index (by omega)⟩
          rcases hge.eq_or_lt with rfl | hgt
          · rw [← hoffset]
            exact hok_iff.mp ⟨headers, rfl⟩
          · exact hall index hgt hindex

end Loop

/-- What the server holds when the upload has resolved. -/
structure Stored (options : TusUploadOptions) (source : Bytes) (s : Server)
    (result : TusUploadResult) : Prop where
  committed : s.committed = source
  length : source.length = options.totalLength
  parts : s.appended.length = result.parts
  offset : ∀ front patch back, s.appended = front ++ patch :: back →
    patch.1 = (front.map Prod.snd).flatten.length
  bytes : (s.appended.map Prod.snd).flatten = source
  full : ∀ front patch back, s.appended = front ++ patch :: back →
    back ≠ [] → patch.2.length = options.partSize

/-- Losses, error statuses that may be retried and failed probes, such that
each part, though its response may be lost, is delivered within the
retries. -/
structure Passable (options : TusUploadOptions) (source : Bytes)
    (faults : Faults) : Prop where
  nonempty : 1 ≤ options.totalLength
  aligned : options.partsAligned
  length : source.length = options.totalLength
  created : Creates faults.post options.retryDelaysMs.length
  passing : ∀ count attempt, (faults.part count attempt).Passing
  delivered : ∀ index, index * options.partSize < options.totalLength →
    Delivered (index * options.partSize)
      (decide (options.totalLength ≤ (index + 1) * options.partSize))
      (faults.part (index + 1)) options.retryDelaysMs.length

/-- What resolves is exactly the source, nothing is appended twice whatever
happens, and what is delivered within the retries resolves. -/
structure UploadsExactly (options : TusUploadOptions) (source : List Bytes)
    (faults : Faults) : Prop where
  stored : ∀ result, (tusUpload options source faults).2 = .ok result →
    Stored options source.flatten (tusUpload options source faults).1 result
  once : (tusUpload options source faults).1.appended.Pairwise
    fun earlier later => earlier.1 < later.1
  resolves : Passable options source.flatten faults →
    ∃ result, (tusUpload options source faults).2 = .ok result

section Upload

variable {options : TusUploadOptions} {source : List Bytes} {faults : Faults}

theorem partSize_pos (hlength : ¬options.totalLength < 1)
    (haligned : options.partsAligned) : 0 < options.partSize := by
  by_contra hzero
  have hmin := (haligned (by omega)).1
  simp only [tusMinPartBytes] at hmin
  omega

theorem between_start (options : TusUploadOptions) (source : List Bytes) :
    Between options.partSize source.flatten options.totalLength 0
      (PartReader.start source) 0 (Server.fresh options.totalLength) where
  appended := rfl
  committed := by simp [Server.fresh]
  within := fun _ hindex => absurd hindex (Nat.not_lt_zero _)
  ended := fun hended => by cases hended
  rest := by simp
  offset_eq := by simp
  offset_le := Nat.zero_le _
  declared := rfl
  closed := fun _ => rfl
  sent := fun _ hpatch => by cases hpatch

theorem Holding.stored {result : TusUploadResult} {s : Server} {bytes : Bytes}
    (hlength : bytes.length = options.totalLength)
    (hall : bytes.length ≤ result.parts * options.partSize)
    (h : Holding options.partSize bytes result.parts s) :
    Stored options bytes s result where
  committed := by rw [h.committed, List.take_of_length_le hall]
  length := hlength
  parts := by rw [h.appended, List.length_map, List.length_range]
  offset := fun _ _ _ hsplit => h.offset_eq hsplit
  bytes := by rw [h.appended, slices_flatten, List.take_of_length_le hall]
  full := fun _ _ _ hsplit hback => h.full hsplit hback

/-- The loop's outcome, but for the session deleted after an error. -/
structure Uploads (options : TusUploadOptions) (source : List Bytes)
    (faults : Faults)
    (sent : Server × Except TusUploadError TusUploadResult) : Prop where
  result : (tusUpload options source faults).2 = sent.2
  appended : (tusUpload options source faults).1.appended = sent.1.appended
  server : ∀ result, sent.2 = .ok result →
    (tusUpload options source faults).1 = sent.1

theorem tusUpload_sends (hnonempty : ¬options.totalLength < 1)
    (haligned : options.partsAligned)
    (hcreate : create faults.post 0 options.retryDelaysMs = .ok ()) :
    Uploads options source faults
      (sendParts options faults (PartReader.start source) 0 0
        ⟨none, none, none, 0⟩ (Server.fresh options.totalLength)) := by
  have hupload := tusUpload.eq_def options source faults
  rw [if_neg hnonempty, if_neg (not_not.mpr haligned), hcreate] at hupload
  dsimp only at hupload
  rcases hsent : sendParts options faults (PartReader.start source) 0 0
    ⟨none, none, none, 0⟩ (Server.fresh options.totalLength) with
    ⟨s, error | result⟩
  · rw [hsent] at hupload
    refine ⟨by rw [hupload], ?_, fun _ hok => by cases hok⟩
    rw [hupload]
    simp only [Server.abortSession]
    split <;> rfl
  · rw [hsent] at hupload
    exact ⟨by rw [hupload], by rw [hupload], fun _ _ => by rw [hupload]⟩

theorem tusUpload_cases (options : TusUploadOptions) (source : List Bytes)
    (faults : Faults) :
    (∃ error, tusUpload options source faults =
      (Server.fresh options.totalLength, .error error)) ∨
    0 < options.partSize ∧ Uploads options source faults
        (sendParts options faults (PartReader.start source) 0 0
          ⟨none, none, none, 0⟩ (Server.fresh options.totalLength)) := by
  by_cases hnonempty : options.totalLength < 1
  · exact .inl ⟨_, by rw [tusUpload, if_pos hnonempty]⟩
  · by_cases haligned : options.partsAligned
    · cases hcreate : create faults.post 0 options.retryDelaysMs with
      | error error =>
          refine .inl ⟨error, ?_⟩
          simp only [tusUpload, if_neg hnonempty,
            if_neg (not_not.mpr haligned), hcreate]
      | ok created =>
          exact .inr ⟨partSize_pos hnonempty haligned,
            tusUpload_sends hnonempty haligned hcreate⟩
    · refine .inl ⟨.partSize options.partSize, ?_⟩
      rw [tusUpload, if_neg hnonempty, if_pos haligned]

theorem tusUpload_stored {result : TusUploadResult}
    (hok : (tusUpload options source faults).2 = .ok result) :
    Stored options source.flatten (tusUpload options source faults).1
      result := by
  rcases tusUpload_cases options source faults with
    ⟨error, herror⟩ | ⟨hsize, huploads⟩
  · rw [herror] at hok
    cases hok
  · rw [huploads.result] at hok
    obtain ⟨hlength, hall, hholding⟩ :=
      ((between_start options source).sendParts_exact hsize).2 result hok
    rw [huploads.server result hok]
    exact hholding.stored hlength hall

theorem tusUpload_once (options : TusUploadOptions) (source : List Bytes)
    (faults : Faults) :
    (tusUpload options source faults).1.appended.Pairwise
      fun earlier later => earlier.1 < later.1 := by
  rcases tusUpload_cases options source faults with
    ⟨error, herror⟩ | ⟨hsize, huploads⟩
  · rw [herror]
    exact List.Pairwise.nil
  · rw [huploads.appended]
    obtain ⟨sent, hholding⟩ :=
      ((between_start options source).sendParts_exact hsize).1
    exact hholding.increasing hsize

/-- What is delivered resolves exactly when the parts are kept. -/
theorem Passable.resolves_iff (h : Passable options source.flatten faults) :
    (∃ result, (tusUpload options source faults).2 = .ok result) ↔
      ∀ index, index * options.partSize < options.totalLength →
        Kept (index * options.partSize)
          (decide (options.totalLength ≤ (index + 1) * options.partSize))
          (faults.part (index + 1)) options.retryDelaysMs.length := by
  have hnonempty : ¬options.totalLength < 1 := by
    have := h.nonempty
    omega
  obtain ⟨attempt, hle, hok, hearlier⟩ := h.created
  have hcreate : create faults.post 0 options.retryDelaysMs = .ok () :=
    create_ok (Nat.zero_le attempt) (by omega) hok
      fun earlier _ hlt => hearlier earlier hlt
  have hsize := partSize_pos hnonempty h.aligned
  rw [(tusUpload_sends hnonempty h.aligned hcreate).result,
    (between_start options source).sendParts_ok_iff hsize h.length h.passing]
  simp only [Nat.zero_le, true_imp_iff]

theorem Passable.resolves_iff_last
    (h : Passable options source.flatten faults) :
    (∃ result, (tusUpload options source faults).2 = .ok result) ↔
      ∀ last, last * options.partSize < options.totalLength →
        options.totalLength ≤ (last + 1) * options.partSize →
        Kept (last * options.partSize) true (faults.part (last + 1))
          options.retryDelaysMs.length := by
  rw [h.resolves_iff]
  constructor
  · intro hkept last hlt hle
    have hlast := hkept last hlt
    rwa [decide_eq_true hle] at hlast
  · intro hkept index hlt
    by_cases hle : options.totalLength ≤ (index + 1) * options.partSize
    · rw [decide_eq_true hle]
      exact hkept index hlt hle
    · have hdelivered := h.delivered index hlt
      rw [decide_eq_false hle] at hdelivered ⊢
      exact hdelivered.kept fun _ => PartLife.keepsOpen_of_not_final _

/-- The upload keeps its promise unless the last part, delivered, is gone
with its session when a probe is answered. -/
theorem tusUpload_uploads_exactly (options : TusUploadOptions)
    (source : List Bytes) (faults : Faults) :
    UploadsExactly options source faults ↔
      (Passable options source.flatten faults →
        ∀ last, last * options.partSize < options.totalLength →
          options.totalLength ≤ (last + 1) * options.partSize →
          Kept (last * options.partSize) true (faults.part (last + 1))
            options.retryDelaysMs.length) := by
  constructor
  · intro h hpassable
    exact hpassable.resolves_iff_last.mp (h.resolves hpassable)
  · intro hkept
    refine ⟨fun _ => tusUpload_stored, tusUpload_once options source faults,
      fun hpassable => ?_⟩
    exact hpassable.resolves_iff_last.mpr (hkept hpassable)

end Upload

/-- One byte in one part: its response is lost, and the server closes the
upload before the probe. -/
def closedUpload : Faults where
  post := fun _ => .answered 201 (some true)
  part := fun _ attempt =>
    { beforePatch := ⟨[], false⟩
      patch := if attempt = 0 then .lost true else
        .answered ⟨none, none, none⟩
      beforeHead := ⟨[], true⟩
      head := .answered }
  deleteReaches := true

theorem closedUpload_passable :
    Passable { totalLength := 1, partSize := 1 } [7] closedUpload where
  nonempty := le_rfl
  aligned := fun hlt => absurd hlt (by decide)
  length := rfl
  created := ⟨0, Nat.zero_le _, rfl, fun _ hlt => absurd hlt (by omega)⟩
  passing := by
    intro count attempt
    by_cases hfirst : attempt = 0 <;>
      simp [Attempt.Passing, closedUpload, hfirst]
  delivered := by
    intro index hlt
    obtain rfl : index = 0 := by
      simp only [Nat.mul_one] at hlt
      omega
    exact .inr ⟨0, by decide, rfl, by decide⟩

theorem closedUpload_fails :
    ¬ ∀ (options : TusUploadOptions) (source : List Bytes) (faults : Faults),
      UploadsExactly options source faults := by
  intro h
  obtain ⟨result, hok⟩ :=
    (h { totalLength := 1, partSize := 1 } [[7]] closedUpload).resolves
      closedUpload_passable
  have hfails : (tusUpload { totalLength := 1, partSize := 1 } [[7]]
      closedUpload).2.isOk = false := by decide +kernel
  rw [hok] at hfails
  cases hfails

end QiForge.Tus
