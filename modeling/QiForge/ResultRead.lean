import QiForge.ResultStore
import QiForge.Utf8Boundary

/-!
# Reading a stored result back in chunks

A range moved onto boundaries starts at the boundary at or before its offset
and stops at a later one, whichever tier its bytes come from.  What the text
decoder makes of the chunk is its characters, except that a byte order mark
in front of them is dropped; and a row ends before the first U+0000.  So the
chunks of a result give it back exactly when it holds no such character.
-/

namespace QiForge
namespace ResultStore

open Utf8Boundary

/-! ## The loops -/

theorem back_eq {p : ℕ → Bool} {b n : ℕ} (hle : b ≤ n)
    (hon : ∀ m, b < m → m ≤ n → p m = true) (hoff : p b = false) :
    back p n = b := by
  induction n with
  | zero =>
      obtain rfl : b = 0 := by omega
      rfl
  | succ n ih =>
      rw [back]
      by_cases hend : b = n + 1
      · subst hend
        rw [if_neg (by simp [hoff])]
      · rw [if_pos (hon (n + 1) (by omega) le_rfl)]
        exact ih (by omega) fun m hm hn => hon m hm (by omega)

theorem forward_eq {p : ℕ → Bool} {b n fuel : ℕ} (hle : n ≤ b)
    (hfuel : b ≤ n + fuel) (hon : ∀ m, n ≤ m → m < b → p m = true)
    (hoff : p b = false) : forward p fuel n = b := by
  induction fuel generalizing n with
  | zero =>
      obtain rfl : b = n := by omega
      rfl
  | succ fuel ih =>
      rw [forward]
      by_cases hend : n = b
      · subst hend
        rw [if_neg (by simp [hoff])]
      · rw [if_pos (hon n le_rfl (by omega))]
        exact ih (by omega) (by omega) fun m hm hb => hon m (by omega) hb

/-! ## A range of the bytes of a text -/

/-- `bytes` are those of the text from `base` on and cover the range and
three bytes on either side. -/
structure Window (content : List Char) (bytes : List UInt8)
    (base start stop : ℕ) : Prop where
  agrees : ∀ n, base ≤ n → n < base + bytes.length →
    bytes.getD (n - base) 0 = (utf8 content).getD n 0
  before : base = 0 ∨ base + 3 ≤ start
  after : (utf8 content).length ≤ base + bytes.length ∨
    stop + 3 ≤ base + bytes.length
  start_le : start ≤ stop
  stop_le : stop ≤ (utf8 content).length
  start_lt : start < (utf8 content).length → start < stop

variable {content : List Char} {bytes : List UInt8} {base start stop : ℕ}

theorem Window.continues_iff (h : Window content bytes base start stop)
    (n : ℕ) :
    continues bytes base (min (utf8 content).length (base + bytes.length)) n
        = true ↔
      base < n ∧ n < (utf8 content).length ∧ n < base + bytes.length ∧
        ¬Boundary content n := by
  rw [continues]
  by_cases hin : base < n ∧ n < (utf8 content).length ∧ n < base + bytes.length
  · rw [h.agrees n hin.1.le hin.2.2, boundary_iff hin.2.1]
    simp [hin]
  · constructor
    · intro htrue
      simp at htrue
      omega
    · rintro ⟨hbase, hsize, hlen, -⟩
      omega

/-- The range starts at the boundary at or before its offset and stops at a
later one. -/
structure Aligned (content : List Char) (start stop : ℕ) (r : ByteRange) :
    Prop where
  start_boundary : Boundary content r.start
  stop_boundary : Boundary content r.stop
  start_le : r.start ≤ start
  near : start ≤ r.start + 3
  last : ∀ m, r.start < m → m ≤ start → ¬Boundary content m
  le : r.start ≤ r.stop
  stop_le : r.stop ≤ stop + 3
  lt_stop : start < (utf8 content).length → start < r.stop

theorem Window.align (h : Window content bytes base start stop) :
    Aligned content start stop
      (alignUtf8Range bytes base (utf8 content).length start stop) := by
  have hstart : start ≤ (utf8 content).length := h.start_le.trans h.stop_le
  rcases exists_boundary_le hstart with ⟨first, hle, hnear, hfirst, hlast⟩
  have hback : back (continues bytes base
      (min (utf8 content).length (base + bytes.length))) start = first := by
    apply back_eq hle
    · intro m hm hms
      have hbefore := h.before
      have hafter := h.after
      have hstop := h.start_le
      have hsize : m ≠ (utf8 content).length := by
        rintro rfl
        exact hlast _ hm hms (boundary_length content)
      refine (h.continues_iff m).mpr ⟨?_, ?_, ?_, hlast m hm hms⟩
      · omega
      · omega
      · omega
    · rw [← Bool.not_eq_true, h.continues_iff]
      exact fun hon => hon.2.2.2 hfirst
  have hstopLimit : min stop
      (min (utf8 content).length (base + bytes.length)) = stop := by
    have hafter := h.after
    have hstop := h.stop_le
    omega
  have hmax : max first stop = stop := by
    have hstop := h.start_le
    omega
  rcases exists_boundary_le h.stop_le with
    ⟨cut, hcutLe, hcutNear, hcut, hcutLast⟩
  have hfirstCut : first ≤ cut := by
    by_contra hlt
    exact hcutLast first (by omega) (by have := h.start_le; omega) hfirst
  have hcutBack : back (fun n => decide (first < n) && continues bytes base
      (min (utf8 content).length (base + bytes.length)) n) stop = cut := by
    apply back_eq hcutLe
    · intro m hm hms
      have hbefore := h.before
      have hafter := h.after
      have hstopLe := h.stop_le
      have hsize : m ≠ (utf8 content).length := by
        rintro rfl
        exact hcutLast _ hm hms (boundary_length content)
      have hon := (h.continues_iff m).mpr
        ⟨by omega, by omega, by omega, hcutLast m hm hms⟩
      simp [hon]
      omega
    · rw [← Bool.not_eq_true, Bool.and_eq_true, h.continues_iff]
      exact fun hon => hon.2.2.2.2 hcut
  simp only [alignUtf8Range]
  rw [hback, hstopLimit, hmax, hcutBack]
  by_cases hempty : cut = first ∧
      first < min (utf8 content).length (base + bytes.length)
  · rcases hempty with ⟨rfl, hlimit⟩
    rw [if_pos ⟨rfl, hlimit⟩]
    have hcutLt : cut < (utf8 content).length := (lt_min_iff.mp hlimit).1
    have hlt : start < stop := by
      apply h.start_lt
      by_contra hend
      obtain rfl : start = (utf8 content).length := by omega
      exact hlast _ hcutLt le_rfl (boundary_length content)
    rcases hfirst.exists_next hcutLt with
      ⟨next, hnext, hnextNear, hnextBoundary, hnone⟩
    have hnextLe := hnextBoundary.le
    have hbefore := h.before
    have hafter := h.after
    have hforward : forward (continues bytes base
        (min (utf8 content).length (base + bytes.length)))
        (min (utf8 content).length (base + bytes.length)) (cut + 1)
          = next := by
      apply forward_eq (by omega)
      · rw [← Nat.sub_le_iff_le_add', Nat.le_min]
        omega
      · intro m hm hmn
        exact (h.continues_iff m).mpr
          ⟨by omega, by omega, by omega, hnone m (by omega) hmn⟩
      · rw [← Bool.not_eq_true, h.continues_iff]
        exact fun hon => hon.2.2.2 hnextBoundary
    rw [hforward]
    exact
      { start_boundary := hfirst
        stop_boundary := hnextBoundary
        start_le := hle
        near := hnear
        last := hlast
        le := hnext.le
        stop_le := by
          change next ≤ stop + 3
          omega
        lt_stop := by
          intro _
          change start < next
          by_contra hnot
          exact hlast next hnext (by omega) hnextBoundary }
  · rw [if_neg hempty]
    exact
      { start_boundary := hfirst
        stop_boundary := hcut
        start_le := hle
        near := hnear
        last := hlast
        le := hfirstCut
        stop_le := by
          change cut ≤ stop + 3
          omega
        lt_stop := by
          intro hsize
          have hlt := h.start_lt hsize
          have hafter := h.after
          have hne : cut ≠ first := by
            intro heq
            have hstopLe := h.start_le
            have hstopLe' := h.stop_le
            exact hempty ⟨heq, lt_min (by omega) (by omega)⟩
          change start < cut
          by_contra hnot
          exact hlast cut (by omega) (by omega) hcut }

/-! ## One read -/

theorem Aligned.split {r : ByteRange} (h : Aligned content start stop r) :
    ∃ front mid rest,
      content = front ++ mid ++ rest ∧ (utf8 front).length = r.start ∧
        (utf8 (front ++ mid)).length = r.stop :=
  h.start_boundary.split h.stop_boundary h.le

/-- A slice of the bytes that starts with them, or three bytes before the
range, and goes on to their end, or to three bytes after it. -/
theorem window_of_slice {len : ℕ} (hbase : base = 0 ∨ base + 3 ≤ start)
    (hlen : (utf8 content).length ≤ base + len ∨ stop + 3 ≤ base + len)
    (hstart : start ≤ stop) (hstop : stop ≤ (utf8 content).length)
    (hlt : start < (utf8 content).length → start < stop) :
    Window content (((utf8 content).drop base).take len) base start stop where
  agrees := by
    intro n hle hn
    rw [List.length_take, List.length_drop] at hn
    simp only [List.getD]
    rw [List.getElem?_take_of_lt (by omega), List.getElem?_drop]
    congr 2
    omega
  before := hbase
  after := by
    rw [List.length_take, List.length_drop]
    omega
  start_le := hstart
  stop_le := hstop
  start_lt := hlt

/-- The bytes of the range are those of its characters. -/
theorem subarray_slice {front mid : List Char} (rest : List Char) {len : ℕ}
    (hbase : base ≤ (utf8 front).length)
    (hlen : (utf8 (front ++ mid)).length ≤ base + len) :
    subarray (((utf8 (front ++ mid ++ rest)).drop base).take len)
      ((utf8 front).length - base) ((utf8 (front ++ mid)).length - base)
        = utf8 mid := by
  rw [subarray, List.take_take, List.take_drop, List.drop_drop]
  have hstop : base + min ((utf8 (front ++ mid)).length - base) len =
      (utf8 (front ++ mid)).length := by
    rw [utf8_append, List.length_append] at hlen ⊢
    omega
  have hstart : base + ((utf8 front).length - base) = (utf8 front).length := by
    omega
  rw [hstop, hstart, utf8_append (front ++ mid), List.take_left,
    utf8_append, List.drop_left]

section Stored

variable {Session : Type*} {o : Options} {sessionId : Session}
  {expiresAt : ℕ} {row : ResultRow Session}

theorem resultRow_size
    (hrow : resultRow o sessionId content expiresAt = some row) :
    row.size = (utf8 content).length := by
  simp only [resultRow] at hrow
  split_ifs at hrow <;> obtain rfl := Option.some.inj hrow <;> rfl

theorem resultRow_expiresAt
    (hrow : resultRow o sessionId content expiresAt = some row) :
    row.expiresAt = expiresAt := by
  simp only [resultRow] at hrow
  split_ifs at hrow <;> obtain rfl := Option.some.inj hrow <;> rfl

/-- No U+0000 goes to a row. -/
def KeptWhole (o : Options) (content : List Char) : Prop :=
  useR2 o (utf8 content) = false → nul ∉ content

/-- The bytes a read looks at, in either tier. -/
theorem readWindow_stored {requested span : ℕ}
    (hrow : resultRow o sessionId content expiresAt = some row)
    (hwhole : KeptWhole o content)
    (hrequested : requested ≤ (utf8 content).length) (hspan : 0 < span) :
    ∃ base len, readWindow o row (resultObject o content) requested span =
          .ok (base, ((utf8 content).drop base).take len) ∧
        (base = 0 ∨ base + 3 ≤ requested) ∧
        ((utf8 content).length ≤ base + len ∨
          min (utf8 content).length (requested + span) + 3 ≤ base + len) := by
  simp only [resultRow] at hrow
  by_cases huse : useR2 o (utf8 content) = true
  · rw [if_pos huse] at hrow
    cases hrow
    have hpos := o.r2MinBytes_pos
    simp only [useR2, Bool.and_eq_true, decide_eq_true_eq] at huse
    have hobject : resultObject o content = some (utf8 content) := by
      simp [resultObject, useR2, huse]
    refine ⟨requested - UTF8_MAX_CONTINUATION, max 1 (min (utf8 content).length
        (requested + span + UTF8_MAX_CONTINUATION) -
          (requested - UTF8_MAX_CONTINUATION)), ?_, ?_, ?_⟩
    · simp only [readWindow, huse.1, hobject, if_true]
      rw [rangeGet, if_pos (by simp only [UTF8_MAX_CONTINUATION]; omega)]
    · simp only [UTF8_MAX_CONTINUATION]
      omega
    · simp only [UTF8_MAX_CONTINUATION]
      omega
  · rw [if_neg huse] at hrow
    split_ifs at hrow with hlarge
    cases hrow
    refine ⟨0, (utf8 content).length, ?_, Or.inl rfl, Or.inl (by omega)⟩
    have hbound := bindText_eq_self.mpr
      (hwhole (Bool.eq_false_of_not_eq_true huse))
    simp [readWindow, hbound]

/-- What a read at `start` gives: the characters `mid`, but for a mark in
front of them. -/
structure ReadsAt (content : List Char) (start : ℕ) (chunk : Chunk)
    (front mid rest : List Char) : Prop where
  content_eq : content = front ++ mid ++ rest
  offset_eq : chunk.offset = (utf8 front).length
  length_eq : chunk.length = (utf8 mid).length
  text_eq : chunk.text = stripBom mid
  next_eq : chunk.next =
    if (utf8 (front ++ mid)).length < (utf8 content).length then
      some (utf8 (front ++ mid)).length
    else none
  offset_le : (utf8 front).length ≤ start
  last : ∀ m, (utf8 front).length < m → m ≤ start → ¬Boundary content m
  lt_stop : start < (utf8 content).length →
    start < (utf8 (front ++ mid)).length

theorem readChunk_stored {offset length : ℤ} {start : ℕ}
    (hrow : resultRow o sessionId content expiresAt = some row)
    (hwhole : KeptWhole o content)
    (hstart : offset = start) (hle : start ≤ (utf8 content).length) :
    ∃ chunk front mid rest,
      readChunk o row (resultObject o content) offset length = .ok chunk ∧
        ReadsAt content start chunk front mid rest := by
  have hsize := resultRow_size hrow
  have hrequested : requestedOffset row.size offset = start := by
    rw [requestedOffset, hsize, hstart]
    omega
  have hspan : 0 < requestedSpan row.size start length := by
    rw [requestedSpan]
    omega
  generalize hs : requestedSpan row.size start length = span at hspan
  rcases readWindow_stored hrow hwhole hle hspan with
    ⟨base, len, hwindow, hbase, hlen⟩
  have hin : Window content (((utf8 content).drop base).take len) base
      start (min (utf8 content).length (start + span)) :=
    window_of_slice hbase hlen (by omega) (by omega) (by omega)
  have halign := hin.align
  rcases halign.split with ⟨front, mid, rest, hcontent, hfront, hmid⟩
  have hbaseLe : base ≤ (utf8 front).length := by
    have hnear := halign.near
    omega
  have hstopLe : (utf8 (front ++ mid)).length ≤ base + len := by
    have hstop := halign.stop_le
    have hall := halign.stop_boundary.le
    omega
  have hbytes := subarray_slice rest hbaseLe hstopLe
  rw [← hcontent] at hbytes
  simp only [readChunk]
  rw [hrequested, hs, hwindow]
  refine ⟨_, front, mid, rest, rfl, ?_⟩
  rw [hsize, ← hfront, ← hmid, hbytes, decodeUtf8_utf8]
  exact
    { content_eq := hcontent
      offset_eq := rfl
      length_eq := by
        change (utf8 (front ++ mid)).length - (utf8 front).length =
          (utf8 mid).length
        rw [utf8_append, List.length_append]
        omega
      text_eq := rfl
      next_eq := rfl
      offset_le := hfront ▸ halign.start_le
      last := hfront ▸ halign.last
      lt_stop := hmid ▸ halign.lt_stop }

/-! ## Reading a whole result -/

/-- Reads of at most `calls` chunks from an offset, following `next` until it
is null; `length` and `now` give the arguments and the clock of each call. -/
def readAll (o : Options) (row : ResultRow Session)
    (object : Option (List UInt8)) (length : ℕ → ℤ) (now : ℕ → ℕ) :
    ℕ → ℕ → ℤ → Option (List Char)
  | 0, _, _ => none
  | calls + 1, k, offset =>
      match read o (some row) object (now k) offset (length k) with
      | .ok chunk =>
          match chunk.next with
          | none => some chunk.text
          | some next =>
              (readAll o row object length now calls (k + 1) next).map
                (chunk.text ++ ·)
      | _ => none

/-- The outcome of a read holds whole characters of the content, from the
offset or before, and ends after it unless at the end. -/
def ReadsWhole (content : List Char) (offset : ℤ)
    (outcome : ReadResultOutcome) : Prop :=
  ∃ chunk front mid rest,
    outcome = .ok chunk ∧ content = front ++ mid ++ rest ∧
      chunk.text = mid ∧ chunk.offset = (utf8 front).length ∧
      chunk.length = (utf8 mid).length ∧ (chunk.offset : ℤ) ≤ offset ∧
      match chunk.next with
      | none => rest = []
      | some next =>
          next = (utf8 (front ++ mid)).length ∧ offset < next

/-- Chunks of any lengths, floors of positive numbers, read before the result
expires. -/
def ReadsBack (o : Options) (row : ResultRow Session)
    (object : Option (List UInt8)) (content : List Char) : Prop :=
  (∀ (length : ℕ → ℤ) (now : ℕ → ℕ), (∀ k, 0 ≤ length k) →
      (∀ k, now k < row.expiresAt) →
        ∃ calls, readAll o row object length now calls 0 0 = some content) ∧
    ∀ (offset length : ℤ) (now : ℕ), 0 ≤ offset →
      offset ≤ (utf8 content).length → 0 ≤ length →
      now < row.expiresAt →
        ReadsWhole content offset (read o (some row) object now offset length)

theorem read_stored {offset : ℤ} (length : ℤ) {start now : ℕ}
    (hrow : resultRow o sessionId content expiresAt = some row)
    (hwhole : KeptWhole o content)
    (hnow : now < row.expiresAt) (hstart : offset = start)
    (hle : start ≤ (utf8 content).length) :
    ∃ chunk front mid rest,
      read o (some row) (resultObject o content) now offset length =
          .ok chunk ∧
        ReadsAt content start chunk front mid rest := by
  simp only [read]
  rw [if_neg (by omega)]
  exact readChunk_stored hrow hwhole hstart hle

theorem utf8_eq_nil {text : List Char} (h : (utf8 text).length = 0) :
    text = [] := by
  cases text with
  | nil => rfl
  | cons c text =>
      have hchar := length_utf8_singleton c
      rw [length_utf8_cons] at h
      omega

theorem ReadsAt.rest_eq_nil {start : ℕ} {chunk : Chunk}
    {front mid rest : List Char}
    (h : ReadsAt content start chunk front mid rest)
    (hend : (utf8 content).length ≤ (utf8 (front ++ mid)).length) :
    rest = [] := by
  apply utf8_eq_nil
  rw [h.content_eq, utf8_append (front ++ mid), List.length_append] at hend
  omega

theorem ReadsAt.start_lt {start : ℕ} {chunk : Chunk}
    {front mid rest : List Char}
    (h : ReadsAt content start chunk front mid rest)
    (hle : start ≤ (utf8 content).length)
    (hmore : (utf8 (front ++ mid)).length < (utf8 content).length) :
    start < (utf8 (front ++ mid)).length := by
  apply h.lt_stop
  by_contra hend
  obtain rfl : start = (utf8 content).length := by omega
  apply h.last _ _ le_rfl (boundary_length content)
  rw [utf8_append, List.length_append] at hmore
  omega

theorem stripBom_of_notMem {text : List Char} (h : bom ∉ text) :
    stripBom text = text := by
  apply stripBom_eq_self.mpr
  intro hhead
  exact h (List.mem_of_head? hhead)

/-- Without a byte order mark every read holds whole characters. -/
theorem readsWhole_of_notMem {offset length : ℤ} {now : ℕ}
    (hrow : resultRow o sessionId content expiresAt = some row)
    (hwhole : KeptWhole o content) (hbom : bom ∉ content) (hoffset : 0 ≤ offset)
    (hle : offset ≤ (utf8 content).length) (hnow : now < row.expiresAt) :
    ReadsWhole content offset
      (read o (some row) (resultObject o content) now offset length) := by
  obtain ⟨start, rfl⟩ := Int.eq_ofNat_of_zero_le hoffset
  rcases read_stored length hrow hwhole hnow rfl (Int.ofNat_le.mp hle) with
    ⟨chunk, front, mid, rest, hread, hat⟩
  have hmid : bom ∉ mid := by
    intro hmem
    apply hbom
    rw [hat.content_eq]
    simp [hmem]
  refine ⟨chunk, front, mid, rest, hread, hat.content_eq, ?_, hat.offset_eq,
    hat.length_eq, ?_, ?_⟩
  · rw [hat.text_eq, stripBom_of_notMem hmid]
  · rw [hat.offset_eq]
    exact_mod_cast hat.offset_le
  · rw [hat.next_eq]
    split_ifs with hmore
    · exact ⟨rfl, by exact_mod_cast hat.start_lt (by omega) hmore⟩
    · exact hat.rest_eq_nil (by omega)

/-- The characters in front of a boundary. -/
theorem front_unique {front other left right : List Char}
    (happend : front ++ left = other ++ right)
    (hlen : (utf8 front).length = (utf8 other).length) :
    front = other ∧ left = right := by
  induction front generalizing other with
  | nil =>
      obtain rfl : other = [] := utf8_eq_nil hlen.symm
      exact ⟨rfl, happend⟩
  | cons c front ih =>
      cases other with
      | nil =>
          have hnil : c :: front = [] := utf8_eq_nil hlen
          simp at hnil
      | cons c' other =>
          simp only [List.cons_append, List.cons.injEq] at happend
          rcases happend with ⟨rfl, happend⟩
          rw [length_utf8_cons c front, length_utf8_cons c other] at hlen
          rcases ih happend (by omega) with ⟨rfl, hleft⟩
          exact ⟨rfl, hleft⟩

/-- A read at a boundary starts there. -/
theorem ReadsAt.of_boundary {chunk : Chunk}
    {front mid rest done left : List Char}
    (h : ReadsAt content (utf8 done).length chunk front mid rest)
    (hcontent : content = done ++ left) :
    front = done ∧ left = mid ++ rest := by
  have hlen : (utf8 front).length = (utf8 done).length := by
    rcases Nat.lt_or_ge (utf8 front).length (utf8 done).length with hlt | hge
    · exact absurd ⟨done, left, hcontent, rfl⟩ (h.last _ hlt le_rfl)
    · exact le_antisymm h.offset_le hge
  have happend : front ++ (mid ++ rest) = done ++ left := by
    rw [← hcontent, h.content_eq, List.append_assoc]
  rcases front_unique happend hlen with ⟨hfront, hrest⟩
  exact ⟨hfront, hrest.symm⟩

/-- The reads from a boundary give the rest of the text. -/
theorem readAll_from {length : ℕ → ℤ} {now : ℕ → ℕ}
    (hrow : resultRow o sessionId content expiresAt = some row)
    (hwhole : KeptWhole o content) (hbom : bom ∉ content) (hnow : ∀ k, now k < row.expiresAt)
    (n k : ℕ) (done left : List Char) (hcontent : content = done ++ left)
    (hn : left.length ≤ n) :
    ∃ calls, readAll o row (resultObject o content) length now calls k
        (utf8 done).length = some left := by
  induction n using Nat.strong_induction_on generalizing k done left with
  | _ n ih =>
      have hle : (utf8 done).length ≤ (utf8 content).length := by
        rw [hcontent, utf8_append, List.length_append]
        omega
      rcases read_stored (length k) hrow hwhole (hnow k) rfl hle with
        ⟨chunk, front, mid, rest, hread, hat⟩
      rcases hat.of_boundary hcontent with ⟨rfl, rfl⟩
      have hmid : stripBom mid = mid := by
        apply stripBom_of_notMem
        intro hmem
        exact hbom (by simp [hcontent, hmem])
      have hnext := hat.next_eq
      split_ifs at hnext with hmore
      · have hprogress := hat.lt_stop
        have hshort : rest.length < n := by
          cases mid with
          | nil =>
              rw [List.append_nil] at hprogress hmore
              omega
          | cons c mid =>
              simp at hn
              omega
        rcases ih rest.length hshort (k + 1) (front ++ mid) rest
            (by rw [hcontent, List.append_assoc]) le_rfl with
          ⟨calls, hcalls⟩
        refine ⟨calls + 1, ?_⟩
        simp only [readAll]
        rw [hread]
        simp only [hnext]
        rw [hcalls, Option.map_some, hat.text_eq, hmid]
      · refine ⟨1, ?_⟩
        obtain rfl := hat.rest_eq_nil (by omega)
        simp only [readAll]
        rw [hread]
        simp only [hnext]
        rw [hat.text_eq, hmid, List.append_nil]

/-- A read at a byte order mark loses it. -/
theorem not_readsWhole_at_bom {front rest : List Char} {now : ℕ}
    (hrow : resultRow o sessionId content expiresAt = some row)
    (hwhole : KeptWhole o content)
    (hcontent : content = front ++ bom :: rest)
    (hnow : now < row.expiresAt) (length : ℤ) :
    ¬ReadsWhole content (utf8 front).length
      (read o (some row) (resultObject o content) now
        (utf8 front).length length) := by
  have hlt : (utf8 front).length < (utf8 content).length := by
    have hchar := length_utf8_singleton bom
    rw [hcontent, utf8_append, List.length_append, length_utf8_cons]
    omega
  rcases read_stored length hrow hwhole hnow rfl hlt.le with
    ⟨chunk, done, mid, rest', hread, hat⟩
  rcases hat.of_boundary hcontent with ⟨rfl, hmid⟩
  rintro ⟨chunk', front', mid', rest'', hok, hwhole, htext, hoffset, hlen,
    -, -⟩
  rw [hread, ReadResultOutcome.ok.injEq] at hok
  subst hok
  have hprogress := hat.lt_stop hlt
  have hsame : mid' = mid := by
    have happend : done ++ (mid ++ rest') = front' ++ (mid' ++ rest'') := by
      rw [← List.append_assoc, ← hat.content_eq, hwhole, List.append_assoc]
    have hfront : (utf8 done).length = (utf8 front').length := by
      rw [← hat.offset_eq, hoffset]
    have hmidLen : (utf8 mid).length = (utf8 mid').length := by
      rw [← hat.length_eq, hlen]
    exact (front_unique (front_unique happend hfront).2 hmidLen).1.symm
  cases mid with
  | nil =>
      rw [List.append_nil] at hprogress
      omega
  | cons c mid =>
      simp only [List.cons_append, List.cons.injEq] at hmid
      rcases hmid with ⟨rfl, -⟩
      have hstrip : stripBom (bom :: mid) = mid := by
        rw [stripBom, if_pos rfl]
      rw [hat.text_eq, hstrip, hsame] at htext
      have hlength := congrArg List.length htext
      simp at hlength

theorem alignUtf8Range_end (bytes : List UInt8) {size stop : ℕ}
    (hsize : bytes.length ≤ size) :
    alignUtf8Range bytes 0 size bytes.length stop =
      ⟨bytes.length, bytes.length⟩ := by
  have hback : ∀ p : ℕ → Bool, p bytes.length = false →
      back p bytes.length = bytes.length :=
    fun p => back_eq le_rfl fun m hlt hle => absurd hle (by omega)
  have hoff : continues bytes 0 (min size (0 + bytes.length))
      bytes.length = false := by
    simp [continues]
  have hlast : max bytes.length
      (min stop (min size (0 + bytes.length))) = bytes.length := by omega
  simp only [alignUtf8Range]
  rw [hback _ hoff, hlast, hback _ (by simp)]
  exact if_neg (by omega)

/-- At the end of what a row kept, a read gives nothing and names the same
offset as the next one. -/
theorem not_readsWhole_at_nul {now : ℕ}
    (hrow : resultRow o sessionId content expiresAt = some row)
    (huse : useR2 o (utf8 content) = false) (hnul : nul ∈ content)
    (hnow : now < row.expiresAt) (object : Option (List UInt8))
    (length : ℤ) :
    (utf8 (bindText content)).length ≤ (utf8 content).length ∧
      ¬ReadsWhole content (utf8 (bindText content)).length
        (read o (some row) object now (utf8 (bindText content)).length
          length) := by
  have hsize := resultRow_size hrow
  have hsplit : bindText content ++ content.dropWhile (· ≠ nul) = content :=
    List.takeWhile_append_dropWhile
  have hleft : content.dropWhile (· ≠ nul) ≠ [] := by
    intro hnil
    rw [hnil, List.append_nil] at hsplit
    exact bindText_eq_self.mp hsplit hnul
  have hlt : (utf8 (bindText content)).length < (utf8 content).length := by
    have hpos : (utf8 (content.dropWhile (· ≠ nul))).length ≠ 0 :=
      fun hzero => hleft (utf8_eq_nil hzero)
    have hlen := congrArg (fun text => (utf8 text).length) hsplit
    rw [utf8_append, List.length_append] at hlen
    omega
  refine ⟨hlt.le, ?_⟩
  rintro ⟨chunk, front, mid, rest, hread, -, -, -, -, -, hnext⟩
  simp only [resultRow] at hrow
  rw [if_neg (by simp [huse])] at hrow
  split_ifs at hrow
  cases hrow
  have hrequested : requestedOffset (utf8 content).length
      (utf8 (bindText content)).length = (utf8 (bindText content)).length := by
    rw [requestedOffset]
    omega
  simp only [read, readChunk, readWindow, Option.getD_some] at hread hnow
  rw [if_neg (by omega), hrequested, alignUtf8Range_end _ hlt.le,
    ReadResultOutcome.ok.injEq] at hread
  subst hread
  dsimp only at hnext
  rw [if_pos hlt] at hnext
  omega

/-- A stored result reads back in chunks of any lengths, and from any offset
in whole characters, exactly when it holds no byte order mark and none of its
rows was cut. -/
theorem readsBack_iff_notMem (o : Options) (sessionId : Session)
    (content : List Char) (expiresAt : ℕ) (row : ResultRow Session)
    (hrow : resultRow o sessionId content expiresAt = some row)
    (hlive : 0 < expiresAt) :
    ReadsBack o row (resultObject o content) content ↔
      bom ∉ content ∧ KeptWhole o content := by
  have hnow : 0 < row.expiresAt := by
    rw [resultRow_expiresAt hrow]
    exact hlive
  constructor
  · rintro ⟨-, hreads⟩
    have hwhole : KeptWhole o content := by
      intro huse hnul
      rcases not_readsWhole_at_nul hrow huse hnul hnow
        (resultObject o content) 0 with ⟨hle, hnot⟩
      exact hnot (hreads _ 0 0 (by omega) (by exact_mod_cast hle) le_rfl hnow)
    refine ⟨fun hmem => ?_, hwhole⟩
    rcases List.append_of_mem hmem with ⟨front, rest, hcontent⟩
    have hle : (utf8 front).length ≤ (utf8 content).length := by
      rw [hcontent, utf8_append, List.length_append]
      omega
    exact not_readsWhole_at_bom hrow hwhole hcontent hnow 0
      (hreads _ 0 0 (by omega) (by exact_mod_cast hle) le_rfl hnow)
  · rintro ⟨hbom, hwhole⟩
    constructor
    · intro length now _ hnow
      exact readAll_from hrow hwhole hbom hnow content.length 0 [] content
        rfl le_rfl
    · intro offset length now hoffset hle _ hnow
      exact readsWhole_of_notMem hrow hwhole hbom hoffset hle hnow

end Stored

/-- The default options, with a bucket bound. -/
def defaultOptions : Options where
  bucket := true
  r2MinBytes := r2MinBytesKnob none
  ttlMs := 24 * 60 * 60 * 1000
  r2MinBytes_pos := r2MinBytesKnob_pos none

def markedRow : ResultRow String where
  sessionId := "s"
  size := 4
  tier := .sqlite
  content := some [bom, 'a']
  expiresAt := 1

theorem resultRow_marked :
    resultRow defaultOptions "s" [bom, 'a'] 1 = some markedRow := by
  have hbytes : (utf8 [bom, 'a']).length = 4 := by decide
  have hbound : bindText [bom, 'a'] = [bom, 'a'] := by decide
  simp [resultRow, useR2, defaultOptions, r2MinBytesKnob, markedRow, hbytes,
    DEFAULT_RESULT_R2_MIN_BYTES, SQLITE_RESULT_MAX_BYTES, hbound]

/-- Read whole, a text that starts with the mark comes back without it. -/
theorem marked_not_readsBack :
    readAll defaultOptions markedRow none (fun _ => 4000) (fun _ => 0) 1 0 0 =
        some ['a'] ∧
      ¬∀ (o : Options) (sessionId : String) (content : List Char)
        (expiresAt : ℕ) (row : ResultRow String),
        resultRow o sessionId content expiresAt = some row → 0 < expiresAt →
          ReadsBack o row (resultObject o content) content := by
  refine ⟨by decide +kernel, ?_⟩
  intro hall
  have hback := hall _ _ _ _ _ resultRow_marked (by decide)
  exact not_readsWhole_at_bom resultRow_marked (fun _ => by decide)
    (List.nil_append _).symm
    (by decide) 1 (hback.2 0 1 0 le_rfl (by decide) (by decide) (by decide))

theorem readsBack_plain : ReadsBack defaultOptions
        { markedRow with size := 1, content := some ['a'] } none ['a'] ↔
      bom ∉ ['a'] ∧ KeptWhole defaultOptions ['a'] := by
  have hbytes : (utf8 ['a']).length = 1 := by decide
  have hrow : resultRow defaultOptions "s" ['a'] 1 =
      some { markedRow with size := 1, content := some ['a'] } := by
    simp [resultRow, useR2, defaultOptions, r2MinBytesKnob, markedRow, hbytes,
      DEFAULT_RESULT_R2_MIN_BYTES, SQLITE_RESULT_MAX_BYTES, bindText, nul]
  have hobject : resultObject defaultOptions ['a'] = none := by
    simp [resultObject, useR2, defaultOptions, r2MinBytesKnob, hbytes,
      DEFAULT_RESULT_R2_MIN_BYTES]
  rw [← hobject]
  exact readsBack_iff_notMem defaultOptions "s" ['a'] 1 _ hrow (by decide)

end ResultStore
end QiForge
