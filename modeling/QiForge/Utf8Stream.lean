import Mathlib.Tactic

/-!
# UTF-8 read from a stream

The streaming decoder of text: bytes (natural numbers below 256) arrive one at
a time, a character is emitted with its last byte, a malformed sequence is a
replacement character, and `flush` closes a stream that ends inside a
character.  Cutting encoded text at any byte decodes to a prefix of the text.
-/

namespace QiForge

def replacement : Char := '\uFFFD'

/-- `needed` bytes of the current character are still to come, the next one
between `lower` and `upper`. -/
structure Utf8Decoder where
  needed : ℕ
  codePoint : ℕ
  lower : ℕ
  upper : ℕ
deriving DecidableEq, Repr

namespace Utf8Decoder

def start : Utf8Decoder := ⟨0, 0, 0x80, 0xBF⟩

/-- The first byte of a character. -/
def first (b : ℕ) : Utf8Decoder × List Char :=
  if b < 0x80 then (start, [Char.ofNat b])
  else if b < 0xC2 then (start, [replacement])
  else if b < 0xE0 then (⟨1, b % 32, 0x80, 0xBF⟩, [])
  else if b < 0xF0 then
    (⟨2, b % 16, if b = 0xE0 then 0xA0 else 0x80,
      if b = 0xED then 0x9F else 0xBF⟩, [])
  else if b < 0xF5 then
    (⟨3, b % 8, if b = 0xF0 then 0x90 else 0x80,
      if b = 0xF4 then 0x8F else 0xBF⟩, [])
  else (start, [replacement])

/-- A byte outside the range ends the character and is read again as a first
byte. -/
def step (d : Utf8Decoder) (b : ℕ) : Utf8Decoder × List Char :=
  if d.needed = 0 then first b
  else if b < d.lower ∨ d.upper < b then
    let (next, out) := first b
    (next, replacement :: out)
  else if d.needed = 1 then
    (start, [Char.ofNat (d.codePoint * 64 + b % 64)])
  else (⟨d.needed - 1, d.codePoint * 64 + b % 64, 0x80, 0xBF⟩, [])

def feed (d : Utf8Decoder) : List ℕ → Utf8Decoder × List Char
  | [] => (d, [])
  | b :: bytes =>
      let (next, out) := d.step b
      let (last, rest) := feed next bytes
      (last, out ++ rest)

def flush (d : Utf8Decoder) : List Char :=
  if d.needed = 0 then [] else [replacement]

theorem feed_cons (d : Utf8Decoder) (b : ℕ) (bytes : List ℕ) :
    d.feed (b :: bytes) = (((d.step b).1.feed bytes).1,
        (d.step b).2 ++ ((d.step b).1.feed bytes).2) := rfl

theorem feed_append (d : Utf8Decoder) (front back : List ℕ) :
    d.feed (front ++ back) = (((d.feed front).1.feed back).1,
        (d.feed front).2 ++ ((d.feed front).1.feed back).2) := by
  induction front generalizing d with
  | nil => simp [feed]
  | cons b bytes ih =>
      rw [List.cons_append, feed_cons, feed_cons, ih]
      simp

end Utf8Decoder

def encodeChar (c : Char) : List ℕ :=
  let v := c.toNat
  if v < 0x80 then [v]
  else if v < 0x800 then [0xC0 + v / 64, 0x80 + v % 64]
  else if v < 0x10000 then
    [0xE0 + v / 4096, 0x80 + v / 64 % 64, 0x80 + v % 64]
  else
    [0xF0 + v / 262144, 0x80 + v / 4096 % 64, 0x80 + v / 64 % 64,
      0x80 + v % 64]

def encodeText (text : List Char) : List ℕ := text.flatMap encodeChar

namespace Utf8Decoder

theorem toNat_range (c : Char) :
    c.toNat < 0xD800 ∨ 0xDFFF < c.toNat ∧ c.toNat < 0x110000 := by
  have hvalid := c.valid
  rcases hvalid with hlow | hhigh
  · exact Or.inl hlow
  · exact Or.inr hhigh

theorem step_tail {needed codePoint lower upper b : ℕ}
    (hlower : lower ≤ b) (hupper : b ≤ upper) :
    step ⟨needed + 2, codePoint, lower, upper⟩ b =
      (⟨needed + 1, codePoint * 64 + b % 64, 0x80, 0xBF⟩, []) := by
  have hrange : ¬(b < lower ∨ upper < b) := by omega
  simp [step, hrange]

theorem step_last {codePoint lower upper b : ℕ}
    (hlower : lower ≤ b) (hupper : b ≤ upper) :
    step ⟨1, codePoint, lower, upper⟩ b =
      (start, [Char.ofNat (codePoint * 64 + b % 64)]) := by
  have hrange : ¬(b < lower ∨ upper < b) := by omega
  simp [step, hrange]

/-- `bytes` decode to the character `c` from the state `d`, and nothing comes
out before the last one. -/
def Spells (c : Char) : Utf8Decoder → List ℕ → Prop
  | _, [] => False
  | d, [b] => d.step b = (start, [c])
  | d, b :: bytes =>
      (d.step b).2 = [] ∧ (d.step b).1.needed ≠ 0 ∧ Spells c (d.step b).1 bytes

theorem Spells.feed {c : Char} {d : Utf8Decoder} {bytes : List ℕ}
    (h : Spells c d bytes) : d.feed bytes = (start, [c]) := by
  induction bytes generalizing d with
  | nil => exact absurd h id
  | cons b bytes ih =>
      cases bytes with
      | nil =>
          have hstep : d.step b = (start, [c]) := h
          simp [Utf8Decoder.feed, hstep]
      | cons b' bytes =>
          rcases h with ⟨hout, -, hrest⟩
          rw [feed_cons, ih hrest, hout]
          rfl

theorem Spells.feed_take {c : Char} {d : Utf8Decoder} {bytes : List ℕ}
    (h : Spells c d bytes) {k : ℕ} (hk : k < bytes.length) :
    (d.feed (bytes.take k)).2 = [] ∧
      (k ≠ 0 → (d.feed (bytes.take k)).1.needed ≠ 0) := by
  induction bytes generalizing d k with
  | nil => exact absurd h id
  | cons b bytes ih =>
      cases k with
      | zero => simp [Utf8Decoder.feed]
      | succ k =>
          cases bytes with
          | nil => simp at hk
          | cons b' bytes =>
              rcases h with ⟨hout, hneeded, hrest⟩
              have hlt : k < (b' :: bytes).length := by
                simpa using hk
              rcases ih hrest hlt with ⟨hnone, hpending⟩
              rw [List.take_succ_cons, feed_cons]
              constructor
              · rw [hout, hnone]
                rfl
              · intro _
                by_cases hzero : k = 0
                · rw [hzero, List.take_zero]
                  exact hneeded
                · exact hpending hzero

theorem encodeChar_spells (c : Char) : Spells c start (encodeChar c) := by
  have hrange := toNat_range c
  have hofNat : ∀ v, v = c.toNat → Char.ofNat v = c := by
    rintro v rfl
    exact Char.ofNat_toNat c
  have hstart : ∀ b, start.step b = first b := fun _ => rfl
  unfold encodeChar
  dsimp only
  split_ifs with hone htwo hthree
  · change start.step c.toNat = _
    rw [hstart, first, if_pos hone, hofNat _ rfl]
  · have hfirst : start.step (0xC0 + c.toNat / 64) =
        (⟨1, c.toNat / 64, 0x80, 0xBF⟩, []) := by
      have hcode : (0xC0 + c.toNat / 64) % 32 = c.toNat / 64 := by omega
      rw [hstart, first, if_neg (by omega), if_neg (by omega),
        if_pos (by omega), hcode]
    refine ⟨?_, ?_, ?_⟩
    · rw [hfirst]
    · rw [hfirst]
      simp
    · rw [hfirst]
      change step _ _ = _
      rw [step_last (by omega) (by omega), hofNat _ (by omega)]
  · have hfirst : start.step (0xE0 + c.toNat / 4096) =
        (⟨2, c.toNat / 4096, if c.toNat / 4096 = 0 then 0xA0 else 0x80,
          if c.toNat / 4096 = 13 then 0x9F else 0xBF⟩, []) := by
      have hcode : (0xE0 + c.toNat / 4096) % 16 = c.toNat / 4096 := by omega
      have hlow : (0xE0 + c.toNat / 4096 = 0xE0) = (c.toNat / 4096 = 0) := by
        simp
      have hhigh : (0xE0 + c.toNat / 4096 = 0xED) = (c.toNat / 4096 = 13) := by
        apply propext
        omega
      rw [hstart, first, if_neg (by omega), if_neg (by omega),
        if_neg (by omega), if_pos (by omega), hcode]
      simp only [hlow, hhigh]
    have hsecond : step ⟨2, c.toNat / 4096,
        if c.toNat / 4096 = 0 then 0xA0 else 0x80,
        if c.toNat / 4096 = 13 then 0x9F else 0xBF⟩
        (0x80 + c.toNat / 64 % 64) =
        (⟨1, c.toNat / 64, 0x80, 0xBF⟩, []) := by
      have hcode : c.toNat / 4096 * 64 + (0x80 + c.toNat / 64 % 64) % 64 =
          c.toNat / 64 := by omega
      rw [step_tail, hcode]
      · split_ifs <;> omega
      · split_ifs <;> omega
    refine ⟨?_, ?_, ?_, ?_, ?_⟩
    · rw [hfirst]
    · rw [hfirst]
      simp
    · rw [hfirst, hsecond]
    · rw [hfirst, hsecond]
      simp
    · rw [hfirst, hsecond]
      change step _ _ = _
      rw [step_last (by omega) (by omega), hofNat _ (by omega)]
  · have hfirst : start.step (0xF0 + c.toNat / 262144) =
        (⟨3, c.toNat / 262144, if c.toNat / 262144 = 0 then 0x90 else 0x80,
          if c.toNat / 262144 = 4 then 0x8F else 0xBF⟩, []) := by
      have hcode : (0xF0 + c.toNat / 262144) % 8 = c.toNat / 262144 := by
        omega
      have hlow : (0xF0 + c.toNat / 262144 = 0xF0) =
          (c.toNat / 262144 = 0) := by
        simp
      have hhigh : (0xF0 + c.toNat / 262144 = 0xF4) =
          (c.toNat / 262144 = 4) := by
        apply propext
        omega
      rw [hstart, first, if_neg (by omega), if_neg (by omega),
        if_neg (by omega), if_neg (by omega), if_pos (by omega), hcode]
      simp only [hlow, hhigh]
    have hsecond : step ⟨3, c.toNat / 262144,
        if c.toNat / 262144 = 0 then 0x90 else 0x80,
        if c.toNat / 262144 = 4 then 0x8F else 0xBF⟩
        (0x80 + c.toNat / 4096 % 64) =
        (⟨2, c.toNat / 4096, 0x80, 0xBF⟩, []) := by
      have hcode : c.toNat / 262144 * 64 +
          (0x80 + c.toNat / 4096 % 64) % 64 = c.toNat / 4096 := by omega
      rw [step_tail, hcode]
      · split_ifs <;> omega
      · split_ifs <;> omega
    have hthird : step ⟨2, c.toNat / 4096, 0x80, 0xBF⟩
        (0x80 + c.toNat / 64 % 64) =
        (⟨1, c.toNat / 64, 0x80, 0xBF⟩, []) := by
      have hcode : c.toNat / 4096 * 64 + (0x80 + c.toNat / 64 % 64) % 64 =
          c.toNat / 64 := by omega
      rw [step_tail, hcode]
      · omega
      · omega
    refine ⟨?_, ?_, ?_, ?_, ?_, ?_, ?_⟩
    · rw [hfirst]
    · rw [hfirst]
      simp
    · rw [hfirst, hsecond]
    · rw [hfirst, hsecond]
      simp
    · rw [hfirst, hsecond, hthird]
    · rw [hfirst, hsecond, hthird]
      simp
    · rw [hfirst, hsecond, hthird]
      change step _ _ = _
      rw [step_last (by omega) (by omega), hofNat _ (by omega)]

theorem feed_encodeText (text : List Char) :
    start.feed (encodeText text) = (start, text) := by
  induction text with
  | nil => rfl
  | cons c text ih =>
      have hencode : encodeText (c :: text) =
          encodeChar c ++ encodeText text := rfl
      rw [hencode, feed_append, (encodeChar_spells c).feed, ih]
      rfl

/-- Text cut at a byte: the whole characters in front of it, and perhaps a
part of the next one. -/
theorem feed_take_encodeText (text : List Char) (k : ℕ) :
    ∃ whole rest, text = whole ++ rest ∧
      (start.feed ((encodeText text).take k)).2 = whole ∧
      ((start.feed ((encodeText text).take k)).1.flush = [] ∨
        (start.feed ((encodeText text).take k)).1.flush = [replacement] ∧
          rest ≠ []) ∧
      (encodeText whole).length ≤ k := by
  induction text generalizing k with
  | nil =>
      refine ⟨[], [], rfl, ?_, Or.inl ?_, Nat.zero_le k⟩
      · simp [encodeText, Utf8Decoder.feed]
      · simp [encodeText, Utf8Decoder.feed, start, flush]
  | cons c text ih =>
      have hencode : ∀ t, encodeText (c :: t) =
          encodeChar c ++ encodeText t := fun _ => rfl
      rw [hencode]
      by_cases hk : k < (encodeChar c).length
      · rw [List.take_append_of_le_length hk.le]
        rcases (encodeChar_spells c).feed_take hk with ⟨hnone, hneeded⟩
        refine ⟨[], c :: text, rfl, hnone, ?_, Nat.zero_le k⟩
        by_cases hzero : k = 0
        · left
          rw [hzero, List.take_zero]
          rfl
        · right
          exact ⟨if_neg (hneeded hzero), by simp⟩
      · have hsplit : (encodeChar c ++ encodeText text).take k =
            encodeChar c ++
              (encodeText text).take (k - (encodeChar c).length) := by
          rw [List.take_append, List.take_of_length_le (by omega)]
        rcases ih (k - (encodeChar c).length) with
          ⟨whole, rest, htext, hout, hflush, hlen⟩
        refine ⟨c :: whole, rest, by rw [htext]; rfl, ?_, ?_, ?_⟩
        · rw [hsplit, feed_append, (encodeChar_spells c).feed, hout]
          rfl
        · rw [hsplit, feed_append, (encodeChar_spells c).feed]
          exact hflush
        · rw [hencode, List.length_append]
          omega

end Utf8Decoder
end QiForge
