import QiForge.Utf8Stream

/-!
# Text and its UTF-8 bytes

`utf8` is the text encoder and `decodeUtf8` the text decoder of a whole byte
string, which drops a byte order mark.  A character is a leading byte and at
most three continuation bytes, so the bytes of a text say where its characters
start.
-/

namespace QiForge

/-- The byte order mark. -/
def bom : Char := '\uFEFF'

def utf8 (text : List Char) : List UInt8 := (encodeText text).map UInt8.ofNat

def stripBom : List Char → List Char
  | [] => []
  | c :: text => if c = bom then text else c :: text

def decodeUtf8 (bytes : List UInt8) : List Char :=
  let (d, out) := Utf8Decoder.start.feed (bytes.map UInt8.toNat)
  stripBom (out ++ d.flush)

/-- A byte `10xxxxxx`. -/
def isContinuation (b : UInt8) : Bool := b &&& 0xC0 == 0x80

/-! ## The bytes of one character -/

theorem mem_encodeChar_lt {c : Char} {b : ℕ} (hb : b ∈ encodeChar c) :
    b < 256 := by
  have hrange := Utf8Decoder.toNat_range c
  simp only [encodeChar] at hb
  split_ifs at hb <;> simp at hb <;> omega

theorem encodeChar_cons (c : Char) : ∃ lead tail,
      encodeChar c = lead :: tail ∧ (lead < 0x80 ∨ 0xC0 ≤ lead) ∧
        (∀ b ∈ tail, 0x80 ≤ b ∧ b < 0xC0) ∧ tail.length ≤ 3 := by
  have hrange := Utf8Decoder.toNat_range c
  rw [encodeChar]
  split_ifs with h1 h2 h3
  · exact ⟨_, _, rfl, Or.inl h1, by simp, by simp⟩
  · refine ⟨_, _, rfl, Or.inr (by omega), ?_, by simp⟩
    intro b hb
    simp at hb
    omega
  · refine ⟨_, _, rfl, Or.inr (by omega), ?_, by simp⟩
    intro b hb
    simp at hb
    omega
  · refine ⟨_, _, rfl, Or.inr (by omega), ?_, by simp⟩
    intro b hb
    simp at hb
    omega

/-- A leading byte below `0x80` is the whole character. -/
theorem encodeChar_of_low {c : Char} {lead : ℕ} {tail : List ℕ}
    (hencode : encodeChar c = lead :: tail) (hlow : lead < 0x80) :
    tail = [] := by
  have hrange := Utf8Decoder.toNat_range c
  rw [encodeChar] at hencode
  split_ifs at hencode <;> simp at hencode
  · exact hencode.2
  · omega
  · omega
  · omega

theorem isContinuation_ofNat : ∀ b < 256,
      isContinuation (UInt8.ofNat b) = decide (0x80 ≤ b ∧ b < 0xC0) := by
  decide +kernel

/-! ## Encoding and decoding -/

@[simp] theorem utf8_nil : utf8 [] = [] := rfl

theorem utf8_cons (c : Char) (text : List Char) :
    utf8 (c :: text) = utf8 [c] ++ utf8 text := by
  simp [utf8, encodeText]

theorem utf8_append (front back : List Char) :
    utf8 (front ++ back) = utf8 front ++ utf8 back := by
  simp [utf8, encodeText]

theorem map_toNat_utf8 (text : List Char) :
    (utf8 text).map UInt8.toNat = encodeText text := by
  rw [utf8, List.map_map]
  have hid : ∀ b ∈ encodeText text, (UInt8.toNat ∘ UInt8.ofNat) b = id b := by
    intro b hb
    rcases List.mem_flatMap.mp hb with ⟨c, -, hc⟩
    have hlt := mem_encodeChar_lt hc
    simp [Nat.mod_eq_of_lt hlt]
  rw [List.map_congr_left hid, List.map_id]

/-- The text of an encoded text, but for a leading byte order mark. -/
theorem decodeUtf8_utf8 (text : List Char) :
    decodeUtf8 (utf8 text) = stripBom text := by
  rw [decodeUtf8, map_toNat_utf8, Utf8Decoder.feed_encodeText]
  simp [Utf8Decoder.flush, Utf8Decoder.start]

theorem stripBom_eq_self {text : List Char} :
    stripBom text = text ↔ text.head? ≠ some bom := by
  cases text with
  | nil => simp [stripBom]
  | cons c text =>
      rw [stripBom, List.head?_cons, Ne, Option.some_inj]
      split_ifs with hbom
      · simp [hbom]
      · simp [hbom]

/-- Bytes that decode and encode back to themselves are those of a text that
does not start with the mark. -/
theorem utf8_decodeUtf8_iff {bytes : List UInt8} :
    utf8 (decodeUtf8 bytes) = bytes ↔
      ∃ text, bytes = utf8 text ∧ text.head? ≠ some bom := by
  constructor
  · intro hback
    refine ⟨decodeUtf8 bytes, hback.symm, ?_⟩
    rw [← stripBom_eq_self, ← decodeUtf8_utf8, hback]
  · rintro ⟨text, rfl, htext⟩
    rw [decodeUtf8_utf8, stripBom_eq_self.mpr htext]

end QiForge
