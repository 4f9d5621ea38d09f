import QiForge.Utf8Text

/-!
# The blob codec of the checkpointer

A value of a BLOB column is gzipped when that makes it smaller and stored as
it is otherwise; a reader tells the two apart by the first two bytes, and
reads every value as text.  Pending writes travel as the hexadecimal text of
the column.
-/

namespace QiForge
namespace BlobCodec

def MIN_COMPRESS_BYTES : ℕ := 256

def isGzip (bytes : List UInt8) : Bool :=
  bytes[0]? = some 0x1F && bytes[1]? = some 0x8B

/-- The gzip of the platform: what it compresses it restores, and what it
compresses to starts with the magic; `gunzip` may refuse its input. -/
structure Gzip where
  gzip : List UInt8 → List UInt8
  gunzip : List UInt8 → Option (List UInt8)
  gunzip_gzip : ∀ bytes, gunzip (gzip bytes) = some bytes
  isGzip_gzip : ∀ bytes, isGzip (gzip bytes) = true

inductive Data where
  | text (chars : List Char)
  | bytes (raw : List UInt8)

def Data.encode : Data → List UInt8
  | .text chars => utf8 chars
  | .bytes raw => raw

/-- A column value, TEXT or BLOB. -/
inductive Column where
  | text (chars : List Char)
  | blob (raw : List UInt8)

def compressForStorage (z : Gzip) (data : Data) : List UInt8 :=
  let bytes := data.encode
  if bytes.length < MIN_COMPRESS_BYTES then bytes
  else
    let compressed := z.gzip bytes
    if compressed.length < bytes.length then compressed else bytes

def readBlobText (z : Gzip) : Column → Option (List Char)
  | .text chars => some chars
  | .blob raw =>
      (if isGzip raw then z.gunzip raw else some raw).map decodeUtf8

/-! ## Hexadecimal text -/

def hexDigit (n : ℕ) : Char :=
  if n < 10 then Char.ofNat (48 + n) else Char.ofNat (55 + n)

def hexValue (c : Char) : ℕ :=
  if c.toNat < 58 then c.toNat - 48 else c.toNat - 55

/-- SQLite's `hex()`. -/
def hex (bytes : List UInt8) : List Char :=
  bytes.flatMap fun b => [hexDigit (b.toNat / 16), hexDigit (b.toNat % 16)]

/-- Of the text `hex` writes, two digits a byte. -/
def hexToBytes : List Char → List UInt8
  | high :: low :: rest =>
      UInt8.ofNat (16 * hexValue high + hexValue low) :: hexToBytes rest
  | _ => []

def hexColumnText (z : Gzip) : Option (List Char) → Option (List Char)
  | none => some []
  | some hex =>
      if hex = [] then some []
      else readBlobText z (.blob (hexToBytes hex))

theorem hexValue_hexDigit {n : ℕ} (hn : n < 16) :
    hexValue (hexDigit n) = n := by
  revert n
  decide

theorem hexToBytes_hex (bytes : List UInt8) :
    hexToBytes (hex bytes) = bytes := by
  induction bytes with
  | nil => rfl
  | cons b bytes ih =>
      have hlt := UInt8.toNat_lt b
      have hbyte : UInt8.ofNat (16 * (b.toNat / 16) + b.toNat % 16) = b := by
        rw [Nat.div_add_mod, UInt8.ofNat_toNat]
      rw [hex, List.flatMap_cons, List.cons_append, List.cons_append,
        List.nil_append, hexToBytes, hexValue_hexDigit (by omega),
        hexValue_hexDigit (by omega), hbyte]
      exact congrArg (b :: ·) ih

theorem hex_eq_nil {bytes : List UInt8} : hex bytes = [] ↔ bytes = [] := by
  cases bytes with
  | nil => simp [hex]
  | cons b bytes => simp [hex]

/-! ## What comes back -/

/-- The value `loadPendingWrites` hands to the serializer, as bytes, for a
value `putWrites` stored. -/
def pendingWriteBytes (z : Gzip) (bytes : List UInt8) : Option (List UInt8) :=
  (hexColumnText z (some (hex (compressForStorage z (.bytes bytes))))).map utf8

/-- A string is read back as it was, and the bytes of a pending write are
handed back as they were. -/
def RoundTrips (z : Gzip) : Data → Prop
  | .text chars =>
      readBlobText z (.blob (compressForStorage z (.text chars))) = some chars
  | .bytes raw => pendingWriteBytes z raw = some raw

/-- A text the decoder gives back whole: it does not start with a byte order
mark.  Bytes must be those of such a text. -/
def Plain : Data → Prop
  | .text chars => chars.head? ≠ some bom
  | .bytes raw => ∃ chars, raw = utf8 chars ∧ chars.head? ≠ some bom

variable {z : Gzip}

/-- The gzip magic is in no text: a continuation byte cannot follow a whole
character. -/
theorem isGzip_utf8 (text : List Char) : isGzip (utf8 text) = false := by
  rw [Bool.eq_false_iff]
  intro hgzip
  simp only [isGzip, Bool.and_eq_true, decide_eq_true_eq] at hgzip
  rcases hgzip with ⟨hfirst, hsecond⟩
  cases text with
  | nil => simp at hfirst
  | cons c text =>
      rcases encodeChar_cons c with ⟨lead, tail, hencode, -, -, -⟩
      have hc : utf8 [c] = UInt8.ofNat lead :: tail.map UInt8.ofNat := by
        simp [utf8, encodeText, hencode]
      have hlead : lead = 0x1F := by
        have hlt := mem_encodeChar_lt
          (hencode ▸ List.mem_cons_self : lead ∈ encodeChar c)
        rw [utf8_cons, hc] at hfirst
        simp at hfirst
        have hnat := congrArg UInt8.toNat hfirst
        simpa [Nat.mod_eq_of_lt hlt] using hnat
      have htail := encodeChar_of_low hencode (by omega)
      rw [utf8_cons, hc, htail] at hsecond
      cases text with
      | nil => simp at hsecond
      | cons c' text =>
          rcases encodeChar_cons c' with
            ⟨lead', tail', hencode', hstart, -, -⟩
          have hlt := mem_encodeChar_lt
            (hencode' ▸ List.mem_cons_self : lead' ∈ encodeChar c')
          have hc' : utf8 [c'] =
              UInt8.ofNat lead' :: tail'.map UInt8.ofNat := by
            simp [utf8, encodeText, hencode']
          rw [utf8_cons, hc'] at hsecond
          simp at hsecond
          have hnat := congrArg UInt8.toNat hsecond
          simp [Nat.mod_eq_of_lt hlt] at hnat
          omega

/-- A stored value is the bytes themselves or their gzip. -/
theorem compressForStorage_cases (z : Gzip) (data : Data) :
    compressForStorage z data = data.encode ∨
      compressForStorage z data = z.gzip data.encode := by
  by_cases hshort : data.encode.length < MIN_COMPRESS_BYTES
  · exact Or.inl (if_pos hshort)
  · rw [compressForStorage, if_neg hshort]
    by_cases hsmaller : (z.gzip data.encode).length < data.encode.length
    · exact Or.inr (if_pos hsmaller)
    · exact Or.inl (if_neg hsmaller)

/-- A value that does not look compressed is read as the text of its
bytes. -/
theorem readBlobText_compress (data : Data)
    (hplain : isGzip data.encode = false) :
    readBlobText z (.blob (compressForStorage z data)) =
      some (decodeUtf8 data.encode) := by
  rcases compressForStorage_cases z data with hraw | hgzip
  · rw [hraw, readBlobText, hplain]
    rfl
  · rw [hgzip, readBlobText, z.isGzip_gzip, if_pos rfl, z.gunzip_gzip]
    rfl

theorem hexColumnText_hex {raw : List UInt8} :
    hexColumnText z (some (hex raw)) = readBlobText z (.blob raw) := by
  rw [hexColumnText, hexToBytes_hex]
  split_ifs with hnil
  · rw [hex_eq_nil] at hnil
    subst hnil
    rfl
  · rfl

/-- Bytes that look compressed are no text, so whatever they decode to is
another value. -/
theorem pendingWriteBytes_of_isGzip {bytes : List UInt8}
    (hgzip : isGzip bytes = true) :
    pendingWriteBytes z bytes ≠ some bytes := by
  intro hback
  rcases Option.map_eq_some_iff.mp hback with ⟨text, -, htext⟩
  have hnot := isGzip_utf8 text
  rw [htext, hgzip] at hnot
  exact absurd hnot (by simp)

/-- Exactly the plain values come back. -/
theorem roundTrips_iff (z : Gzip) (data : Data) :
    RoundTrips z data ↔ Plain data := by
  cases data with
  | text chars =>
      have hread : readBlobText z
          (.blob (compressForStorage z (.text chars))) =
            some (decodeUtf8 (utf8 chars)) :=
        readBlobText_compress (.text chars) (isGzip_utf8 chars)
      rw [RoundTrips, hread, decodeUtf8_utf8, Option.some_inj,
        stripBom_eq_self, Plain]
  | bytes raw =>
      rw [RoundTrips, Plain]
      cases hgzip : isGzip raw with
      | true =>
          refine ⟨fun h => absurd h (pendingWriteBytes_of_isGzip hgzip), ?_⟩
          rintro ⟨chars, rfl, -⟩
          rw [isGzip_utf8] at hgzip
          exact absurd hgzip (by simp)
      | false =>
          have hread : readBlobText z
              (.blob (compressForStorage z (.bytes raw))) =
                some (decodeUtf8 raw) :=
            readBlobText_compress (.bytes raw) hgzip
          rw [pendingWriteBytes, hexColumnText_hex, hread,
            Option.map_some, Option.some_inj]
          exact utf8_decodeUtf8_iff

/-- Stores every value behind the magic. -/
def plainGzip : Gzip where
  gzip bytes := 0x1F :: 0x8B :: bytes
  gunzip raw := if isGzip raw then some (raw.drop 2) else none
  gunzip_gzip _ := rfl
  isGzip_gzip _ := rfl

/-- The byte `FF` comes back as a replacement character. -/
theorem not_roundTrips_byte : ¬RoundTrips plainGzip (.bytes [0xFF]) := by
  change pendingWriteBytes plainGzip [0xFF] ≠ some [0xFF]
  decide +kernel

end BlobCodec
end QiForge
