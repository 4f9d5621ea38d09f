import QiForge.HistoryIndexer

/-!
# The tail reader

Whatever pages are read and whenever the cursor is lost, the chunk being
collected is the next range of the transcript, within the limits of an upload
unless it is one message.
-/

namespace QiForge

/-- The entries are those of the transcript from a position on. -/
def Slice (transcript : List HistoryMessage) : ℕ → List HistoryEntry → Prop
  | _, [] => True
  | position, entry :: entries =>
      transcript[position]? = some entry.message ∧
        entry.cursor = position + 1 ∧ Slice transcript (position + 1) entries

namespace Slice

variable {transcript more : List HistoryMessage} {position : ℕ}
  {entries later : List HistoryEntry}

theorem entriesFrom (transcript : List HistoryMessage) (position limit : ℕ) :
    Slice transcript position (entriesFrom transcript position limit) := by
  induction limit generalizing position with
  | zero => trivial
  | succ limit ih =>
      unfold QiForge.entriesFrom
      cases hmessage : transcript[position]? with
      | none => trivial
      | some message => exact ⟨hmessage, rfl, ih (position + 1)⟩

theorem append : Slice transcript position (entries ++ later) ↔
    Slice transcript position entries ∧
      Slice transcript (position + entries.length) later := by
  induction entries generalizing position with
  | nil => simp [Slice]
  | cons entry entries ih =>
      rw [List.cons_append, Slice, Slice, ih, List.length_cons]
      have hposition : position + 1 + entries.length =
          position + (entries.length + 1) := by omega
      rw [hposition, and_assoc, and_assoc]

theorem grow (h : Slice transcript position entries) :
    Slice (transcript ++ more) position entries := by
  induction entries generalizing position with
  | nil => trivial
  | cons entry entries ih =>
      rcases h with ⟨hmessage, hcursor, hrest⟩
      refine ⟨?_, hcursor, ih hrest⟩
      rcases List.getElem?_eq_some_iff.mp hmessage with ⟨hlt, -⟩
      rw [List.getElem?_append_left hlt]
      exact hmessage

theorem length_le (h : Slice transcript position entries)
    (hposition : position ≤ transcript.length) :
    position + entries.length ≤ transcript.length := by
  induction entries generalizing position with
  | nil => simpa using hposition
  | cons entry entries ih =>
      rcases h with ⟨hmessage, -, hrest⟩
      rcases List.getElem?_eq_some_iff.mp hmessage with ⟨hlt, -⟩
      have hle := ih hrest hlt
      rw [List.length_cons]
      omega

theorem messages (h : Slice transcript position entries) :
    entries.map HistoryEntry.message =
      (transcript.drop position).take entries.length := by
  induction entries generalizing position with
  | nil => simp
  | cons entry entries ih =>
      rcases h with ⟨hmessage, -, hrest⟩
      rcases List.getElem?_eq_some_iff.mp hmessage with ⟨hlt, hentry⟩
      rw [List.map_cons, ih hrest, List.length_cons,
        List.drop_eq_getElem_cons hlt, List.take_succ_cons, hentry]

theorem last_cursor (h : Slice transcript position entries)
    {entry : HistoryEntry} (hlast : entries.getLast? = some entry) :
    entry.cursor = position + entries.length := by
  rcases List.getLast?_eq_some_iff.mp hlast with ⟨front, rfl⟩
  rcases (append.mp h).2 with ⟨-, hcursor, -⟩
  rw [hcursor, List.length_append, List.length_singleton]
  omega

end Slice

/-- UTF-8 bytes of the contents. -/
def contentBytes (entries : List HistoryEntry) : ℕ :=
  (entries.map fun entry => entry.message.content.utf8ByteSize).sum

/-- Within both limits of an upload, or at most one message. -/
def WithinChunk (cfg : IndexerConfig) (entries : List HistoryEntry) : Prop :=
  entries.length ≤ 1 ∨ (entries.length ≤ cfg.chunkMaxMessages ∧
      contentBytes entries ≤ cfg.chunkMaxBytes)

namespace TailReader

variable {cfg : IndexerConfig} {transcript more : List HistoryMessage}
  {r r' : TailReader}

/-- The chunk is the range after what was handed out; the position of the
cursor, and what is left to skip from there, reach the end of the chunk. -/
structure Collects (cfg : IndexerConfig) (transcript : List HistoryMessage)
    (r : TailReader) : Prop where
  slice : Slice transcript r.consumed r.chunk
  position : r.cursor.getD 0 + r.skip = r.consumed + r.chunk.length
  skipping : 0 < r.skip → r.chunk = []
  bytes : r.bytes = contentBytes r.chunk
  within : WithinChunk cfg r.chunk

theorem Collects.grow (h : r.Collects cfg transcript) :
    r.Collects cfg (transcript ++ more) :=
  { h with slice := h.slice.grow }

theorem start_collects (transcript : List HistoryMessage)
    {known : Option (ℕ × ℕ)} (watermark : ℕ)
    (hknown : ∀ k ∈ known, k.2 = k.1) :
    (start known watermark).Collects cfg transcript := by
  have hposition : (start known watermark).cursor.getD 0 +
      (start known watermark).skip = watermark := by
    unfold start
    cases hfilter : known.filter fun k => k.1 == watermark with
    | none => simp
    | some k =>
        rcases Option.filter_eq_some_iff.mp hfilter with ⟨hmem, hcount⟩
        have hcursor := hknown k hmem
        have hcount : k.1 = watermark := by simpa using hcount
        simp [hcursor, hcount]
  exact ⟨trivial, hposition, fun _ => rfl, rfl, .inl (Nat.zero_le 1)⟩

/-- A chunk handed out, and the reader after it. -/
structure HandedOut (cfg : IndexerConfig) (transcript : List HistoryMessage)
    (before : ℕ) (chunk : List HistoryEntry) (r : TailReader) : Prop where
  collects : r.Collects cfg transcript
  consumed : r.consumed = before + chunk.length
  empty : r.chunk = []
  slice : Slice transcript before chunk
  within : WithinChunk cfg chunk

theorem Collects.handOut (h : r.Collects cfg transcript) :
    HandedOut cfg transcript r.consumed r.handOut.1 r.handOut.2 := by
  refine ⟨⟨trivial, ?_, fun _ => rfl, rfl, .inl (Nat.zero_le 1)⟩, rfl, rfl,
    h.slice, h.within⟩
  exact h.position

theorem HandedOut.exhaust {before : ℕ} {chunk : List HistoryEntry}
    (h : HandedOut cfg transcript before chunk r) :
    HandedOut cfg transcript before chunk { r with exhausted := true } :=
  { h with collects := { h.collects with } }

theorem contentBytes_append (entries : List HistoryEntry)
    (entry : HistoryEntry) :
    contentBytes (entries ++ [entry]) =
      contentBytes entries + entry.message.content.utf8ByteSize := by
  simp [contentBytes]

/-- What reading leaves: the reader goes on collecting, or the chunk is handed
out. -/
def Reads (cfg : IndexerConfig) (transcript : List HistoryMessage)
    (before : ℕ) : Option (List HistoryEntry) × TailReader → Prop
  | (none, r) => r.Collects cfg transcript ∧ r.consumed = before
  | (some chunk, r) => HandedOut cfg transcript before chunk r

/-- Entries that follow the cursor. -/
theorem takeEntries_spec {entries : List HistoryEntry}
    (h : r.Collects cfg transcript)
    (hentries : Slice transcript (r.cursor.getD 0) entries) :
    Reads cfg transcript r.consumed (takeEntries cfg r entries) := by
  induction entries generalizing r with
  | nil => exact ⟨h, rfl⟩
  | cons entry rest ih =>
      rcases hentries with ⟨hmessage, hcursor, hrest⟩
      have hposition := h.position
      unfold takeEntries
      by_cases hskip : 0 < r.skip
      · rw [if_pos hskip]
        have hempty := h.skipping hskip
        apply ih (r := { r with
          skip := r.skip - 1, cursor := some entry.cursor })
        · refine ⟨h.slice, ?_, fun _ => hempty, h.bytes, h.within⟩
          dsimp only [Option.getD_some]
          omega
        · dsimp only [Option.getD_some]
          rw [hcursor]
          exact hrest
      · rw [if_neg hskip]
        split
        · exact h.handOut
        · next hfits =>
            have hsingle : Slice transcript
                (r.consumed + r.chunk.length) [entry] := by
              have hat : r.cursor.getD 0 = r.consumed + r.chunk.length := by
                omega
              rw [← hat]
              exact ⟨hmessage, hcursor, trivial⟩
            apply ih (r := { r with
              chunk := r.chunk ++ [entry]
              bytes := r.bytes + entry.message.content.utf8ByteSize
              cursor := some entry.cursor })
            · refine ⟨Slice.append.mpr ⟨h.slice, hsingle⟩, ?_,
                fun hpos => absurd hpos hskip, ?_, ?_⟩
              · dsimp only [Option.getD_some]
                rw [List.length_append, List.length_singleton]
                omega
              · rw [contentBytes_append, h.bytes]
              · dsimp only
                by_cases hchunk : r.chunk = []
                · left
                  simp [hchunk]
                · right
                  have hroom : ¬ (cfg.chunkMaxMessages ≤ r.chunk.length ∨
                      cfg.chunkMaxBytes < r.bytes +
                        entry.message.content.utf8ByteSize) :=
                    fun hfull => hfits ⟨hchunk, hfull⟩
                  rw [not_or, not_le, not_lt] at hroom
                  rw [contentBytes_append, ← h.bytes, List.length_append,
                    List.length_singleton]
                  exact ⟨hroom.1, hroom.2⟩
            · dsimp only [Option.getD_some]
              rw [hcursor]
              exact hrest

/-- A page of what follows the cursor, or the loss of the cursor. -/
theorem readPage_spec {page : Option HistoryPage}
    (h : r.Collects cfg transcript)
    (hpage : ∀ p ∈ page, Slice transcript (r.cursor.getD 0) p.entries) :
    Reads cfg transcript r.consumed (r.readPage cfg page) := by
  cases page with
  | none =>
      unfold readPage
      dsimp only
      split
      · exact h.handOut.exhaust
      · refine ⟨⟨trivial, ?_, fun _ => rfl, rfl, .inl (Nat.zero_le 1)⟩, rfl⟩
        simp
  | some page =>
      have hspec := takeEntries_spec h (hpage page rfl)
      unfold readPage
      dsimp only
      rcases hread : takeEntries cfg r page.entries with ⟨found, r'⟩
      rw [hread] at hspec
      cases found with
      | some chunk => exact hspec
      | none =>
          dsimp only at hspec ⊢
          split
          · rw [← hspec.2]
            exact hspec.1.handOut.exhaust
          · exact hspec

end TailReader

end QiForge
