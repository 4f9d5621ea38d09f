import QiForge.Utf8Text

/-!
# Where the characters of a text start

A boundary of a text is a position between two of its characters, counted in
bytes.  Inside the text the boundaries are the bytes that continue no
character, at most three bytes lie between a position and the boundary before
it, and the bytes between two boundaries are those of whole characters.
-/

namespace QiForge
namespace Utf8Boundary

def Boundary (text : List Char) (n : ℕ) : Prop :=
  ∃ front back, text = front ++ back ∧ (utf8 front).length = n

/-! ## The bytes of one character -/

theorem utf8_singleton (c : Char) : ∃ lead tail,
      utf8 [c] = lead :: tail ∧ isContinuation lead = false ∧
        (∀ b ∈ tail, isContinuation b = true) ∧ tail.length ≤ 3 := by
  rcases encodeChar_cons c with ⟨lead, tail, hencode, hlead, htail, hlen⟩
  have hbytes : utf8 [c] = (lead :: tail).map UInt8.ofNat := by
    simp [utf8, encodeText, hencode]
  have hlt : lead < 256 := mem_encodeChar_lt (c := c) (by simp [hencode])
  refine ⟨UInt8.ofNat lead, tail.map UInt8.ofNat, hbytes, ?_, ?_, ?_⟩
  · rw [isContinuation_ofNat lead hlt]
    simp
    omega
  · intro b hb
    rcases List.mem_map.mp hb with ⟨n, hn, rfl⟩
    rw [isContinuation_ofNat n (by have := htail n hn; omega)]
    simpa using htail n hn
  · simpa using hlen

theorem length_utf8_singleton (c : Char) :
    0 < (utf8 [c]).length ∧ (utf8 [c]).length ≤ 4 := by
  rcases utf8_singleton c with ⟨lead, tail, hbytes, -, -, hlen⟩
  rw [hbytes, List.length_cons]
  omega

theorem length_utf8_cons (c : Char) (text : List Char) :
    (utf8 (c :: text)).length = (utf8 [c]).length + (utf8 text).length := by
  rw [utf8_cons, List.length_append]

/-! ## Boundaries -/

theorem boundary_zero (text : List Char) : Boundary text 0 :=
  ⟨[], text, rfl, rfl⟩

theorem boundary_length (text : List Char) :
    Boundary text (utf8 text).length :=
  ⟨text, [], (List.append_nil text).symm, rfl⟩

variable {text : List Char}

theorem Boundary.le {n : ℕ} (h : Boundary text n) :
    n ≤ (utf8 text).length := by
  rcases h with ⟨front, back, rfl, rfl⟩
  rw [utf8_append, List.length_append]
  omega

theorem boundary_cons {c : Char} {n : ℕ} : Boundary (c :: text) n ↔
      n = 0 ∨ ∃ m, Boundary text m ∧ n = (utf8 [c]).length + m := by
  constructor
  · rintro ⟨front, back, heq, rfl⟩
    cases front with
    | nil => exact Or.inl rfl
    | cons c' front =>
        simp only [List.cons_append, List.cons.injEq] at heq
        rcases heq with ⟨rfl, rfl⟩
        exact Or.inr ⟨_, ⟨front, back, rfl, rfl⟩, length_utf8_cons c front⟩
  · rintro (rfl | ⟨m, ⟨front, back, rfl, rfl⟩, rfl⟩)
    · exact boundary_zero _
    · exact ⟨c :: front, back, rfl, length_utf8_cons c front⟩

/-- Inside the text a boundary is a byte that continues no character. -/
theorem boundary_iff {n : ℕ} (hn : n < (utf8 text).length) :
    Boundary text n ↔ isContinuation ((utf8 text).getD n 0) = false := by
  induction text generalizing n with
  | nil => simp at hn
  | cons c text ih =>
      rcases utf8_singleton c with ⟨lead, tail, hbytes, hlead, htail, -⟩
      have hcons : utf8 (c :: text) = lead :: tail ++ utf8 text := by
        rw [utf8_cons, hbytes]
      rw [boundary_cons, hcons, hbytes]
      cases n with
      | zero => simp [hlead]
      | succ n =>
          by_cases hinside : n < tail.length
          · have hget : (lead :: tail ++ utf8 text).getD (n + 1) 0 =
                tail[n] := by
              simp [List.getD, List.getElem?_append_left hinside, hinside]
            rw [hget, htail _ (List.getElem_mem hinside)]
            simp only [List.length_cons]
            constructor
            · rintro (hzero | ⟨m, -, hm⟩)
              · omega
              · omega
            · simp
          · have hrest : n - tail.length < (utf8 text).length := by
              rw [hcons] at hn
              simp at hn
              omega
            have hget : (lead :: tail ++ utf8 text).getD (n + 1) 0 =
                (utf8 text).getD (n - tail.length) 0 := by
              simp [List.getD, List.getElem?_append_right
                (Nat.le_of_not_lt hinside)]
            rw [hget, ← ih hrest]
            simp only [List.length_cons]
            constructor
            · rintro (hzero | ⟨m, hm, heq⟩)
              · omega
              · obtain rfl : m = n - tail.length := by omega
                exact hm
            · intro hm
              exact Or.inr ⟨_, hm, by omega⟩

/-- The boundary at or before a position. -/
theorem exists_boundary_le {n : ℕ} (hn : n ≤ (utf8 text).length) :
    ∃ b ≤ n, n ≤ b + 3 ∧ Boundary text b ∧
      ∀ m, b < m → m ≤ n → ¬Boundary text m := by
  induction text generalizing n with
  | nil =>
      obtain rfl : n = 0 := by simpa using hn
      exact ⟨0, le_rfl, by omega, boundary_zero _, by omega⟩
  | cons c text ih =>
      have hchar := length_utf8_singleton c
      rw [length_utf8_cons] at hn
      by_cases hinside : n < (utf8 [c]).length
      · refine ⟨0, Nat.zero_le n, by omega, boundary_zero _, ?_⟩
        intro m hm hle hboundary
        rcases boundary_cons.mp hboundary with hzero | ⟨k, -, hk⟩
        · omega
        · omega
      · rcases ih (n := n - (utf8 [c]).length) (by omega) with
          ⟨b, hb, hnear, hboundary, hnone⟩
        refine ⟨(utf8 [c]).length + b, by omega, by omega,
          boundary_cons.mpr (Or.inr ⟨b, hboundary, rfl⟩), ?_⟩
        intro m hm hle hmid
        rcases boundary_cons.mp hmid with hzero | ⟨k, hk, heq⟩
        · omega
        · exact hnone k (by omega) (by omega) hk

/-- The boundary after one that is not the end. -/
theorem Boundary.exists_next {b : ℕ}
    (hb : Boundary text b) (hlt : b < (utf8 text).length) :
    ∃ next, b < next ∧ next ≤ b + 4 ∧ Boundary text next ∧
      ∀ m, b < m → m < next → ¬Boundary text m := by
  rcases hb with ⟨front, back, rfl, rfl⟩
  cases back with
  | nil => simp at hlt
  | cons c back =>
      have hchar := length_utf8_singleton c
      have hlen : (utf8 (front ++ [c])).length =
          (utf8 front).length + (utf8 [c]).length := by
        rw [utf8_append, List.length_append]
      refine ⟨(utf8 (front ++ [c])).length, by omega, by omega,
        ⟨front ++ [c], back, by simp, rfl⟩, ?_⟩
      rw [hlen]
      clear hlt hlen
      induction front with
      | nil =>
          intro m hm hlt hboundary
          rw [utf8_nil, List.length_nil] at hm hlt
          rcases boundary_cons.mp hboundary with hzero | ⟨k, -, hk⟩
          · omega
          · omega
      | cons c' front ih =>
          intro m hm hlt hboundary
          rw [length_utf8_cons] at hm hlt
          rcases boundary_cons.mp hboundary with hzero | ⟨k, hk, heq⟩
          · omega
          · exact ih k (by omega) (by omega) hk

/-- The bytes between two boundaries are those of the characters between
them. -/
theorem Boundary.split {a b : ℕ}
    (ha : Boundary text a) (hb : Boundary text b) (hle : a ≤ b) :
    ∃ front mid back, text = front ++ mid ++ back ∧ (utf8 front).length = a ∧
        (utf8 (front ++ mid)).length = b := by
  induction text generalizing a b with
  | nil =>
      have hzero : ∀ n, Boundary [] n → n = 0 := by
        intro n hn
        simpa using hn.le
      rw [hzero a ha, hzero b hb]
      exact ⟨[], [], [], rfl, rfl, rfl⟩
  | cons c text ih =>
      rcases boundary_cons.mp ha with rfl | ⟨a, hrestA, rfl⟩
      · rcases hb with ⟨mid, back, heq, rfl⟩
        exact ⟨[], mid, back, heq, rfl, rfl⟩
      · rcases boundary_cons.mp hb with rfl | ⟨b, hrestB, rfl⟩
        · have := length_utf8_singleton c
          omega
        · rcases ih hrestA hrestB (by omega) with
            ⟨front, mid, back, rfl, rfl, rfl⟩
          exact ⟨c :: front, mid, back, rfl, length_utf8_cons c front,
            length_utf8_cons c (front ++ mid)⟩

end Utf8Boundary
end QiForge
