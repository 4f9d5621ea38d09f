import Mathlib.Data.List.Basic
import Mathlib.Tactic

/-!
# Base64

Bytes as letters in groups of four, padded, and the forgiving reading back
that ignores white space and takes the padding or its absence.
-/

namespace QiForge

namespace Base64

def alphabet : List Char :=
  "ABCDEFGHIJKLMNOPQRSTUVWXYZabcdefghijklmnopqrstuvwxyz0123456789+/".toList

def letter (sextet : ℕ) : Char := alphabet.getD sextet '='

def sextet? (c : Char) : Option ℕ := alphabet.findIdx? (· == c)

/-- The sextets of the bytes, a last one filled up with zero bits. -/
def sextets : List UInt8 → List ℕ
  | a :: b :: c :: rest =>
      let bits := a.toNat * 65536 + b.toNat * 256 + c.toNat
      bits / 262144 :: bits / 4096 % 64 :: bits / 64 % 64 :: bits % 64 ::
        sextets rest
  | [a, b] =>
      let bits := a.toNat * 1024 + b.toNat * 4
      [bits / 4096, bits / 64 % 64, bits % 64]
  | [a] =>
      let bits := a.toNat * 16
      [bits / 64, bits % 64]
  | [] => []

/-- The padding after that many bytes. -/
def padding (size : ℕ) : List Char := List.replicate ((3 - size % 3) % 3) '='

def btoa (bytes : List UInt8) : List Char :=
  (sextets bytes).map letter ++ padding bytes.length

def octets : List ℕ → Option (List UInt8)
  | p :: q :: r :: s :: rest =>
      let bits := p * 262144 + q * 4096 + r * 64 + s
      (octets rest).map fun bytes =>
        UInt8.ofNat (bits / 65536) :: UInt8.ofNat (bits / 256) ::
          UInt8.ofNat bits :: bytes
  | [p, q, r] =>
      let bits := p * 4096 + q * 64 + r
      some [UInt8.ofNat (bits / 1024), UInt8.ofNat (bits / 4)]
  | [p, q] => some [UInt8.ofNat ((p * 64 + q) / 16)]
  | [_] => none
  | [] => some []

def isSpace (c : Char) : Bool :=
  c == '\t' || c == '\n' || c == '\x0c' || c == '\r' || c == ' '

/-- Without one or two equality signs at the end. -/
def dropPadding (text : List Char) : List Char :=
  match text.reverse with
  | '=' :: '=' :: rest => rest.reverse
  | '=' :: rest => rest.reverse
  | _ => text

def atob (text : List Char) : Option (List UInt8) :=
  let text := text.filter fun c => !isSpace c
  let text := if text.length % 4 = 0 then dropPadding text else text
  (text.mapM sextet?).bind octets

theorem sextets_lt {bytes : List UInt8} {s : ℕ} (h : s ∈ sextets bytes) :
    s < 64 := by
  induction bytes using sextets.induct with
  | case1 a b c rest ih =>
    have ha := a.toNat_lt
    have hb := b.toNat_lt
    have hc := c.toNat_lt
    simp only [sextets, List.mem_cons] at h
    rcases h with rfl | rfl | rfl | rfl | h
    · omega
    · omega
    · omega
    · omega
    · exact ih h
  | case2 a b =>
    have ha := a.toNat_lt
    simp only [sextets, List.mem_cons, List.not_mem_nil, or_false] at h
    have hb := b.toNat_lt
    omega
  | case3 a =>
    have ha := a.toNat_lt
    simp only [sextets, List.mem_cons, List.not_mem_nil, or_false] at h
    omega
  | case4 => simp [sextets] at h

theorem ofNat_of_mod {n : ℕ} {a : UInt8} (h : n % 256 = a.toNat) :
    UInt8.ofNat n = a := by
  rw [← UInt8.toNat_inj, UInt8.toNat_ofNat']
  exact h

theorem octets_sextets (bytes : List UInt8) :
    octets (sextets bytes) = some bytes := by
  induction bytes using sextets.induct with
  | case1 a b c rest ih =>
    have ha := a.toNat_lt
    have hb := b.toNat_lt
    have hc := c.toNat_lt
    simp only [sextets, octets, ih, Option.map_some, Option.some.injEq,
      List.cons.injEq, and_true]
    refine ⟨ofNat_of_mod ?_, ofNat_of_mod ?_, ofNat_of_mod ?_⟩ <;> omega
  | case2 a b =>
    have ha := a.toNat_lt
    have hb := b.toNat_lt
    simp only [sextets, octets, Option.some.injEq, List.cons.injEq, and_true]
    refine ⟨ofNat_of_mod ?_, ofNat_of_mod ?_⟩ <;> omega
  | case3 a =>
    have ha := a.toNat_lt
    simp only [sextets, octets, Option.some.injEq, List.cons.injEq, and_true]
    exact ofNat_of_mod (by omega)
  | case4 => rfl

theorem length_sextets (bytes : List UInt8) :
    ((sextets bytes).length + (3 - bytes.length % 3) % 3) % 4 = 0 := by
  induction bytes using sextets.induct with
  | case1 a b c rest ih =>
    simp only [sextets, List.length_cons]
    have hmod : (rest.length + 1 + 1 + 1) % 3 = rest.length % 3 := by omega
    rw [hmod]
    omega
  | case2 a b => simp [sextets]
  | case3 a => simp [sextets]
  | case4 => rfl

theorem letter_facts : ∀ s < 64, sextet? (letter s) = some s ∧
    isSpace (letter s) = false ∧ letter s ≠ '=' := by
  decide +kernel

theorem mapM_letters {l : List ℕ} (h : ∀ s ∈ l, s < 64) :
    (l.map letter).mapM sextet? = some l := by
  induction l with
  | nil => rfl
  | cons s l ih =>
    have hs := (letter_facts s (h s List.mem_cons_self)).1
    have hl := ih fun t ht => h t (List.mem_cons_of_mem _ ht)
    rw [List.map_cons, List.mapM_cons, hs, hl]
    rfl

theorem dropPadding_letters {l : List ℕ} (h : ∀ s ∈ l, s < 64)
    {count : ℕ} (hcount : count ≤ 2) :
    dropPadding (l.map letter ++ List.replicate count '=') = l.map letter := by
  have hlast : ∀ c rest, (l.map letter).reverse = c :: rest → c ≠ '=' := by
    intro c rest hrev
    have hmem : c ∈ l.map letter := by
      rw [← List.mem_reverse, hrev]
      exact List.mem_cons_self
    obtain ⟨s, hs, rfl⟩ := List.mem_map.mp hmem
    exact (letter_facts s (h s hs)).2.2
  unfold dropPadding
  rw [List.reverse_append, List.reverse_replicate]
  obtain rfl | rfl | rfl : count = 0 ∨ count = 1 ∨ count = 2 := by omega
  · simp only [List.replicate_zero, List.nil_append, List.append_nil]
    split
    · rename_i rest hrev
      exact absurd rfl (hlast _ _ hrev)
    · rename_i rest _ hrev
      exact absurd rfl (hlast _ _ hrev)
    · rfl
  · cases hrev : (l.map letter).reverse with
    | nil =>
      rw [List.reverse_eq_nil_iff.mp hrev]
      rfl
    | cons c rest =>
      have hc := hlast c rest hrev
      rw [← List.reverse_reverse (l.map letter), hrev]
      simp only [List.replicate_succ, List.replicate_zero, List.cons_append,
        List.nil_append]
      split
      · rename_i tail htail
        simp only [List.cons.injEq] at htail
        exact absurd htail.2.1 hc
      · rename_i tail _ htail
        simp only [List.cons.injEq, true_and] at htail
        rw [← htail]
      · rename_i hno
        exact absurd rfl (hno _)
  · simp only [List.replicate_succ, List.replicate_zero, List.cons_append,
      List.nil_append, List.reverse_reverse]

theorem filter_btoa (bytes : List UInt8) :
    (btoa bytes).filter (fun c => !isSpace c) = btoa bytes := by
  rw [List.filter_eq_self]
  intro c hc
  unfold btoa padding at hc
  rcases List.mem_append.mp hc with hc | hc
  · obtain ⟨s, hs, rfl⟩ := List.mem_map.mp hc
    rw [(letter_facts s (sextets_lt hs)).2.1]
    rfl
  · rw [List.eq_of_mem_replicate hc]
    rfl

/-- What was written is read back. -/
theorem atob_btoa (bytes : List UInt8) : atob (btoa bytes) = some bytes := by
  have hlength : (btoa bytes).length % 4 = 0 := by
    unfold btoa padding
    rw [List.length_append, List.length_map, List.length_replicate]
    exact length_sextets bytes
  unfold atob
  rw [filter_btoa]
  dsimp only
  rw [if_pos hlength]
  unfold btoa padding
  rw [dropPadding_letters (fun s hs => sextets_lt hs) (by omega),
    mapM_letters fun s hs => sextets_lt hs]
  exact octets_sextets bytes

theorem btoa_ne_nil {bytes : List UInt8} (h : bytes ≠ []) :
    btoa bytes ≠ [] := by
  intro hnil
  have hback := atob_btoa bytes
  rw [hnil] at hback
  exact h (Option.some.inj hback).symm

end Base64

end QiForge
