import Mathlib.Tactic

/-!
# Nonnegative integers as doubles

A number is an integer or `none` for Infinity.  Sums and products are rounded
to the nearest double, ties to even, and become Infinity past the largest one.
Up to `2 ^ 53` every integer is a double, and comparing with a safe integer
gives the answer exact arithmetic gives.
-/

namespace QiForge

abbrev Number := Option ℕ

namespace Number

def maxSafeInteger : ℕ := 2 ^ 53 - 1

/-- Round to 53 significant bits. -/
def roundEven (n : ℕ) : ℕ :=
  if n < 2 ^ 53 then n
  else
    let ulp := 2 ^ (n.log2 - 52)
    let q := n / ulp
    let r := n % ulp
    if 2 * r < ulp ∨ (2 * r = ulp ∧ q % 2 = 0) then q * ulp
    else (q + 1) * ulp

def firstInfinite : ℕ := 2 ^ 1024

def ofInt (n : ℕ) : Number :=
  if roundEven n < firstInfinite then some (roundEven n) else none

def add : Number → Number → Number
  | some a, some b => ofInt (a + b)
  | _, _ => none

/-- The product of positive numbers. -/
def mul : Number → Number → Number
  | some a, some b => ofInt (a * b)
  | _, _ => none

/-- `number > limit`. -/
def exceeds (number : Number) (limit : ℕ) : Bool :=
  match number with
  | none => true
  | some n => limit < n

theorem le_roundEven {n : ℕ} (hn : 2 ^ 53 ≤ n) : 2 ^ 53 ≤ roundEven n := by
  have hne : n ≠ 0 := by
    rintro rfl
    exact absurd hn (by decide)
  have hlog : 53 ≤ n.log2 := (Nat.le_log2 hne).mpr hn
  have hself : 2 ^ n.log2 ≤ n := Nat.log2_self_le hne
  have hsplit : 2 ^ n.log2 = 2 ^ 52 * 2 ^ (n.log2 - 52) := by
    rw [← Nat.pow_add]
    congr 1
    omega
  have hpos : 0 < 2 ^ (n.log2 - 52) := Nat.two_pow_pos _
  have hq : 2 ^ 52 ≤ n / 2 ^ (n.log2 - 52) := by
    rw [Nat.le_div_iff_mul_le hpos, ← hsplit]
    exact hself
  have hulp : 2 ^ 1 ≤ 2 ^ (n.log2 - 52) :=
    Nat.pow_le_pow_right (by decide) (by omega)
  have hprod : 2 ^ 52 * 2 ^ 1 ≤ n / 2 ^ (n.log2 - 52) * 2 ^ (n.log2 - 52) :=
    Nat.mul_le_mul hq hulp
  rw [roundEven, if_neg (Nat.not_lt.mpr hn)]
  dsimp only
  split_ifs
  · exact hprod
  · exact le_trans hprod (Nat.mul_le_mul_right _ (Nat.le_succ _))

theorem roundEven_of_lt {n : ℕ} (hn : n < 2 ^ 53) : roundEven n = n :=
  if_pos hn

theorem ofInt_of_le {n : ℕ} (hn : n ≤ 2 ^ 53) : ofInt n = some n := by
  have hround : roundEven n = n := by
    rcases Nat.lt_or_eq_of_le hn with hlt | rfl
    · exact roundEven_of_lt hlt
    · decide +kernel
  have hbig : 2 ^ 53 < firstInfinite := by decide +kernel
  rw [ofInt, hround, if_pos (lt_of_le_of_lt hn hbig)]

theorem add_of_le {a b : ℕ} (h : a + b ≤ 2 ^ 53) :
    add (some a) (some b) = some (a + b) :=
  ofInt_of_le h

@[simp] theorem add_none (a : Number) : add a none = none := by
  cases a <;> rfl

@[simp] theorem mul_none (a : Number) : mul a none = none := by
  cases a <;> rfl

/-- Rounding never crosses a safe limit. -/
theorem exceeds_ofInt {limit : ℕ} (hlimit : limit ≤ maxSafeInteger) (n : ℕ) :
    exceeds (ofInt n) limit = decide (limit < n) := by
  by_cases hn : n < 2 ^ 53
  · rw [ofInt_of_le hn.le]
    rfl
  · have hround := le_roundEven (Nat.not_lt.mp hn)
    have hsafe : limit < 2 ^ 53 := lt_of_le_of_lt hlimit (by decide)
    have hlt : limit < n := by omega
    rw [ofInt]
    split_ifs
    · have hmore : limit < roundEven n := by omega
      simp [exceeds, hlt, hmore]
    · simp [exceeds, hlt]

theorem exceeds_add {limit a b : ℕ} (hlimit : limit ≤ maxSafeInteger) :
    exceeds (add (some a) (some b)) limit = decide (limit < a + b) :=
  exceeds_ofInt hlimit (a + b)

theorem exceeds_mul {limit a b : ℕ} (hlimit : limit ≤ maxSafeInteger) :
    exceeds (mul (some a) (some b)) limit = decide (limit < a * b) :=
  exceeds_ofInt hlimit (a * b)

/-- A number past the limit stays past it in larger sums and products. -/
theorem exceeds_mul_add {limit factor : ℕ} {number : Number}
    (hlimit : limit ≤ maxSafeInteger) (hfactor : 1 ≤ factor)
    (hexceeds : exceeds number limit = true) :
    exceeds (mul (some factor) (add (some 1) number)) limit = true := by
  cases number with
  | none => rfl
  | some n =>
      have hn : limit < n := of_decide_eq_true hexceeds
      have hsum := exceeds_add (a := 1) (b := n) hlimit
      cases hadd : add (some 1) (some n) with
      | none => rfl
      | some m =>
          rw [hadd] at hsum
          have hm : limit < m := by
            have hmore : decide (limit < 1 + n) = true :=
              decide_eq_true (by omega)
            rw [hmore] at hsum
            exact of_decide_eq_true hsum
          rw [exceeds_mul hlimit]
          exact decide_eq_true
            (lt_of_lt_of_le hm (Nat.le_mul_of_pos_left _ hfactor))

end Number
end QiForge
