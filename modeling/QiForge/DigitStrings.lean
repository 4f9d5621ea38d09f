import Mathlib.Data.List.DropRight
import Mathlib.Tactic

/-!
# Strings of decimal digits

Their value, padding on both sides, and what is left without the zeros at the
end.  A numeral has no zero in front, so that it is the numeral of its value.
-/

namespace QiForge

namespace DigitString

def value (digits : List Char) : ℕ := Nat.ofDigitChars 10 digits 0

def IsDigits (digits : List Char) : Prop := ∀ c ∈ digits, c.isDigit = true

/-- Without a zero in front. -/
structure IsNumeral (text : List Char) : Prop where
  digits : IsDigits text
  leading : text = ['0'] ∨ ∃ c rest, text = c :: rest ∧ c ≠ '0'

def padStart (size : ℕ) (digits : List Char) : List Char :=
  List.replicate (size - digits.length) '0' ++ digits

def padEnd (size : ℕ) (digits : List Char) : List Char :=
  digits ++ List.replicate (size - digits.length) '0'

def trimEnd (digits : List Char) : List Char :=
  digits.rdropWhile fun c => decide (c = '0')

theorem value_append (left right : List Char) : value (left ++ right) =
      value left * 10 ^ right.length + value right := by
  unfold value
  rw [Nat.ofDigitChars_append, Nat.ofDigitChars_eq_ofDigitChars_zero,
    Nat.mul_comm]

theorem value_zeros (count : ℕ) : value (List.replicate count '0') = 0 := by
  unfold value
  rw [Nat.ofDigitChars_replicate_zero, Nat.mul_zero]

theorem value_numeral (n : ℕ) : value (Nat.toDigits 10 n) = n :=
  Nat.ofDigitChars_ten_toDigits

theorem IsDigits.append {left right : List Char} (hleft : IsDigits left)
    (hright : IsDigits right) : IsDigits (left ++ right) := by
  intro c hc
  rcases List.mem_append.mp hc with h | h
  · exact hleft c h
  · exact hright c h

theorem IsDigits.zeros (count : ℕ) : IsDigits (List.replicate count '0') := by
  intro c hc
  rw [List.eq_of_mem_replicate hc]
  rfl

theorem IsDigits.numeral (n : ℕ) : IsDigits (Nat.toDigits 10 n) :=
  fun _ hc => Nat.isDigit_of_mem_toDigits (by decide) (by decide) hc

theorem digitChar_of_isDigit {c : Char} (h : c.isDigit = true) :
    c.toNat - 48 < 10 ∧ Nat.digitChar (c.toNat - 48) = c := by
  have hrange : 48 ≤ c.toNat ∧ c.toNat ≤ 57 := Char.isDigit_iff_toNat.mp h
  have hlt : c.toNat - 48 < 10 := by omega
  constructor
  · exact hlt
  · apply Char.toNat_inj.mp
    rw [Nat.toNat_digitChar_of_lt_ten hlt]
    omega

theorem value_cons (c : Char) (rest : List Char) :
    value (c :: rest) = (c.toNat - 48) * 10 ^ rest.length + value rest := by
  have happend := value_append [c] rest
  rw [List.singleton_append] at happend
  rw [happend]
  congr 2
  simp [value, Nat.ofDigitChars_cons]

variable {digits : List Char}

theorem value_lt (h : IsDigits digits) :
    value digits < 10 ^ digits.length := by
  induction digits with
  | nil => decide
  | cons c rest ih =>
      have hrest := ih fun d hd => h d (List.mem_cons_of_mem c hd)
      have hdigit := (digitChar_of_isDigit (h c List.mem_cons_self)).1
      rw [value_cons, List.length_cons, pow_succ]
      have hle : (c.toNat - 48) * 10 ^ rest.length ≤
          9 * 10 ^ rest.length := Nat.mul_le_mul_right _ (by omega)
      omega

/-- Digits of one length are determined by their value. -/
theorem eq_of_value {left right : List Char} (hleft : IsDigits left)
    (hright : IsDigits right) (hlength : left.length = right.length)
    (hvalue : value left = value right) : left = right := by
  induction left generalizing right with
  | nil => exact (List.length_eq_zero_iff.mp hlength.symm).symm
  | cons c rest ih =>
      cases right with
      | nil => cases hlength
      | cons d rest' =>
          have hlen : rest.length = rest'.length := Nat.succ.inj hlength
          have htail : IsDigits rest :=
            fun x hx => hleft x (List.mem_cons_of_mem c hx)
          have htail' : IsDigits rest' :=
            fun x hx => hright x (List.mem_cons_of_mem d hx)
          have hlt := value_lt htail
          have hlt' := value_lt htail'
          rw [value_cons, value_cons, ← hlen] at hvalue
          rw [← hlen] at hlt'
          have hpos : 0 < 10 ^ rest.length := Nat.pow_pos (by decide)
          have hhead : c.toNat - 48 = d.toNat - 48 := by
            have hdiv := congrArg (· / 10 ^ rest.length) hvalue
            simpa [Nat.mul_add_div hpos, Nat.add_div_of_dvd_right,
              Nat.div_eq_of_lt hlt, Nat.div_eq_of_lt hlt', Nat.mul_comm,
              hpos] using hdiv
          have hc := (digitChar_of_isDigit (hleft c List.mem_cons_self)).2
          have hd := (digitChar_of_isDigit (hright d List.mem_cons_self)).2
          have heq : c = d := by rw [← hc, ← hd, hhead]
          rw [heq] at hvalue ⊢
          rw [ih htail htail' hlen (Nat.add_left_cancel hvalue)]

theorem toNat_pos {c : Char} (h : c.isDigit = true) (hne : c ≠ '0') :
    0 < c.toNat - 48 := by
  rcases digitChar_of_isDigit h with ⟨-, hchar⟩
  by_contra hzero
  rw [Nat.eq_zero_of_not_pos hzero] at hchar
  exact hne hchar.symm

/-- A numeral is the numeral of its value. -/
theorem IsNumeral.toDigits_value {text : List Char} (h : IsNumeral text) :
    Nat.toDigits 10 (value text) = text := by
  rcases h.leading with rfl | ⟨c, rest, rfl, hne⟩
  · decide
  · apply eq_of_value (IsDigits.numeral _) h.digits _ (value_numeral _)
    have hlt := value_lt h.digits
    have hupper := (Nat.length_toDigits_le_iff (b := 10) (by decide)
      (Nat.succ_pos rest.length)).mpr hlt
    have hpos := toNat_pos (h.digits c List.mem_cons_self) hne
    have hlower : 10 ^ rest.length ≤ value (c :: rest) := by
      rw [value_cons]
      have hle := Nat.mul_le_mul_right (10 ^ rest.length) hpos
      omega
    rw [List.length_cons]
    cases rest with
    | nil =>
        have hone := Nat.length_toDigits_pos (b := 10) (n := value [c])
        simp only [List.length_nil] at hupper ⊢
        omega
    | cons d rest =>
        have hnot : ¬ (Nat.toDigits 10 (value (c :: d :: rest))).length ≤
            (d :: rest).length := by
          have hiff := Nat.length_toDigits_le_iff (b := 10)
            (n := value (c :: d :: rest)) (k := (d :: rest).length)
            (by decide) (Nat.succ_pos _)
          rw [hiff]
          omega
        simp only [List.length_cons] at hupper hnot ⊢
        omega

theorem IsNumeral.toDigits (n : ℕ) : IsNumeral (Nat.toDigits 10 n) := by
  constructor
  · exact IsDigits.numeral n
  · cases hdigits : Nat.toDigits 10 n with
    | nil => exact absurd hdigits Nat.toDigits_ne_nil
    | cons c rest =>
        by_cases hc : c = '0'
        · subst hc
          have hvalue := value_numeral n
          rw [hdigits, value_cons] at hvalue
          cases rest with
          | nil => exact .inl rfl
          | cons d rest =>
              have hdigs : IsDigits (d :: rest) := fun x hx =>
                IsDigits.numeral n x (by
                  rw [hdigits]
                  exact List.mem_cons_of_mem _ hx)
              have hlt := value_lt hdigs
              have hn : n < 10 ^ (d :: rest).length := by
                rw [← hvalue]
                simpa using hlt
              have hlen := (Nat.length_toDigits_le_iff (b := 10) (by decide)
                (Nat.succ_pos rest.length)).mpr hn
              rw [hdigits] at hlen
              simp at hlen
        · exact .inr ⟨c, rest, rfl, hc⟩

/-! ## Padding and trimming -/

theorem value_padStart (size : ℕ) (digits : List Char) :
    value (padStart size digits) = value digits := by
  unfold padStart
  rw [value_append, value_zeros, Nat.zero_mul, Nat.zero_add]

theorem length_padStart {size : ℕ}
    (h : digits.length ≤ size) : (padStart size digits).length = size := by
  simp only [padStart, List.length_append, List.length_replicate]
  omega

theorem IsDigits.padStart (h : IsDigits digits)
    (size : ℕ) : IsDigits (padStart size digits) :=
  (IsDigits.zeros _).append h

theorem value_padEnd (size : ℕ) (digits : List Char) :
    value (padEnd size digits) =
      value digits * 10 ^ (size - digits.length) := by
  unfold padEnd
  rw [value_append, value_zeros, List.length_replicate, Nat.add_zero]

theorem length_padEnd {size : ℕ}
    (h : digits.length ≤ size) : (padEnd size digits).length = size := by
  simp only [padEnd, List.length_append, List.length_replicate]
  omega

theorem IsDigits.padEnd (h : IsDigits digits)
    (size : ℕ) : IsDigits (padEnd size digits) :=
  h.append (IsDigits.zeros _)

/-- Only zeros are trimmed. -/
theorem trimEnd_zeros (digits : List Char) :
    ∃ count, digits = trimEnd digits ++ List.replicate count '0' := by
  refine ⟨(digits.rtakeWhile fun c => decide (c = '0')).length, ?_⟩
  have hsplit := List.rdropWhile_append_rtakeWhile
    (p := fun c => decide (c = '0')) (l := digits)
  have hzeros : digits.rtakeWhile (fun c => decide (c = '0')) =
      List.replicate (digits.rtakeWhile fun c =>
        decide (c = '0')).length '0' := by
    rw [List.eq_replicate_iff]
    refine ⟨rfl, fun c hc => ?_⟩
    have hmem := List.mem_rtakeWhile_imp hc
    simpa using hmem
  rw [← hzeros]
  exact hsplit.symm

theorem trimEnd_append_zeros (digits : List Char) (count : ℕ) :
    trimEnd (digits ++ List.replicate count '0') = trimEnd digits := by
  induction count with
  | zero => simp
  | succ count ih =>
      rw [List.replicate_succ', ← List.append_assoc]
      unfold trimEnd at ih ⊢
      rw [List.rdropWhile_concat_pos _ _ _ (by decide), ih]

theorem trimEnd_eq_self :
    trimEnd digits = digits ↔ digits.getLast? ≠ some '0' := by
  unfold trimEnd
  rw [List.rdropWhile_eq_self_iff]
  rcases List.eq_nil_or_concat digits with rfl | ⟨front, last, rfl⟩
  · simp
  · simp

theorem trimEnd_last (digits : List Char) :
    (trimEnd digits).getLast? ≠ some '0' := by
  rw [← trimEnd_eq_self]
  unfold trimEnd
  exact List.rdropWhile_idempotent _ _

theorem IsDigits.trimEnd (h : IsDigits digits) :
    IsDigits (trimEnd digits) := by
  intro c hc
  rcases trimEnd_zeros digits with ⟨count, hsplit⟩
  apply h c
  rw [hsplit]
  exact List.mem_append_left _ hc

/-- What does not end in a zero is not a multiple of ten. -/
theorem value_last (h : IsDigits digits)
    (hne : digits ≠ []) (hlast : digits.getLast? ≠ some '0') :
    value digits % 10 ≠ 0 := by
  rcases List.eq_nil_or_concat digits with rfl | ⟨front, last, rfl⟩
  · exact absurd rfl hne
  · have hdigit := h last (by simp)
    have hnot : last ≠ '0' := by simpa using hlast
    have hpos := toNat_pos hdigit hnot
    have hlt := (digitChar_of_isDigit hdigit).1
    have hone : value [last] = last.toNat - 48 := by
      rw [value_cons]
      simp [value]
    rw [List.concat_eq_append, value_append, hone, List.length_singleton,
      pow_one]
    omega

end DigitString

end QiForge
