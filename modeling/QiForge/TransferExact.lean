import QiForge.TransferAmounts

/-!
# Exact amounts

An amount in display units stands for a rational number.  The base units are
that number times a power of ten, and the display text of base units is the
only plain decimal of that number without superfluous zeros.  A whole
transaction is converted message by message, and what the owner's sends and
stakes take of a listed token stays within its balance.
-/

namespace QiForge

namespace TransferAmounts

open DigitString

/-- The text is a plain decimal, of this rational value. -/
def PlainDecimal (text : List Char) (q : ℚ) : Prop :=
  ∃ whole fraction, IsNumeral whole ∧ IsDigits fraction ∧
    (fraction = [] ∧ text = whole ∨
      fraction ≠ [] ∧ text = whole ++ '.' :: fraction) ∧
    q = value whole + value fraction / 10 ^ fraction.length

/-- A zero in front of another digit, or one at the end after the point. -/
def SuperfluousZero (text : List Char) : Prop :=
  (∃ c rest, c.isDigit = true ∧ text = '0' :: c :: rest) ∨
    ('.' ∈ text ∧ text.getLast? = some '0')

theorem isNumeral_iff {whole : List Char} (h : IsDigits whole) :
    IsNumeral whole ↔
      ¬ (whole = [] ∨ (whole.head? = some '0' ∧ whole ≠ ['0'])) := by
  constructor
  · rintro ⟨-, rfl | ⟨c, rest, rfl, hc⟩⟩
    · simp
    · simp [hc]
  · intro hnot
    rw [not_or] at hnot
    refine ⟨h, ?_⟩
    cases whole with
    | nil => exact absurd rfl hnot.1
    | cons c rest =>
        by_cases hc : c = '0'
        · subst hc
          left
          by_contra hne
          exact hnot.2 ⟨rfl, hne⟩
        · exact .inr ⟨c, rest, rfl, hc⟩

theorem takeWhile_digits (text : List Char) :
    IsDigits (text.takeWhile Char.isDigit) :=
  fun _ hc => List.mem_takeWhile_imp hc

theorem takeWhile_point {whole : List Char} (h : IsDigits whole)
    (rest : List Char) :
    (whole ++ '.' :: rest).takeWhile Char.isDigit = whole ∧
      (whole ++ '.' :: rest).dropWhile Char.isDigit = '.' :: rest := by
  rw [List.takeWhile_append_of_pos h, List.dropWhile_append_of_pos h]
  simp

theorem decimalAmount_eq_some {text whole fraction : List Char} :
    decimalAmount text = some (whole, fraction) ↔
      IsNumeral whole ∧ IsDigits fraction ∧ (fraction = [] ∧ text = whole ∨
          fraction ≠ [] ∧ text = whole ++ '.' :: fraction) := by
  unfold decimalAmount
  dsimp only
  constructor
  · intro h
    have hsplit := List.takeWhile_append_dropWhile (p := Char.isDigit)
      (l := text)
    have hdigits := takeWhile_digits text
    split_ifs at h with hform
    have hnumeral := (isNumeral_iff hdigits).mpr hform
    split at h
    next hrest =>
      simp only [Option.some.injEq, Prod.mk.injEq] at h
      rcases h with ⟨rfl, rfl⟩
      rw [hrest, List.append_nil] at hsplit
      exact ⟨hnumeral, nofun, .inl ⟨rfl, hsplit.symm⟩⟩
    next c rest hrest =>
      split_ifs at h with hpoint
      simp only [Option.some.injEq, Prod.mk.injEq] at h
      rcases h with ⟨rfl, rfl⟩
      rcases hpoint with ⟨rfl, hne, hall⟩
      rw [hrest] at hsplit
      exact ⟨hnumeral, fun d hd => List.all_eq_true.mp hall d hd,
        .inr ⟨hne, hsplit.symm⟩⟩
  · rintro ⟨hnumeral, hfraction, ⟨rfl, rfl⟩ | ⟨hne, rfl⟩⟩
    · have htake : text.takeWhile Char.isDigit = text :=
        List.takeWhile_eq_self_iff.mpr hnumeral.digits
      have hdrop : text.dropWhile Char.isDigit = [] :=
        List.dropWhile_eq_nil_iff.mpr hnumeral.digits
      rw [htake, hdrop, if_neg ((isNumeral_iff hnumeral.digits).mp hnumeral)]
    · rcases takeWhile_point hnumeral.digits fraction with ⟨htake, hdrop⟩
      rw [htake, hdrop, if_neg ((isNumeral_iff hnumeral.digits).mp hnumeral)]
      have hall : fraction.all Char.isDigit = true :=
        List.all_eq_true.mpr hfraction
      exact if_pos ⟨rfl, hne, hall⟩

theorem plainDecimal_iff {text : List Char} {q : ℚ} : PlainDecimal text q ↔
      ∃ whole fraction, decimalAmount text = some (whole, fraction) ∧
        q = value whole + value fraction / 10 ^ fraction.length := by
  simp only [PlainDecimal, decimalAmount_eq_some, and_assoc]

/-! ## From display units -/

variable {decimals n : ℕ} {amount : String}

theorem toBaseUnits_cases : toBaseUnits amount decimals = .ok n ↔
      ∃ whole fraction, decimalAmount amount.toList = some (whole, fraction) ∧
        amount.toList.length ≤ 80 ∧
        (trimEnd fraction).length ≤ decimals ∧
        n = value whole * 10 ^ decimals +
          value (padEnd decimals (trimEnd fraction)) ∧ 0 < n := by
  unfold toBaseUnits
  cases hmatch : decimalAmount amount.toList with
  | none => simp [refused]
  | some found =>
      rcases found with ⟨whole, fraction⟩
      dsimp only
      constructor
      · intro h
        by_cases hlong : 80 < amount.toList.length
        · rw [if_pos hlong] at h
          cases h
        rw [if_neg hlong] at h
        by_cases hdigits : decimals < (trimEnd fraction).length
        · rw [if_pos hdigits] at h
          cases h
        rw [if_neg hdigits] at h
        by_cases hzero : value whole * 10 ^ decimals +
            value (padEnd decimals (trimEnd fraction)) = 0
        · rw [if_pos hzero] at h
          cases h
        rw [if_neg hzero] at h
        cases h
        exact ⟨whole, fraction, rfl, not_lt.mp hlong, not_lt.mp hdigits, rfl,
          Nat.pos_of_ne_zero hzero⟩
      · rintro ⟨whole', fraction', hfound, hlong, hdigits, rfl, hpos⟩
        simp only [Option.some.injEq, Prod.mk.injEq] at hfound
        rcases hfound with ⟨rfl, rfl⟩
        rw [if_neg (by omega), if_neg (by omega), if_neg (by omega)]

/-- The value with the zeros at the end left out. -/
theorem value_fraction {fraction : List Char} :
    (value fraction : ℚ) / 10 ^ fraction.length =
      value (trimEnd fraction) / 10 ^ (trimEnd fraction).length := by
  rcases trimEnd_zeros fraction with ⟨count, hsplit⟩
  have hvalue : value fraction = value (trimEnd fraction) * 10 ^ count := by
    have happend := value_append (trimEnd fraction) (List.replicate count '0')
    rw [← hsplit, value_zeros, List.length_replicate] at happend
    exact happend
  have hlength : fraction.length = (trimEnd fraction).length + count := by
    have happend := congrArg List.length hsplit
    rw [List.length_append, List.length_replicate] at happend
    exact happend
  rw [hvalue, hlength, pow_add]
  push_cast
  rw [mul_div_mul_right _ _ (by positivity)]

/-- Digits within the decimals give a whole number of base units. -/
theorem scaled_fraction {fraction : List Char} {decimals : ℕ}
    (h : (trimEnd fraction).length ≤ decimals) :
    (value fraction : ℚ) / 10 ^ fraction.length * 10 ^ decimals =
      value (padEnd decimals (trimEnd fraction)) := by
  rw [value_fraction, value_padEnd, ← Nat.sub_add_cancel h, pow_add,
    Nat.add_sub_cancel]
  push_cast
  have hpos : (10 : ℚ) ^ (trimEnd fraction).length ≠ 0 := by positivity
  field_simp

/-- More digits than the decimals give no whole number. -/
theorem not_scaled {fraction : List Char} {whole : ℕ}
    (hdigits : IsDigits fraction)
    (h : decimals < (trimEnd fraction).length) :
    ((whole : ℚ) + value fraction / 10 ^ fraction.length) *
      10 ^ decimals ≠ n := by
  intro hn
  rw [value_fraction] at hn
  have hlength : (trimEnd fraction).length =
      decimals + ((trimEnd fraction).length - decimals - 1) + 1 := by omega
  generalize hextra : (trimEnd fraction).length - decimals - 1 = extra
    at hlength
  have hne : trimEnd fraction ≠ [] := by
    intro hnil
    rw [hnil] at h
    exact Nat.not_lt_zero _ h
  rw [hlength] at hn
  have hscaled : (whole : ℚ) * 10 ^ decimals * 10 ^ (extra + 1) +
      value (trimEnd fraction) = n * 10 ^ (extra + 1) := by
    rw [← hn, pow_add 10 (decimals + extra) 1, pow_add, pow_add]
    field_simp
  have hnat : whole * 10 ^ decimals * 10 ^ (extra + 1) +
      value (trimEnd fraction) = n * 10 ^ (extra + 1) := by
    exact_mod_cast hscaled
  have hlast := value_last hdigits.trimEnd hne (trimEnd_last fraction)
  have hleft : whole * 10 ^ decimals * 10 ^ (extra + 1) =
      10 * (whole * 10 ^ decimals * 10 ^ extra) := by ring
  have hright : n * 10 ^ (extra + 1) = 10 * (n * 10 ^ extra) := by ring
  rw [hleft, hright] at hnat
  omega

/-- Base units are the decimal's value times a power of ten. -/
theorem toBaseUnits_eq_ok : toBaseUnits amount decimals = .ok n ↔
      ∃ q, PlainDecimal amount.toList q ∧ amount.toList.length ≤ 80 ∧
        q * 10 ^ decimals = n ∧ 0 < n := by
  rw [toBaseUnits_cases]
  simp only [plainDecimal_iff]
  constructor
  · rintro ⟨whole, fraction, hmatch, hlong, hdigits, rfl, hpos⟩
    refine ⟨_, ⟨whole, fraction, hmatch, rfl⟩, hlong, ?_, hpos⟩
    rw [add_mul, scaled_fraction hdigits]
    push_cast
    rfl
  · rintro ⟨q, ⟨whole, fraction, hmatch, rfl⟩, hlong, hn, hpos⟩
    have hform := decimalAmount_eq_some.mp hmatch
    have hdigits : (trimEnd fraction).length ≤ decimals := by
      by_contra hmore
      exact not_scaled hform.2.1 (not_le.mp hmore) hn
    refine ⟨whole, fraction, hmatch, hlong, hdigits, ?_, hpos⟩
    rw [add_mul, scaled_fraction hdigits] at hn
    exact_mod_cast hn.symm

/-! ## To display units -/

theorem plain_of_digits {whole fraction : List Char} {n decimals : ℕ}
    (hwhole : IsNumeral whole) (hfraction : IsDigits fraction)
    (hlength : fraction.length ≤ decimals)
    (hn : n = value whole * 10 ^ decimals + value (padEnd decimals fraction))
    {text : List Char}
    (htext : fraction = [] ∧ text = whole ∨
      fraction ≠ [] ∧ text = whole ++ '.' :: fraction) :
    ∃ q, PlainDecimal text q ∧ q * 10 ^ decimals = n := by
  refine ⟨_, ⟨whole, fraction, hwhole, hfraction, htext, rfl⟩, ?_⟩
  have hpow : (10 : ℚ) ^ decimals =
      10 ^ fraction.length * 10 ^ (decimals - fraction.length) := by
    rw [← pow_add, Nat.add_sub_cancel' hlength]
  rw [hn, value_padEnd]
  push_cast
  rw [hpow]
  field_simp

/-- The digits after the point of base units, before they are trimmed. -/
theorem padded_digits (n : ℕ) {decimals : ℕ} (hpos : 0 < decimals) :
    IsDigits (padStart decimals (Nat.toDigits 10 (n % 10 ^ decimals))) ∧
      (padStart decimals
        (Nat.toDigits 10 (n % 10 ^ decimals))).length = decimals ∧
      value (padStart decimals (Nat.toDigits 10 (n % 10 ^ decimals))) =
        n % 10 ^ decimals := by
  have hlt : n % 10 ^ decimals < 10 ^ decimals :=
    Nat.mod_lt _ (Nat.pow_pos (by decide))
  refine ⟨(IsDigits.numeral _).padStart decimals, length_padStart ?_, ?_⟩
  · exact (Nat.length_toDigits_le_iff (by decide) hpos).mpr hlt
  · rw [value_padStart, value_numeral]

theorem padEnd_trimEnd (digits : List Char) :
    padEnd digits.length (trimEnd digits) = digits := by
  rcases trimEnd_zeros digits with ⟨count, hsplit⟩
  have hlength := congrArg List.length hsplit
  rw [List.length_append, List.length_replicate] at hlength
  unfold padEnd
  rw [hlength, Nat.add_sub_cancel_left]
  exact hsplit.symm

/-- The display text is a plain decimal of the base units. -/
theorem fromBaseUnits_plain (n decimals : ℕ) :
    ∃ whole fraction, IsNumeral whole ∧ IsDigits fraction ∧
      fraction.length ≤ decimals ∧ fraction.getLast? ≠ some '0' ∧
      n = value whole * 10 ^ decimals + value (padEnd decimals fraction) ∧
      (fraction = [] ∧ (fromBaseUnits n decimals).toList = whole ∨
        fraction ≠ [] ∧
          (fromBaseUnits n decimals).toList = whole ++ '.' :: fraction) := by
  by_cases hzero : decimals = 0
  · refine ⟨Nat.toDigits 10 n, [], IsNumeral.toDigits n, nofun,
      Nat.zero_le _, nofun, ?_, .inl ⟨rfl, ?_⟩⟩
    · simp [hzero, padEnd, value]
    · simp [fromBaseUnits, hzero]
  · rcases padded_digits n (Nat.pos_of_ne_zero hzero) with
      ⟨hdigits, hlength, hvalue⟩
    refine ⟨Nat.toDigits 10 (n / 10 ^ decimals), trimEnd (padStart decimals
      (Nat.toDigits 10 (n % 10 ^ decimals))), IsNumeral.toDigits _,
      hdigits.trimEnd, ?_, trimEnd_last _, ?_, ?_⟩
    · have hle := List.IsPrefix.length_le
        (List.rdropWhile_prefix (fun c => decide (c = '0'))
          (l := padStart decimals (Nat.toDigits 10 (n % 10 ^ decimals))))
      rw [hlength] at hle
      exact hle
    · have hpad := padEnd_trimEnd (padStart decimals
        (Nat.toDigits 10 (n % 10 ^ decimals)))
      rw [hlength] at hpad
      rw [hpad, hvalue, value_numeral, Nat.mul_comm]
      exact (Nat.div_add_mod n _).symm
    · unfold fromBaseUnits
      rw [if_neg hzero]
      rw [String.toList_ofList]
      split_ifs with hnil
      · exact .inl ⟨hnil, rfl⟩
      · exact .inr ⟨hnil, rfl⟩

theorem toBaseUnits_fromBaseUnits {n decimals : ℕ} (hpos : 0 < n)
    (hlong : (fromBaseUnits n decimals).toList.length ≤ 80) :
    toBaseUnits (fromBaseUnits n decimals) decimals = .ok n := by
  rcases fromBaseUnits_plain n decimals with
    ⟨whole, fraction, hwhole, hfraction, hlength, -, hn, htext⟩
  rcases plain_of_digits hwhole hfraction hlength hn htext with
    ⟨q, hplain, hq⟩
  exact toBaseUnits_eq_ok.mpr ⟨q, hplain, hlong, hq, hpos⟩

theorem not_superfluous {whole fraction text : List Char}
    (hwhole : IsNumeral whole) (hlast : fraction.getLast? ≠ some '0')
    (htext : fraction = [] ∧ text = whole ∨
      fraction ≠ [] ∧ text = whole ++ '.' :: fraction) :
    ¬ SuperfluousZero text := by
  have hpoint : ∀ {digits}, IsDigits digits → '.' ∉ digits := by
    intro digits hdigits hmem
    exact absurd (hdigits '.' hmem) (by decide)
  rintro (⟨c, rest, hc, hstart⟩ | ⟨hmem, hend⟩)
  · rcases hwhole.leading with rfl | ⟨d, more, rfl, hd⟩
    · rcases htext with ⟨-, rfl⟩ | ⟨-, rfl⟩
      · cases hstart
      · rw [List.singleton_append, List.cons.injEq, List.cons.injEq] at hstart
        rw [← hstart.2.1] at hc
        exact absurd hc (by decide)
    · rcases htext with ⟨-, rfl⟩ | ⟨-, rfl⟩
      · rw [List.cons.injEq] at hstart
        exact hd hstart.1
      · rw [List.cons_append, List.cons.injEq] at hstart
        exact hd hstart.1
  · rcases htext with ⟨-, rfl⟩ | ⟨hne, rfl⟩
    · exact hpoint hwhole.digits hmem
    · rw [List.getLast?_append_cons, List.getLast?_cons_of_ne_nil hne] at hend
      exact hlast hend

/-- The display text is the only one without superfluous zeros. -/
theorem eq_fromBaseUnits {n decimals : ℕ}
    (hamount : toBaseUnits amount decimals = .ok n)
    (hzeros : ¬ SuperfluousZero amount.toList) :
    amount = fromBaseUnits n decimals := by
  rcases toBaseUnits_cases.mp hamount with
    ⟨whole, fraction, hmatch, -, hdigits, hn, -⟩
  rcases decimalAmount_eq_some.mp hmatch with ⟨hwhole, hfraction, htext⟩
  have htrim : trimEnd fraction = fraction := by
    rw [trimEnd_eq_self]
    intro hlast
    apply hzeros
    rcases htext with ⟨rfl, -⟩ | ⟨hne, htext⟩
    · cases hlast
    · right
      rw [htext]
      constructor
      · simp
      · rw [List.getLast?_append_cons, List.getLast?_cons_of_ne_nil hne]
        exact hlast
  rw [htrim] at hdigits hn
  rcases fromBaseUnits_plain n decimals with
    ⟨whole', fraction', hwhole', hfraction', hlength', hlast', hn', htext'⟩
  have hlt : ∀ {digits}, IsDigits digits → digits.length ≤ decimals →
      value (padEnd decimals digits) < 10 ^ decimals := by
    intro digits h hle
    have hvalue := value_lt (h.padEnd decimals)
    rw [length_padEnd hle] at hvalue
    exact hvalue
  have hpos : 0 < 10 ^ decimals := Nat.pow_pos (by decide)
  have hquot : value whole = value whole' := by
    have hleft : n / 10 ^ decimals = value whole := by
      rw [hn, Nat.mul_comm, Nat.mul_add_div hpos,
        Nat.div_eq_of_lt (hlt hfraction hdigits), Nat.add_zero]
    rw [← hleft, hn', Nat.mul_comm, Nat.mul_add_div hpos,
      Nat.div_eq_of_lt (hlt hfraction' hlength'), Nat.add_zero]
  have hrest : value (padEnd decimals fraction) =
      value (padEnd decimals fraction') := by
    rw [hn, hquot] at hn'
    exact Nat.add_left_cancel hn'
  have hwholes : whole = whole' := by
    rw [← hwhole.toDigits_value, hquot, hwhole'.toDigits_value]
  have hpads : padEnd decimals fraction = padEnd decimals fraction' :=
    eq_of_value (hfraction.padEnd decimals) (hfraction'.padEnd decimals)
      (by rw [length_padEnd hdigits, length_padEnd hlength']) hrest
  have hfractions : fraction = fraction' := by
    have htrims := congrArg trimEnd hpads
    unfold padEnd at htrims
    rw [trimEnd_append_zeros, trimEnd_append_zeros, htrim,
      trimEnd_eq_self.mpr hlast'] at htrims
    exact htrims
  apply String.toList_inj.mp
  subst hwholes hfractions
  rcases htext with ⟨hnil, htext⟩ | ⟨hne, htext⟩ <;>
    rcases htext' with ⟨hnil', htext'⟩ | ⟨hne', htext'⟩
  · rw [htext, htext']
  · exact absurd hnil hne'
  · exact absurd hnil' hne
  · rw [htext, htext']

/-! ## A whole transaction -/

variable {S A P M : Type}

/-- An action as the protocol has it, with its exact base units. -/
inductive GroupConverts (tokens : Option (List OptionsToken)) :
    GroupActionInput S A → GroupAction S A → Prop where
  | bank {input decimals n}
      (hdecimals : groupDecimals tokens input.denomOf = some decimals)
      (hamount : toBaseUnits input.amount decimals = .ok n) :
      GroupConverts tokens (.bank input)
        (.bank ⟨input.toAddress, toString n, input.denomOf⟩)
  | stake {input n}
      (hamount : toBaseUnits input.amount ixoDecimals = .ok n) :
      GroupConverts tokens (.stake input)
        (.stake ⟨input.step, input.rest, toString n⟩)
  | other (action) : GroupConverts tokens (.other action) (.other action)

/-- A message as the protocol has it, with its exact base units. -/
inductive Converts (tokens : Option (List OptionsToken)) :
    MessageInput S A P M → HostMessage S A P M → Prop where
  | bank {input token n}
      (htoken : listed tokens input.denomOf = some token)
      (hamount : toBaseUnits input.amount token.decimals = .ok n) :
      Converts tokens (.bank input)
        (.bank ⟨input.toAddress, toString n, input.denomOf⟩)
  | stake {input n}
      (hamount : toBaseUnits input.amount ixoDecimals = .ok n) :
      Converts tokens (.stake input)
        (.stake ⟨input.step, input.rest, toString n⟩)
  | proposal {rest actions done}
      (hactions : List.Forall₂ (GroupConverts tokens) actions done) :
      Converts tokens (.proposal rest actions) (.proposal rest done)
  | other (message) : Converts tokens (.other message) (.other message)

/-- The base units of an amount that converts. -/
def unitsOf (amount : String) (decimals : ℕ) : ℕ :=
  match toBaseUnits amount decimals with
  | .ok n => n
  | .error _ => 0

/-- What a message takes of the owner's listed token: a send of it, and a
stake of IXO; an action of a group proposal takes nothing. -/
def taken (token : OptionsToken) : MessageInput S A P M → ℕ
  | .bank input =>
      if input.denomOf = token.denom then
        unitsOf input.amount token.decimals
      else 0
  | .stake input =>
      if input.step = .delegate ∧ token.denom = ixoDenom then
        unitsOf input.amount ixoDecimals
      else 0
  | .proposal _ _ | .other _ => 0

theorem taken_bank (token : OptionsToken) (input : BankInput) :
    taken token (.bank input : MessageInput S A P M) =
      if input.denomOf = token.denom then
        unitsOf input.amount token.decimals
      else 0 := rfl

theorem taken_stake (token : OptionsToken) (input : StakeInput S) :
    taken token (.stake input : MessageInput S A P M) =
      if input.step = .delegate ∧ token.denom = ixoDenom then
        unitsOf input.amount ixoDecimals
      else 0 := rfl

theorem converted_eq_ok {path amount : String} :
    converted path amount decimals = .ok n ↔
      toBaseUnits amount decimals = .ok n := by
  unfold converted
  cases toBaseUnits amount decimals with
  | error e => simp [refused]
  | ok base => rfl

theorem unitsOf_eq (h : toBaseUnits amount decimals = .ok n) :
    unitsOf amount decimals = n := by
  unfold unitsOf
  rw [h]

variable {tokens : Option (List OptionsToken)}

theorem listed_denom {denom : String}
    {token : OptionsToken} (h : listed tokens denom = some token) :
    token.denom = denom := by
  have hfound := List.find?_some h
  simpa using hfound

theorem stakeInBaseUnits_eq_ok {path : String} {input : StakeInput S}
    {amount : ℕ} {stake : Stake S}
    (h : stakeInBaseUnits path input = .ok (amount, stake)) :
    toBaseUnits input.amount ixoDecimals = .ok amount ∧
      stake = ⟨input.step, input.rest, toString amount⟩ := by
  unfold stakeInBaseUnits at h
  cases hamount : converted path input.amount ixoDecimals with
  | error e => simp [hamount, Except.map] at h
  | ok n =>
      simp only [hamount, Except.map, Except.ok.injEq, Prod.mk.injEq] at h
      rcases h with ⟨rfl, rfl⟩
      exact ⟨converted_eq_ok.mp hamount, rfl⟩

theorem groupAction_converts
    {path : String} {action : GroupActionInput S A} {done : GroupAction S A}
    (h : groupActionInBaseUnits tokens path action = .ok done) :
    GroupConverts tokens action done := by
  cases action with
  | bank input =>
      unfold groupActionInBaseUnits at h
      cases hdecimals : groupDecimals tokens input.denomOf with
      | none => simp [hdecimals, refused] at h
      | some decimals =>
          simp only [hdecimals] at h
          cases hamount : converted path input.amount decimals with
          | error e => simp [hamount, Except.map] at h
          | ok n =>
              simp only [hamount, Except.map, Except.ok.injEq] at h
              subst h
              exact .bank hdecimals (converted_eq_ok.mp hamount)
  | stake input =>
      unfold groupActionInBaseUnits at h
      cases hstake : stakeInBaseUnits path input with
      | error e => simp [hstake, Except.map] at h
      | ok found =>
          rcases found with ⟨amount, stake⟩
          simp only [hstake, Except.map, Except.ok.injEq] at h
          subst h
          rcases stakeInBaseUnits_eq_ok hstake with ⟨hamount, rfl⟩
          exact .stake hamount
  | other action =>
      cases h
      exact .other action

theorem groupActions_convert
    {path : String} {actions : List (GroupActionInput S A)}
    {done : List (GroupAction S A)} {index : ℕ}
    (h : groupActionsFrom tokens path index actions = .ok done) :
    List.Forall₂ (GroupConverts tokens) actions done := by
  induction actions generalizing index done with
  | nil =>
      cases h
      exact .nil
  | cons action rest ih =>
      unfold groupActionsFrom at h
      split at h
      next => cases h
      next first hfirst =>
        cases hrest : groupActionsFrom tokens path (index + 1) rest with
        | error e => simp [hrest, Except.map] at h
        | ok more =>
            simp only [hrest, Except.map, Except.ok.injEq] at h
            subst h
            exact .cons (groupAction_converts hfirst) (ih hrest)

variable {spent spent' : String → ℕ}

theorem spend_eq_ok {path what : String} {token : OptionsToken} {amount : ℕ}
    (h : spend spent path token amount what = .ok spent') :
    spent token.denom + amount ≤ token.balanceBaseUnits ∧
      spent' = Function.update spent token.denom
        (spent token.denom + amount) := by
  unfold spend at h
  dsimp only at h
  by_cases hover : token.balanceBaseUnits < spent token.denom + amount
  · rw [if_pos hover] at h
    cases h
  · rw [if_neg hover] at h
    cases h
    exact ⟨not_lt.mp hover, rfl⟩

/-- What is spent of each listed token grows by what the message takes. -/
def Counts (tokens : Option (List OptionsToken))
    (message : MessageInput S A P M) (spent spent' : String → ℕ) : Prop :=
  ∀ denom token, listed tokens denom = some token →
    spent' denom = spent denom + taken token message ∧
      (spent denom ≤ token.balanceBaseUnits →
        spent' denom ≤ token.balanceBaseUnits)

variable {message : MessageInput S A P M}

theorem counts_none (spent : String → ℕ)
    (h : ∀ denom token, listed tokens denom = some token →
      taken token message = 0) : Counts tokens message spent spent := by
  intro denom token htoken
  rw [h denom token htoken]
  exact ⟨rfl, fun hle => hle⟩

theorem counts_spend
    {path what denom : String} {token : OptionsToken} {amount : ℕ}
    (htoken : listed tokens denom = some token)
    (hspend : spend spent path token amount what = .ok spent')
    (htaken : taken token message = amount)
    (hothers : ∀ other, other.denom ≠ denom → taken other message = 0) :
    Counts tokens message spent spent' := by
  rcases spend_eq_ok hspend with ⟨hle, rfl⟩
  intro name other hother
  by_cases hname : name = denom
  · subst hname
    rw [htoken] at hother
    cases hother
    rw [listed_denom htoken, Function.update_self, htaken] at *
    exact ⟨rfl, fun _ => hle⟩
  · have hdenom := listed_denom hother
    rw [listed_denom htoken, Function.update_of_ne hname,
      hothers other (by rw [hdenom]; exact hname)]
    exact ⟨rfl, fun hle => hle⟩

theorem message_converts {path : String} {done : HostMessage S A P M}
    (h : messageInBaseUnits tokens spent path message = .ok (spent', done)) :
    Converts tokens message done ∧ Counts tokens message spent spent' := by
  cases message with
  | proposal rest actions =>
      dsimp only [messageInBaseUnits] at h
      cases hactions : groupActionsFrom tokens path 0 actions with
      | error e => simp [hactions, Except.map] at h
      | ok found =>
          simp only [hactions, Except.map, Except.ok.injEq, Prod.mk.injEq] at h
          rcases h with ⟨rfl, rfl⟩
          exact ⟨.proposal (groupActions_convert hactions),
            counts_none spent fun _ _ _ => rfl⟩
  | other message =>
      cases h
      exact ⟨.other message, counts_none spent fun _ _ _ => rfl⟩
  | stake input =>
      dsimp only [messageInBaseUnits] at h
      cases hstake : stakeInBaseUnits path input with
      | error e => simp [hstake] at h
      | ok found =>
          rcases found with ⟨amount, stake⟩
          simp only [hstake] at h
          rcases stakeInBaseUnits_eq_ok hstake with ⟨hamount, rfl⟩
          cases hixo : listed tokens ixoDenom with
          | none =>
              simp only [hixo, Except.ok.injEq, Prod.mk.injEq] at h
              rcases h with ⟨rfl, rfl⟩
              refine ⟨.stake hamount, counts_none spent ?_⟩
              intro denom token htoken
              rw [taken_stake, if_neg]
              rintro ⟨-, hdenom⟩
              rw [listed_denom htoken] at hdenom
              rw [hdenom, hixo] at htoken
              cases htoken
          | some ixo =>
              simp only [hixo] at h
              by_cases hstep : input.step = .delegate
              · rw [if_pos hstep] at h
                cases hspend : spend spent path ixo amount "this stake" with
                | error e => simp [hspend, Except.map] at h
                | ok after =>
                    simp only [hspend, Except.map, Except.ok.injEq,
                      Prod.mk.injEq] at h
                    rcases h with ⟨rfl, rfl⟩
                    refine ⟨.stake hamount, counts_spend hixo hspend ?_ ?_⟩
                    · rw [taken_stake, if_pos ⟨hstep, listed_denom hixo⟩,
                        unitsOf_eq hamount]
                    · intro other hother
                      rw [taken_stake, if_neg fun hboth => hother hboth.2]
              · rw [if_neg hstep, Except.ok.injEq, Prod.mk.injEq] at h
                rcases h with ⟨rfl, rfl⟩
                refine ⟨.stake hamount, counts_none spent ?_⟩
                intro denom token _
                rw [taken_stake, if_neg fun hboth => hstep hboth.1]
  | bank input =>
      dsimp only [messageInBaseUnits] at h
      by_cases hempty : tokens.getD [] = []
      · rw [if_pos hempty] at h
        cases h
      rw [if_neg hempty] at h
      cases htoken : listed tokens input.denomOf with
      | none => simp [htoken, refused] at h
      | some token =>
          simp only [htoken] at h
          cases hamount : converted path input.amount token.decimals with
          | error e => simp [hamount] at h
          | ok amount =>
              simp only [hamount] at h
              cases hspend : spend spent path token amount "this send" with
              | error e => simp [hspend, Except.map] at h
              | ok after =>
                  simp only [hspend, Except.map, Except.ok.injEq,
                    Prod.mk.injEq] at h
                  rcases h with ⟨rfl, rfl⟩
                  have hunits := converted_eq_ok.mp hamount
                  have hdenom := listed_denom htoken
                  rw [hdenom]
                  refine ⟨.bank htoken hunits, counts_spend htoken hspend
                    ?_ ?_⟩
                  · rw [taken_bank, if_pos hdenom.symm, unitsOf_eq hunits]
                  · intro other hother
                    rw [taken_bank, if_neg fun heq => hother heq.symm]

theorem messages_convert {messages : List (MessageInput S A P M)}
    {done : List (HostMessage S A P M)} {spent : String → ℕ} {index : ℕ}
    (h : messagesFrom tokens spent index messages = .ok done) :
    List.Forall₂ (Converts tokens) messages done ∧
      ∀ denom token, listed tokens denom = some token →
        spent denom ≤ token.balanceBaseUnits →
        spent denom + (messages.map (taken token)).sum ≤
          token.balanceBaseUnits := by
  induction messages generalizing spent index done with
  | nil =>
      cases h
      exact ⟨.nil, fun _ _ _ hle => hle⟩
  | cons message rest ih =>
      unfold messagesFrom at h
      split at h
      next => cases h
      next spent' first hfirst =>
        cases hrest : messagesFrom tokens spent' (index + 1) rest with
        | error e => simp [hrest, Except.map] at h
        | ok more =>
            simp only [hrest, Except.map, Except.ok.injEq] at h
            subst h
            rcases message_converts hfirst with ⟨hconverts, hcounts⟩
            rcases ih hrest with ⟨hall, hsums⟩
            refine ⟨.cons hconverts hall, fun denom token htoken hle => ?_⟩
            rcases hcounts denom token htoken with ⟨hspent, hkeeps⟩
            have hsum := hsums denom token htoken (hkeeps hle)
            rw [hspent] at hsum
            rw [List.map_cons, List.sum_cons, ← Nat.add_assoc]
            exact hsum

/-! ## Without a token list -/

theorem groupActions_any_list
    {actions : List (GroupActionInput S A)} (tokens tokens' path index)
    (h : ∀ input, GroupActionInput.bank input ∈ actions →
      input.denomOf = ixoDenom) :
    groupActionsFrom tokens path index actions =
      groupActionsFrom tokens' path index actions := by
  induction actions generalizing index with
  | nil => rfl
  | cons action rest ih =>
      have hfirst : ∀ path, groupActionInBaseUnits tokens path action =
          groupActionInBaseUnits tokens' path action := by
        intro path
        cases action with
        | bank input =>
            have hdenom := h input List.mem_cons_self
            simp only [groupActionInBaseUnits, groupDecimals, hdenom, if_true]
        | stake input => rfl
        | other action => rfl
      unfold groupActionsFrom
      rw [hfirst, ih (index + 1) fun input hinput =>
        h input (List.mem_cons_of_mem _ hinput)]

theorem messages_any_list {messages : List (MessageInput S A P M)}
    (tokens tokens' : Option (List OptionsToken)) (spent : String → ℕ)
    (index : ℕ) (h : chainTxNeedsTokenList messages = false) :
    messagesFrom tokens spent index messages =
      messagesFrom tokens' spent index messages := by
  induction messages generalizing spent index with
  | nil => rfl
  | cons message rest ih =>
      unfold chainTxNeedsTokenList at h
      rw [List.any_cons, Bool.or_eq_false_iff] at h
      have hfirst : ∀ path, messageInBaseUnits tokens spent path message =
          messageInBaseUnits tokens' spent path message := by
        intro path
        cases message with
        | bank input => cases h.1
        | stake input =>
            have hstep : input.step ≠ .delegate := by simpa using h.1
            dsimp only [messageInBaseUnits]
            cases stakeInBaseUnits path input with
            | error e => rfl
            | ok found =>
                cases listed tokens ixoDenom <;>
                  cases listed tokens' ixoDenom <;> simp [hstep]
        | proposal fields actions =>
            have hixo : ∀ input, GroupActionInput.bank input ∈ actions →
                input.denomOf = ixoDenom := by
              intro input hinput
              have hnone := List.any_eq_false.mp h.1 _ hinput
              simpa using hnone
            dsimp only [messageInBaseUnits]
            rw [groupActions_any_list tokens tokens' path 0 hixo]
        | other message => rfl
      unfold messagesFrom
      rw [hfirst]
      cases messageInBaseUnits tokens' spent s!"messages[{index}]" message with
      | error e => rfl
      | ok found =>
          dsimp only
          rw [ih found.1 (index + 1) h.2]

/-- Amounts are converted exactly, and a transaction converts message by
message within the listed balances. -/
theorem amounts_exact :
    (∀ amount decimals n, toBaseUnits amount decimals = .ok n ↔
      ∃ q, PlainDecimal amount.toList q ∧ amount.toList.length ≤ 80 ∧
        q * 10 ^ decimals = n ∧ 0 < n) ∧
    (∀ n decimals, 0 < n → (fromBaseUnits n decimals).toList.length ≤ 80 →
      toBaseUnits (fromBaseUnits n decimals) decimals = .ok n ∧
        ¬ SuperfluousZero (fromBaseUnits n decimals).toList ∧
        ∀ amount, toBaseUnits amount decimals = .ok n →
          ¬ SuperfluousZero amount.toList →
          amount = fromBaseUnits n decimals) ∧
    (∀ (messages : List (MessageInput S A P M)) tokens done,
      chainTxAmountsInBaseUnits messages tokens = .ok done →
      List.Forall₂ (Converts tokens) messages done ∧
        ∀ denom token, listed tokens denom = some token →
          (messages.map (taken token)).sum ≤ token.balanceBaseUnits) ∧
    ∀ messages : List (MessageInput S A P M),
      chainTxNeedsTokenList messages = false →
      ∀ tokens tokens', chainTxAmountsInBaseUnits messages tokens =
        chainTxAmountsInBaseUnits messages tokens' := by
  refine ⟨fun _ _ _ => toBaseUnits_eq_ok, ?_, ?_, ?_⟩
  · intro n decimals hpos hlong
    refine ⟨toBaseUnits_fromBaseUnits hpos hlong, ?_,
      fun amount hamount hzeros => eq_fromBaseUnits hamount hzeros⟩
    rcases fromBaseUnits_plain n decimals with
      ⟨whole, fraction, hwhole, -, -, hlast, -, htext⟩
    exact not_superfluous hwhole hlast htext
  · intro messages tokens done h
    rcases messages_convert h with ⟨hall, hsums⟩
    refine ⟨hall, fun denom token htoken => ?_⟩
    have hsum := hsums denom token htoken (Nat.zero_le _)
    rw [Nat.zero_add] at hsum
    exact hsum
  · intro messages h tokens tokens'
    exact messages_any_list tokens tokens' (fun _ => 0) 0 h

example : toBaseUnits "1.50" 1 = .ok 15 := by decide +kernel

example : fromBaseUnits 1250000 6 = "1.25" := by decide +kernel

end TransferAmounts

end QiForge
