import QiForge.ContextGuard

/-!
# The stale line

The line before which tool results become stubs is drawn by the last cold
turn alone.  The search for it goes backwards, so what warm turns add behind
a list of messages is passed over, and the search goes on as it did before
them.  A later cold turn draws the line at a later opening.
-/

namespace QiForge
namespace ContextGuard

/-- A turn opens cold when its opening was sent at least this long after the
opening of the turn before it, and both say when. -/
def OpensCold (dateParse : JsString → Option ℤ) (coldGapMs : ℤ)
    (messages : List Message) (turn : ℕ) : Prop :=
  ∃ opening previous, 0 < turn ∧
    (turnOpenings messages)[turn]? = some opening ∧
    (turnOpenings messages)[turn - 1]? = some previous ∧
    coldBetween dateParse messages coldGapMs opening previous = true

/-! ## The openings -/

variable {messages : List Message}

theorem turnOpenings_lt {turn opening : ℕ}
    (hopening : (turnOpenings messages)[turn]? = some opening) :
    opening < messages.length := by
  obtain ⟨hturn, rfl⟩ := List.getElem?_eq_some_iff.mp hopening
  exact List.getElem_findIdxs_lt hturn

theorem turnOpenings_append (messages more : List Message) :
    turnOpenings (messages ++ more) =
      turnOpenings messages ++ more.findIdxs opensTurn messages.length := by
  simp [turnOpenings, List.findIdxs_append]

theorem turnOpenings_append_getElem? {turn : ℕ}
    (hturn : turn < (turnOpenings messages).length)
    (more : List Message) :
    (turnOpenings (messages ++ more))[turn]? =
      (turnOpenings messages)[turn]? := by
  rw [turnOpenings_append, List.getElem?_append_left hturn]

theorem turnOpenings_le {earlier later opening : ℕ} (hle : earlier ≤ later)
    (hopening : (turnOpenings messages)[later]? = some opening) :
    ((turnOpenings messages)[earlier]?).getD 0 ≤ opening := by
  obtain ⟨hlater, rfl⟩ := List.getElem?_eq_some_iff.mp hopening
  have hearlier : earlier < (turnOpenings messages).length := by omega
  rw [List.getElem?_eq_getElem hearlier, Option.getD_some]
  rcases Nat.lt_or_eq_of_le hle with hlt | rfl
  · exact (List.pairwise_iff_getElem.mp List.pairwise_findIdxs
      earlier later hearlier hlater hlt).le
  · exact le_rfl

section Search

variable {dateParse : JsString → Option ℤ} {keepTurns coldGapMs : ℤ}
  {messages : List Message}

theorem coldBetween_append {opening previous : ℕ}
    (hopening : opening < messages.length)
    (hprevious : previous < messages.length)
    (more : List Message) :
    coldBetween dateParse (messages ++ more) coldGapMs opening previous =
      coldBetween dateParse messages coldGapMs opening previous := by
  simp only [coldBetween, List.getElem?_append_left hopening,
    List.getElem?_append_left hprevious]

theorem OpensCold.lt_length {turn : ℕ}
    (hcold : OpensCold dateParse coldGapMs messages turn) :
    turn < (turnOpenings messages).length := by
  obtain ⟨opening, previous, hpos, hopening, -⟩ := hcold
  exact (List.getElem?_eq_some_iff.mp hopening).1

theorem OpensCold.append {turn : ℕ}
    (hcold : OpensCold dateParse coldGapMs messages turn)
    (more : List Message) :
    OpensCold dateParse coldGapMs (messages ++ more) turn := by
  have hlength := hcold.lt_length
  obtain ⟨opening, previous, hpos, hopening, hprevious, hbetween⟩ := hcold
  refine ⟨opening, previous, hpos, ?_, ?_, ?_⟩
  · rw [turnOpenings_append_getElem? hlength, hopening]
  · rw [turnOpenings_append_getElem? (by omega), hprevious]
  · rw [coldBetween_append (turnOpenings_lt hopening)
      (turnOpenings_lt hprevious), hbetween]

/-! ## The search -/

theorem cutoffBelow_low {bound : ℕ} (hbound : (bound : ℤ) ≤ max keepTurns 1)
    (openings : List ℕ) :
    cutoffBelow dateParse messages openings keepTurns coldGapMs bound = 0 := by
  cases bound with
  | zero => rfl
  | succ turn =>
      have hturn : (turn : ℤ) < max keepTurns 1 := by
        push_cast at hbound
        omega
      simp only [cutoffBelow, hturn, ↓reduceIte]

/-- At a cold turn with enough turns behind it the search ends. -/
theorem cutoffBelow_cold {turn : ℕ} (hkept : max keepTurns 1 ≤ (turn : ℤ))
    (hcold : OpensCold dateParse coldGapMs messages turn) :
    cutoffBelow dateParse messages (turnOpenings messages) keepTurns coldGapMs
        (turn + 1) =
      ((turnOpenings messages)[turn - keepTurns.toNat]?).getD 0 := by
  obtain ⟨opening, previous, hpos, hopening, hprevious, hbetween⟩ := hcold
  have hturn : ¬ (turn : ℤ) < max keepTurns 1 := by omega
  simp only [cutoffBelow, hturn, ↓reduceIte, hopening, hprevious, hbetween]

/-- A turn that is not cold is passed over. -/
theorem cutoffBelow_warm {turn : ℕ} (hkept : max keepTurns 1 ≤ (turn : ℤ))
    (hwarm : ¬ OpensCold dateParse coldGapMs messages turn) :
    cutoffBelow dateParse messages (turnOpenings messages) keepTurns coldGapMs
        (turn + 1) =
      cutoffBelow dateParse messages (turnOpenings messages) keepTurns
        coldGapMs turn := by
  have hturn : ¬ (turn : ℤ) < max keepTurns 1 := by omega
  have hpos : 0 < turn := by omega
  simp only [cutoffBelow, hturn, ↓reduceIte]
  split
  · next opening previous hopening hprevious =>
    split
    · next hbetween =>
      exact absurd ⟨opening, previous, hpos, hopening, hprevious, hbetween⟩
        hwarm
    · rfl
  · rfl

/-- So are all the turns between two bounds when none of them is cold. -/
theorem cutoffBelow_skip {low high : ℕ} (hle : low ≤ high) (hwarm :
      ∀ turn, low ≤ turn → turn < high →
        ¬ OpensCold dateParse coldGapMs messages turn) :
    cutoffBelow dateParse messages (turnOpenings messages) keepTurns coldGapMs
        high =
      cutoffBelow dateParse messages (turnOpenings messages) keepTurns
        coldGapMs low := by
  induction high with
  | zero =>
      obtain rfl : low = 0 := by omega
      rfl
  | succ turn ih =>
      rcases Nat.lt_or_eq_of_le hle with hlt | rfl
      · have hbelow := ih (by omega) fun t hlow hhigh =>
          hwarm t hlow (by omega)
        by_cases hkept : max keepTurns 1 ≤ (turn : ℤ)
        · rw [cutoffBelow_warm hkept (hwarm turn (by omega) (by omega)),
            hbelow]
        · have hhigh : ((turn + 1 : ℕ) : ℤ) ≤ max keepTurns 1 := by
            push_cast
            omega
          have hlow : (low : ℤ) ≤ max keepTurns 1 := by omega
          rw [cutoffBelow_low hhigh, cutoffBelow_low hlow]
      · rfl

/-- No cold turn the search can reach draws a line behind the one it finds. -/
theorem le_cutoffBelow {turn bound : ℕ} (hkept : max keepTurns 1 ≤ (turn : ℤ))
    (hcold : OpensCold dateParse coldGapMs messages turn)
    (hturn : turn < bound)
    (hbound : bound ≤ (turnOpenings messages).length) :
    ((turnOpenings messages)[turn - keepTurns.toNat]?).getD 0 ≤
      cutoffBelow dateParse messages (turnOpenings messages) keepTurns
        coldGapMs bound := by
  induction bound with
  | zero => omega
  | succ last ih =>
      rcases Nat.lt_or_eq_of_le (Nat.lt_succ_iff.mp hturn) with hlt | rfl
      · have hlast : max keepTurns 1 ≤ (last : ℤ) := by omega
        by_cases hlastCold : OpensCold dateParse coldGapMs messages last
        · have hlength : last - keepTurns.toNat <
              (turnOpenings messages).length := by omega
          rw [cutoffBelow_cold hlast hlastCold,
            List.getElem?_eq_getElem hlength, Option.getD_some]
          exact turnOpenings_le (by omega)
            (List.getElem?_eq_getElem hlength)
        · rw [cutoffBelow_warm hlast hlastCold]
          exact ih hlt (by omega)
      · exact (cutoffBelow_cold hkept hcold).ge

/-- The search among the turns of a list reads nothing behind it. -/
theorem cutoffBelow_append {bound : ℕ}
    (hbound : bound ≤ (turnOpenings messages).length)
    (more : List Message) :
    cutoffBelow dateParse (messages ++ more) (turnOpenings (messages ++ more))
        keepTurns coldGapMs bound =
      cutoffBelow dateParse messages (turnOpenings messages) keepTurns
        coldGapMs bound := by
  induction bound with
  | zero => rfl
  | succ turn ih =>
      have hopening : turn < (turnOpenings messages).length := by omega
      have hprevious : turn - 1 < (turnOpenings messages).length := by omega
      have hcutoff : turn - keepTurns.toNat <
          (turnOpenings messages).length := by omega
      have hbetween : coldBetween dateParse (messages ++ more) coldGapMs
              (turnOpenings messages)[turn]
              (turnOpenings messages)[turn - 1] =
            coldBetween dateParse messages coldGapMs
              (turnOpenings messages)[turn]
              (turnOpenings messages)[turn - 1] :=
        coldBetween_append
          (turnOpenings_lt (List.getElem?_eq_getElem hopening))
          (turnOpenings_lt (List.getElem?_eq_getElem hprevious)) more
      simp only [cutoffBelow, turnOpenings_append_getElem? hopening,
        turnOpenings_append_getElem? hprevious,
        turnOpenings_append_getElem? hcutoff, ih (by omega),
        List.getElem?_eq_getElem hopening, List.getElem?_eq_getElem hprevious,
        hbetween]

variable (dateParse keepTurns coldGapMs messages) in
theorem cutoffBelow_eq_zero_or (bound : ℕ) :
    cutoffBelow dateParse messages (turnOpenings messages) keepTurns coldGapMs
        bound = 0 ∨
      ∃ turn : ℕ, max keepTurns 1 ≤ (turn : ℤ) ∧ turn < bound ∧
        OpensCold dateParse coldGapMs messages turn ∧
        cutoffBelow dateParse messages (turnOpenings messages) keepTurns
            coldGapMs bound =
          ((turnOpenings messages)[turn - keepTurns.toNat]?).getD 0 := by
  induction bound with
  | zero => exact Or.inl rfl
  | succ turn ih =>
      by_cases hkept : max keepTurns 1 ≤ (turn : ℤ)
      · by_cases hcold : OpensCold dateParse coldGapMs messages turn
        · exact Or.inr ⟨turn, hkept, by omega, hcold,
            cutoffBelow_cold hkept hcold⟩
        · rw [cutoffBelow_warm hkept hcold]
          rcases ih with hzero | ⟨earlier, hearlier, hlt, hfound⟩
          · exact Or.inl hzero
          · exact Or.inr ⟨earlier, hearlier, by omega, hfound⟩
      · exact Or.inl (cutoffBelow_low (by push_cast; omega) _)

end Search

/-! ## The line -/

section Line

variable (dateParse : JsString → Option ℤ) (keepTurns coldGapMs : ℤ)

theorem staleResultCutoff_le_length (messages : List Message) :
    staleResultCutoff dateParse messages keepTurns coldGapMs ≤
      messages.length := by
  unfold staleResultCutoff
  split
  · omega
  · rcases cutoffBelow_eq_zero_or dateParse keepTurns coldGapMs messages
        (turnOpenings messages).length with hzero | ⟨turn, -, hlt, -, hcutoff⟩
    · rw [hzero]
      exact Nat.zero_le _
    · rw [hcutoff]
      have hlength : turn - keepTurns.toNat <
          (turnOpenings messages).length := by omega
      have hopening := List.getElem?_eq_getElem hlength
      rw [hopening, Option.getD_some]
      exact (turnOpenings_lt hopening).le

theorem staleResultCutoff_append_warm {messages more : List Message} (hwarm :
      ∀ turn, (turnOpenings messages).length ≤ turn →
        ¬ OpensCold dateParse coldGapMs (messages ++ more) turn) :
    staleResultCutoff dateParse (messages ++ more) keepTurns coldGapMs =
      staleResultCutoff dateParse messages keepTurns coldGapMs := by
  have hle : (turnOpenings messages).length ≤
      (turnOpenings (messages ++ more)).length := by
    rw [turnOpenings_append, List.length_append]
    omega
  unfold staleResultCutoff
  split
  · rfl
  · rw [cutoffBelow_skip hle fun turn hlow _ => hwarm turn hlow,
      cutoffBelow_append le_rfl]

theorem staleResultCutoff_le_append (messages more : List Message) :
    staleResultCutoff dateParse messages keepTurns coldGapMs ≤
      staleResultCutoff dateParse (messages ++ more) keepTurns coldGapMs := by
  unfold staleResultCutoff
  split
  · exact le_rfl
  · rcases cutoffBelow_eq_zero_or dateParse keepTurns coldGapMs messages
        (turnOpenings messages).length with
      hzero | ⟨turn, hkept, hlt, hcold, hcutoff⟩
    · rw [hzero]
      exact Nat.zero_le _
    · have hcold' := hcold.append more
      have hle := le_cutoffBelow hkept hcold' hcold'.lt_length le_rfl
      rw [turnOpenings_append_getElem? (by omega)] at hle
      rw [hcutoff]
      exact hle

/-- The line the latest cold turn draws leaves the turns it keeps behind. -/
theorem staleResultCutoff_le_kept
    {messages : List Message} {cold turn opening : ℕ}
    (hcold : OpensCold dateParse coldGapMs messages cold)
    (hlatest : ∀ later, cold < later →
        ¬ OpensCold dateParse coldGapMs messages later)
    (hkept : (cold : ℤ) - keepTurns ≤ turn)
    (hopening : (turnOpenings messages)[turn]? = some opening) :
    staleResultCutoff dateParse messages keepTurns coldGapMs ≤ opening := by
  unfold staleResultCutoff
  split
  · omega
  · have hlength : cold + 1 ≤ (turnOpenings messages).length := hcold.lt_length
    rw [cutoffBelow_skip hlength fun later hlow _ => hlatest later hlow]
    by_cases hbehind : max keepTurns 1 ≤ (cold : ℤ)
    · rw [cutoffBelow_cold hbehind hcold]
      exact turnOpenings_le (by omega) hopening
    · rw [cutoffBelow_low (by push_cast; omega)]
      omega

end Line

/-! ## The stubs before it -/

theorem trimStaleResults_append {cutoff : ℕ}
    (hcutoff : cutoff ≤ messages.length)
    (more : List Message) (options : TrimOptions) :
    (trimStaleResults (messages ++ more) cutoff options).messages =
      (trimStaleResults messages cutoff options).messages ++ more := by
  simp only [trimStaleResults, List.take_append_of_le_length hcutoff,
    List.drop_append_of_le_length hcutoff, List.append_assoc]

theorem trimStaleResults_length
    (messages : List Message) (cutoff : ℕ) (options : TrimOptions) :
    (trimStaleResults messages cutoff options).messages.length =
      messages.length := by
  simp only [trimStaleResults, List.length_append, List.length_map,
    List.length_take, List.length_drop]
  omega

theorem trimStaleResults_getElem?
    (messages : List Message) (cutoff : ℕ) (options : TrimOptions)
    (index : ℕ) :
    (trimStaleResults messages cutoff options).messages[index]? =
      if index < cutoff then
        messages[index]?.map fun message =>
          ((staleStub options message).map .tool).getD message
      else messages[index]? := by
  simp only [trimStaleResults]
  by_cases hlt : index < cutoff
  · rw [if_pos hlt]
    by_cases hlength : index < messages.length
    · rw [List.getElem?_append_left (by simp; omega), List.getElem?_map,
        List.getElem?_take_of_lt hlt]
    · rw [List.getElem?_eq_none (by simp; omega),
        List.getElem?_eq_none (by omega), Option.map_none]
  · rw [if_neg hlt, List.getElem?_append_right (by simp; omega),
      List.getElem?_drop]
    by_cases hlength : index < messages.length
    · congr 1
      simp only [List.length_map, List.length_take]
      omega
    · rw [List.getElem?_eq_none (by simp; omega),
        List.getElem?_eq_none (by omega)]

/-- What holds of the stale line as a conversation grows. -/
structure LineStands (dateParse : JsString → Option ℤ)
    (keepTurns coldGapMs : ℤ) (options : TrimOptions) : Prop where
  /-- Warm turns leave the line and what is written before it as it was. -/
  stands : ∀ messages more, (∀ turn, (turnOpenings messages).length ≤ turn →
      ¬ OpensCold dateParse coldGapMs (messages ++ more) turn) →
    staleResultCutoff dateParse (messages ++ more) keepTurns coldGapMs =
      staleResultCutoff dateParse messages keepTurns coldGapMs ∧
    (trimStaleResults (messages ++ more)
        (staleResultCutoff dateParse (messages ++ more) keepTurns coldGapMs)
        options).messages.take messages.length =
      (trimStaleResults messages
        (staleResultCutoff dateParse messages keepTurns coldGapMs)
        options).messages
  /-- No turn moves it backwards. -/
  forward : ∀ messages more,
    staleResultCutoff dateParse messages keepTurns coldGapMs ≤
      staleResultCutoff dateParse (messages ++ more) keepTurns coldGapMs
  /-- The turns kept before the latest cold turn are not stubbed. -/
  kept : ∀ messages (cold turn opening index : ℕ),
    OpensCold dateParse coldGapMs messages cold →
    (∀ later, cold < later → ¬ OpensCold dateParse coldGapMs messages later) →
    (cold : ℤ) - keepTurns ≤ turn →
    (turnOpenings messages)[turn]? = some opening →
    opening ≤ index →
    (trimStaleResults messages
        (staleResultCutoff dateParse messages keepTurns coldGapMs)
        options).messages[index]? =
      messages[index]?

theorem staleLine_stands
    (dateParse : JsString → Option ℤ) (keepTurns coldGapMs : ℤ)
    (options : TrimOptions) :
    LineStands dateParse keepTurns coldGapMs options where
  stands := by
    intro messages more hwarm
    have hsame :=
      staleResultCutoff_append_warm dateParse keepTurns coldGapMs hwarm
    refine ⟨hsame, ?_⟩
    rw [hsame, trimStaleResults_append
      (staleResultCutoff_le_length dateParse keepTurns coldGapMs messages)]
    exact List.take_left' (trimStaleResults_length messages _ options)
  forward := staleResultCutoff_le_append dateParse keepTurns coldGapMs
  kept := by
    intro messages cold turn opening index hcold hlatest hkept hopening hindex
    have hline :=
      staleResultCutoff_le_kept dateParse keepTurns coldGapMs hcold hlatest
        hkept hopening
    rw [trimStaleResults_getElem?, if_neg (by omega)]

end ContextGuard
end QiForge
