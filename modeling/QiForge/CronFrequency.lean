import QiForge.CronSchedule

/-!
# The floor of a cron pattern

The firing days of the scanned span and the pattern's times of day make the
list of its fires; the three quantities the code computes are the shortest
step of that list.  Around a clock change the search looks at a prefix of the
fires of each window.
-/

namespace QiForge

namespace CronSchedule

theorem dayMs_pos : 0 < dayMs := by decide

namespace Pattern

def timeOfDay (hour minute second : ℕ) : ℤ :=
  ((hour * 3600 + minute * 60 + second) * 1000 : ℕ)

/-- A fire on one of the firing days of the scanned span. -/
def FiresAt (P : Pattern) (fromMs instant : ℤ) : Prop :=
  ∃ day hour minute second, P.fires day ∧ fromMs < day * dayMs ∧
    day * dayMs ≤ fromMs + firingDayScanDays * dayMs ∧
    hour ∈ P.hour.values ∧ minute ∈ P.minute.values ∧
    second ∈ P.second.values ∧
    instant = day * dayMs + timeOfDay hour minute second

def unsortedTimes (P : Pattern) : List ℤ := P.hour.values.flatMap fun hour =>
    P.minute.values.flatMap fun minute =>
      P.second.values.map fun second => timeOfDay hour minute second

theorem mem_unsortedTimes {P : Pattern} {time : ℤ} : time ∈ P.unsortedTimes ↔
      ∃ hour ∈ P.hour.values, ∃ minute ∈ P.minute.values,
        ∃ second ∈ P.second.values, timeOfDay hour minute second = time := by
  simp [unsortedTimes]

theorem unsortedTimes_sorted (P : Pattern) :
    P.unsortedTimes.Pairwise (· < ·) := by
  unfold unsortedTimes
  rw [List.pairwise_flatMap]
  constructor
  · intro hour _
    rw [List.pairwise_flatMap]
    constructor
    · intro minute _
      rw [List.pairwise_map]
      refine P.second.sorted.imp ?_
      intro a b hab
      unfold timeOfDay
      omega
    · refine P.minute.sorted.imp_of_mem ?_
      intro a b _ _ hab x hx y hy
      obtain ⟨s, hs, rfl⟩ := List.mem_map.mp hx
      obtain ⟨s', _, rfl⟩ := List.mem_map.mp hy
      have hlt := P.second.below s hs
      unfold timeOfDay
      omega
  · refine P.hour.sorted.imp_of_mem ?_
    intro a b _ _ hab x hx y hy
    obtain ⟨m, hm, hx⟩ := List.mem_flatMap.mp hx
    obtain ⟨s, hs, rfl⟩ := List.mem_map.mp hx
    obtain ⟨m', _, hy⟩ := List.mem_flatMap.mp hy
    obtain ⟨s', _, rfl⟩ := List.mem_map.mp hy
    have hminute := P.minute.below m hm
    have hsecond := P.second.below s hs
    unfold timeOfDay
    omega

theorem times_eq (P : Pattern) : P.times = P.unsortedTimes := by
  have hsorted : P.unsortedTimes.Pairwise (· ≤ ·) :=
    P.unsortedTimes_sorted.imp fun h => h.le
  exact hsorted.insertionSort_eq

theorem times_sorted (P : Pattern) : P.times.Pairwise (· < ·) := by
  rw [times_eq]
  exact P.unsortedTimes_sorted

theorem times_range {P : Pattern} {time : ℤ} (h : time ∈ P.times) :
    0 ≤ time ∧ time < dayMs := by
  rw [times_eq, mem_unsortedTimes] at h
  obtain ⟨hour, hhour, minute, hminute, second, hsecond, rfl⟩ := h
  have h1 := P.hour.below hour hhour
  have h2 := P.minute.below minute hminute
  have h3 := P.second.below second hsecond
  unfold timeOfDay dayMs
  omega

theorem times_ne_nil (P : Pattern) : P.times ≠ [] := by
  obtain ⟨hour, hhour⟩ := List.exists_mem_of_ne_nil _ P.hour.nonempty
  obtain ⟨minute, hminute⟩ := List.exists_mem_of_ne_nil _ P.minute.nonempty
  obtain ⟨second, hsecond⟩ := List.exists_mem_of_ne_nil _ P.second.nonempty
  rw [times_eq]
  exact List.ne_nil_of_mem (mem_unsortedTimes.mpr
    ⟨hour, hhour, minute, hminute, second, hsecond, rfl⟩)

end Pattern

/-- The firing days with a midnight in `(cursor, stop]`. -/
structure Span (P : Pattern) (cursor stop : ℤ) (days : List ℤ) : Prop where
  sorted : days.Pairwise (· < ·)
  mem : ∀ day, day ∈ days ↔
    P.fires day ∧ cursor < day * dayMs ∧ day * dayMs ≤ stop

namespace Span

variable {P : Pattern} {cursor stop day : ℤ} {days : List ℤ}

theorem next_nil (h : Span P cursor stop [])
    {midnight : ℤ} (hnext : P.next cursor = some midnight) :
    stop < midnight := by
  obtain ⟨day, rfl, hfires, hlt, _⟩ := P.next_some _ _ hnext
  by_contra hle
  have hmem := (h.mem day).mpr ⟨hfires, hlt, by omega⟩
  simp at hmem

theorem next_cons (h : Span P cursor stop (day :: days))
    (hstop : stop ≤ cursor + firingDayScanDays * dayMs) :
    P.next cursor = some (day * dayMs) := by
  obtain ⟨hfires, hlt, hle⟩ := (h.mem day).mp List.mem_cons_self
  cases hnext : P.next cursor with
  | none =>
    have := P.next_none cursor hnext day hfires hlt
    omega
  | some midnight =>
    obtain ⟨first, rfl, hfirst, hafter, hleast⟩ := P.next_some _ _ hnext
    have hsmall := hleast day hfires hlt
    have hmem := (h.mem first).mpr ⟨hfirst, hafter, hsmall.trans hle⟩
    rcases List.mem_cons.mp hmem with rfl | hin
    · rfl
    · have hday := (List.pairwise_cons.mp h.sorted).1 first hin
      have hmul := mul_lt_mul_of_pos_right hday dayMs_pos
      omega

theorem tail (h : Span P cursor stop (day :: days)) :
    Span P (day * dayMs) stop days where
  sorted := (List.pairwise_cons.mp h.sorted).2
  mem := by
    intro other
    obtain ⟨hfirst, _⟩ := List.pairwise_cons.mp h.sorted
    obtain ⟨_, hlt, _⟩ := (h.mem day).mp List.mem_cons_self
    constructor
    · intro hin
      obtain ⟨hfires, _, hle⟩ := (h.mem other).mp (List.mem_cons_of_mem _ hin)
      exact ⟨hfires, mul_lt_mul_of_pos_right (hfirst other hin) dayMs_pos, hle⟩
    · rintro ⟨hfires, hafter, hle⟩
      have hmem := (h.mem other).mpr ⟨hfires, by omega, hle⟩
      rcases List.mem_cons.mp hmem with rfl | hin
      · omega
      · exact hin

theorem stop_le (h : Span P cursor stop (day :: days))
    (hstop : stop ≤ cursor + firingDayScanDays * dayMs) :
    stop ≤ day * dayMs + firingDayScanDays * dayMs := by
  obtain ⟨_, hlt, _⟩ := (h.mem day).mp List.mem_cons_self
  omega

end Span

theorem one_le_shortest {days : List ℤ} (h : days.Pairwise (· < ·)) :
    1 ≤ Gaps.shortest days := by
  refine Gaps.le_shortest ?_
  intro front a b back hsplit
  rw [hsplit] at h
  have hab : a < b :=
    (List.pairwise_cons.mp (List.pairwise_append.mp h).2.1).1 b
      List.mem_cons_self
  have : (1 : ℤ) ≤ b - a := by omega
  exact_mod_cast this

theorem round_days (day previous : ℤ) :
    round (((day * dayMs - previous * dayMs : ℤ) : ℚ) / dayMs) =
      day - previous := by
  have hpos : (dayMs : ℚ) ≠ 0 := by
    unfold dayMs
    norm_num
  have hdiv : ((day * dayMs - previous * dayMs : ℤ) : ℚ) / dayMs =
      ((day - previous : ℤ) : ℚ) := by
    push_cast
    field_simp
  rw [hdiv, round_intCast]

theorem closestLoop_done (P : Pattern) {stop cursor : ℤ}
    (closest : WithTop ℤ) (previous : Option ℤ)
    (h : ∀ midnight, P.next cursor = some midnight → stop < midnight) :
    closestLoop P stop closest previous cursor = closest := by
  rw [closestLoop]
  split
  · rfl
  · rename_i day hnext
    rw [dif_pos (h day hnext)]

theorem closestLoop_step (P : Pattern) {stop cursor midnight : ℤ}
    (closest : WithTop ℤ) (previous : Option ℤ)
    (hnext : P.next cursor = some midnight) (hstop : midnight ≤ stop) :
    closestLoop P stop closest previous cursor =
      let closest := match previous with
        | some previous =>
            min closest (↑(round (((midnight - previous : ℤ) : ℚ) / dayMs)))
        | none => closest
      if closest = 1 then closest
      else closestLoop P stop closest (some midnight) midnight := by
  rw [closestLoop]
  split
  · rename_i hnone
    rw [hnone] at hnext
    cases hnext
  · rename_i day hday
    obtain rfl := Option.some.inj (hday.symm.trans hnext)
    rewrite [dif_neg (by omega)]
    rfl

/-- From a firing day on: the break at 1 loses nothing. -/
theorem closestLoop_from {P : Pattern} {stop : ℤ} {days : List ℤ}
    {previous : ℤ} {closest : WithTop ℤ}
    (h : Span P (previous * dayMs) stop days)
    (hstop : stop ≤ previous * dayMs + firingDayScanDays * dayMs) :
    closestLoop P stop closest (some (previous * dayMs)) (previous * dayMs) =
      min closest (Gaps.shortest (previous :: days)) := by
  induction days generalizing previous closest with
  | nil =>
    rw [closestLoop_done P _ _ fun _ hnext => h.next_nil hnext]
    simp
  | cons day days ih =>
    obtain ⟨_, _, hle⟩ := (h.mem day).mp List.mem_cons_self
    rw [closestLoop_step P _ _ (h.next_cons hstop) hle]
    dsimp only
    rw [round_days, Gaps.shortest_cons_cons, ← min_assoc]
    split
    · rename_i hone
      rw [hone, min_eq_left (one_le_shortest h.sorted)]
    · exact ih h.tail (h.stop_le hstop)

theorem closestLoop_eq {P : Pattern} {stop cursor : ℤ} {days : List ℤ}
    (h : Span P cursor stop days)
    (hstop : stop ≤ cursor + firingDayScanDays * dayMs) :
    closestLoop P stop ⊤ none cursor = Gaps.shortest days := by
  cases days with
  | nil =>
    rw [closestLoop_done P _ _ fun _ hnext => h.next_nil hnext]
    rfl
  | cons day days =>
    obtain ⟨_, _, hle⟩ := (h.mem day).mp List.mem_cons_self
    rw [closestLoop_step P _ _ (h.next_cons hstop) hle]
    dsimp only
    rw [if_neg (by decide), closestLoop_from h.tail (h.stop_le hstop),
      top_inf_eq]

section SpanDays

open Classical in
/-- The firing days of the span, listed. -/
noncomputable def spanDays (P : Pattern) (fromMs : ℤ) : List ℤ :=
  ((List.range 1464).map fun i : ℕ => fromMs / dayMs + 1 + (i : ℤ)).filter
    fun day => decide (P.fires day)

theorem spanDays_span (P : Pattern) (fromMs : ℤ) :
    Span P fromMs (fromMs + firingDayScanDays * dayMs)
      (spanDays P fromMs) where
  sorted := by
    unfold spanDays
    refine List.Pairwise.filter _ ?_
    rw [List.pairwise_map]
    refine List.pairwise_lt_range.imp ?_
    intro a b hab
    omega
  mem := by
    intro day
    have hspan : firingDayScanDays = 1464 := by decide
    rw [hspan]
    simp only [spanDays, List.mem_filter, List.mem_map, List.mem_range,
      decide_eq_true_eq, dayMs]
    constructor
    · rintro ⟨⟨i, hi, rfl⟩, hfires⟩
      refine ⟨hfires, ?_, ?_⟩ <;> omega
    · rintro ⟨hfires, hlt, hle⟩
      refine ⟨⟨(day - (fromMs / 86400000 + 1)).toNat, ?_, ?_⟩, hfires⟩ <;>
        omega

theorem shortest_everyDay {P : Pattern} (fromMs : ℤ) (h : ∀ day, P.fires day) :
    Gaps.shortest (spanDays P fromMs) = 1 := by
  have hall : spanDays P fromMs =
      (List.range 1464).map fun i : ℕ => fromMs / dayMs + 1 + (i : ℤ) := by
    unfold spanDays
    rw [List.filter_eq_self]
    intro day _
    simp [h day]
  have hrange : List.range 1464 = 0 :: 1 :: (List.range' 2 1462) := by
    rw [List.range_eq_range', List.range'_succ, List.range'_succ]
  have hle : Gaps.shortest (spanDays P fromMs) ≤ 1 := by
    rw [hall, hrange, List.map_cons, List.map_cons]
    refine (Gaps.shortest_le [] _ _ _).trans (le_of_eq ?_)
    norm_num
  exact hle.antisymm (one_le_shortest (spanDays_span P fromMs).sorted)

theorem closestFiringDays_eq (P : Pattern) (fromMs : ℤ) :
    closestFiringDays P fromMs = Gaps.shortest (spanDays P fromMs) := by
  unfold closestFiringDays
  split
  · rename_i hwild
    rw [shortest_everyDay fromMs (P.everyDay hwild)]
  · exact closestLoop_eq (spanDays_span P fromMs) le_rfl

/-- The fires of the scanned span, in order. -/
noncomputable def spanFires (P : Pattern) (fromMs : ℤ) : List ℤ :=
  Gaps.repeated ((spanDays P fromMs).map (· * dayMs)) P.times

theorem mem_spanFires {P : Pattern} {fromMs instant : ℤ} :
    instant ∈ spanFires P fromMs ↔ P.FiresAt fromMs instant := by
  unfold spanFires Gaps.repeated Pattern.FiresAt
  rw [P.times_eq]
  simp only [List.mem_flatMap, List.mem_map, Pattern.mem_unsortedTimes]
  constructor
  · rintro ⟨_, ⟨day, hday, rfl⟩, _, ⟨hour, hhour, minute, hminute, second,
      hsecond, rfl⟩, rfl⟩
    obtain ⟨hfires, hlt, hle⟩ := ((spanDays_span P fromMs).mem day).mp hday
    exact ⟨day, hour, minute, second, hfires, hlt, hle, hhour, hminute,
      hsecond, rfl⟩
  · rintro ⟨day, hour, minute, second, hfires, hlt, hle, hhour, hminute,
      hsecond, rfl⟩
    exact ⟨_, ⟨day, ((spanDays_span P fromMs).mem day).mpr
      ⟨hfires, hlt, hle⟩, rfl⟩, _, ⟨hour, hhour, minute, hminute, second,
      hsecond, rfl⟩, rfl⟩

theorem spanFires_sorted (P : Pattern) (fromMs : ℤ) :
    (spanFires P fromMs).Pairwise (· < ·) := by
  unfold spanFires Gaps.repeated
  rw [List.pairwise_flatMap]
  constructor
  · intro start _
    rw [List.pairwise_map]
    exact P.times_sorted.imp fun h => by omega
  · rw [List.pairwise_map]
    refine (spanDays_span P fromMs).sorted.imp ?_
    intro a b hab x hx y hy
    obtain ⟨t, ht, rfl⟩ := List.mem_map.mp hx
    obtain ⟨t', ht', rfl⟩ := List.mem_map.mp hy
    have hrange := Pattern.times_range ht
    have hrange' := Pattern.times_range ht'
    unfold dayMs at hrange hrange' ⊢
    omega

end SpanDays

end CronSchedule

end QiForge
