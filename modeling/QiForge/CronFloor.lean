import QiForge.CronFrequency

/-!
# What the floor is compared with

Without a timezone the interval is the shortest step of the fires.  With one,
the search keeps the minimum over what it looks at, window by window.
-/

namespace QiForge

namespace CronSchedule

theorem spanFires_nil {P : Pattern} {fromMs : ℤ}
    (h : spanDays P fromMs = []) : spanFires P fromMs = [] := by
  unfold spanFires
  rw [h]
  rfl

theorem shortest_starts (days : List ℤ) :
    Gaps.shortest (days.map (· * dayMs)) =
      (Gaps.shortest days).map (· * dayMs) := by
  have hmono : Monotone (AddMonoidHom.mulRight dayMs) := by
    intro a b hab
    exact mul_le_mul_of_nonneg_right hab dayMs_pos.le
  exact Gaps.shortest_map_hom (AddMonoidHom.mulRight dayMs) hmono days

theorem clockInterval_eq {P : Pattern} {fromMs : ℤ}
    (h : spanFires P fromMs ≠ [] ∨ P.times.length ≤ 1) :
    clockInterval P fromMs = Gaps.shortest (spanFires P fromMs) := by
  obtain ⟨first, rest, htimes⟩ := List.exists_cons_of_ne_nil P.times_ne_nil
  have hfirst : P.times.head? = some first := by rw [htimes]; rfl
  cases hlast : P.times.getLast? with
  | none =>
    rw [List.getLast?_eq_none_iff] at hlast
    exact absurd hlast P.times_ne_nil
  | some last =>
    unfold clockInterval
    rw [closestFiringDays_eq, hfirst, hlast]
    cases hdays : spanDays P fromMs with
    | nil =>
      have hfires := spanFires_nil hdays
      have hone : P.times.length ≤ 1 := by
        rcases h with hne | hone
        · exact absurd hfires hne
        · exact hone
      rw [hfires]
      exact (Gaps.shortest_eq_top_iff _).mpr hone
    | cons day days =>
      have hrepeated := Gaps.shortest_repeated hfirst hlast
        (day * dayMs) (days.map (· * dayMs))
      rw [← List.map_cons (f := (· * dayMs)), ← hdays, shortest_starts]
        at hrepeated
      rw [show Gaps.shortest (spanFires P fromMs) = _ from hrepeated, ← hdays]
      cases Gaps.shortest (spanDays P fromMs) with
      | top => exact (min_eq_left le_top).symm
      | coe closest => rfl

section Windows

/-- The fires of a window, as the parser yields them: at most `left`, in
order, up to the end. -/
def windowFires (fires : ℕ → Option ℤ) (windowEnd : ℚ) :
    ℕ → ℕ → Option ℤ → List ℤ
  | 0, _, _ => []
  | left + 1, n, previous =>
      match fires n with
      | none => []
      | some fire =>
          if windowEnd < fire ∨ ∃ p ∈ previous, fire ≤ p then []
          else fire :: windowFires fires windowEnd left (n + 1) (some fire)

/-- How one window ends: with the minimum over the fires looked at, all of
them unless a gap fell below the floor. -/
structure Scanned (yielded : List ℤ) (previous : Option ℤ) (floorMs : ℚ)
    (before : WithTop ℤ) (result : WithTop ℤ × Bool) (examined : List ℤ) :
    Prop where
  isPrefix : examined <+: yielded
  shortest : result.1 =
    min before (Gaps.shortest (previous.toList ++ examined))
  returned : result.2 = true → Below result.1 floorMs
  finished : result.2 = false → examined = yielded ∧ ¬ Below result.1 floorMs

theorem Scanned.stopped {previous : Option ℤ} {floorMs : ℚ}
    {shortest : WithTop ℤ} (hfloor : ¬ Below shortest floorMs) :
    Scanned [] previous floorMs shortest (shortest, false) [] := by
  refine ⟨List.prefix_rfl, ?_, nofun, fun _ => ⟨rfl, hfloor⟩⟩
  cases previous with
  | none => exact (min_eq_left le_top).symm
  | some previous => exact (min_eq_left le_top).symm

theorem shortest_next (previous : Option ℤ) (fire : ℤ) (rest : List ℤ)
    (shortest : WithTop ℤ) :
    min (withGap shortest previous fire) (Gaps.shortest (fire :: rest)) =
      min shortest (Gaps.shortest (previous.toList ++ fire :: rest)) := by
  cases previous with
  | none => rfl
  | some previous => exact min_assoc _ _ _

theorem scanFires_spec (fires : ℕ → Option ℤ) (windowEnd floorMs : ℚ)
    (left n : ℕ) (previous : Option ℤ) (shortest : WithTop ℤ)
    (hfloor : ¬ Below shortest floorMs) :
    ∃ examined, Scanned (windowFires fires windowEnd left n previous)
      previous floorMs shortest
      (scanFires fires windowEnd floorMs left n previous shortest)
      examined := by
  induction left generalizing n previous shortest with
  | zero => exact ⟨[], .stopped hfloor⟩
  | succ left ih =>
    unfold scanFires windowFires
    cases fires n with
    | none => exact ⟨[], .stopped hfloor⟩
    | some fire =>
      dsimp only
      split
      · exact ⟨[], .stopped hfloor⟩
      · have hnext := shortest_next previous fire
        split
        · rename_i hbelow
          refine ⟨[fire], ⟨_, rfl⟩, ?_, fun _ => hbelow, nofun⟩
          rw [← hnext [] shortest]
          exact (min_eq_left le_top).symm
        · rename_i hbelow
          obtain ⟨examined, h⟩ := ih (n + 1) (some fire) _ hbelow
          refine ⟨fire :: examined, ?_, ?_, h.returned, ?_⟩
          · exact List.cons_prefix_cons.mpr ⟨rfl, h.isPrefix⟩
          · rw [← hnext examined shortest]
            exact h.shortest
          · intro hresult
            obtain ⟨hall, hfinal⟩ := h.finished hresult
            exact ⟨by rw [hall], hfinal⟩

/-- The day's sample opens a window, and the search is still going. -/
structure Opens (Z : Zone) (fromMs : ℤ) (floorMs : ℚ)
    (clock : WithTop ℤ) (day : ℕ) (window : Window) : Prop where
  accepted : ¬ Below clock floorMs
  inYear : day < offsetChangeLookaheadDays
  going : (searchTo Z fromMs floorMs clock day).returned = false
  changed : offsetWindow Z fromMs floorMs
    (searchTo Z fromMs floorMs clock day) (day + 1) = some window

def Window.fires (Z : Zone) (window : Window) : List ℤ :=
  windowFires (Z.fires window.start) window.stop maxFiresPerOffsetWindow 0 none

variable {Z : Zone} {fromMs : ℤ} {floorMs : ℚ} {clock : WithTop ℤ}

theorem searchTo_closed {day : ℕ} (h : offsetWindow Z fromMs floorMs
      (searchTo Z fromMs floorMs clock day) (day + 1) = none) :
    searchTo Z fromMs floorMs clock (day + 1) =
      searchTo Z fromMs floorMs clock day := by
  show lookAtDay Z fromMs floorMs _ (day + 1) = _
  unfold lookAtDay
  rw [h]
  split <;> rfl

theorem searchTo_returned {day : ℕ}
    (h : (searchTo Z fromMs floorMs clock day).returned = true) :
    searchTo Z fromMs floorMs clock (day + 1) =
      searchTo Z fromMs floorMs clock day := by
  show lookAtDay Z fromMs floorMs _ (day + 1) = _
  unfold lookAtDay
  rw [if_pos h]

theorem searchTo_opened {day : ℕ} {window : Window}
    (hgoing : (searchTo Z fromMs floorMs clock day).returned = false)
    (h : offsetWindow Z fromMs floorMs
      (searchTo Z fromMs floorMs clock day) (day + 1) = some window) :
    ((searchTo Z fromMs floorMs clock (day + 1)).shortest,
      (searchTo Z fromMs floorMs clock (day + 1)).returned) =
      scanFires (Z.fires window.start) window.stop floorMs
        maxFiresPerOffsetWindow 0 none
        (searchTo Z fromMs floorMs clock day).shortest := by
  show ((lookAtDay Z fromMs floorMs _ (day + 1)).shortest,
    (lookAtDay Z fromMs floorMs _ (day + 1)).returned) = _
  unfold lookAtDay
  rw [hgoing, h]
  rfl

/-- The search returns early only below the floor. -/
theorem searchTo_floor (hclock : ¬ Below clock floorMs) (day : ℕ) :
    (searchTo Z fromMs floorMs clock day).returned = true ↔
      Below (searchTo Z fromMs floorMs clock day).shortest floorMs := by
  induction day with
  | zero => exact iff_of_false nofun hclock
  | succ day ih =>
    cases hgoing : (searchTo Z fromMs floorMs clock day).returned with
    | true =>
      rw [searchTo_returned hgoing]
      exact ih
    | false =>
      cases hwindow : offsetWindow Z fromMs floorMs
          (searchTo Z fromMs floorMs clock day) (day + 1) with
      | none =>
        rw [searchTo_closed hwindow]
        exact ih
      | some window =>
        have hfloor : ¬ Below
            (searchTo Z fromMs floorMs clock day).shortest floorMs := by
          rw [← ih, hgoing]
          nofun
        have hopened := searchTo_opened hgoing hwindow
        obtain ⟨examined, hscan⟩ := scanFires_spec (Z.fires window.start)
          window.stop floorMs maxFiresPerOffsetWindow 0 none _ hfloor
        rw [← hopened] at hscan
        constructor
        · exact hscan.returned
        · intro hbelow
          by_contra hnot
          exact (hscan.finished (Bool.eq_false_of_not_eq_true hnot)).2 hbelow

theorem Opens.floor {day : ℕ} {window : Window}
    (h : Opens Z fromMs floorMs clock day window) :
    ¬ Below (searchTo Z fromMs floorMs clock day).shortest floorMs := by
  rw [← searchTo_floor h.accepted, h.going]
  nofun

theorem Opens.scanned {day : ℕ} {window : Window}
    (h : Opens Z fromMs floorMs clock day window) :
    ∃ examined, Scanned (window.fires Z) none floorMs
      (searchTo Z fromMs floorMs clock day).shortest
      ((searchTo Z fromMs floorMs clock (day + 1)).shortest,
        (searchTo Z fromMs floorMs clock (day + 1)).returned) examined := by
  rw [searchTo_opened h.going h.changed]
  exact scanFires_spec _ _ _ _ _ _ _ h.floor

theorem searchTo_succ_le (hclock : ¬ Below clock floorMs) (day : ℕ)
    (hday : day < offsetChangeLookaheadDays) :
    (searchTo Z fromMs floorMs clock (day + 1)).shortest ≤
      (searchTo Z fromMs floorMs clock day).shortest := by
  cases hgoing : (searchTo Z fromMs floorMs clock day).returned with
  | true => rw [searchTo_returned hgoing]
  | false =>
    cases hwindow : offsetWindow Z fromMs floorMs
        (searchTo Z fromMs floorMs clock day) (day + 1) with
    | none => rw [searchTo_closed hwindow]
    | some window =>
      obtain ⟨examined, hscan⟩ := Opens.scanned ⟨hclock, hday, hgoing, hwindow⟩
      exact hscan.shortest.trans_le (min_le_left _ _)

theorem searchTo_le (hclock : ¬ Below clock floorMs) {day later : ℕ}
    (hle : day ≤ later) (hlater : later ≤ offsetChangeLookaheadDays) :
    (searchTo Z fromMs floorMs clock later).shortest ≤
      (searchTo Z fromMs floorMs clock day).shortest := by
  induction later, hle using Nat.le_induction with
  | base => exact le_rfl
  | succ later hle ih =>
    exact (searchTo_succ_le hclock later (by omega)).trans (ih (by omega))

end Windows

section Fires

variable {fires : ℕ → Option ℤ} {windowEnd : ℚ} {left n : ℕ}
  {previous : Option ℤ}

theorem windowFires_sorted :
    (previous.toList ++ windowFires fires windowEnd left n previous).Pairwise
      (· < ·) := by
  induction left generalizing n previous with
  | zero => cases previous <;> simp [windowFires]
  | succ left ih =>
    unfold windowFires
    cases fires n with
    | none => cases previous <;> simp
    | some fire =>
      dsimp only
      split
      · cases previous <;> simp
      · rename_i hgoes
        have hrest : (fire :: windowFires fires windowEnd left (n + 1)
            (some fire)).Pairwise (· < ·) := @ih (n + 1) (some fire)
        cases previous with
        | none => exact hrest
        | some before =>
          push Not at hgoes
          have hlt : before < fire := hgoes.2 before rfl
          refine List.pairwise_cons.mpr ⟨?_, hrest⟩
          intro later hlater
          rcases List.mem_cons.mp hlater with rfl | hin
          · exact hlt
          · exact hlt.trans ((List.pairwise_cons.mp hrest).1 later hin)

/-- Two neighbours in the window are two answers in a row. -/
theorem windowFires_pair {front back : List ℤ} {a b : ℤ}
    (h : windowFires fires windowEnd left n previous =
      front ++ a :: b :: back) :
    ∃ m, fires m = some a ∧ fires (m + 1) = some b ∧ (b : ℚ) ≤ windowEnd := by
  induction left generalizing n previous front with
  | zero => simp [windowFires] at h
  | succ left ih =>
    unfold windowFires at h
    cases hfire : fires n with
    | none => simp [hfire] at h
    | some fire =>
      rw [hfire] at h
      dsimp only at h
      split at h
      · simp at h
      · cases front with
        | cons c front =>
          exact ih (List.cons.inj h).2
        | nil =>
          obtain ⟨rfl, hrest⟩ := List.cons.inj h
          cases left with
          | zero => simp [windowFires] at hrest
          | succ left =>
            unfold windowFires at hrest
            cases hnext : fires (n + 1) with
            | none => simp [hnext] at hrest
            | some next =>
              rw [hnext] at hrest
              dsimp only at hrest
              split at hrest
              · simp at hrest
              · rename_i hgoes
                obtain ⟨rfl, -⟩ := List.cons.inj hrest
                push Not at hgoes
                exact ⟨n, hfire, hnext, hgoes.1⟩

end Fires

/-- What cron-parser's fires keep of the wall clock.  In a window around an
offset change only the pair across it (from the last fire of the old clock,
moved ones included, to the first of the new) may be closer than two fires of
the span. -/
def Zone.FollowsClock (Z : Zone) (P : Pattern) (fromMs : ℤ)
    (floorMs : ℚ) : Prop :=
  ∀ day window, Opens Z fromMs floorMs (clockInterval P fromMs) day window →
      ∃ cut : ℤ, ∀ n a b, Z.fires window.start n = some a →
        Z.fires window.start (n + 1) = some b → (b : ℚ) ≤ window.stop →
          a < cut ∧ cut ≤ b ∨
            ∃ x y, P.FiresAt fromMs x ∧ P.FiresAt fromMs y ∧ x < y ∧
              y - x ≤ b - a

theorem clockInterval_le {P : Pattern} {fromMs x y : ℤ}
    (hx : P.FiresAt fromMs x) (hy : P.FiresAt fromMs y) (hlt : x < y) :
    clockInterval P fromMs ≤ ((y - x : ℤ) : WithTop ℤ) := by
  have hx := mem_spanFires.mpr hx
  rw [clockInterval_eq (Or.inl (List.ne_nil_of_mem hx))]
  exact Gaps.shortest_le_of_mem (spanFires_sorted P fromMs) hx
    (mem_spanFires.mpr hy) hlt

theorem below_shortest (fires : List ℤ) (floorMs : ℚ) :
    Below (Gaps.shortest fires) floorMs ↔
      ∃ front a b back, fires = front ++ a :: b :: back ∧
        ((b - a : ℤ) : ℚ) < floorMs := by
  constructor
  · intro h
    cases hgap : Gaps.shortest fires with
    | top =>
      rw [hgap] at h
      exact absurd h not_top_lt
    | coe gap =>
      rw [hgap] at h
      obtain ⟨front, a, b, back, hsplit, rfl⟩ := Gaps.exists_of_shortest hgap
      exact ⟨front, a, b, back, hsplit, WithTop.coe_lt_coe.mp h⟩
  · rintro ⟨front, a, b, back, rfl, hlt⟩
    have hmono : Monotone (Int.cast : ℤ → ℚ) := Int.cast_mono
    have hle := hmono.withTop_map (Gaps.shortest_le front a b back)
    exact hle.trans_lt (WithTop.coe_lt_coe.mpr hlt)

/-- The gap that ends a search below the floor. -/
theorem Opens.returned_pair {Z : Zone} {fromMs : ℤ} {floorMs : ℚ}
    {clock : WithTop ℤ} {day : ℕ} {window : Window}
    (h : Opens Z fromMs floorMs clock day window)
    (hreturned : (searchTo Z fromMs floorMs clock (day + 1)).returned = true) :
    ∃ front p q back, window.fires Z = front ++ p :: q :: back ∧
      ((q - p : ℤ) : ℚ) < floorMs ∧
      (searchTo Z fromMs floorMs clock (day + 1)).shortest ≤
        ((q - p : ℤ) : WithTop ℤ) := by
  obtain ⟨examined, hscan⟩ := h.scanned
  have hbelow := hscan.returned hreturned
  have hmin := hscan.shortest
  rcases min_choice (searchTo Z fromMs floorMs clock day).shortest
    (Gaps.shortest ((none : Option ℤ).toList ++ examined)) with
    hleft | hright
  · rw [hmin, hleft] at hbelow
    exact absurd hbelow h.floor
  · rw [hmin, hright] at hbelow
    obtain ⟨front, p, q, back, hexamined, hlt⟩ :=
      (below_shortest _ _).mp hbelow
    obtain ⟨rest, hrest⟩ := hscan.isPrefix
    refine ⟨front, p, q, back ++ rest, ?_, hlt, ?_⟩
    · rw [← hrest, show examined = _ from hexamined, List.append_assoc]
      rfl
    · rw [hexamined] at hmin
      exact hmin.trans_le
        ((min_le_right _ _).trans (Gaps.shortest_le front p q back))

variable {P : Pattern} {Z : Zone} {fromMs : ℤ} {floorMs : ℚ}

/-- Only the pair across the change can be below the clock's own gap, so a
window that ends early ends at the closest of its pairs. -/
theorem Opens.le_pair (hfollows : Z.FollowsClock P fromMs floorMs)
    {day : ℕ} {window : Window}
    (h : Opens Z fromMs floorMs (clockInterval P fromMs) day window)
    {front back : List ℤ} {a b : ℤ}
    (hpair : window.fires Z = front ++ a :: b :: back) :
    (searchTo Z fromMs floorMs (clockInterval P fromMs) (day + 1)).shortest ≤
      ((b - a : ℤ) : WithTop ℤ) := by
  obtain ⟨cut, hcut⟩ := hfollows day window h
  have hclose : ∀ {f k : List ℤ} {p q : ℤ},
      window.fires Z = f ++ p :: q :: k → p < cut ∧ cut ≤ q ∨
        clockInterval P fromMs ≤ ((q - p : ℤ) : WithTop ℤ) := by
    intro f k p q hpq
    obtain ⟨m, hm, hnext, hend⟩ := windowFires_pair hpq
    refine (hcut m p q hm hnext hend).imp id ?_
    rintro ⟨x, y, hx, hy, hlt, hle⟩
    exact (clockInterval_le hx hy hlt).trans (WithTop.coe_le_coe.mpr hle)
  rcases hclose hpair with ⟨ha, hb⟩ | hclock
  · cases hreturned : (searchTo Z fromMs floorMs (clockInterval P fromMs)
        (day + 1)).returned with
    | false =>
      obtain ⟨examined, hscan⟩ := h.scanned
      rw [(hscan.finished hreturned).1, hpair] at hscan
      exact hscan.shortest.trans_le
        ((min_le_right _ _).trans (Gaps.shortest_le front a b back))
    | true =>
      obtain ⟨f, p, q, k, hpq, hlt, hle⟩ := h.returned_pair hreturned
      rcases hclose hpq with ⟨hp, hq⟩ | hclock
      · have hsorted : (window.fires Z).Pairwise (· < ·) :=
          @windowFires_sorted (Z.fires window.start) window.stop
            maxFiresPerOffsetWindow 0 none
        obtain ⟨rfl, rfl⟩ := Gaps.straddle_unique hsorted hpair hpq ha hb hp hq
        exact hle
      · have hmono : Monotone (Int.cast : ℤ → ℚ) := Int.cast_mono
        exact absurd ((hmono.withTop_map hclock).trans_lt
          (WithTop.coe_lt_coe.mpr hlt)) h.accepted
  · exact (searchTo_le h.accepted (Nat.zero_le (day + 1)) h.inYear).trans
      hclock

/-- The floor without a timezone: with any floor the shortest step of the
fires of the span. -/
def ExactOnClock (P : Pattern) (fromMs : ℤ) : Prop :=
  ∃ fires : List ℤ, fires.Pairwise (· < ·) ∧
    (∀ instant, instant ∈ fires ↔ P.FiresAt fromMs instant) ∧
    ∀ floorMs, cronIntervalMs (some P) .absent fromMs floorMs =
        some (Gaps.shortest fires) ∧
      (Gaps.shortest fires = ⊤ ↔ fires.length ≤ 1) ∧
      (Below (Gaps.shortest fires) floorMs ↔
        ∃ front a b back, fires = front ++ a :: b :: back ∧
          ((b - a : ℤ) : ℚ) < floorMs)

/-- The floor with a timezone: at most the clock's own gap and the step of
every two fires of a window that is looked at. -/
def SafeInZone (P : Pattern) (fromMs : ℤ) (Z : Zone) (floorMs : ℚ) : Prop :=
  ∃ result clock,
    cronIntervalMs (some P) (.known Z) fromMs floorMs = some result ∧
    cronIntervalMs (some P) .absent fromMs floorMs = some clock ∧
    result ≤ clock ∧
    ∀ day window, Opens Z fromMs floorMs clock day window →
      ∀ front a b back, window.fires Z = front ++ a :: b :: back →
        result ≤ ((b - a : ℤ) : WithTop ℤ)

theorem exactOnClock_iff : ExactOnClock P fromMs ↔
      (∃ instant, P.FiresAt fromMs instant) ∨ P.times.length ≤ 1 := by
  constructor
  · rintro ⟨fires, -, hmem, hall⟩
    obtain ⟨hresult, -, -⟩ := hall 0
    cases fires with
    | cons instant fires =>
      exact Or.inl ⟨instant, (hmem instant).mp List.mem_cons_self⟩
    | nil =>
      -- the gaps between the times of day count all the same
      refine Or.inr ((Gaps.shortest_eq_top_iff _).mp ?_)
      have hclock : clockInterval P fromMs = ⊤ := Option.some.inj hresult
      unfold clockInterval at hclock
      dsimp only at hclock
      split at hclock
      · exact (min_eq_top.mp hclock).1
      · exact hclock
  · intro hfires
    refine ⟨spanFires P fromMs, spanFires_sorted P fromMs,
      fun _ => mem_spanFires, ?_⟩
    intro floorMs
    refine ⟨?_, Gaps.shortest_eq_top_iff _, below_shortest _ _⟩
    rw [← clockInterval_eq (hfires.imp_left ?_)]
    · rfl
    · rintro ⟨instant, hinstant⟩
      exact List.ne_nil_of_mem (mem_spanFires.mpr hinstant)

theorem safeInZone (hfollows : Z.FollowsClock P fromMs floorMs) :
    SafeInZone P fromMs Z floorMs := by
  by_cases hclock : Below (clockInterval P fromMs) floorMs
  · refine ⟨_, _, if_pos hclock, rfl, le_rfl, ?_⟩
    intro day window hopens
    exact absurd hclock hopens.accepted
  · refine ⟨_, _, if_neg hclock, rfl,
      searchTo_le hclock (Nat.zero_le _) le_rfl, ?_⟩
    intro day window hopens front a b back hpair
    exact (searchTo_le hclock hopens.inYear le_rfl).trans
      (hopens.le_pair hfollows hpair)

/-- The floor is exact exactly when the span holds a fire or the pattern has
one time of day; the part about timezones never fails. -/
theorem floor_on_wall_clock (P : Pattern) (fromMs : ℤ) :
    (∀ Z floorMs, Z.FollowsClock P fromMs floorMs →
      SafeInZone P fromMs Z floorMs) ∧
    (ExactOnClock P fromMs ∧ (∀ Z floorMs, Z.FollowsClock P fromMs floorMs →
          SafeInZone P fromMs Z floorMs) ↔
      (∃ instant, P.FiresAt fromMs instant) ∨ P.times.length ≤ 1) := by
  have hzone : ∀ Z floorMs, Z.FollowsClock P fromMs floorMs →
      SafeInZone P fromMs Z floorMs := fun _ _ h => safeInZone h
  exact ⟨hzone, (and_iff_left hzone).trans exactOnClock_iff⟩

/-- Midnight and noon on the 31st of April and June. -/
def noSuchDay : Pattern where
  second := ⟨[0], by decide, by decide, by decide⟩
  minute := ⟨[0], by decide, by decide, by decide⟩
  hour := ⟨[0, 12], by decide, by decide, by decide⟩
  dayOfMonthIsWildcard := false
  monthIsWildcard := false
  dayOfWeekIsWildcard := true
  fires := fun _ => False
  everyDay := nofun
  next := fun _ => none
  next_some := nofun
  next_none := fun _ _ _ h => h.elim

/-- No fire in the span and yet twelve hours. -/
theorem floor_missed :
    cronIntervalMs (some noSuchDay) .absent 1772884800000 0 =
        some ((43200000 : ℤ) : WithTop ℤ) ∧
      (∀ instant, ¬ noSuchDay.FiresAt 1772884800000 instant) ∧
      ¬ ExactOnClock noSuchDay 1772884800000 := by
  have hnone : ∀ instant, ¬ noSuchDay.FiresAt 1772884800000 instant := by
    rintro instant ⟨_, _, _, _, hfires, _⟩
    exact hfires
  refine ⟨by decide +kernel, hnone, ?_⟩
  rw [exactOnClock_iff]
  rintro (⟨instant, hinstant⟩ | htimes)
  · exact hnone instant hinstant
  · exact absurd htimes (by decide +kernel)

/-- Every day at 00:20, 02:20 and 04:20. -/
def threeNightly : Pattern where
  second := ⟨[0], by decide, by decide, by decide⟩
  minute := ⟨[20], by decide, by decide, by decide⟩
  hour := ⟨[0, 2, 4], by decide, by decide, by decide⟩
  dayOfMonthIsWildcard := true
  monthIsWildcard := true
  dayOfWeekIsWildcard := true
  fires := fun _ => True
  everyDay := fun _ _ => trivial
  next := fun instant => some ((instant / dayMs + 1) * dayMs)
  next_some := by
    intro instant midnight h
    obtain rfl := Option.some.inj h
    refine ⟨_, rfl, trivial, ?_, ?_⟩
    · unfold dayMs
      omega
    · intro other _ hother
      unfold dayMs at *
      omega
  next_none := nofun

/-- New York around 8 March 2026: an offset of -5 hours, from 07:00 UTC on -4.
02:20 does not exist that day and fires at 03:20. -/
def newYork : Zone where
  utcOffsetMs := fun instant =>
    if instant < 1772953200000 then -18000000 else -14400000
  fires := fun _ n => [1772947200000, 1772954400000, 1772958000000][n]?

theorem newYork_followsClock (floorMs : ℚ) :
    newYork.FollowsClock threeNightly 1772884800000 floorMs := by
  intro day window _
  refine ⟨1772958000000, ?_⟩
  intro n a b ha hb _
  match n with
  | 0 =>
    obtain rfl := Option.some.inj ha
    obtain rfl := Option.some.inj hb
    -- 00:20 and 02:20 of 8 March on the clock
    refine Or.inr ⟨1772929200000, 1772936400000, ?_, ?_, by decide, by decide⟩
    · exact ⟨20520, 0, 20, 0, trivial, by decide, by decide, by decide,
        by decide, by decide, by decide⟩
    · exact ⟨20520, 2, 20, 0, trivial, by decide, by decide, by decide,
        by decide, by decide, by decide⟩
  | 1 =>
    obtain rfl := Option.some.inj ha
    obtain rfl := Option.some.inj hb
    exact Or.inl ⟨by decide, by decide⟩
  | n + 2 => simp [newYork] at hb

/-- One hour apart on the day the clocks go forward. -/
theorem floor_on_wall_clock_newYork :
    cronIntervalMs (some threeNightly) (.known newYork) 1772884800000
        7200000 = some ((3600000 : ℤ) : WithTop ℤ) ∧
      SafeInZone threeNightly 1772884800000 newYork 7200000 :=
  ⟨by decide +kernel, (floor_on_wall_clock _ _).1 newYork _
    (newYork_followsClock _)⟩

end CronSchedule

end QiForge
