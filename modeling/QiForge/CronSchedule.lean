import QiForge.Gaps
import Mathlib.Algebra.Order.Round
import Mathlib.Data.List.Sort
import Mathlib.Data.Rat.Floor

/-!
# The shortest gap of a cron pattern

The check on how often a scheduled task may fire.  What cron-parser and the
time zone data answer (the field values, the next firing day, the fires around
a clock change, the offset at an instant) enters as a parameter.
-/

namespace QiForge

namespace CronSchedule

def dayMs : ℤ := 86400000

def firingDayScanDays : ℤ := 4 * 366

def offsetChangeLookaheadDays : ℕ := 366

def maxFiresPerOffsetWindow : ℕ := 3000

def maxOffsetWindowReachMs : ℚ := 7 * 86400000

/-- The values of one field of a pattern. -/
structure Values (bound : ℕ) where
  values : List ℕ
  sorted : values.Pairwise (· < ·)
  below : ∀ value ∈ values, value < bound
  nonempty : values ≠ []

/-- Days are numbered from the epoch; `next` answers the first midnight after
an instant whose day the date fields select. -/
structure Pattern where
  second : Values 60
  minute : Values 60
  hour : Values 24
  dayOfMonthIsWildcard : Bool
  monthIsWildcard : Bool
  dayOfWeekIsWildcard : Bool
  fires : ℤ → Prop
  everyDay : (dayOfMonthIsWildcard && monthIsWildcard &&
    dayOfWeekIsWildcard) = true → ∀ day, fires day
  next : ℤ → Option ℤ
  next_some : ∀ instant midnight, next instant = some midnight →
    ∃ day, midnight = day * dayMs ∧ fires day ∧ instant < midnight ∧
      ∀ other, fires other → instant < other * dayMs → midnight ≤ other * dayMs
  -- it gives up only past its search horizon
  next_none : ∀ instant, next instant = none →
    ∀ day, fires day → instant < day * dayMs →
      instant + firingDayScanDays * dayMs < day * dayMs

/-- `fires currentDate n` is the answer of the `n`-th call of `next` on the
pattern in this zone, `none` when the call throws. -/
structure Zone where
  utcOffsetMs : ℤ → ℤ
  fires : ℚ → ℕ → Option ℤ

inductive Timezone where
  | absent
  | unknown
  | known (zone : Zone)

theorem Pattern.next_gt (P : Pattern) {instant midnight : ℤ}
    (h : P.next instant = some midnight) : instant < midnight := by
  obtain ⟨_, _, _, hlt, _⟩ := P.next_some instant midnight h
  exact hlt

/-- The loop over the firing days after the one at `cursor`. -/
def closestLoop (P : Pattern) (stop : ℤ) (closest : WithTop ℤ)
    (previous : Option ℤ) (cursor : ℤ) : WithTop ℤ :=
  match h : P.next cursor with
  | none => closest
  | some day =>
      if hstop : stop < day then closest
      else
        let closest := match previous with
          | some previous =>
              min closest (↑(round (((day - previous : ℤ) : ℚ) / dayMs)))
          | none => closest
        if closest = 1 then closest
        else
          have : (stop - day).toNat < (stop - cursor).toNat := by
            have := P.next_gt h
            omega
          closestLoop P stop closest (some day) day
termination_by (stop - cursor).toNat

def closestFiringDays (P : Pattern) (fromMs : ℤ) : WithTop ℤ :=
  if P.dayOfMonthIsWildcard && P.monthIsWildcard && P.dayOfWeekIsWildcard then
    1
  else
    closestLoop P (fromMs + firingDayScanDays * dayMs) ⊤ none fromMs

/-- The pattern's times of day. -/
def Pattern.times (P : Pattern) : List ℤ := (P.hour.values.flatMap fun hour =>
    P.minute.values.flatMap fun minute =>
      P.second.values.map fun second =>
        (((hour * 3600 + minute * 60 + second) * 1000 : ℕ) : ℤ)).insertionSort
    (· ≤ ·)

/-- The shortest gap on the wall clock. -/
def clockInterval (P : Pattern) (fromMs : ℤ) : WithTop ℤ :=
  let shortest := Gaps.shortest P.times
  match closestFiringDays P fromMs, P.times.getLast?, P.times.head? with
  | WithTop.some firingDays, some last, some first =>
      min shortest (↑(firingDays * dayMs - (last - first)))
  | _, _, _ => shortest

/-- The comparison of a gap with the operator's floor. -/
def Below (shortest : WithTop ℤ) (floorMs : ℚ) : Prop :=
  shortest.map (Int.cast : ℤ → ℚ) < (floorMs : WithTop ℚ)

instance (shortest : WithTop ℤ) (floorMs : ℚ) :
    Decidable (Below shortest floorMs) :=
  inferInstanceAs (Decidable (_ < _))

/-- Bisection for the instant of an offset change, to the minute. -/
def changeInstant (Z : Zone) (offset before after : ℤ) : ℤ :=
  if h : 60000 < after - before then
    let mid := before + (after - before) / 2
    if Z.utcOffsetMs mid = offset then
      changeInstant Z offset before mid
    else
      changeInstant Z offset mid after
  else after
termination_by (after - before).toNat

structure Window where
  start : ℚ
  stop : ℚ
  deriving DecidableEq

def withGap (shortest : WithTop ℤ) (previous : Option ℤ) (fire : ℤ) :
    WithTop ℤ :=
  match previous with
  | some previous => min shortest (↑(fire - previous))
  | none => shortest

/-- The fires that are looked at from `previous` on: at most `left` more, and
none after the window's end or once the parser stops advancing. -/
def scanFires (fires : ℕ → Option ℤ) (windowEnd floorMs : ℚ) :
    ℕ → ℕ → Option ℤ → WithTop ℤ → WithTop ℤ × Bool
  | 0, _, _, shortest => (shortest, false)
  | left + 1, n, previous, shortest =>
      match fires n with
      | none => (shortest, false)
      | some fire =>
          if windowEnd < fire ∨ ∃ p ∈ previous, fire ≤ p then
            (shortest, false)
          else
            let shortest := withGap shortest previous fire
            if Below shortest floorMs then (shortest, true)
            else
              scanFires fires windowEnd floorMs left (n + 1) (some fire)
                shortest

/-- Where the search over the coming year stands. -/
structure Search where
  previousOffset : ℤ
  shortest : WithTop ℤ
  returned : Bool

/-- How far around the change a pair of fires matters. -/
def reach (shortest : WithTop ℤ) (floorMs : ℚ) (shift : ℤ) : ℚ :=
  min ((shortest.map (Int.cast : ℤ → ℚ)).untopD maxOffsetWindowReachMs)
    (min (if 0 < floorMs then floorMs else maxOffsetWindowReachMs)
      maxOffsetWindowReachMs) + shift

/-- The window around the offset change before the day's sample, if the
offset changed. -/
def offsetWindow (Z : Zone) (fromMs : ℤ) (floorMs : ℚ) (s : Search)
    (day : ℕ) : Option Window :=
  let sample := fromMs + day * dayMs
  let offset := Z.utcOffsetMs sample
  if offset = s.previousOffset then none
  else
    let shift := |offset - s.previousOffset|
    let after := changeInstant Z offset (sample - dayMs) sample
    let reach := reach s.shortest floorMs shift
    some { start := after - reach, stop := after + shift + reach }

def lookAtDay (Z : Zone) (fromMs : ℤ) (floorMs : ℚ) (s : Search)
    (day : ℕ) : Search :=
  if s.returned then s
  else
    match offsetWindow Z fromMs floorMs s day with
    | none => s
    | some window =>
        let result := scanFires (Z.fires window.start) window.stop floorMs
          maxFiresPerOffsetWindow 0 none s.shortest
        { previousOffset := Z.utcOffsetMs (fromMs + day * dayMs)
          shortest := result.1
          returned := result.2 }

/-- The search after the samples of the first `days` days. -/
def searchTo (Z : Zone) (fromMs : ℤ) (floorMs : ℚ) (shortest : WithTop ℤ) :
    ℕ → Search
  | 0 =>
      { previousOffset := Z.utcOffsetMs fromMs
        shortest := shortest
        returned := false }
  | days + 1 =>
      lookAtDay Z fromMs floorMs (searchTo Z fromMs floorMs shortest days)
        (days + 1)

/-- `null` when the pattern or the timezone does not parse. -/
def cronIntervalMs (parsed : Option Pattern) (timezone : Timezone)
    (fromMs : ℤ) (floorMs : ℚ) : Option (WithTop ℤ) :=
  match parsed, timezone with
  | none, _ => none
  | some _, .unknown => none
  | some P, .absent => some (clockInterval P fromMs)
  | some P, .known Z =>
      let shortest := clockInterval P fromMs
      if Below shortest floorMs then some shortest
      else
        some (searchTo Z fromMs floorMs shortest
          offsetChangeLookaheadDays).shortest

end CronSchedule

end QiForge
