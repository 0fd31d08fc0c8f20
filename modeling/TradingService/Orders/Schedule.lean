import TradingService.Orders.RecurringRules

/-!
# The next execution of a rule

The next execution is a sum of an instant and a duration, and such a sum panics outside the
calendar. Only the months are added with a check, and what stands in for them is a sum again.
A panic ends the process.
-/

namespace TradingService.Recurring

/-- The fallible reading of `next_execution_at`: where it is `none` the code panics. -/
def nextExecutionAt? (addMonths : ℤ → ℤ → Option ℤ) (start : ℤ) (intervalType : IntervalType)
    (intervalValue : ℤ) : Option ℤ :=
  let n := max intervalValue 1
  match intervalType with
  | .hourly => Calendar.after start (3600 * n)
  | .daily => Calendar.after start (86400 * n)
  | .weekly => Calendar.after start (604800 * n)
  | .monthly => (addMonths start n).or (Calendar.after start (86400 * (30 * n)))

/-- The validation of `create_recurring_order`. -/
def readIntervalValue (requested : Option I32) : Except String I32 :=
  let intervalValue := requested.getD ⟨1, by norm_num, by norm_num⟩
  if (intervalValue : ℤ) < 1 then .error "interval_value must be >= 1" else .ok intervalValue

/-- What is documented of `checked_add_months`: its result is an instant of the calendar, and
some months later is later. -/
structure AddsMonths (addMonths : ℤ → ℤ → Option ℤ) : Prop where
  representable : ∀ start n next, addMonths start n = some next →
    Calendar.minInstant ≤ next ∧ next ≤ Calendar.maxInstant
  later : ∀ start n next, addMonths start n = some next → 1 ≤ n → start < next

/-- The calendar has the instant that the interval leads to, in months or in as many times
thirty days. -/
def WithinCalendar (addMonths : ℤ → ℤ → Option ℤ) (start : ℤ) : IntervalType → ℤ → Prop
  | .hourly, n => start + hours n ≤ Calendar.maxInstant
  | .daily, n => start + hours (24 * n) ≤ Calendar.maxInstant
  | .weekly, n => start + hours (7 * 24 * n) ≤ Calendar.maxInstant
  | .monthly, n => (addMonths start n).isSome ∨ start + hours (24 * (30 * n)) ≤ Calendar.maxInstant

instance (addMonths : ℤ → ℤ → Option ℤ) (start : ℤ) (intervalType : IntervalType) (n : ℤ) :
    Decidable (WithinCalendar addMonths start intervalType n) :=
  match intervalType with
  | .hourly | .daily | .weekly => inferInstanceAs (Decidable (_ ≤ _))
  | .monthly => inferInstanceAs (Decidable (_ ∨ _))

/-- The rule goes on: the next execution is an instant of the calendar, after the last one. -/
def MovesForward (addMonths : ℤ → ℤ → Option ℤ) (start : Instant) (intervalType : IntervalType)
    (intervalValue : ℤ) : Prop :=
  ∃ next : Instant, nextExecutionAt? addMonths start intervalType intervalValue = some (next : ℤ) ∧
    start < next

section Sums

variable {addMonths : ℤ → ℤ → Option ℤ} {start : Instant} {secs next : ℤ}

theorem nextExecutionAt_of_checked {start : ℤ} {intervalType : IntervalType} {intervalValue : ℤ}
    (h : nextExecutionAt? addMonths start intervalType intervalValue = some next) :
    nextExecutionAt addMonths start intervalType intervalValue = next := by
  unfold nextExecutionAt? at h
  unfold nextExecutionAt hours
  cases intervalType with
  | hourly =>
    have hsum := Calendar.after_eq_some h
    simp only
    omega
  | daily =>
    have hsum := Calendar.after_eq_some h
    simp only
    omega
  | weekly =>
    have hsum := Calendar.after_eq_some h
    simp only
    omega
  | monthly =>
    rcases Option.or_eq_some_iff.mp h with hmonths | ⟨hmonths, hsum⟩
    · simp only [hmonths, Option.getD_some]
    · have hsum := Calendar.after_eq_some hsum
      simp only [hmonths, Option.getD_none]
      omega

theorem after_isSome_iff (hpos : 0 < secs) :
    (∃ next : Instant, Calendar.after start secs = some (next : ℤ) ∧ start < next) ↔
      start + secs * 1000000000 ≤ Calendar.maxInstant := by
  have hstart := start.lo_le
  constructor
  · rintro ⟨next, hnext, -⟩
    rw [← Calendar.after_eq_some hnext]
    exact next.le_hi
  · intro hle
    refine ⟨⟨start + secs * 1000000000, by omega, hle⟩, Calendar.after_instant rfl, ?_⟩
    change (start : ℤ) < start + secs * 1000000000
    omega

/-- Months come first, and their stand-in counts only where there are none. -/
theorem months_isSome_iff (h : AddsMonths addMonths) {n : ℤ} (hn : 1 ≤ n) :
    (∃ next : Instant, (addMonths start n).or (Calendar.after start (86400 * (30 * n))) = some (next : ℤ) ∧
        start < next) ↔
      (addMonths start n).isSome ∨ start + 86400 * (30 * n) * 1000000000 ≤ Calendar.maxInstant := by
  cases hmonths : addMonths start n with
  | some next =>
    obtain ⟨hlo, hhi⟩ := h.representable _ _ _ hmonths
    exact iff_of_true ⟨⟨next, hlo, hhi⟩, rfl, BoundedInt.lt_iff.mpr (h.later _ _ _ hmonths hn)⟩ (.inl rfl)
  | none => simpa using after_isSome_iff (by omega)

end Sums

/-- For every interval that a request can set, the next execution is computed, and lies ahead,
exactly if the calendar has the instant that the interval leads to. -/
theorem schedule_moves_forward_iff (addMonths : ℤ → ℤ → Option ℤ) (hmonths : AddsMonths addMonths)
    (start : Instant) (intervalType : IntervalType) (requested : Option I32) (intervalValue : I32)
    (hvalue : readIntervalValue requested = .ok intervalValue) :
    MovesForward addMonths start intervalType intervalValue ↔
      WithinCalendar addMonths start intervalType intervalValue := by
  have hpos : (1 : ℤ) ≤ intervalValue := by
    unfold readIntervalValue at hvalue
    simp only at hvalue
    split_ifs at hvalue with hlow
    rw [← Except.ok.inj hvalue]
    exact not_lt.mp hlow
  unfold MovesForward nextExecutionAt? WithinCalendar hours
  rw [max_eq_left hpos]
  cases intervalType with
  | hourly =>
    refine (after_isSome_iff (by omega)).trans ?_
    rw [show 3600 * (intervalValue : ℤ) = intervalValue * 3600 by ring]
  | daily =>
    refine (after_isSome_iff (by omega)).trans ?_
    rw [show 86400 * (intervalValue : ℤ) = 24 * intervalValue * 3600 by ring]
  | weekly =>
    refine (after_isSome_iff (by omega)).trans ?_
    rw [show 604800 * (intervalValue : ℤ) = 7 * 24 * intervalValue * 3600 by ring]
  | monthly =>
    refine (months_isSome_iff hmonths hpos).trans ?_
    rw [show 86400 * (30 * (intervalValue : ℤ)) = 24 * (30 * intervalValue) * 3600 by ring]

def januaryOf1970 (start n : ℤ) : Option ℤ :=
  if start = 0 ∧ n = 1 then some (31 * 86400 * 1000000000) else none

theorem addsMonths_januaryOf1970 : AddsMonths januaryOf1970 where
  representable start n next h := by
    unfold januaryOf1970 at h
    split_ifs at h
    obtain rfl := Option.some.inj h
    decide
  later start n next h _ := by
    unfold januaryOf1970 at h
    split_ifs at h with hinput
    obtain rfl := Option.some.inj h
    rw [hinput.1]
    decide

theorem schedule_moves_forward_january :
    MovesForward januaryOf1970 ⟨0, by decide, by decide⟩ .monthly 1 :=
  (schedule_moves_forward_iff januaryOf1970 addsMonths_januaryOf1970 ⟨0, by decide, by decide⟩ .monthly none
    ⟨1, by norm_num, by norm_num⟩ rfl).mpr (by decide)

/-- The most days that a request of 2026 can set end after the last year of the calendar. -/
theorem schedule_leaves_calendar :
    readIntervalValue (some ⟨2147483647, by norm_num, by norm_num⟩) =
        .ok ⟨2147483647, by norm_num, by norm_num⟩ ∧
      nextExecutionAt? januaryOf1970 1780000000000000000 .daily 2147483647 = none ∧
      ¬ MovesForward januaryOf1970 ⟨1780000000000000000, by decide, by decide⟩ .daily 2147483647 := by
  have hpanic : nextExecutionAt? januaryOf1970 1780000000000000000 .daily 2147483647 = none := by decide
  refine ⟨rfl, hpanic, ?_⟩
  rintro ⟨next, hnext, -⟩
  exact Option.some_ne_none _ (hnext.symm.trans hpanic)

end TradingService.Recurring
