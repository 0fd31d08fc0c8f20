import TradingService.Core.OrderPolicy

/-!
# The expiry of an order

Four sources can name the expiry: the signature, the request as an instant, the request as a
lifetime, and the default. Every conversion from seconds and every sum is a checked one.
-/

namespace TradingService

abbrev Instant := BoundedInt Calendar.minInstant Calendar.maxInstant

namespace Calendar

theorem instant?_eq_some {t u : ℤ} : instant? t = some u ↔ (minInstant ≤ t ∧ t ≤ maxInstant) ∧ u = t := by
  unfold instant?
  split_ifs with h <;> simp [h, eq_comm]

theorem trySeconds_eq_some {secs d : ℤ} :
    trySeconds secs = some d ↔
      (-9223372036854775 ≤ secs ∧ secs ≤ 9223372036854775) ∧ d = secs * 1000000000 := by
  unfold trySeconds
  split_ifs with h <;> simp [h, eq_comm]

theorem after_eq_some_iff {now secs t : ℤ} :
    after now secs = some t ↔ (-9223372036854775 ≤ secs ∧ secs ≤ 9223372036854775) ∧
      (minInstant ≤ t ∧ t ≤ maxInstant) ∧ t = now + secs * 1000000000 := by
  unfold after
  rw [Option.bind_eq_some_iff]
  constructor
  · rintro ⟨d, hd, hsum⟩
    obtain ⟨hrange, rfl⟩ := trySeconds_eq_some.mp hd
    obtain ⟨hinstant, rfl⟩ := instant?_eq_some.mp hsum
    exact ⟨hrange, hinstant, rfl⟩
  · rintro ⟨hrange, hinstant, rfl⟩
    exact ⟨_, trySeconds_eq_some.mpr ⟨hrange, rfl⟩, instant?_eq_some.mpr ⟨hinstant, rfl⟩⟩

/-- Between two instants of the calendar no conversion can fail. -/
theorem after_instant {now expiry : Instant} {secs : ℤ} (h : (expiry : ℤ) = now + secs * 1000000000) :
    after now secs = some (expiry : ℤ) := by
  have hnow := now.lo_le
  have hnow' := now.le_hi
  have hexpiry := expiry.lo_le
  have hexpiry' := expiry.le_hi
  unfold minInstant at hnow hexpiry
  unfold maxInstant at hnow' hexpiry'
  exact after_eq_some_iff.mpr ⟨by omega, ⟨expiry.lo_le, expiry.le_hi⟩, h⟩

end Calendar

namespace OrderPolicy

theorem ttlSeconds_le (secs : U64) : ttlSeconds secs ≤ (secs : ℤ) := min_le_left _ _

theorem ttlSeconds_pos {secs : U64} (h : (0 : ℤ) < secs) : 0 < ttlSeconds secs := lt_min h (by norm_num)

/-- What the window lets through is what it was given, and it lies in the window. -/
theorem checkWindow_ok {now expiry t : ℤ} {maxTtlSecs : U64} (h : checkWindow now expiry maxTtlSecs = .ok t) :
    t = expiry ∧ now < expiry ∧ expiry ≤ now + (maxTtlSecs : ℤ) * 1000000000 := by
  unfold checkWindow at h
  split_ifs at h with hpast
  split at h
  · cases h
  next horizon hhorizon =>
    split_ifs at h with hbeyond
    have hle := ttlSeconds_le maxTtlSecs
    have heq := Calendar.after_eq_some hhorizon
    exact ⟨(Except.ok.inj h).symm, not_le.mp hpast, by omega⟩

/-- What an accepted expiry owes to what was asked for. -/
structure ExpiryKept (now : ℤ) (requestedAt : Option ℤ) (requestedTtlSecs signedExpiresAt : Option I64)
    (config : OrderExpiryConfig) (expiry : ℤ) : Prop where
  future : now < expiry
  within_max : expiry ≤ now + (config.maxTtlSecs : ℤ) * 1000000000
  signed_exact : ∀ signed, signedExpiresAt = some signed →
    expiry = (signed : ℤ) * 1000000000 ∧ requestedAt = none ∧ requestedTtlSecs = none
  absolute_exact : ∀ t, requestedAt = some t → expiry = t ∧ requestedTtlSecs = none
  relative_exact : ∀ ttl, requestedTtlSecs = some ttl → expiry = now + (ttl : ℤ) * 1000000000
  representable : (∀ t, requestedAt = some t → Calendar.minInstant ≤ t ∧ t ≤ Calendar.maxInstant) →
    Calendar.minInstant ≤ expiry ∧ expiry ≤ Calendar.maxInstant

section Resolution

variable {now expiry : ℤ} {requestedAt : Option ℤ} {requestedTtlSecs signedExpiresAt : Option I64}
  {config : OrderExpiryConfig}

theorem kept_of_signed {signed : I64}
    (h : resolveExpiresAt now requestedAt requestedTtlSecs (some signed) config = .ok expiry) :
    ExpiryKept now requestedAt requestedTtlSecs (some signed) config expiry := by
  unfold resolveExpiresAt at h
  simp only at h
  split_ifs at h with hclient
  obtain ⟨hat, httl⟩ := not_or.mp hclient
  rw [Option.not_isSome_iff_eq_none] at hat httl
  split at h
  · cases h
  next signedAt hsigned =>
    obtain ⟨hrange, rfl⟩ := Calendar.instant?_eq_some.mp hsigned
    obtain ⟨rfl, hfuture, hmax⟩ := checkWindow_ok h
    rw [hat, httl]
    exact ⟨hfuture, hmax, fun s hs => ⟨by rw [Option.some.inj hs], rfl, rfl⟩, by simp, by simp,
      fun _ => hrange⟩

theorem kept_of_absolute {requested : ℤ}
    (h : resolveExpiresAt now (some requested) requestedTtlSecs none config = .ok expiry) :
    ExpiryKept now (some requested) requestedTtlSecs none config expiry := by
  cases requestedTtlSecs with
  | some ttl => cases h
  | none =>
    obtain ⟨rfl, hfuture, hmax⟩ := checkWindow_ok h
    exact ⟨hfuture, hmax, by simp, fun t ht => ⟨Option.some.inj ht, rfl⟩, by simp,
      fun hrange => hrange _ rfl⟩

theorem kept_of_relative {ttl : I64} (h : resolveExpiresAt now none (some ttl) none config = .ok expiry) :
    ExpiryKept now none (some ttl) none config expiry := by
  unfold resolveExpiresAt at h
  simp only at h
  split_ifs at h with hpos
  split at h
  · cases h
  next reached hreached =>
    obtain ⟨_, hrange, rfl⟩ := Calendar.after_eq_some_iff.mp hreached
    obtain ⟨rfl, hfuture, hmax⟩ := checkWindow_ok h
    exact ⟨hfuture, hmax, by simp, by simp, fun t ht => by rw [Option.some.inj ht], fun _ => hrange⟩

/-- No window is held against the default: it is positive, and at most the maximum. -/
theorem kept_of_default (h : resolveExpiresAt now none none none config = .ok expiry) :
    ExpiryKept now none none none config expiry := by
  unfold resolveExpiresAt at h
  simp only at h
  split at h
  · cases h
  next reached hreached =>
    obtain rfl := Except.ok.inj h
    obtain ⟨_, hrange, rfl⟩ := Calendar.after_eq_some_iff.mp hreached
    have hpos := ttlSeconds_pos config.default_pos
    have hle := ttlSeconds_le config.defaultTtlSecs
    have hmax := config.default_le_max
    exact ⟨by omega, by omega, by simp, by simp, by simp, fun _ => hrange⟩

theorem resolveExpiresAt_kept
    (h : resolveExpiresAt now requestedAt requestedTtlSecs signedExpiresAt config = .ok expiry) :
    ExpiryKept now requestedAt requestedTtlSecs signedExpiresAt config expiry := by
  cases signedExpiresAt with
  | some signed => exact kept_of_signed h
  | none =>
    cases requestedAt with
    | some requested => exact kept_of_absolute h
    | none =>
      cases requestedTtlSecs with
      | some ttl => exact kept_of_relative h
      | none => exact kept_of_default h

/-- A lifetime is the instant that it leads to, as long as the calendar has that instant. -/
theorem resolveExpiresAt_absolute_eq_relative {now requested : Instant} {ttl : I64}
    (h : (requested : ℤ) = now + (ttl : ℤ) * 1000000000) :
    resolveExpiresAt now (some (requested : ℤ)) none none config =
      resolveExpiresAt now none (some ttl) none config := by
  unfold resolveExpiresAt
  simp only [Calendar.after_instant h]
  split_ifs with hpos
  · exact if_pos (by omega)
  · rfl

end Resolution

/-- Whatever is asked for, the resolution answers: with an error, or with an instant of the
calendar that is still to come, within the maximum, and exactly what was chosen where somebody
chose it. An instant and the lifetime that leads to it are answered alike. -/
theorem resolveExpiresAt_sound (now : Instant) (requestedAt : Option Instant)
    (requestedTtlSecs signedExpiresAt : Option I64) (config : OrderExpiryConfig) :
    ((∃ err, resolveExpiresAt now (requestedAt.map (·.val)) requestedTtlSecs signedExpiresAt config =
        .error err) ∨
      ∃ expiry : Instant,
        resolveExpiresAt now (requestedAt.map (·.val)) requestedTtlSecs signedExpiresAt config =
          .ok (expiry : ℤ) ∧
        ExpiryKept now (requestedAt.map (·.val)) requestedTtlSecs signedExpiresAt config expiry) ∧
      ∀ (requested : Instant) (ttl : I64), (requested : ℤ) = now + (ttl : ℤ) * 1000000000 →
        resolveExpiresAt now (some (requested : ℤ)) none none config =
          resolveExpiresAt now none (some ttl) none config := by
  constructor
  · cases hanswer : resolveExpiresAt now (requestedAt.map (·.val)) requestedTtlSecs signedExpiresAt
        config with
    | error err => exact .inl ⟨err, rfl⟩
    | ok expiry =>
      have hkept := resolveExpiresAt_kept hanswer
      obtain ⟨hlo, hhi⟩ := hkept.representable fun t ht => by
        obtain ⟨requested, _, rfl⟩ := Option.map_eq_some_iff.mp ht
        exact ⟨requested.lo_le, requested.le_hi⟩
      exact .inr ⟨⟨expiry, hlo, hhi⟩, rfl, hkept⟩
  · exact fun _ _ h => resolveExpiresAt_absolute_eq_relative h

theorem resolveExpiresAt_sound_shipped :
    resolveExpiresAt 0 (some 900000000000) none none .shipped =
      resolveExpiresAt 0 none (some ⟨900, by norm_num, by norm_num⟩) none .shipped :=
  (resolveExpiresAt_sound ⟨0, by decide, by decide⟩ none none none .shipped).2
    ⟨900000000000, by decide, by decide⟩ ⟨900, by norm_num, by norm_num⟩ (by decide)

end OrderPolicy

end TradingService
