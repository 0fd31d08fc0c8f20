import TradingService.Orders.Lifetimes
import TradingService.Settlement.Repository

/-!
# Who takes an order for expired

The engine compares an expiry with the clock as nanoseconds in sixty-four bits, the
reaper and the lapsed pre-flight compare columns in the database, and the book is
filtered after it is read. An instant that the engine cannot hold is the epoch to it.
-/

namespace TradingService

structure OrderBookEntry where
  orderId : Uuid
  userId : Uuid
  side : OrderSide
  energyAmount : Decimal
  originalAmount : Decimal
  pricePerKwh : Decimal
  createdAt : ℤ
  zoneId : ZoneId
  sessionToken : Option String
  signature : Option String
  payloadBytes : Option (List UInt8)
  timeInForce : TimeInForce

namespace OrderRow

def bookEntry (now : ℤ) (o : OrderRow) : OrderBookEntry where
  orderId := o.id
  userId := o.userId
  side := o.side
  energyAmount := o.energy - o.filled
  originalAmount := o.energy
  pricePerKwh := o.pricePerKwh.toDecimal
  createdAt := o.createdAt.getD now
  zoneId := o.zoneId
  sessionToken := o.sessionToken
  signature := none
  payloadBytes := none
  timeInForce := o.timeInForce

/-- `o.expires_at.is_none_or(|e| e > now)`. -/
def inBook (now : ℤ) (o : OrderRow) : Bool := o.expiresAt.all (now < ·)

/-- `expires_at IS NOT NULL AND expires_at <= now`. -/
def hasLapsed (now : ℤ) (o : OrderRow) : Bool := o.expiresAt.any (· ≤ now)

end OrderRow

/-- The `NOW()` of the database, whose clock counts whole microseconds. -/
def serverNow (now : ℤ) : ℤ := now / 1000 * 1000

namespace Database

def getActiveOrdersByZone (db : Database) (zoneId : I32) (now : ℤ) : List OrderBookEntry :=
  ((db.orders.rows.filter fun o => o.zoneId = (zoneId : ZoneId) ∧ o.status.isLive).filter
    (·.inBook now)).map (·.bookEntry now)

def getAllActiveOrders (db : Database) (now : ℤ) : List OrderBookEntry :=
  ((db.orders.rows.filter fun o => o.status.isLive).filter (·.inBook now)).map (·.bookEntry now)

section Book

variable {db : Database} {row : OrderRow} {now : ℤ}

theorem mem_getAllActiveOrders (hrow : row ∈ db.orders.rows) (hlive : row.status.isLive) :
    (∃ entry ∈ db.getAllActiveOrders now, entry.orderId = row.id) ↔ row.inBook now = true := by
  unfold getAllActiveOrders
  constructor
  · rintro ⟨entry, hentry, hid⟩
    obtain ⟨o, ho, rfl⟩ := List.mem_map.mp hentry
    obtain ⟨hmem, hbook⟩ := List.mem_filter.mp ho
    obtain rfl := KeyedTable.row_unique (List.mem_of_mem_filter hmem) hrow hid
    exact hbook
  · intro hbook
    refine ⟨row.bookEntry now, List.mem_map_of_mem (List.mem_filter.mpr ⟨?_, hbook⟩), rfl⟩
    exact List.mem_filter.mpr ⟨hrow, by simpa using hlive⟩

theorem mem_getActiveOrdersByZone (hrow : row ∈ db.orders.rows) (hlive : row.status.isLive)
    {zoneId : I32} (hzone : row.zoneId = zoneId) :
    (∃ entry ∈ db.getActiveOrdersByZone zoneId now, entry.orderId = row.id) ↔
      row.inBook now = true := by
  unfold getActiveOrdersByZone
  constructor
  · rintro ⟨entry, hentry, hid⟩
    obtain ⟨o, ho, rfl⟩ := List.mem_map.mp hentry
    obtain ⟨hmem, hbook⟩ := List.mem_filter.mp ho
    obtain rfl := KeyedTable.row_unique (List.mem_of_mem_filter hmem) hrow hid
    exact hbook
  · intro hbook
    refine ⟨row.bookEntry now, List.mem_map_of_mem (List.mem_filter.mpr ⟨?_, hbook⟩), rfl⟩
    exact List.mem_filter.mpr ⟨hrow, by simpa using ⟨hzone, hlive⟩⟩

end Book

/-- At the instant `now` all of the deciders say of `row` what the engine says of it, which
has it at the place `i` of its orders. -/
structure ExpiryAgrees (db : Database) (row : OrderRow) (i : ℕ) (now : ℤ) : Prop where
  reaper : isStale (storeInstant now) row = (row.toFastOrder i).isExpired (timestampNanos now)
  book : (∃ entry ∈ db.getAllActiveOrders now, entry.orderId = row.id) ↔
    (row.toFastOrder i).isExpired (timestampNanos now) = false
  zone : ∀ zoneId : I32, row.zoneId = zoneId →
    ((∃ entry ∈ db.getActiveOrdersByZone zoneId now, entry.orderId = row.id) ↔
      (row.toFastOrder i).isExpired (timestampNanos now) = false)
  lapsed : row.hasLapsed (serverNow now) = (row.toFastOrder i).isExpired (timestampNanos now)

end Database

def InEngineRange (t : ℤ) : Prop := -9223372036854775808 ≤ t ∧ t ≤ 9223372036854775807

instance (t : ℤ) : Decidable (InEngineRange t) := inferInstanceAs (Decidable (_ ∧ _))

/-- The engine takes the epoch for an instant outside of its range, and the epoch is on the
same side. The last condition matters before the year 2000 only. -/
structure Comparable (expiresAt now : ℤ) : Prop where
  expiry : ¬InEngineRange expiresAt → InEngineRange now → (expiresAt < 0 ↔ 0 ≤ now)
  clock : InEngineRange expiresAt → ¬InEngineRange now → (expiresAt ≤ 0 ↔ 0 < now)
  neither : ¬InEngineRange expiresAt → ¬InEngineRange now → expiresAt ≤ now
  truncated : storeInstant now < expiresAt ∨ expiresAt ≤ now

theorem comparable_of_inEngineRange {expiresAt now : ℤ} (he : InEngineRange expiresAt)
    (hnow : InEngineRange now) (hera : 946684800000000000 ≤ now) : Comparable expiresAt now where
  expiry hout _ := absurd he hout
  clock _ hout := absurd hnow hout
  neither hout _ := absurd he hout
  truncated := by
    have hle := storeInstant_le hera
    omega

theorem timestampNanos_coe (t : ℤ) : (timestampNanos t : ℤ) = if InEngineRange t then t else 0 := by
  unfold timestampNanos BoundedInt.tryFrom
  by_cases hin : InEngineRange t
  · rw [if_pos hin, dif_pos ⟨hin.1, hin.2⟩]
    rfl
  · rw [if_neg hin, dif_neg fun h => hin ⟨h.1, h.2⟩]
    rfl

theorem dvd_storeInstant (t : ℤ) : 1000 ∣ storeInstant t := by
  unfold storeInstant
  omega

theorem le_serverNow {e now : ℤ} (he : 1000 ∣ e) : e ≤ serverNow now ↔ e ≤ now := by
  unfold serverNow
  omega

/-- What is stored lapses no later in the database than by the clock. -/
theorem le_storeInstant {e now : ℤ} (he : 1000 ∣ e) (h : e ≤ now) : e ≤ storeInstant now := by
  obtain ⟨z, rfl⟩ := he
  unfold storeInstant
  rcases le_total 946684800000000000 now with hera | hera
  · rw [Int.tdiv_eq_ediv_of_nonneg (by omega)]
    omega
  · -- Before the year 2000 the truncation is upward.
    rw [← neg_sub, Int.neg_tdiv, Int.tdiv_eq_ediv_of_nonneg (by omega)]
    omega

theorem OrderRow.isExpired_iff {row : OrderRow} {e : ℤ} (h : row.expiresAt = some e) (i : ℕ) (now : ℤ) :
    (row.toFastOrder i).isExpired (timestampNanos now) = true ↔
      (if InEngineRange e then e else 0) ≤ if InEngineRange now then now else 0 := by
  rw [← timestampNanos_coe, ← timestampNanos_coe, ← BoundedInt.le_iff]
  simp [OrderRow.toFastOrder, FastOrder.isExpired, h]

section Agreement

variable {db : Database} {row : OrderRow} {t : Option ℤ}

theorem Database.expiryAgrees_of_none (hrow : row ∈ db.orders.rows) (hlive : row.status.isLive)
    (hexpiry : row.expiresAt = none) (i : ℕ) (now : ℤ) : db.ExpiryAgrees row i now := by
  have hengine : (row.toFastOrder i).isExpired (timestampNanos now) = false := by
    simp [OrderRow.toFastOrder, FastOrder.isExpired, hexpiry]
  have hbook : row.inBook now = true := by simp [OrderRow.inBook, hexpiry]
  constructor
  · simp [hengine, Database.isStale, hexpiry]
  · simp [hengine, Database.mem_getAllActiveOrders hrow hlive, hbook]
  · intro zoneId hzone
    simp [hengine, Database.mem_getActiveOrdersByZone hrow hlive hzone, hbook]
  · simp [hengine, OrderRow.hasLapsed, hexpiry]

/-- Of an expiry that is stored, the comparisons in the database and the filter of the book
are three comparisons with the engine's answer. -/
theorem Database.expiryAgrees_iff_of_some (hrow : row ∈ db.orders.rows) (hlive : row.status.isLive)
    {e : ℤ} (hexpiry : row.expiresAt = some e) (he : 1000 ∣ e) (i : ℕ) (now : ℤ) :
    db.ExpiryAgrees row i now ↔
      ((row.toFastOrder i).isExpired (timestampNanos now) = true ↔ e ≤ storeInstant now) ∧
        ((row.toFastOrder i).isExpired (timestampNanos now) = true ↔ e ≤ now) := by
  have hstale : Database.isStale (storeInstant now) row = true ↔ e ≤ storeInstant now := by
    simp [Database.isStale, hlive, hexpiry]
  have hbook : row.inBook now = true ↔ now < e := by simp [OrderRow.inBook, hexpiry]
  have hlapsed : row.hasLapsed (serverNow now) = true ↔ e ≤ now := by
    rw [← le_serverNow he]
    simp [OrderRow.hasLapsed, hexpiry]
  constructor
  · intro h
    refine ⟨by rw [← h.reaper, hstale], by rw [← h.lapsed, hlapsed]⟩
  · rintro ⟨hreaper, hclock⟩
    have hopen : (row.toFastOrder i).isExpired (timestampNanos now) = false ↔ now < e := by
      rw [← Bool.not_eq_true, hclock, not_le]
    constructor
    · rw [Bool.eq_iff_iff, hstale, hreaper]
    · rw [Database.mem_getAllActiveOrders hrow hlive, hbook, hopen]
    · intro zoneId hzone
      rw [Database.mem_getActiveOrdersByZone hrow hlive hzone, hbook, hopen]
    · rw [Bool.eq_iff_iff, hlapsed, hclock]

/-- The deciders agree on a live order exactly if its expiry and the clock are comparable to
the engine. -/
theorem Database.expiryAgrees_iff (hrow : row ∈ db.orders.rows) (hlive : row.status.isLive)
    (hstored : row.expiresAt = t.map storeInstant) (i : ℕ) (now : ℤ) :
    db.ExpiryAgrees row i now ↔ ∀ e ∈ row.expiresAt, Comparable e now := by
  cases hexpiry : row.expiresAt with
  | none => simp [Database.expiryAgrees_of_none hrow hlive hexpiry i now]
  | some e =>
    have he : 1000 ∣ e := by
      rw [hexpiry] at hstored
      obtain ⟨t', _, rfl⟩ := Option.map_eq_some_iff.mp hstored.symm
      exact dvd_storeInstant t'
    have hle : e ≤ now → e ≤ storeInstant now := le_storeInstant he
    rw [Database.expiryAgrees_iff_of_some hrow hlive hexpiry he, OrderRow.isExpired_iff hexpiry]
    simp only [Option.mem_some_iff, forall_eq']
    constructor
    · rintro ⟨hreaper, hclock⟩
      constructor
      · intro hout hin
        rw [if_neg hout, if_pos hin] at hclock
        unfold InEngineRange at hout hin
        omega
      · intro hin hout
        rw [if_pos hin, if_neg hout] at hclock
        unfold InEngineRange at hout hin
        omega
      · intro hout hout'
        rw [if_neg hout, if_neg hout'] at hclock
        exact hclock.mp le_rfl
      · by_contra h
        push Not at h
        have hexpired := hreaper.mpr h.1
        exact absurd (hclock.mp hexpired) (not_le.mpr h.2)
    · intro h
      have hright : (if InEngineRange e then e else 0) ≤ (if InEngineRange now then now else 0) ↔
          e ≤ now := by
        by_cases hin : InEngineRange e
        · by_cases hin' : InEngineRange now
          · rw [if_pos hin, if_pos hin']
          · have hside := h.clock hin hin'
            rw [if_pos hin, if_neg hin']
            unfold InEngineRange at hin hin'
            omega
        · by_cases hin' : InEngineRange now
          · have hside := h.expiry hin hin'
            rw [if_neg hin, if_pos hin']
            unfold InEngineRange at hin hin'
            omega
          · have hside := h.neither hin hin'
            rw [if_neg hin, if_neg hin']
            omega
      have htruncated := h.truncated
      refine ⟨hright.trans ⟨hle, fun hreaper => ?_⟩, hright⟩
      omega

end Agreement

/-- The first instant of the year 2300, past the range of the engine. -/
def farExpiry : ℤ := 10413792000 * 1000000000

def newYear : ℤ := 1767225600 * 1000000000

def OrderPolicy.OrderExpiryConfig.longLived : OrderExpiryConfig :=
  { shipped with
    maxTtlSecs := ⟨10000000000, by omega, by omega⟩
    default_le_max := by decide }

def OrderRow.farBuy : OrderRow := { OrderRow.placed 1 .buy 5 1 with expiresAt := some farExpiry }

def Database.farBook : Database := .ofRows ⟨[.farBuy], by simp⟩ .empty

theorem Database.expiryAgrees_tomorrow :
    Database.ExpiryAgrees (.ofRows ⟨[{ OrderRow.farBuy with expiresAt := some newYear }], by simp⟩ .empty)
      { OrderRow.farBuy with expiresAt := some newYear } 0 (newYear - 1) := by
  refine (Database.expiryAgrees_iff (List.mem_singleton.mpr rfl) rfl (t := some newYear) (by decide) 0
    _).mpr ?_
  rintro _ ⟨⟩
  exact comparable_of_inEngineRange (by decide) (by decide) (by decide)

/-- The engine drops an order that expires in the year 2300, which the policy lets through. The
book goes on to show it. -/
theorem Database.far_expiry_divides :
    OrderPolicy.resolveExpiresAt newYear (some farExpiry) none none .longLived = .ok farExpiry ∧
      (OrderRow.farBuy.toFastOrder 0).isExpired (timestampNanos newYear) = true ∧
        (∃ entry ∈ Database.farBook.getAllActiveOrders newYear, entry.orderId = OrderRow.farBuy.id) ∧
          ¬Database.farBook.ExpiryAgrees .farBuy 0 newYear := by
  have hexpired : (OrderRow.farBuy.toFastOrder 0).isExpired (timestampNanos newYear) = true := by
    decide +kernel
  have hshown : ∃ entry ∈ Database.farBook.getAllActiveOrders newYear,
      entry.orderId = OrderRow.farBuy.id := by decide +kernel
  refine ⟨by decide +kernel, hexpired, hshown, fun h => ?_⟩
  have hopen := h.book.mp hshown
  rw [hexpired] at hopen
  cases hopen

end TradingService
