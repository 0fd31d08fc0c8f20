import TradingService.Core.OrderPolicy

/-!
# Columns and rows

The stored types of the ledger. A money or energy column holds a whole number of
units of the eighth decimal, and what is written to it is rounded half away from
zero. Timestamps are instants in nanoseconds.
-/

namespace TradingService

structure Numeric where
  units : BoundedInt (-99999999999999999999) 99999999999999999999
  deriving DecidableEq

namespace Numeric

def scale : ℤ := 100000000

def toDecimal (x : Numeric) : Decimal := (x.units : ℤ) / scale

/-- The value a column takes when `d` is written to it; more than twelve digits
before the point are an error. -/
def store (d : Decimal) : Option Numeric :=
  (BoundedInt.tryFrom (Rounding.halfAway (d * scale))).map mk

def zero : Numeric := ⟨⟨0, by norm_num, by norm_num⟩⟩

def whole (n : ℕ) : Numeric := (store n).getD zero

def grid : AddSubgroup Decimal := AddSubgroup.zmultiples (1 / scale)

theorem scale_pos : (0 : ℚ) < scale := by norm_num [scale]

@[simp] theorem toDecimal_zero : zero.toDecimal = 0 := by simp [toDecimal, zero]

theorem toDecimal_mem_grid (x : Numeric) : x.toDecimal ∈ grid := by
  refine AddSubgroup.mem_zmultiples_iff.mpr ⟨(x.units : ℤ), ?_⟩
  rw [zsmul_eq_mul, toDecimal, mul_one_div]

theorem units_eq_halfAway {d : Decimal} {x : Numeric} (h : store d = some x) :
    (x.units : ℤ) = Rounding.halfAway (d * scale) := by
  obtain ⟨u, hu, rfl⟩ := Option.map_eq_some_iff.mp h
  exact BoundedInt.tryFrom_eq_some.mp hu

/-- Values with eight places are stored as they are. -/
theorem toDecimal_of_store {d : Decimal} {x : Numeric} (h : store d = some x) (hd : d ∈ grid) :
    x.toDecimal = d := by
  obtain ⟨z, rfl⟩ := AddSubgroup.mem_zmultiples_iff.mp hd
  obtain ⟨u, hu, rfl⟩ := Option.map_eq_some_iff.mp h
  have hscaled : z • (1 / (scale : ℚ)) * scale = z := by
    rw [zsmul_eq_mul, mul_assoc, one_div, inv_mul_cancel₀ scale_pos.ne', mul_one]
  rw [hscaled, Rounding.halfAway_intCast] at hu
  unfold BoundedInt.tryFrom at hu
  split_ifs at hu with hrange
  obtain rfl := Option.some.inj hu
  rw [toDecimal, zsmul_eq_mul, mul_one_div]

theorem halfAway_toDecimal (x : Numeric) : Rounding.halfAway (x.toDecimal * scale) = x.units := by
  rw [toDecimal, div_mul_cancel₀ _ scale_pos.ne', Rounding.halfAway_intCast]

theorem toDecimal_mono {x y : Numeric} (h : (x.units : ℤ) ≤ y.units) : x.toDecimal ≤ y.toDecimal := by
  unfold toDecimal
  have hcast : ((x.units : ℤ) : ℚ) ≤ (y.units : ℤ) := Int.cast_le.mpr h
  exact div_le_div_of_nonneg_right hcast scale_pos.le

theorem store_le {d : Decimal} {x y : Numeric} (h : store d = some x) (hle : d ≤ y.toDecimal) :
    x.toDecimal ≤ y.toDecimal := by
  apply toDecimal_mono
  rw [units_eq_halfAway h, ← halfAway_toDecimal y]
  exact Rounding.halfAway_mono (mul_le_mul_of_nonneg_right hle scale_pos.le)

theorem le_store {d g : Decimal} {x : Numeric} (h : store d = some x) (hg : g ∈ grid) (hle : g ≤ d) :
    g ≤ x.toDecimal := by
  obtain ⟨z, rfl⟩ := AddSubgroup.mem_zmultiples_iff.mp hg
  have hscaled : z • (1 / (scale : ℚ)) * scale = z := by
    rw [zsmul_eq_mul, mul_assoc, one_div, inv_mul_cancel₀ scale_pos.ne', mul_one]
  have hunits : z ≤ x.units := by
    rw [units_eq_halfAway h, ← Rounding.halfAway_intCast z, ← hscaled]
    exact Rounding.halfAway_mono (mul_le_mul_of_nonneg_right hle scale_pos.le)
  rw [toDecimal, zsmul_eq_mul, mul_one_div]
  exact div_le_div_of_nonneg_right (Int.cast_le.mpr hunits) scale_pos.le

end Numeric

inductive OrderStatus
  | pending
  | active
  | partiallyFilled
  | filled
  | settled
  | cancelled
  | expired
  deriving DecidableEq, Repr

/-- `status IN ('pending', 'active', 'partially_filled')`. -/
def OrderStatus.isLive : OrderStatus → Bool
  | .pending => true
  | .active => true
  | .partiallyFilled => true
  | _ => false

inductive SettlementStatus
  | pending
  | processing
  | completed
  | failed
  | permanentlyFailed
  deriving DecidableEq, Repr

structure OrderRow where
  id : Uuid
  userId : Uuid
  epochId : Option Uuid
  orderType : OrderType
  side : OrderSide
  energyAmount : Numeric
  pricePerKwh : Numeric
  filledAmount : Option Numeric
  status : OrderStatus
  zoneId : ZoneId
  createdAt : Option ℤ
  expiresAt : Option ℤ
  timeInForce : TimeInForce
  marketSegment : MarketSegment
  orderPda : Option String
  sessionToken : Option String
  signature : Option String
  deriving DecidableEq

namespace OrderRow

/-- `COALESCE(filled_amount, 0)`. -/
def filled (row : OrderRow) : Decimal := (row.filledAmount.map Numeric.toDecimal).getD 0

def energy (row : OrderRow) : Decimal := row.energyAmount.toDecimal

theorem filled_mem_grid (row : OrderRow) : row.filled ∈ Numeric.grid := by
  unfold filled
  cases row.filledAmount with
  | none => exact Numeric.grid.zero_mem
  | some x => exact x.toDecimal_mem_grid

structure InBounds (row : OrderRow) : Prop where
  filled_nonneg : 0 ≤ row.filled
  filled_le : row.filled ≤ row.energy

instance (row : OrderRow) : Decidable row.InBounds :=
  decidable_of_iff (0 ≤ row.filled ∧ row.filled ≤ row.energy) ⟨fun h => ⟨h.1, h.2⟩, fun h => ⟨h.1, h.2⟩⟩

def placed (id : Uuid) (side : OrderSide) (price energy : ℕ) : OrderRow where
  id := id
  userId := id
  epochId := some 0
  orderType := .limit
  side := side
  energyAmount := Numeric.whole energy
  pricePerKwh := Numeric.whole price
  filledAmount := none
  status := .pending
  zoneId := ⊥
  createdAt := some 0
  expiresAt := none
  timeInForce := .gtc
  marketSegment := .realtime
  orderPda := none
  sessionToken := none
  signature := none

/-- The two rows are one order, up to its fill and its status. -/
structure SameTerms (row row' : OrderRow) : Prop where
  id : row'.id = row.id
  userId : row'.userId = row.userId
  side : row'.side = row.side
  energyAmount : row'.energyAmount = row.energyAmount
  pricePerKwh : row'.pricePerKwh = row.pricePerKwh
  timeInForce : row'.timeInForce = row.timeInForce

theorem SameTerms.refl (row : OrderRow) : SameTerms row row := ⟨rfl, rfl, rfl, rfl, rfl, rfl⟩

theorem SameTerms.trans {row row' row'' : OrderRow} (h : SameTerms row row')
    (h' : SameTerms row' row'') : SameTerms row row'' :=
  ⟨h'.id.trans h.id, h'.userId.trans h.userId, h'.side.trans h.side,
    h'.energyAmount.trans h.energyAmount, h'.pricePerKwh.trans h.pricePerKwh,
    h'.timeInForce.trans h.timeInForce⟩

theorem SameTerms.energy {row row' : OrderRow} (h : SameTerms row row') : row'.energy = row.energy :=
  congrArg Numeric.toDecimal h.energyAmount

end OrderRow

structure OrderMatch (Amount : Type) where
  id : Uuid
  epochId : Uuid
  buyOrderId : Uuid
  sellOrderId : Uuid
  matchedAmount : Amount
  matchPrice : Amount
  deriving DecidableEq

structure Settlement (Amount : Type) where
  id : Uuid
  tradeId : Uuid
  epochId : Uuid
  buyerId : Uuid
  sellerId : Uuid
  buyOrderId : Uuid
  sellOrderId : Uuid
  energyAmount : Amount
  price : Amount
  totalAmount : Amount
  feeAmount : Amount
  netAmount : Amount
  wheelingCharge : Amount
  lossFactor : Amount
  lossCost : Amount
  effectiveEnergy : Amount
  buyerZoneId : ZoneId
  sellerZoneId : ZoneId
  status : SettlementStatus
  buyerSessionToken : Option String
  sellerSessionToken : Option String
  transactionHash : Option String
  retryCount : ℤ
  errorMessage : Option String
  updatedAt : ℤ
  deriving DecidableEq

def OrderMatch.store (m : OrderMatch Decimal) : Option (OrderMatch Numeric) := do
  let matchedAmount ← Numeric.store m.matchedAmount
  let matchPrice ← Numeric.store m.matchPrice
  return { m with matchedAmount := matchedAmount, matchPrice := matchPrice }

/-- The count of retries and the error are not among the inserted columns and take their
defaults. -/
def Settlement.store (s : Settlement Decimal) : Option (Settlement Numeric) := do
  let energyAmount ← Numeric.store s.energyAmount
  let price ← Numeric.store s.price
  let totalAmount ← Numeric.store s.totalAmount
  let feeAmount ← Numeric.store s.feeAmount
  let netAmount ← Numeric.store s.netAmount
  let wheelingCharge ← Numeric.store s.wheelingCharge
  let lossFactor ← Numeric.store s.lossFactor
  let lossCost ← Numeric.store s.lossCost
  let effectiveEnergy ← Numeric.store s.effectiveEnergy
  return { s with
    energyAmount := energyAmount, price := price, totalAmount := totalAmount
    feeAmount := feeAmount, netAmount := netAmount, wheelingCharge := wheelingCharge
    lossFactor := lossFactor, lossCost := lossCost, effectiveEnergy := effectiveEnergy
    retryCount := 0, errorMessage := none }

theorem OrderMatch.store_eq_some {m : OrderMatch Decimal} {row : OrderMatch Numeric}
    (h : m.store = some row) :
    row.id = m.id ∧ row.buyOrderId = m.buyOrderId ∧ row.sellOrderId = m.sellOrderId ∧
      Numeric.store m.matchedAmount = some row.matchedAmount := by
  simp only [OrderMatch.store, Option.bind_eq_bind, Option.bind_eq_some_iff] at h
  obtain ⟨amount, hamount, price, _, h⟩ := h
  obtain rfl := Option.some.inj h
  exact ⟨rfl, rfl, rfl, hamount⟩

theorem Settlement.store_eq_some {s : Settlement Decimal} {row : Settlement Numeric}
    (h : s.store = some row) :
    row.id = s.id ∧ row.status = s.status ∧ row.buyOrderId = s.buyOrderId ∧
      row.sellOrderId = s.sellOrderId ∧ Numeric.store s.energyAmount = some row.energyAmount ∧
      Numeric.store s.price = some row.price := by
  simp only [Settlement.store, Option.bind_eq_bind, Option.bind_eq_some_iff] at h
  obtain ⟨energy, henergy, price, hprice, h⟩ := h
  obtain ⟨_, _, _, _, _, _, _, _, _, _, _, _, _, _, h⟩ := h
  obtain rfl := Option.some.inj h
  exact ⟨rfl, rfl, rfl, rfl, henergy, hprice⟩

theorem Settlement.retryCount_of_store {s : Settlement Decimal} {row : Settlement Numeric}
    (h : s.store = some row) : row.retryCount = 0 := by
  simp only [Settlement.store, Option.bind_eq_bind, Option.bind_eq_some_iff] at h
  obtain ⟨_, _, _, _, _, _, _, _, _, _, _, _, _, _, _, _, _, _, h⟩ := h
  obtain rfl := Option.some.inj h
  rfl

def Settlement.between (id buyOrderId sellOrderId : Uuid) : Settlement Numeric where
  id := id
  tradeId := id
  epochId := 0
  buyerId := buyOrderId
  sellerId := sellOrderId
  buyOrderId := buyOrderId
  sellOrderId := sellOrderId
  energyAmount := .whole 1
  price := .whole 1
  totalAmount := .whole 1
  feeAmount := .zero
  netAmount := .whole 1
  wheelingCharge := .zero
  lossFactor := .zero
  lossCost := .zero
  effectiveEnergy := .whole 1
  buyerZoneId := ⊥
  sellerZoneId := ⊥
  status := .pending
  buyerSessionToken := none
  sellerSessionToken := none
  transactionHash := none
  retryCount := 0
  errorMessage := none
  updatedAt := 0

/-- The domain events, with what routes them, what the streams show of them and what the
ledger writes into them. -/
inductive Event
  | orderMatched (matchId buyOrderId sellOrderId : Uuid) (amount price : Decimal) (zoneId : ZoneId)
  | settlementRequested (settlementId : Uuid) (buyerZoneId : ZoneId)
  | orderUpdate (id : Uuid) (userId : Option Uuid) (filledAmount : Decimal) (status : OrderStatus)
      (zoneId : ZoneId)
  | peakPriceUpdate (id : Uuid) (zoneId : ZoneId)
  | triggerExecution (id : Uuid)
  | priceAlertTriggered (alertId : Uuid)
  | orderCreated (id userId : Uuid) (side : OrderSide) (status : OrderStatus) (zoneId : ZoneId)
  | ercIssued (userId : Uuid)
  | settlementProcessed (settlementId : Uuid) (txSignature : String)
  | userRegistered (userId : Uuid)
  | userOnboarded (userId : Uuid)
  | userWalletLinked (userId : Uuid)
  | oracleReading (readingId : Uuid) (zoneId : ZoneId)
  | vppDispatched (clusterId : String)
  deriving DecidableEq

end TradingService
