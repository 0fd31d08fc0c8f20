import TradingService.Core.Chain
import TradingService.Core.Charges
import TradingService.Core.DecimalPrices
import TradingService.Engine.Types

/-!
# Admission policy

The rules that an order has to meet before it is inserted: its price, its lifetime,
the meter behind a sell and the floor of its price. Instants are nanoseconds since
1970 and durations are nanoseconds too; both have the range of the calendar library.
-/

namespace TradingService

inductive OrderSide
  | buy
  | sell
  deriving DecidableEq, Repr

inductive OrderType
  | limit
  | market
  deriving DecidableEq

inductive MarketSegment
  | realtime
  | interval
  deriving DecidableEq, Repr

namespace Calendar

def minInstant : ℤ := -8334601228800 * 1000000000

def maxInstant : ℤ := 8210266876799 * 1000000000 + 999999999

def instant? (t : ℤ) : Option ℤ := if minInstant ≤ t ∧ t ≤ maxInstant then some t else none

/-- `DateTime::from_timestamp(secs, 0)`. -/
def fromTimestamp (secs : ℤ) : Option ℤ := instant? (secs * 1000000000)

def trySeconds (secs : ℤ) : Option ℤ :=
  if -9223372036854775 ≤ secs ∧ secs ≤ 9223372036854775 then some (secs * 1000000000) else none

/-- `now + secs`, where both steps can leave the range. -/
def after (now secs : ℤ) : Option ℤ := (trySeconds secs).bind fun d => instant? (now + d)

theorem after_eq_some {now secs t : ℤ} (h : after now secs = some t) :
    t = now + secs * 1000000000 := by
  obtain ⟨d, hd, hsum⟩ := Option.bind_eq_some_iff.mp h
  unfold trySeconds at hd
  unfold instant? at hsum
  split_ifs at hd hsum
  rw [← Option.some.inj hsum, ← Option.some.inj hd]

end Calendar

namespace OrderPolicy

/-- The bid of a market buy that names no cap. -/
def marketBuyCeilingBid : Decimal := 1000000

inductive OrderPriceError
  | marketSellUnsupported
  | fokSellUnsupported
  | marketGtc
  | marketCapNonPositive
  | limitMissingPrice
  | limitNonPositive
  deriving DecidableEq

def OrderPriceError.message : OrderPriceError → String
  | .marketSellUnsupported => "market sell orders are not supported (the matcher prices at the resting ask); submit a limit sell"
  | .fokSellUnsupported => "fill-or-kill sell orders are not supported (the matcher fills a resting sell incrementally); use gtc or ioc"
  | .marketGtc => "market orders are immediate — use ioc or fok (gtc would rest a max-price bid)"
  | .marketCapNonPositive => "price_per_kwh (market buy slippage cap) must be positive"
  | .limitMissingPrice => "price_per_kwh is required for limit orders"
  | .limitNonPositive => "price_per_kwh must be positive"

def resolveOrderPrice (orderType : OrderType) (side : OrderSide) (timeInForce : TimeInForce)
    (priceInput : Option Decimal) : Except OrderPriceError Decimal :=
  if side = .sell ∧ timeInForce = .fok then .error .fokSellUnsupported
  else match orderType with
    | .market =>
      if side = .sell then .error .marketSellUnsupported
      else if timeInForce = .gtc then .error .marketGtc
      else match priceInput with
        | some cap => if cap ≤ 0 then .error .marketCapNonPositive else .ok cap
        | none => .ok marketBuyCeilingBid
    | .limit =>
      match priceInput with
      | none => .error .limitMissingPrice
      | some p => if p ≤ 0 then .error .limitNonPositive else .ok p

inductive OrderExpiryError
  | bothForms
  | signedConflict
  | notInFuture
  | beyondMaxTtl
  deriving DecidableEq

def OrderExpiryError.message : OrderExpiryError → String
  | .bothForms => "send either expires_at or expires_in_secs, not both"
  | .signedConflict => "expires_at/expires_in_secs must not be sent with signed_expires_at — the signed expiry is authoritative"
  | .notInFuture => "expiry must be in the future"
  | .beyondMaxTtl => "expiry exceeds the maximum order lifetime (ORDER_MAX_TTL_SECS)"

structure OrderExpiryConfig where
  defaultTtlSecs : U64
  maxTtlSecs : U64
  default_pos : (0 : ℤ) < defaultTtlSecs
  default_le_max : (defaultTtlSecs : ℤ) ≤ maxTtlSecs

def OrderExpiryConfig.shipped : OrderExpiryConfig where
  defaultTtlSecs := ⟨900, by omega, by omega⟩
  maxTtlSecs := ⟨604800, by omega, by omega⟩
  default_pos := by decide
  default_le_max := by decide

/-- `i64::try_from(secs).unwrap_or(i64::MAX)`. -/
def ttlSeconds (secs : U64) : ℤ := min (secs : ℤ) 9223372036854775807

def checkWindow (now expiry : ℤ) (maxTtlSecs : U64) : Except OrderExpiryError ℤ :=
  if expiry ≤ now then .error .notInFuture
  else match Calendar.after now (ttlSeconds maxTtlSecs) with
    | none => .error .beyondMaxTtl
    | some horizon => if horizon < expiry then .error .beyondMaxTtl else .ok expiry

def resolveExpiresAt (now : ℤ) (requestedAt : Option ℤ) (requestedTtlSecs signedExpiresAt : Option I64)
    (config : OrderExpiryConfig) : Except OrderExpiryError ℤ :=
  match signedExpiresAt with
  | some signed =>
    if requestedAt.isSome ∨ requestedTtlSecs.isSome then .error .signedConflict
    else match Calendar.fromTimestamp signed with
      | none => .error .notInFuture
      | some signedAt => checkWindow now signedAt config.maxTtlSecs
  | none =>
    match requestedAt, requestedTtlSecs with
    | some _, some _ => .error .bothForms
    | some expiry, none => checkWindow now expiry config.maxTtlSecs
    | none, some ttl =>
      if (ttl : ℤ) ≤ 0 then .error .notInFuture
      else match Calendar.after now ttl with
        | none => .error .beyondMaxTtl
        | some expiry => checkWindow now expiry config.maxTtlSecs
    -- The default is not held against the maximum.
    | none, none =>
      match Calendar.after now (ttlSeconds config.defaultTtlSecs) with
      | none => .error .beyondMaxTtl
      | some expiry => .ok expiry

structure MeterIdentity where
  meterId : Uuid
  userId : Uuid
  isVerified : Bool
  deriving DecidableEq

inductive SellEligibilityError
  | meterNotOwned
  | meterUnverified
  | noVerifiedMeter
  deriving DecidableEq

def SellEligibilityError.message : SellEligibilityError → String
  | .meterNotOwned => "the meter named on this order is not registered to you"
  | .meterUnverified => "this meter is not verified — verify it (POST /api/v1/me/meters/\x7bserial\x7d/verify) before opening a sell order"
  | .noVerifiedMeter => "you have no verified meter — register a meter and verify it (POST /api/v1/me/meters/\x7bserial\x7d/verify) before selling energy"

def needsAnyVerifiedMeterLookup (side : OrderSide) (meter : Option MeterIdentity) : Bool :=
  side = .sell ∧ meter = none

def checkSellEligibility (seller : Uuid) (side : OrderSide) (meter : Option MeterIdentity)
    (sellerHasVerifiedMeter : Bool) : Except SellEligibilityError Unit :=
  if side ≠ .sell then .ok ()
  else match meter with
    | none => if sellerHasVerifiedMeter then .ok () else .error .noVerifiedMeter
    | some meter =>
      if meter.userId ≠ seller then .error .meterNotOwned
      else if meter.isVerified then .ok () else .error .meterUnverified

inductive SellPriceFloorError
  | belowSettleableFloor (price floor : Decimal)
  | tariffAdmitsNoPrice
  | belowMarketMinimum (price minimum : Decimal)
  deriving DecidableEq

def SellPriceFloorError.message (render : Decimal → String) : SellPriceFloorError → String
  | .belowSettleableFloor price floor =>
    let ask := render price
    let least := render floor
    s!"ask {ask} is below the minimum settleable price of {least} per kWh: the flat wheeling charge would exceed the network-charge cap and every match on this order would be rejected on-chain"
  | .tariffAdmitsNoPrice => "the current wheeling/loss tariff leaves no headroom under the network-charge cap, so no sell order can settle at any price — contact the operator"
  | .belowMarketMinimum price minimum =>
    let ask := render price
    let least := render minimum
    s!"ask {ask} is below the market minimum of {least} per kWh"

def checkSellPriceFloor (side : OrderSide) (price marketMinimum : Decimal)
    (settleableFloor : Option Decimal) : Except SellPriceFloorError Unit :=
  if side ≠ .sell then .ok ()
  else match settleableFloor with
    | none => .error .tariffAdmitsNoPrice
    | some floor =>
      if price < floor then .error (.belowSettleableFloor price floor)
      else if price < marketMinimum then .error (.belowMarketMinimum price marketMinimum)
      else .ok ()

def maxNetworkChargeBps : ℤ := 2000

/-- The floor is rounded up at the sixth place. -/
def minSettleablePricePerKwh (rates : ChargeRates) : Option Decimal :=
  if rates.wheelingPerKwh = 0 then some 0
  else
    let headroomBps : Decimal := maxNetworkChargeBps - (rates.lossBps.toNat : ℤ)
    if headroomBps ≤ 0 then none
    else some (⌈rates.wheelingPerKwh * ChargeRates.bps / headroomBps * 1000000⌉ / 1000000)

def currencyAtomicPerUnit : ℤ := 1000000

inductive BuyFundingRequirement
  | none
  /-- A market buy without a cap: its spend has no bound. -/
  | nonZero
  | atomic (required : U64)
  deriving DecidableEq

inductive BuyFundingError
  | noWallet
  | insufficientFunds (requiredAtomic availableAtomic : U64)
  deriving DecidableEq

def BuyFundingError.message (render : Decimal → String) : BuyFundingError → String
  | .noWallet => "you have no on-chain wallet — link a wallet before buying energy"
  | .insufficientFunds requiredAtomic availableAtomic =>
    let most := render ((requiredAtomic : ℤ) / currencyAtomicPerUnit)
    let held := render ((availableAtomic : ℤ) / currencyAtomicPerUnit)
    s!"insufficient currency balance: this order can spend up to {most} but the wallet holds {held}"

/-- A cost that does not fit is the greatest one. -/
def costAtomic (A : DecimalArithmetic) (matchingPrice amount : Decimal) : U64 :=
  ((A.checkedMul matchingPrice amount).bind (A.checkedMul · currencyAtomicPerUnit)).elim
    BoundedInt.top fun c => (BoundedInt.tryFrom ⌈c⌉).getD BoundedInt.top

def requiredBuyFunding (A : DecimalArithmetic) (side : OrderSide) (orderType : OrderType)
    (explicitPrice : Option Decimal) (matchingPrice amount : Decimal) : BuyFundingRequirement :=
  if side ≠ .buy then .none
  else if orderType = .market ∧ explicitPrice.isNone then .nonZero
  else .atomic (costAtomic A matchingPrice amount)

def checkBuyFunding (requirement : BuyFundingRequirement) (availableAtomic : U64) :
    Except BuyFundingError Unit :=
  match requirement with
  | .none => .ok ()
  | .nonZero =>
    if (0 : ℤ) < availableAtomic then .ok ()
    else .error (.insufficientFunds ⟨1, by norm_num, by norm_num⟩ availableAtomic)
  | .atomic requiredAtomic =>
    if requiredAtomic ≤ availableAtomic then .ok ()
    else .error (.insufficientFunds requiredAtomic availableAtomic)

end OrderPolicy

end TradingService
