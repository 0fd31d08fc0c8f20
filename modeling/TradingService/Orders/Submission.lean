import TradingService.Ledger.Database
import TradingService.Lib.Checks

/-!
# The three entry paths

What the REST edge, the gRPC edge and the evaluator of recurring rules build before
they insert an order. The words of a request are read already, an unknown one is kept
as an error. `Moment` is what a path meets while it handles a request: the clock, the
tariff, the meters and the answers of the other services.
-/

namespace TradingService

open OrderPolicy

structure ServiceConfig where
  perUserEscrowSettlement : Bool
  tradeSettlementEnabled : Bool
  orderExpiry : OrderExpiryConfig
  minPricePerKwh : Decimal

structure TradingOrder where
  id : Uuid
  userId : Uuid
  orderType : OrderType
  side : OrderSide
  energyAmount : Decimal
  pricePerKwh : Decimal
  status : OrderStatus
  expiresAt : Option ℤ
  epochId : Option Uuid
  zoneId : ZoneId
  meterId : Option Uuid
  orderPda : Option String
  sessionToken : Option String
  timeInForce : TimeInForce
  marketSegment : MarketSegment
  deriving DecidableEq

/-- An instant as a column keeps it: whole microseconds, counted from the year 2000. -/
def storeInstant (t : ℤ) : ℤ := 946684800000000000 + (t - 946684800000000000).tdiv 1000 * 1000

/-- The row as its columns hold it. The creation time is not among the inserted
columns and takes its default. -/
def TradingOrder.store (order : TradingOrder) (now : ℤ) : Option OrderRow := do
  let energyAmount ← Numeric.store order.energyAmount
  let pricePerKwh ← Numeric.store order.pricePerKwh
  return {
    id := order.id
    userId := order.userId
    epochId := order.epochId
    orderType := order.orderType
    side := order.side
    energyAmount := energyAmount
    pricePerKwh := pricePerKwh
    filledAmount := some Numeric.zero
    status := order.status
    zoneId := order.zoneId
    createdAt := some now
    expiresAt := order.expiresAt.map storeInstant
    timeInForce := order.timeInForce
    marketSegment := order.marketSegment
    orderPda := order.orderPda
    sessionToken := order.sessionToken
    signature := none }

theorem storeInstant_le {t : ℤ} (h : 946684800000000000 ≤ t) : storeInstant t ≤ t := by
  unfold storeInstant
  rw [Int.tdiv_eq_ediv_of_nonneg (by omega)]
  omega

structure TradingOrder.HeldBy (order : TradingOrder) (row : OrderRow) : Prop where
  id : row.id = order.id
  userId : row.userId = order.userId
  epochId : row.epochId = order.epochId
  orderType : row.orderType = order.orderType
  side : row.side = order.side
  energyAmount : Numeric.store order.energyAmount = some row.energyAmount
  pricePerKwh : Numeric.store order.pricePerKwh = some row.pricePerKwh
  zoneId : row.zoneId = order.zoneId
  expiresAt : row.expiresAt = order.expiresAt.map storeInstant
  timeInForce : row.timeInForce = order.timeInForce
  marketSegment : row.marketSegment = order.marketSegment
  orderPda : row.orderPda = order.orderPda

theorem TradingOrder.heldBy_of_store {order : TradingOrder} {now : ℤ} {row : OrderRow}
    (h : order.store now = some row) : order.HeldBy row := by
  obtain ⟨energyAmount, henergy, h⟩ := Option.bind_eq_some_iff.mp h
  obtain ⟨pricePerKwh, hprice, h⟩ := Option.bind_eq_some_iff.mp h
  obtain rfl := Option.some.inj h
  exact ⟨rfl, rfl, rfl, rfl, rfl, henergy, hprice, rfl, rfl, rfl, rfl, rfl⟩

def Database.insertOrderWithEvent (db : Database) (order : TradingOrder) (now : ℤ) :
    Option Database :=
  (order.store now).bind db.insertOrder

theorem Database.insertOrderWithEvent_eq_some {db db' : Database} {order : TradingOrder} {now : ℤ}
    (h : db.insertOrderWithEvent order now = some db') :
    ∃ row, db'.orders.rows = row :: db.orders.rows ∧ order.HeldBy row ∧
      (∀ o ∈ db.orders.rows, o.id ≠ order.id) ∧ 0 < row.pricePerKwh.toDecimal := by
  obtain ⟨row, hstore, hins⟩ := Option.bind_eq_some_iff.mp h
  obtain ⟨hid, huser, hepoch, htype, hside, henergy, hprice, hzone, hexpiry, htif, hsegment, hpda⟩ :=
    TradingOrder.heldBy_of_store hstore
  obtain ⟨hrows, hfresh, _⟩ := Database.insertOrder_eq_some hins
  unfold Database.insertOrder at hins
  split_ifs at hins with hcheck
  exact ⟨_, hrows, ⟨hid, huser, hepoch, htype, hside, henergy, hprice, hzone, hexpiry, htif, hsegment,
    hpda⟩, fun o ho => hid ▸ hfresh o ho, hcheck.2⟩

inductive StatusCode
  | badRequest
  | paymentRequired
  | forbidden
  | unprocessableEntity
  | internalServerError
  | invalidArgument
  | permissionDenied
  | failedPrecondition
  | internal
  deriving DecidableEq

structure Refusal where
  status : StatusCode
  message : String
  deriving DecidableEq

structure Meter where
  serial : String
  identity : MeterIdentity

/-- What a path meets while it handles a request. The insert comes last, after the other
services have been waited for. -/
structure Moment where
  now : ℤ
  /-- The clock of the database at the insert. -/
  insertedAt : ℤ
  waits : now ≤ insertedAt
  newId : Uuid
  rates : ChargeRates
  meters : List Meter
  /-- The error of the meter queries, if they fail. -/
  meterError : Option String
  arithmetic : DecimalArithmetic
  /-- The wallet that the funding gate is told of. -/
  payer : Except String (Option String)
  balance : String → Except String U64
  /-- The wallet that is told where a signature is verified. -/
  wallet : Except String (Option String)
  /-- `bs58::decode`, if it yields thirty-two bytes. -/
  walletBytes : String → Option (Vector UInt8 32)
  verify : String → String → List UInt8 → Except String Unit
  placement : Except String (String × String)
  epoch : Except String Uuid
  render : Decimal → String

namespace Moment

variable (moment : Moment)

def askMeters {α : Type} (answer : α) : Except String α :=
  match moment.meterError with
  | some e => .error e
  | none => .ok answer

def lookupBySerial (serial : String) : Except String (Option MeterIdentity) :=
  moment.askMeters ((moment.meters.find? (·.serial = serial)).map (·.identity))

def lookupById (id : Uuid) : Except String (Option MeterIdentity) :=
  moment.askMeters ((moment.meters.find? (·.identity.meterId = id)).map (·.identity))

def hasVerifiedMeter (userId : Uuid) : Except String Bool :=
  moment.askMeters (moment.meters.any fun m => m.identity.userId = userId ∧ m.identity.isVerified)

def anyVerifiedMeter (userId : Uuid) (side : OrderSide) (meter : Option MeterIdentity) :
    Except String Bool :=
  if needsAnyVerifiedMeterLookup side meter then moment.hasVerifiedMeter userId else .ok false

/-- The funding gate. It is open where the wallet or the balance cannot be read. -/
def checkFunding (refusal : BuyFundingError → Refusal) (requirement : BuyFundingRequirement) :
    Except Refusal Unit :=
  if requirement = .none then .ok ()
  else match moment.payer with
    | .error _ => .ok ()
    | .ok none => .error (refusal .noWallet)
    | .ok (some wallet) =>
      match moment.balance wallet with
      | .error _ => .ok ()
      | .ok available => (checkBuyFunding requirement available).mapError refusal

end Moment

def defaultTimeInForce : OrderType → TimeInForce
  | .market => .ioc
  | .limit => .gtc

def refuse (status : StatusCode) (message : String) : Refusal := ⟨status, message⟩

namespace Rest

structure SubmitOrderRequest where
  energyAmountKwh : Except String Decimal
  side : Option OrderSide
  orderType : OrderType
  timeInForce : Option (Except String TimeInForce)
  pricePerKwh : Option (Except String Decimal)
  marketSegment : Option (Except String MarketSegment)
  meterSerial : Option String
  meterId : Option Uuid
  zoneId : I32
  custodialSign : Option Bool
  expiresAt : Option ℤ
  expiresInSecs : Option I64
  orderId : Option Uuid
  walletSignature : Option String
  signedExpiresAt : Option I64

structure Terms where
  amount : Decimal
  side : OrderSide
  timeInForce : TimeInForce
  priceInput : Option Decimal
  price : Decimal
  marketSegment : MarketSegment

def jsonEscape (c : Char) : List Char :=
  if c = '"' ∨ c = '\\' then ['\\', c]
  else if c = '\n' then ['\\', 'n']
  else if c = '\r' then ['\\', 'r']
  else if c = '\t' then ['\\', 't']
  else if c.toNat = 8 then ['\\', 'b']
  else if c.toNat = 12 then ['\\', 'f']
  else if c.toNat < 32 then
    ['\\', 'u', '0', '0', Nat.digitChar (c.toNat / 16), Nat.digitChar (c.toNat % 16)]
  else [c]

def gateRefusal (message : String) : String :=
  let text := String.ofList (message.toList.flatMap jsonEscape)
  s!"\x7b\"error\":\"{text}\"\x7d"

def required {α : Type} (field : Option α) (message : String) : Except Refusal α :=
  match field with
  | some value => .ok value
  | none => .error (refuse .badRequest message)

def readTimeInForce (req : SubmitOrderRequest) : Except Refusal TimeInForce :=
  match req.timeInForce with
  | none => .ok (defaultTimeInForce req.orderType)
  | some word => word.mapError fun other =>
    refuse .badRequest s!"Invalid time_in_force: {other} (expected gtc|ioc|fok)"

def readPrice (req : SubmitOrderRequest) : Except Refusal (Option Decimal) :=
  match req.pricePerKwh with
  | none => .ok none
  | some raw => (raw.map some).mapError fun e => refuse .badRequest s!"Invalid price_per_kwh: {e}"

def readMarketSegment (req : SubmitOrderRequest) : Except Refusal MarketSegment :=
  match req.marketSegment with
  | none => .ok .realtime
  | some word => word.mapError fun other =>
    refuse .badRequest s!"Invalid market_segment: {other} (expected realtime|interval)"

def readTerms (req : SubmitOrderRequest) : Except Refusal Terms := do
  let amount ← req.energyAmountKwh.mapError fun e =>
    refuse .badRequest s!"Invalid energy_amount_kwh: {e}"
  let side ← required req.side "Invalid side"
  let timeInForce ← readTimeInForce req
  let priceInput ← readPrice req
  let price ← (resolveOrderPrice req.orderType side timeInForce priceInput).mapError
    fun (e : OrderPriceError) => refuse .badRequest e.message
  let marketSegment ← readMarketSegment req
  if marketSegment = .interval ∧ timeInForce ≠ .gtc then
    .error (refuse .badRequest "interval orders must be gtc (ioc/fok require continuous matching)")
  else .ok ⟨amount, side, timeInForce, priceInput, price, marketSegment⟩

/-- A wallet that is not linked is forbidden, one that does not hold enough is asked to pay. -/
def fundingRefusal (render : Decimal → String) (e : BuyFundingError) : Refusal :=
  match e with
  | .noWallet => refuse .forbidden (gateRefusal (e.message render))
  | .insufficientFunds _ _ => refuse .paymentRequired (gateRefusal (e.message render))

variable (config : ServiceConfig) (moment : Moment) (userId : Uuid) (req : SubmitOrderRequest)

def resolveMeter : Except Refusal (Option MeterIdentity) :=
  match req.meterSerial, req.meterId with
  | some serial, _ => do
    let found ← (moment.lookupBySerial serial).mapError fun e =>
      refuse .internalServerError s!"Database error: {e}"
    let meter ← required found s!"unknown meter_serial: {serial}"
    return some meter
  | none, some id => do
    let found ← (moment.lookupById id).mapError fun e =>
      refuse .internalServerError s!"Database error: {e}"
    let shown := id.display
    let meter ← required found s!"unknown meter_id: {shown}"
    return some meter
  | none, none => .ok none

/-- The gates of a sell, and the funding gate of a buy. -/
def checkGates (terms : Terms) (meter : Option MeterIdentity) : Except Refusal Unit := do
  let hasVerifiedMeter ← (moment.anyVerifiedMeter userId terms.side meter).mapError fun e =>
    refuse .internalServerError s!"Database error: {e}"
  (checkSellEligibility userId terms.side meter hasVerifiedMeter).mapError
    fun (e : SellEligibilityError) => refuse .forbidden (gateRefusal e.message)
  (checkSellPriceFloor terms.side terms.price config.minPricePerKwh
    (minSettleablePricePerKwh moment.rates)).mapError
    fun (e : SellPriceFloorError) => refuse .badRequest (e.message moment.render)
  moment.checkFunding (fundingRefusal moment.render) (requiredBuyFunding moment.arithmetic terms.side
    req.orderType terms.priceInput terms.price terms.amount)

structure SignedOrder where
  orderId : Uuid
  walletSignature : String
  signedExpiresAt : I64

/-- The message is rebuilt from the values that are about to be stored. -/
def verifySignature (terms : Terms) : Except Refusal SignedOrder := do
  let orderId ← required req.orderId
    "order_id is required when per-user escrow settlement is enabled"
  let walletSignature ← required req.walletSignature
    "wallet_signature is required when per-user escrow settlement is enabled"
  let signedExpiresAt ← required req.signedExpiresAt
    "signed_expires_at is required when per-user escrow settlement is enabled"
  let linked ← moment.wallet.mapError fun e =>
    refuse .internalServerError s!"Failed to resolve wallet: {e}"
  let wallet ← required linked "no on-chain wallet linked to this account"
  let walletBytes ← (moment.walletBytes wallet).elim
    (.error (refuse .internalServerError "linked wallet is not a valid Ed25519 public key")) .ok
  let energyBase ← required (BaseUnits.energyToBaseUnits terms.amount)
    "energy_amount_kwh is out of range"
  let priceBase ← required (BaseUnits.currencyToBaseUnits terms.price)
    "price_per_kwh is out of range"
  let side := match terms.side with
    | .buy => OffchainPayload.sideBuy
    | .sell => OffchainPayload.sideSell
  let message := OffchainPayload.messageFor orderId walletBytes energyBase priceBase side
    (req.zoneId : ℤ).toNat signedExpiresAt
  (moment.verify wallet walletSignature message).mapError (refuse .badRequest)
  return ⟨orderId, walletSignature, signedExpiresAt⟩

def signedOrder (terms : Terms) : Except Refusal (Option SignedOrder) :=
  if config.perUserEscrowSettlement then (verifySignature moment req terms).map some else .ok none

/-- The custodial placement: a PDA, none without a verdict, and a refusal after a
rejection. It is left out in per-user mode. -/
def custodialPlacement : Except Refusal (Option String) :=
  if !config.perUserEscrowSettlement &&
      (config.tradeSettlementEnabled || req.custodialSign.getD false) then
    match moment.placement with
    | .ok (_, pda) => .ok (some pda)
    | .error msg =>
      if isDeterministicChainRejection msg then
        let zone := (req.zoneId : ℤ)
        .error (refuse .unprocessableEntity s!"on-chain placement was rejected by the trading program, so this order cannot be accepted: {msg}. If this is a zone-market error (Custom 3007), zone {zone} has no initialized market — see scripts/init-zones.sh.")
      else .ok none
  else .ok none

def buildOrder (terms : Terms) (meter : Option MeterIdentity) (signed : Option SignedOrder)
    (expiresAt : ℤ) (orderPda : Option String) (epochId : Uuid) : TradingOrder where
  id := (signed.map (·.orderId)).getD moment.newId
  userId := userId
  orderType := req.orderType
  side := terms.side
  energyAmount := terms.amount
  pricePerKwh := terms.price
  status := .pending
  expiresAt := some expiresAt
  epochId := some epochId
  zoneId := WithBot.some req.zoneId
  meterId := meter.map (·.meterId)
  orderPda := orderPda
  sessionToken := none
  timeInForce := terms.timeInForce
  marketSegment := terms.marketSegment

/-- `submit_order` until the insert: the order, and the signature that is written
after it. -/
def submitOrder : Except Refusal (TradingOrder × Option String) := do
  let terms ← readTerms req
  let meter ← resolveMeter moment req
  checkGates config moment userId req terms meter
  let signed ← signedOrder config moment req terms
  let expiresAt ← (resolveExpiresAt moment.now req.expiresAt req.expiresInSecs
    (signed.map (·.signedExpiresAt)) config.orderExpiry).mapError
    fun (e : OrderExpiryError) => refuse .badRequest e.message
  let orderPda ← custodialPlacement config moment req
  let epochId ← moment.epoch.mapError fun e =>
    refuse .internalServerError s!"Failed to resolve active epoch: {e}"
  return (buildOrder moment userId req terms meter signed expiresAt orderPda epochId,
    signed.map (·.walletSignature))

end Rest

namespace Grpc

/-- An absent price is sent as zero, an absent meter or token as an empty string. -/
structure SubmitOrderRequest where
  userId : Except String Uuid
  side : Option OrderSide
  orderType : OrderType
  timeInForce : Option (Option TimeInForce)
  marketSegment : Option (Option MarketSegment)
  energyAmount : Option Decimal
  pricePerKwh : Option (Option Decimal)
  meterId : Option (Except String Uuid)
  zoneId : ZoneId
  sessionToken : String
  expiresAt : Option (Except String ℤ)
  expiresInSecs : Option I64

def required {α : Type} (field : Option α) (message : String) : Except Refusal α :=
  match field with
  | some value => .ok value
  | none => .error (refuse .invalidArgument message)

def readTimeInForce (req : SubmitOrderRequest) : Except Refusal TimeInForce :=
  match req.timeInForce with
  | none => .ok (defaultTimeInForce req.orderType)
  | some word => required word "Invalid time_in_force (expected gtc|ioc|fok)"

def readMarketSegment (req : SubmitOrderRequest) : Except Refusal MarketSegment :=
  match req.marketSegment with
  | none => .ok .realtime
  | some word => required word "Invalid market_segment (expected realtime|interval)"

def readPrice (req : SubmitOrderRequest) : Except Refusal (Option Decimal) :=
  match req.pricePerKwh with
  | none => .ok none
  | some raw => (required raw "Invalid price_per_kwh").map some

def readTerms (req : SubmitOrderRequest) : Except Refusal Rest.Terms := do
  let side ← required req.side "Invalid side"
  let timeInForce ← readTimeInForce req
  let marketSegment ← readMarketSegment req
  if marketSegment = .interval ∧ timeInForce ≠ .gtc then
    .error (refuse .invalidArgument
      "interval orders must be gtc (ioc/fok require continuous matching)")
  else do
    let amount ← required req.energyAmount "Invalid energy_amount"
    let priceInput ← readPrice req
    let price ← (resolveOrderPrice req.orderType side timeInForce priceInput).mapError
      fun (e : OrderPriceError) => refuse .invalidArgument e.message
    return ⟨amount, side, timeInForce, priceInput, price, marketSegment⟩

def fundingRefusal (render : Decimal → String) (e : BuyFundingError) : Refusal :=
  match e with
  | .noWallet => refuse .permissionDenied (e.message render)
  | .insufficientFunds _ _ => refuse .failedPrecondition (e.message render)

variable (config : ServiceConfig) (moment : Moment) (req : SubmitOrderRequest)

def resolveMeter : Except Refusal (Option MeterIdentity) :=
  match req.meterId with
  | none => .ok none
  | some raw => do
    let id ← raw.mapError fun e => refuse .invalidArgument s!"Invalid meter_id: {e}"
    let found ← (moment.lookupById id).mapError fun _ => refuse .internal "Failed to resolve meter"
    let shown := id.display
    let meter ← required found s!"unknown meter_id: {shown}"
    return some meter

def checkGates (userId : Uuid) (terms : Rest.Terms) (meter : Option MeterIdentity) :
    Except Refusal Unit := do
  let hasVerifiedMeter ← (moment.anyVerifiedMeter userId terms.side meter).mapError fun _ =>
    refuse .internal "Failed to resolve meter"
  (checkSellEligibility userId terms.side meter hasVerifiedMeter).mapError
    fun (e : SellEligibilityError) => refuse .permissionDenied e.message
  (checkSellPriceFloor terms.side terms.price config.minPricePerKwh
    (minSettleablePricePerKwh moment.rates)).mapError
    fun (e : SellPriceFloorError) => refuse .invalidArgument (e.message moment.render)
  moment.checkFunding (fundingRefusal moment.render) (requiredBuyFunding moment.arithmetic terms.side
    req.orderType terms.priceInput terms.price terms.amount)

def readExpiresAt : Except Refusal (Option ℤ) :=
  match req.expiresAt with
  | none => .ok none
  | some raw => (raw.map some).mapError fun e =>
    refuse .invalidArgument s!"Invalid expires_at (expected RFC 3339): {e}"

def buildOrder (userId : Uuid) (terms : Rest.Terms) (meter : Option MeterIdentity) (epochId : Uuid)
    (expiresAt : ℤ) : TradingOrder where
  id := moment.newId
  userId := userId
  orderType := req.orderType
  side := terms.side
  energyAmount := terms.amount
  pricePerKwh := terms.price
  status := .pending
  expiresAt := some expiresAt
  epochId := some epochId
  zoneId := req.zoneId
  meterId := meter.map (·.meterId)
  orderPda := none
  sessionToken := if req.sessionToken = "" then none else some req.sessionToken
  timeInForce := terms.timeInForce
  marketSegment := terms.marketSegment

/-- `TradingGrpcService::submit_order` until the insert. No signature is asked for. -/
def submitOrder : Except Refusal TradingOrder := do
  let userId ← req.userId.mapError fun e => refuse .invalidArgument s!"Invalid user_id: {e}"
  let terms ← readTerms req
  let meter ← resolveMeter moment req
  checkGates config moment req userId terms meter
  let epochId ← moment.epoch.mapError fun _ => refuse .internal "Failed to resolve active epoch"
  let requestedExpiresAt ← readExpiresAt req
  let expiresAt ← (resolveExpiresAt moment.now requestedExpiresAt req.expiresInSecs none
    config.orderExpiry).mapError fun (e : OrderExpiryError) => refuse .invalidArgument e.message
  return buildOrder moment req userId terms meter epochId expiresAt

end Grpc

namespace Recurring

structure RecurringOrder where
  userId : Uuid
  side : OrderSide
  energyAmount : Decimal
  maxPricePerKwh : Option Decimal
  minPricePerKwh : Option Decimal

/-- The bound of the rule's side. A rule without it is skipped. -/
def RecurringOrder.price (rule : RecurringOrder) : Option Decimal :=
  match rule.side with
  | .buy => rule.maxPricePerKwh
  | .sell => rule.minPricePerKwh

def placeOrder (moment : Moment) (rule : RecurringOrder) (price : Decimal) (epochId : Uuid) :
    TradingOrder where
  id := moment.newId
  userId := rule.userId
  orderType := .limit
  side := rule.side
  energyAmount := rule.energyAmount
  pricePerKwh := price
  status := .pending
  expiresAt := some (moment.now + 86400 * 1000000000)
  epochId := some epochId
  zoneId := ⊥
  meterId := none
  orderPda := none
  sessionToken := none
  timeInForce := .gtc
  marketSegment := .realtime

end Recurring

inductive EntryRequest
  | rest (userId : Uuid) (req : Rest.SubmitOrderRequest)
  | grpc (req : Grpc.SubmitOrderRequest)
  | recurring (rule : Recurring.RecurringOrder)

def EntryRequest.order (config : ServiceConfig) (moment : Moment) : EntryRequest → Option TradingOrder
  | .rest userId req => ((Rest.submitOrder config moment userId req).toOption).map (·.1)
  | .grpc req => (Grpc.submitOrder config moment req).toOption
  | .recurring rule =>
    match moment.epoch, rule.price with
    | .ok epochId, some price => some (Recurring.placeOrder moment rule price epochId)
    | _, _ => none

end TradingService
