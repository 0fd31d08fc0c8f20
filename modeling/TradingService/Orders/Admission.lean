import TradingService.Orders.Expiries
import TradingService.Orders.PriceGates
import TradingService.Orders.Submission

/-!
# One admission policy for three paths

The two edges run every gate of the policy before they insert, and then wait for other
services; what is left to chance is that the lifetime lasts and that the columns keep the
price above the market minimum. The evaluator of recurring rules runs no gate: what it
inserts meets the policy exactly if the rule happens to.
-/

namespace TradingService

open OrderPolicy

def Moment.OwnsVerifiedMeter (moment : Moment) (userId : Uuid) : Prop :=
  ∃ m ∈ moment.meters, m.identity.userId = userId ∧ m.identity.isVerified

instance (moment : Moment) (userId : Uuid) : Decidable (moment.OwnsVerifiedMeter userId) :=
  inferInstanceAs (Decidable (∃ m ∈ moment.meters, _))

def Moment.PricesAboveFloor (config : ServiceConfig) (moment : Moment) (price : Decimal) : Prop :=
  ∃ floor, minSettleablePricePerKwh moment.rates = some floor ∧ floor ≤ price ∧
    config.minPricePerKwh ≤ price

/-- The policy that the paths share, of a row at its insert. -/
structure Admissible (config : ServiceConfig) (moment : Moment) (row : OrderRow) : Prop where
  price : resolveOrderPrice row.orderType row.side row.timeInForce (some row.pricePerKwh.toDecimal) =
    .ok row.pricePerKwh.toDecimal
  interval_gtc : row.marketSegment = .interval → row.timeInForce = .gtc
  expiry : ∃ t, row.expiresAt = some t ∧ moment.insertedAt < t ∧
    t ≤ moment.insertedAt + (config.orderExpiry.maxTtlSecs : ℤ) * 1000000000
  epoch : row.epochId.isSome
  meter : row.side = .sell → moment.OwnsVerifiedMeter row.userId
  floor : row.side = .sell → moment.PricesAboveFloor config row.pricePerKwh.toDecimal

/-- The lifetime of an order is longer than its path waits. The second condition matters before
the year 2000 only, where a column may set an expiry back by less than a microsecond. -/
structure TradingOrder.OutlastsWait (config : ServiceConfig) (moment : Moment)
    (order : TradingOrder) : Prop where
  ahead : ∀ t ∈ order.expiresAt, moment.insertedAt < storeInstant t
  cut : ∀ t ∈ order.expiresAt, t < 946684800000000000 →
    storeInstant t ≤ moment.insertedAt + (config.orderExpiry.maxTtlSecs : ℤ) * 1000000000

/-- Rounding to eight places leaves a sell above the market minimum. -/
def TradingOrder.KeepsMinimum (config : ServiceConfig) (order : TradingOrder) : Prop :=
  order.side = .sell → ∀ p ∈ Numeric.store order.pricePerKwh, config.minPricePerKwh ≤ p.toDecimal

/-- What nothing checks on the recurring path: that the lifetime of a day is within the
maximum, and the two gates of a sell. -/
structure Recurring.RecurringOrder.PassesGates (config : ServiceConfig) (moment : Moment)
    (rule : RecurringOrder) : Prop where
  day : storeInstant (moment.now + 86400 * 1000000000) ≤
    moment.insertedAt + (config.orderExpiry.maxTtlSecs : ℤ) * 1000000000
  meter : rule.side = .sell → moment.OwnsVerifiedMeter rule.userId
  floor : rule.side = .sell → ∀ price ∈ rule.minPricePerKwh, ∀ p ∈ Numeric.store price,
    moment.PricesAboveFloor config p.toDecimal

/-- What is left to chance on each path. -/
def EntryRequest.MeetsGates (config : ServiceConfig) (moment : Moment) (order : TradingOrder) :
    EntryRequest → Prop
  | .recurring rule => rule.PassesGates config moment ∧
      moment.insertedAt < storeInstant (moment.now + 86400 * 1000000000)
  | _ => order.OutlastsWait config moment ∧ order.KeepsMinimum config

section Gates

structure TradingOrder.Gated (config : ServiceConfig) (moment : Moment) (order : TradingOrder) :
    Prop where
  price : resolveOrderPrice order.orderType order.side order.timeInForce (some order.pricePerKwh) =
    .ok order.pricePerKwh
  interval_gtc : order.marketSegment = .interval → order.timeInForce = .gtc
  expiry : ∃ t, order.expiresAt = some t ∧
    t ≤ moment.now + (config.orderExpiry.maxTtlSecs : ℤ) * 1000000000
  epoch : order.epochId.isSome
  meter : order.side = .sell → moment.OwnsVerifiedMeter order.userId
  floor : order.side = .sell → moment.PricesAboveFloor config order.pricePerKwh

/-- One positive price does as well as another. -/
theorem resolveOrderPrice_of_pos {orderType : OrderType} {side : OrderSide} {tif : TimeInForce}
    {p q : Decimal} (h : resolveOrderPrice orderType side tif (some p) = .ok p) (hq : 0 < q) :
    resolveOrderPrice orderType side tif (some q) = .ok q := by
  unfold resolveOrderPrice at h ⊢
  by_cases hfok : side = .sell ∧ tif = .fok
  · rw [if_pos hfok] at h
    cases h
  rw [if_neg hfok] at h ⊢
  cases orderType with
  | market =>
    by_cases hsell : side = .sell
    · simp [hsell] at h
    by_cases hgtc : tif = .gtc
    · simp [hsell, hgtc] at h
    simp only [if_neg hsell, if_neg hgtc]
    exact if_neg (not_le.mpr hq)
  | limit => exact if_neg (not_le.mpr hq)

theorem minSettleablePricePerKwh_mem_grid {rates : ChargeRates} {floor : Decimal}
    (h : minSettleablePricePerKwh rates = some floor) : floor ∈ Numeric.grid := by
  unfold minSettleablePricePerKwh at h
  dsimp only at h
  split_ifs at h
  · obtain rfl := Option.some.inj h
    exact Numeric.grid.zero_mem
  · obtain rfl := Option.some.inj h
    refine AddSubgroup.mem_zmultiples_iff.mpr
      ⟨⌈rates.wheelingPerKwh * ChargeRates.bps /
        ((maxNetworkChargeBps : Decimal) - (rates.lossBps.toNat : ℤ)) * 1000000⌉ * 100, ?_⟩
    rw [zsmul_eq_mul]
    unfold Numeric.scale
    push_cast
    ring

theorem resolveOrderPrice_idem {orderType : OrderType} {side : OrderSide} {tif : TimeInForce}
    {input : Option Decimal} {p : Decimal} (h : resolveOrderPrice orderType side tif input = .ok p) :
    resolveOrderPrice orderType side tif (some p) = .ok p := by
  unfold resolveOrderPrice at h ⊢
  by_cases hfok : side = .sell ∧ tif = .fok
  · rw [if_pos hfok] at h
    cases h
  rw [if_neg hfok] at h ⊢
  cases orderType with
  | market =>
    by_cases hsell : side = .sell
    · simp [hsell] at h
    by_cases hgtc : tif = .gtc
    · simp [hsell, hgtc] at h
    simp only [if_neg hsell, if_neg hgtc] at h ⊢
    cases input with
    | none =>
      obtain rfl := Except.ok.inj h
      exact if_neg (by norm_num [marketBuyCeilingBid])
    | some cap =>
      simp only at h
      split_ifs at h with hcap
      obtain rfl := Except.ok.inj h
      exact if_neg hcap
  | limit =>
    cases input with
    | none => cases h
    | some q =>
      simp only at h
      split_ifs at h with hq
      obtain rfl := Except.ok.inj h
      exact if_neg hq

theorem checkSellPriceFloor_ok {config : ServiceConfig} {moment : Moment} {side : OrderSide}
    {price : Decimal}
    (h : checkSellPriceFloor side price config.minPricePerKwh
      (minSettleablePricePerKwh moment.rates) = .ok ()) (hside : side = .sell) :
    moment.PricesAboveFloor config price := by
  rw [hside] at h
  exact checkSellPriceFloor_admitted h

def Moment.Knows (moment : Moment) (meter : Option MeterIdentity) : Prop :=
  ∀ m ∈ meter, ∃ row ∈ moment.meters, row.identity = m

theorem Moment.askMeters_ok {α : Type} {moment : Moment} {answer a : α}
    (h : moment.askMeters answer = .ok a) : a = answer := by
  unfold Moment.askMeters at h
  split at h
  · cases h
  · exact (Except.ok.inj h).symm

theorem Moment.knows_of_find {moment : Moment} {p : Meter → Bool} {m : MeterIdentity}
    (h : (moment.meters.find? p).map (·.identity) = some m) : moment.Knows (some m) := by
  obtain ⟨row, hrow, hid⟩ := Option.map_eq_some_iff.mp h
  intro m' hm'
  obtain rfl := Option.some.inj hm'
  exact ⟨row, List.mem_of_find?_eq_some hrow, hid⟩

theorem ownsVerifiedMeter_of_gate {moment : Moment} {userId : Uuid} {side : OrderSide}
    {meter : Option MeterIdentity} {hasVerified : Bool} (hknows : moment.Knows meter)
    (hask : moment.anyVerifiedMeter userId side meter = .ok hasVerified)
    (h : checkSellEligibility userId side meter hasVerified = .ok ()) (hside : side = .sell) :
    moment.OwnsVerifiedMeter userId := by
  unfold checkSellEligibility at h
  rw [if_neg (not_not.mpr hside)] at h
  cases meter with
  | none =>
    simp only at h
    split_ifs at h with hverified
    unfold Moment.anyVerifiedMeter at hask
    rw [if_pos (by simp [needsAnyVerifiedMeterLookup, hside])] at hask
    have hany := Moment.askMeters_ok hask
    rw [hverified] at hany
    obtain ⟨m, hm, hown⟩ := List.any_eq_true.mp hany.symm
    exact ⟨m, hm, of_decide_eq_true hown⟩
  | some m =>
    simp only at h
    split_ifs at h with howner hverified
    obtain ⟨row, hrow, rfl⟩ := hknows m rfl
    exact ⟨row, hrow, not_not.mp howner, hverified⟩

end Gates

section Rest

open Rest

variable {config : ServiceConfig} {moment : Moment} {userId : Uuid}

theorem Rest.required_ok {α : Type} {field : Option α} {message : String} {a : α}
    (h : required field message = .ok a) : field = some a := by
  unfold required at h
  split at h
  · obtain rfl := Except.ok.inj h
    rfl
  · cases h

theorem Rest.readTerms_ok {req : SubmitOrderRequest} {terms : Terms} (h : readTerms req = .ok terms) :
    resolveOrderPrice req.orderType terms.side terms.timeInForce (some terms.price) = .ok terms.price ∧
      (terms.marketSegment = .interval → terms.timeInForce = .gtc) := by
  unfold readTerms at h
  obtain ⟨amount, _, h⟩ := Except.bind_eq_ok_iff.mp h
  obtain ⟨side, _, h⟩ := Except.bind_eq_ok_iff.mp h
  obtain ⟨tif, _, h⟩ := Except.bind_eq_ok_iff.mp h
  obtain ⟨input, _, h⟩ := Except.bind_eq_ok_iff.mp h
  obtain ⟨price, hprice, h⟩ := Except.bind_eq_ok_iff.mp h
  obtain ⟨segment, _, h⟩ := Except.bind_eq_ok_iff.mp h
  split_ifs at h with hinterval
  obtain rfl := Except.ok.inj h
  refine ⟨resolveOrderPrice_idem (Except.mapError_eq_ok_iff.mp hprice), fun hseg => ?_⟩
  by_contra hgtc
  exact hinterval ⟨hseg, hgtc⟩

theorem Rest.resolveMeter_ok {req : SubmitOrderRequest} {meter : Option MeterIdentity}
    (h : resolveMeter moment req = .ok meter) : moment.Knows meter := by
  unfold resolveMeter at h
  split at h
  · obtain ⟨found, hfound, h⟩ := Except.bind_eq_ok_iff.mp h
    obtain ⟨m, hm, h⟩ := Except.bind_eq_ok_iff.mp h
    obtain rfl := Except.ok.inj h
    have hfind := Moment.askMeters_ok (Except.mapError_eq_ok_iff.mp hfound)
    exact Moment.knows_of_find (hfind.symm.trans (Rest.required_ok hm))
  · obtain ⟨found, hfound, h⟩ := Except.bind_eq_ok_iff.mp h
    obtain ⟨m, hm, h⟩ := Except.bind_eq_ok_iff.mp h
    obtain rfl := Except.ok.inj h
    have hfind := Moment.askMeters_ok (Except.mapError_eq_ok_iff.mp hfound)
    exact Moment.knows_of_find (hfind.symm.trans (Rest.required_ok hm))
  · obtain rfl := Except.ok.inj h
    simp [Moment.Knows]

theorem Rest.checkGates_ok {req : SubmitOrderRequest} {terms : Terms} {meter : Option MeterIdentity}
    (hknows : moment.Knows meter) (h : checkGates config moment userId req terms meter = .ok ())
    (hside : terms.side = .sell) :
    moment.OwnsVerifiedMeter userId ∧ moment.PricesAboveFloor config terms.price := by
  unfold checkGates at h
  obtain ⟨hasVerified, hask, h⟩ := Except.bind_eq_ok_iff.mp h
  obtain ⟨_, hmeter, h⟩ := Except.bind_eq_ok_iff.mp h
  obtain ⟨_, hfloor, _⟩ := Except.bind_eq_ok_iff.mp h
  exact ⟨ownsVerifiedMeter_of_gate hknows (Except.mapError_eq_ok_iff.mp hask)
      (Except.mapError_eq_ok_iff.mp hmeter) hside,
    checkSellPriceFloor_ok (Except.mapError_eq_ok_iff.mp hfloor) hside⟩

/-- What a request has been through when its order is built. -/
theorem Rest.submitOrder_ok {req : SubmitOrderRequest} {order : TradingOrder}
    {signature : Option String} (h : submitOrder config moment userId req = .ok (order, signature)) :
    ∃ terms meter signed expiresAt orderPda epochId,
      readTerms req = .ok terms ∧ moment.Knows meter ∧
      checkGates config moment userId req terms meter = .ok () ∧
      signedOrder config moment req terms = .ok signed ∧
      resolveExpiresAt moment.now req.expiresAt req.expiresInSecs
        (signed.map (·.signedExpiresAt)) config.orderExpiry = .ok expiresAt ∧
      custodialPlacement config moment req = .ok orderPda ∧
      order = buildOrder moment userId req terms meter signed expiresAt orderPda epochId ∧
      signature = signed.map (·.walletSignature) := by
  unfold submitOrder at h
  obtain ⟨terms, hterms, h⟩ := Except.bind_eq_ok_iff.mp h
  obtain ⟨meter, hmeter, h⟩ := Except.bind_eq_ok_iff.mp h
  obtain ⟨_, hgates, h⟩ := Except.bind_eq_ok_iff.mp h
  obtain ⟨signed, hsigned, h⟩ := Except.bind_eq_ok_iff.mp h
  obtain ⟨expiresAt, hexpiry, h⟩ := Except.bind_eq_ok_iff.mp h
  obtain ⟨orderPda, hpda, h⟩ := Except.bind_eq_ok_iff.mp h
  obtain ⟨epochId, _, h⟩ := Except.bind_eq_ok_iff.mp h
  obtain ⟨rfl, rfl⟩ := Prod.mk.inj (Except.ok.inj h)
  exact ⟨terms, meter, signed, expiresAt, orderPda, epochId, hterms, Rest.resolveMeter_ok hmeter, hgates,
    hsigned, Except.mapError_eq_ok_iff.mp hexpiry, hpda, rfl, rfl⟩

theorem Rest.gated {req : SubmitOrderRequest} {order : TradingOrder} {signature : Option String}
    (h : submitOrder config moment userId req = .ok (order, signature)) :
    order.Gated config moment := by
  obtain ⟨terms, meter, signed, expiresAt, orderPda, epochId, hterms, hknows, hgates, _, hexpiry, _,
    rfl, _⟩ := Rest.submitOrder_ok h
  obtain ⟨hprice, hinterval⟩ := Rest.readTerms_ok hterms
  exact
    { price := hprice
      interval_gtc := hinterval
      expiry := ⟨expiresAt, rfl, (resolveExpiresAt_kept hexpiry).within_max⟩
      epoch := rfl
      meter := fun hside => (Rest.checkGates_ok hknows hgates hside).1
      floor := fun hside => (Rest.checkGates_ok hknows hgates hside).2 }

end Rest

section Grpc

open Grpc

variable {config : ServiceConfig} {moment : Moment} {req : Grpc.SubmitOrderRequest}

theorem Grpc.required_ok {α : Type} {field : Option α} {message : String} {a : α}
    (h : required field message = .ok a) : field = some a := by
  unfold required at h
  split at h
  · obtain rfl := Except.ok.inj h
    rfl
  · cases h

theorem Grpc.readTerms_ok {terms : Rest.Terms} (h : readTerms req = .ok terms) :
    resolveOrderPrice req.orderType terms.side terms.timeInForce (some terms.price) = .ok terms.price ∧
      (terms.marketSegment = .interval → terms.timeInForce = .gtc) := by
  unfold readTerms at h
  obtain ⟨side, _, h⟩ := Except.bind_eq_ok_iff.mp h
  obtain ⟨tif, _, h⟩ := Except.bind_eq_ok_iff.mp h
  obtain ⟨segment, _, h⟩ := Except.bind_eq_ok_iff.mp h
  split_ifs at h with hinterval
  obtain ⟨amount, _, h⟩ := Except.bind_eq_ok_iff.mp h
  obtain ⟨input, _, h⟩ := Except.bind_eq_ok_iff.mp h
  obtain ⟨price, hprice, h⟩ := Except.bind_eq_ok_iff.mp h
  obtain rfl := Except.ok.inj h
  refine ⟨resolveOrderPrice_idem (Except.mapError_eq_ok_iff.mp hprice), fun hseg => ?_⟩
  by_contra hgtc
  exact hinterval ⟨hseg, hgtc⟩

theorem Grpc.resolveMeter_ok {meter : Option MeterIdentity} (h : resolveMeter moment req = .ok meter) :
    moment.Knows meter := by
  unfold resolveMeter at h
  split at h
  · obtain rfl := Except.ok.inj h
    simp [Moment.Knows]
  · obtain ⟨id, _, h⟩ := Except.bind_eq_ok_iff.mp h
    obtain ⟨found, hfound, h⟩ := Except.bind_eq_ok_iff.mp h
    obtain ⟨m, hm, h⟩ := Except.bind_eq_ok_iff.mp h
    obtain rfl := Except.ok.inj h
    have hfind := Moment.askMeters_ok (Except.mapError_eq_ok_iff.mp hfound)
    exact Moment.knows_of_find (hfind.symm.trans (Grpc.required_ok hm))

theorem Grpc.checkGates_ok {userId : Uuid} {terms : Rest.Terms} {meter : Option MeterIdentity}
    (hknows : moment.Knows meter) (h : checkGates config moment req userId terms meter = .ok ())
    (hside : terms.side = .sell) :
    moment.OwnsVerifiedMeter userId ∧ moment.PricesAboveFloor config terms.price := by
  unfold checkGates at h
  obtain ⟨hasVerified, hask, h⟩ := Except.bind_eq_ok_iff.mp h
  obtain ⟨_, hmeter, h⟩ := Except.bind_eq_ok_iff.mp h
  obtain ⟨_, hfloor, _⟩ := Except.bind_eq_ok_iff.mp h
  exact ⟨ownsVerifiedMeter_of_gate hknows (Except.mapError_eq_ok_iff.mp hask)
      (Except.mapError_eq_ok_iff.mp hmeter) hside,
    checkSellPriceFloor_ok (Except.mapError_eq_ok_iff.mp hfloor) hside⟩

theorem Grpc.gated {order : TradingOrder} (h : submitOrder config moment req = .ok order) :
    order.Gated config moment := by
  unfold submitOrder at h
  obtain ⟨userId, _, h⟩ := Except.bind_eq_ok_iff.mp h
  obtain ⟨terms, hterms, h⟩ := Except.bind_eq_ok_iff.mp h
  obtain ⟨meter, hmeter, h⟩ := Except.bind_eq_ok_iff.mp h
  obtain ⟨_, hgates, h⟩ := Except.bind_eq_ok_iff.mp h
  obtain ⟨epochId, _, h⟩ := Except.bind_eq_ok_iff.mp h
  obtain ⟨requested, _, h⟩ := Except.bind_eq_ok_iff.mp h
  obtain ⟨expiresAt, hexpiry, h⟩ := Except.bind_eq_ok_iff.mp h
  obtain rfl := Except.ok.inj h
  obtain ⟨hprice, hinterval⟩ := Grpc.readTerms_ok hterms
  have hknows := Grpc.resolveMeter_ok hmeter
  exact
    { price := hprice
      interval_gtc := hinterval
      expiry := ⟨expiresAt, rfl,
        (resolveExpiresAt_kept (Except.mapError_eq_ok_iff.mp hexpiry)).within_max⟩
      epoch := rfl
      meter := fun hside => (Grpc.checkGates_ok hknows hgates hside).1
      floor := fun hside => (Grpc.checkGates_ok hknows hgates hside).2 }

end Grpc

section Insert

variable {config : ServiceConfig} {moment : Moment}

theorem Database.heldBy_of_insertOrderWithEvent {db db' : Database} {order : TradingOrder} {now : ℤ}
    {row : OrderRow} (h : db.insertOrderWithEvent order now = some db')
    (hrow : db'.orders.find? order.id = some row) :
    order.HeldBy row ∧ 0 < row.pricePerKwh.toDecimal := by
  obtain ⟨stored, hrows, hheld, _, hpos⟩ := Database.insertOrderWithEvent_eq_some h
  obtain ⟨hmem, hid⟩ := KeyedTable.find?_eq_some.mp hrow
  obtain rfl := KeyedTable.row_unique hmem (hrows ▸ List.mem_cons_self) (hid.trans hheld.id.symm)
  exact ⟨hheld, hpos⟩

/-- Of a row that an edge stored, the gates leave open whether the lifetime lasts and whether
the price is still above the market minimum. -/
theorem TradingOrder.Gated.admissible_iff_outlasts {order : TradingOrder} {row : OrderRow}
    (h : order.Gated config moment) (hheld : order.HeldBy row) (hpos : 0 < row.pricePerKwh.toDecimal) :
    Admissible config moment row ↔ order.OutlastsWait config moment ∧ order.KeepsMinimum config := by
  obtain ⟨t, ht, hmax⟩ := h.expiry
  have hwaits := moment.waits
  have hstored : row.expiresAt = some (storeInstant t) := by rw [hheld.expiresAt, ht, Option.map_some]
  constructor
  · intro hrow
    obtain ⟨t', ht', hahead, hwithin⟩ := hrow.expiry
    obtain rfl := Option.some.inj (hstored.symm.trans ht')
    refine ⟨⟨fun u hu => ?_, fun u hu _ => ?_⟩, fun hside p hp => ?_⟩
    · obtain rfl := Option.some.inj (ht.symm.trans hu)
      exact hahead
    · obtain rfl := Option.some.inj (ht.symm.trans hu)
      exact hwithin
    · obtain rfl := Option.some.inj (hheld.pricePerKwh.symm.trans hp)
      obtain ⟨_, _, _, hminimum⟩ := hrow.floor (hheld.side.trans hside)
      exact hminimum
  · rintro ⟨hwait, hminimum⟩
    constructor
    · rw [hheld.orderType, hheld.side, hheld.timeInForce]
      exact resolveOrderPrice_of_pos h.price hpos
    · rw [hheld.marketSegment, hheld.timeInForce]
      exact h.interval_gtc
    · refine ⟨_, hstored, hwait.ahead t ht, ?_⟩
      by_cases hera : t < 946684800000000000
      · exact hwait.cut t ht hera
      · have hcut := storeInstant_le (not_lt.mp hera)
        omega
    · rw [hheld.epochId]
      exact h.epoch
    · rw [hheld.side, hheld.userId]
      exact h.meter
    · intro hside
      rw [hheld.side] at hside
      obtain ⟨floor, hfloor, hle, _⟩ := h.floor hside
      have hgrid := minSettleablePricePerKwh_mem_grid hfloor
      exact ⟨floor, hfloor, Numeric.le_store hheld.pricePerKwh hgrid hle,
        hminimum hside _ hheld.pricePerKwh⟩

theorem Recurring.admissible_iff_passesGates {rule : Recurring.RecurringOrder} {price : Decimal}
    {epochId : Uuid} {row : OrderRow} (hprice : rule.price = some price)
    (hheld : (Recurring.placeOrder moment rule price epochId).HeldBy row)
    (hpos : 0 < row.pricePerKwh.toDecimal) :
    Admissible config moment row ↔ rule.PassesGates config moment ∧
      moment.insertedAt < storeInstant (moment.now + 86400 * 1000000000) := by
  have hfloorPrice : ∀ hside : rule.side = .sell, rule.minPricePerKwh = some price := by
    intro hside
    rwa [Recurring.RecurringOrder.price, hside] at hprice
  have hside : row.side = rule.side := hheld.side
  constructor
  · intro h
    obtain ⟨t, ht, hahead, hwithin⟩ := h.expiry
    obtain rfl := Option.some.inj (hheld.expiresAt.symm.trans ht)
    refine ⟨⟨hwithin, ?_, fun hsell p hp x hx => ?_⟩, hahead⟩
    · rw [← hside, ← show row.userId = rule.userId from hheld.userId]
      exact h.meter
    · obtain rfl := Option.some.inj ((hfloorPrice hsell).symm.trans hp)
      obtain rfl := Option.some.inj (hheld.pricePerKwh.symm.trans hx)
      exact h.floor (hside.trans hsell)
  · rintro ⟨hgates, hahead⟩
    constructor
    · rw [hheld.orderType, hheld.timeInForce]
      simp [resolveOrderPrice, Recurring.placeOrder, not_le.mpr hpos]
    · rw [hheld.marketSegment]
      intro hinterval
      cases hinterval
    · exact ⟨_, hheld.expiresAt, hahead, hgates.day⟩
    · rw [hheld.epochId]
      rfl
    · rw [hside, show row.userId = rule.userId from hheld.userId]
      exact hgates.meter
    · intro hsell
      rw [hside] at hsell
      exact hgates.floor hsell price (hfloorPrice hsell) _ hheld.pricePerKwh

end Insert

def ServiceConfig.shipped : ServiceConfig := ⟨false, true, .shipped, 1⟩

def Moment.quiet : Moment where
  now := 0
  insertedAt := 0
  waits := le_rfl
  newId := 1
  rates := ⟨0, 0, 0⟩
  meters := []
  meterError := none
  arithmetic := ScaledDecimal.rounded
  payer := .ok (some "wallet")
  balance _ := .ok BoundedInt.top
  wallet := .ok (some "wallet")
  walletBytes _ := some (Vector.replicate 32 0)
  verify _ _ _ := .ok ()
  placement := .ok ("signature", "pda")
  epoch := .ok 0
  render _ := ""

def Recurring.RecurringOrder.buyOne : Recurring.RecurringOrder := ⟨1, .buy, 1, some 5, none⟩

def Recurring.RecurringOrder.sellOne : Recurring.RecurringOrder := ⟨1, .sell, 1, none, some 5⟩

end TradingService
