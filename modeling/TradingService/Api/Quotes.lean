import TradingService.Api.TradeExport
import TradingService.Ledger.LimitPrices
import TradingService.Ledger.PassThrough
import TradingService.Ledger.Rest
import TradingService.Orders.PriceGates
import TradingService.Settlement.MoneyTrail

/-!
# Quotes

A quote tells a customer what a trade will cost, before there is an order. It is computed from
the tariff alone, and the ledger gets its columns along another path: the engine puts the
charges on the ask, rounds, and the settlement takes them out of the gross again, one match at
a time. `Database.KeepsQuote` compares the ledger of a sell with the quote for what it has sold.
-/

namespace TradingService

open MatchingEngine OrderPolicy

structure MarketConfig where
  minPricePerKwh : Decimal
  maxPricePerKwh : Decimal

structure MarketPrice where
  vwap : Decimal
  tradeCount : ℕ

/-- A number of hours that is none is that of all time. -/
def SettlementDb.inWindow (now windowHours : ℤ) (s : SettlementDb) : Bool :=
  let hours := if max windowHours 0 ≤ 2147483647 then max windowHours 0 else 24
  s.status = .completed ∧ (windowHours ≤ 0 ∨ now - hours * 3600000000000 ≤ s.createdAt)

/-- The prices of the completed trades, weighted by their energy. -/
def getMarketPrice (settlements : List SettlementDb) (now windowHours : ℤ) : MarketPrice :=
  let rows := settlements.filter (·.inWindow now windowHours)
  { vwap := (rows.map fun s => s.price.toDecimal * s.energyAmount.toDecimal).sum /
      (rows.map fun s => s.energyAmount.toDecimal).sum
    tradeCount := rows.length }

structure QuoteRequest where
  buyerZoneId : I32
  sellerZoneId : I32
  energyAmountKwh : Except String Decimal
  agreedPrice : Except String Decimal

structure QuoteBreakdown (N : Type) where
  energyCost : N
  wheelingCharge : N
  lossCost : N
  totalCost : N
  deriving DecidableEq

structure GridMetrics (N : Type) where
  effectiveEnergyKwh : N
  lossFactor : N
  zoneDistanceKm : N
  isGridCompliant : Bool
  deriving DecidableEq

structure Quote (N : Type) where
  breakdown : QuoteBreakdown N
  gridMetrics : GridMetrics N
  deriving DecidableEq

abbrev QuoteResponse := Quote String

/-- Each amount with its number of places, which `fixed` writes by way of a float. -/
def Quote.write (fixed : ℕ → Decimal → String) (quote : Quote Decimal) : QuoteResponse where
  breakdown :=
    { energyCost := fixed 2 quote.breakdown.energyCost
      wheelingCharge := fixed 2 quote.breakdown.wheelingCharge
      lossCost := fixed 2 quote.breakdown.lossCost
      totalCost := fixed 2 quote.breakdown.totalCost }
  gridMetrics :=
    { effectiveEnergyKwh := fixed 4 quote.gridMetrics.effectiveEnergyKwh
      lossFactor := fixed 4 quote.gridMetrics.lossFactor
      zoneDistanceKm := fixed 1 quote.gridMetrics.zoneDistanceKm
      isGridCompliant := quote.gridMetrics.isGridCompliant }

def zoneGap (buyerZoneId sellerZoneId : I32) : ℤ :=
  |((buyerZoneId : ℤ) - sellerZoneId).bmod (2 ^ 32)|.bmod (2 ^ 32)

section Quote

variable (market : MarketConfig) (rates : ChargeRates)

def isGridCompliant (price : Decimal) : Bool :=
  (minSettleablePricePerKwh rates).any (fun floor => floor ≤ price) && market.minPricePerKwh ≤ price &&
    price ≤ market.maxPricePerKwh

def quoteAt (energy price : Decimal) (zoneGap : ℤ) : Quote Decimal :=
  let lossFraction := rates.lossFactor - 1
  let energyCost := energy * price
  let wheelingCharge := energy * rates.wheelingPerKwh
  let lossCost := energyCost * lossFraction
  { breakdown :=
      { energyCost := energyCost
        wheelingCharge := wheelingCharge
        lossCost := lossCost
        totalCost := energyCost + wheelingCharge + lossCost }
    gridMetrics :=
      { effectiveEnergyKwh := energy
        lossFactor := lossFraction
        zoneDistanceKm := zoneGap * 10
        isGridCompliant := isGridCompliant market rates price } }

/-- The agreed price, or else that of the last day, or else that of all days. -/
def quotedPrice (marketPrice : ℤ → Except String MarketPrice) (agreedPrice : Except String Decimal) :
    Except Refusal Decimal :=
  let price := agreedPrice.toOption.getD 0
  if 0 < price then .ok price
  else do
    let lastDay ← (marketPrice 24).mapError fun e => refuse .internalServerError s!"Database error: {e}"
    let mp ← if lastDay.tradeCount = 0 then
        (marketPrice 0).mapError fun e => refuse .internalServerError s!"Database error: {e}"
      else .ok lastDay
    if mp.tradeCount = 0 then
      .error (refuse .badRequest "no agreed_price supplied and no market price yet (no completed trades); supply agreed_price")
    else .ok mp.vwap

def quoteAmounts (marketPrice : ℤ → Except String MarketPrice) (req : QuoteRequest) :
    Except Refusal (Quote Decimal) := do
  let energy ← req.energyAmountKwh.mapError fun e => refuse .badRequest s!"invalid energy_amount_kwh: {e}"
  if energy ≤ 0 then .error (refuse .badRequest "energy_amount_kwh must be positive")
  else do
    let price ← quotedPrice marketPrice req.agreedPrice
    return quoteAt market rates energy price (zoneGap req.buyerZoneId req.sellerZoneId)

def createQuote (fixed : ℕ → Decimal → String) (marketPrice : ℤ → Except String MarketPrice)
    (req : QuoteRequest) : Except Refusal QuoteResponse :=
  (quoteAmounts market rates marketPrice req).map (Quote.write fixed)

end Quote

section Request

variable {market : MarketConfig} {rates : ChargeRates} {marketPrice : ℤ → Except String MarketPrice}
  {req : QuoteRequest} {quote : Quote Decimal} {energy price : Decimal}

theorem exists_quoteAmounts {fixed : ℕ → Decimal → String} {response : QuoteResponse}
    (h : createQuote market rates fixed marketPrice req = .ok response) :
    ∃ quote, quoteAmounts market rates marketPrice req = .ok quote ∧ response = quote.write fixed := by
  unfold createQuote at h
  cases hquote : quoteAmounts market rates marketPrice req with
  | error e =>
    rw [hquote] at h
    cases h
  | ok quote =>
    rw [hquote] at h
    exact ⟨quote, rfl, (Except.ok.inj h).symm⟩

theorem quoteAmounts_agreed (hprice : req.agreedPrice = .ok price) (hpos : 0 < price)
    (henergy : req.energyAmountKwh = .ok energy)
    (h : quoteAmounts market rates marketPrice req = .ok quote) :
    quote = quoteAt market rates energy price (zoneGap req.buyerZoneId req.sellerZoneId) := by
  have hquoted : quotedPrice marketPrice req.agreedPrice = .ok price := by
    unfold quotedPrice
    rw [hprice]
    exact if_pos hpos
  unfold quoteAmounts at h
  rw [henergy, hquoted] at h
  obtain ⟨energy', henergy', h⟩ := Except.bind_eq_ok_iff.mp h
  obtain rfl := Except.ok.inj henergy'
  split_ifs at h with hnone
  exact (Except.ok.inj h).symm

theorem quoteAt_lossCost (gap : ℤ) :
    (quoteAt market rates energy price gap).breakdown.lossCost = rates.lossFraction * price * energy := by
  simp only [quoteAt, ChargeRates.lossFraction, ChargeRates.lossFactor]
  ring

theorem quoteAt_totalCost (gap : ℤ) :
    (quoteAt market rates energy price gap).breakdown.totalCost = rates.charged price * energy := by
  simp only [quoteAt, ChargeRates.charged, ChargeRates.lossFraction, ChargeRates.lossFactor]
  ring

/-- The average over a window is no less than one price of the window and no more than another. -/
theorem getMarketPrice_between {settlements : List SettlementDb} {now windowHours : ℤ}
    (henergy : ∀ s ∈ settlements, 0 < s.energyAmount.toDecimal)
    (htraded : (getMarketPrice settlements now windowHours).tradeCount ≠ 0) :
    (∃ s ∈ settlements, s.status = .completed ∧
        s.price.toDecimal ≤ (getMarketPrice settlements now windowHours).vwap) ∧
      ∃ s ∈ settlements, s.status = .completed ∧
        (getMarketPrice settlements now windowHours).vwap ≤ s.price.toDecimal := by
  have hrows : settlements.filter (·.inWindow now windowHours) ≠ [] := by
    rintro hnil
    exact htraded (by rw [getMarketPrice, hnil]; rfl)
  have hmem : ∀ s ∈ settlements.filter (·.inWindow now windowHours), s ∈ settlements ∧ s.status = .completed := by
    intro s hs
    obtain ⟨hs, hwindow⟩ := List.mem_filter.mp hs
    exact ⟨hs, (of_decide_eq_true hwindow).1⟩
  have hpos : 0 < ((settlements.filter (·.inWindow now windowHours)).map
      fun s => s.energyAmount.toDecimal).sum := by
    apply List.sum_pos
    · intro e he
      obtain ⟨s, hs, rfl⟩ := List.mem_map.mp he
      exact henergy s (hmem s hs).1
    · simpa using hrows
  have hmean : (getMarketPrice settlements now windowHours).vwap *
      ((settlements.filter (·.inWindow now windowHours)).map fun s => s.energyAmount.toDecimal).sum =
      ((settlements.filter (·.inWindow now windowHours)).map
        fun s => s.price.toDecimal * s.energyAmount.toDecimal).sum := div_mul_cancel₀ _ hpos.ne'
  rw [← List.sum_map_mul_left] at hmean
  constructor
  · by_contra! hdear
    refine hmean.not_lt (List.sum_lt_sum_of_ne_nil hrows _ _ fun s hs => ?_)
    obtain ⟨hs, hcompleted⟩ := hmem s hs
    exact mul_lt_mul_of_pos_right (hdear s hs hcompleted) (henergy s hs)
  · by_contra! hcheap
    refine hmean.not_gt (List.sum_lt_sum_of_ne_nil hrows _ _ fun s hs => ?_)
    obtain ⟨hs, hcompleted⟩ := hmem s hs
    exact mul_lt_mul_of_pos_right (hcheap s hs hcompleted) (henergy s hs)

/-- Without an agreed price, a quote is given as soon as any trade was completed, at a price
between those of completed trades. -/
theorem quotedPrice_market {settlements : List SettlementDb} {now : ℤ} {agreedPrice : Except String Decimal}
    (henergy : ∀ s ∈ settlements, 0 < s.energyAmount.toDecimal)
    (hagreed : agreedPrice.toOption.getD 0 ≤ 0) (htraded : ∃ s ∈ settlements, s.status = .completed) :
    ∃ price, quotedPrice (fun hours => .ok (getMarketPrice settlements now hours)) agreedPrice = .ok price ∧
      (∃ s ∈ settlements, s.status = .completed ∧ s.price.toDecimal ≤ price) ∧
      ∃ s ∈ settlements, s.status = .completed ∧ price ≤ s.price.toDecimal := by
  have halltime : (getMarketPrice settlements now 0).tradeCount ≠ 0 := by
    obtain ⟨s, hs, hcompleted⟩ := htraded
    have hwindow : s ∈ settlements.filter (·.inWindow now 0) :=
      List.mem_filter.mpr ⟨hs, decide_eq_true ⟨hcompleted, .inl le_rfl⟩⟩
    exact (List.length_pos_of_mem hwindow).ne'
  by_cases hday : (getMarketPrice settlements now 24).tradeCount = 0
  · refine ⟨_, ?_, getMarketPrice_between henergy halltime⟩
    exact (if_neg (not_lt.mpr hagreed)).trans ((if_pos hday).trans (if_neg halltime))
  · refine ⟨_, ?_, getMarketPrice_between henergy hday⟩
    exact (if_neg (not_lt.mpr hagreed)).trans ((if_neg hday).trans (if_neg hday))

theorem isGridCompliant_iff : isGridCompliant market rates price ↔
    checkSellPriceFloor .sell price market.minPricePerKwh (minSettleablePricePerKwh rates) = .ok () ∧
      price ≤ market.maxPricePerKwh := by
  unfold isGridCompliant
  cases hfloor : minSettleablePricePerKwh rates with
  | none => simp [checkSellPriceFloor]
  | some floor =>
    simp only [Option.any_some, Bool.and_eq_true, decide_eq_true_eq, checkSellPriceFloor, ne_eq,
      not_true_eq_false, if_false]
    apply and_congr_left
    intro _
    split_ifs with hlow hmin
    · simp [not_le.mpr hlow]
    · simp [not_le.mpr hmin]
    · simp [not_lt.mp hlow, not_lt.mp hmin]

end Request

section Rows

/-- A settlement beside the quote for its energy at the price: each column is rounded once, and
the landed price is rounded down at the ninth place. -/
structure Settlement.Quoted (rates : ChargeRates) (price : Decimal) (s : Settlement Numeric) : Prop where
  total_le : s.totalAmount.toDecimal ≤ rates.charged price * s.energyAmount.toDecimal + 1 / (2 * Numeric.scale)
  le_total : (rates.charged price - 1 / 1000000000) * s.energyAmount.toDecimal ≤
    s.totalAmount.toDecimal + 1 / (2 * Numeric.scale)
  wheeling_le : s.wheelingCharge.toDecimal ≤
    rates.wheelingPerKwh * s.energyAmount.toDecimal + 1 / (2 * Numeric.scale)
  le_wheeling : rates.wheelingPerKwh * s.energyAmount.toDecimal ≤
    s.wheelingCharge.toDecimal + 1 / (2 * Numeric.scale)
  le_loss : rates.lossFraction * price * s.energyAmount.toDecimal ≤
    s.lossCost.toDecimal + 1 / (2 * Numeric.scale)
  proceeds_le : s.netAmount.toDecimal + s.feeAmount.toDecimal ≤
    price * s.energyAmount.toDecimal + 1 / Numeric.scale
  network : rates.FloorExact → ∀ floor, minSettleablePricePerKwh rates = some floor → floor ≤ price →
    s.wheelingCharge.toDecimal + s.lossCost.toDecimal ≤
      s.totalAmount.toDecimal * maxNetworkChargeBps / ChargeRates.bps + 11 / (10 * Numeric.scale)

variable {rates : ChargeRates} {job : Job} {m : MatchResult} {ids : TradeIds} {row : Settlement Numeric}
  {x : Numeric}

theorem ChargeRates.le_charged {price : Decimal} (h0 : 0 ≤ price) :
    price + rates.wheelingPerKwh ≤ rates.charged price := by
  have hloss : 0 ≤ rates.lossFraction * price := mul_nonneg lossFraction_nonneg h0
  unfold charged
  linarith

/-- A price of a column is one of the engine, if the engine can represent it with its charges. -/
theorem toDecimal_ofDecimal_unsaturated (h0 : 0 ≤ x.toDecimal) (hfits : rates.Unsaturated x.toDecimal) :
    (FastPrice.ofDecimal x.toDecimal).toDecimal = x.toDecimal := by
  have hwhole : x.toDecimal * FastPrice.factor = ((x.units * 10 : ℤ) : ℚ) := by
    unfold Numeric.toDecimal Numeric.scale FastPrice.factor
    push_cast
    ring
  have hle : x.toDecimal ≤ rates.charged x.toDecimal :=
    (le_add_of_nonneg_right ChargeRates.wheelingPerKwh_nonneg).trans (ChargeRates.le_charged h0)
  have hunits : (x.units * 10 : ℤ) ≤ maxRaw := by
    refine le_trans (Int.le_floor.mpr ?_) hfits
    rw [← hwhole]
    exact mul_le_mul_of_nonneg_right hle FastPrice.factor_pos.le
  have hmax : x.toDecimal ≤ FastPrice.maxPrice := by
    unfold FastPrice.maxPrice FastPrice.toDecimal
    rw [le_div_iff₀ FastPrice.factor_pos, hwhole]
    exact_mod_cast hunits
  rw [toDecimal_ofDecimal h0, min_eq_left hmax]

structure ChargeRates.Lands (rates : ChargeRates) (price settlePrice : Decimal) : Prop where
  le_charged : settlePrice ≤ rates.charged price
  charged_le : rates.charged price - 1 / 1000000000 ≤ settlePrice
  price_le : price ≤ settlePrice
  rest_le : settlePrice - rates.wheelingPerKwh - rates.lossFraction * settlePrice ≤ price

theorem ChargeRates.lands (h0 : 0 < x.toDecimal) (hfits : rates.Unsaturated x.toDecimal) :
    rates.Lands x.toDecimal
      (landedCost (FastPrice.ofDecimal x.toDecimal) (gridFees rates) FastPrice.one).toDecimal := by
  have hask : (FastPrice.ofDecimal x.toDecimal).toDecimal = x.toDecimal :=
    toDecimal_ofDecimal_unsaturated h0.le hfits
  have hraw : (0 : ℤ) ≤ (FastPrice.ofDecimal x.toDecimal).raw := by
    have hpos := h0.le
    rw [← hask, FastPrice.toDecimal, le_div_iff₀ FastPrice.factor_pos, zero_mul] at hpos
    exact_mod_cast hpos
  obtain ⟨dust, hlanded, hdust, hunit, hloss⟩ := landedCost_dust hraw (by rwa [hask])
  rw [hask] at hlanded hloss
  obtain ⟨hlow, _⟩ := dust_bounds hdust hunit hloss
  have hwheeling : 0 ≤ rates.wheelingPerKwh := ChargeRates.wheelingPerKwh_nonneg
  have hcharged : rates.charged x.toDecimal =
    x.toDecimal + rates.wheelingPerKwh + rates.lossFraction * x.toDecimal := rfl
  rw [hlanded]
  refine ⟨by linarith, by linarith, by linarith, ?_⟩
  have hrest : x.toDecimal - (rates.charged x.toDecimal - dust - rates.wheelingPerKwh -
      rates.lossFraction * (rates.charged x.toDecimal - dust)) =
      rates.lossFraction * (rates.wheelingPerKwh + rates.lossFraction * x.toDecimal) +
        dust * (1 - rates.lossFraction) := by
    rw [hcharged]
    ring
  rw [← sub_nonneg, hrest]
  exact hlow

structure Settlement.Rounds (s : Settlement Decimal) (row : Settlement Numeric) : Prop where
  energy : Numeric.store s.energyAmount = some row.energyAmount
  total : |row.totalAmount.toDecimal - s.totalAmount| ≤ 1 / (2 * Numeric.scale)
  fee : |row.feeAmount.toDecimal - s.feeAmount| ≤ 1 / (2 * Numeric.scale)
  net : |row.netAmount.toDecimal - s.netAmount| ≤ 1 / (2 * Numeric.scale)
  wheeling : |row.wheelingCharge.toDecimal - s.wheelingCharge| ≤ 1 / (2 * Numeric.scale)
  loss : |row.lossCost.toDecimal - s.lossCost| ≤ 1 / (2 * Numeric.scale)

theorem Settlement.rounds_of_store {s : Settlement Decimal} (h : s.store = some row) : s.Rounds row := by
  simp only [Settlement.store, Option.bind_eq_bind, Option.bind_eq_some_iff] at h
  obtain ⟨energy, henergy, _, _, total, htotal, fee, hfee, net, hnet, wheeling, hwheeling, _, _, loss, hloss,
    _, _, hrow⟩ := h
  obtain rfl := Option.some.inj hrow
  constructor
  · exact henergy
  · exact Numeric.abs_store_sub_le htotal
  · exact Numeric.abs_store_sub_le hfee
  · exact Numeric.abs_store_sub_le hnet
  · exact Numeric.abs_store_sub_le hwheeling
  · exact Numeric.abs_store_sub_le hloss

theorem Job.quoted_settlement {price : Decimal} (hamount : 0 < m.matchAmount ∧ m.matchAmount ∈ Numeric.grid)
    (h0 : 0 < price) (hlands : rates.Lands price m.settlePrice)
    (hstore : (job.settlement m ids rates).store = some row) : row.Quoted rates price := by
  have hrounds := Settlement.rounds_of_store hstore
  have hexact : row.energyAmount.toDecimal = m.matchAmount :=
    Numeric.toDecimal_of_store hrounds.energy hamount.2
  have hunit : (1 : ℚ) / Numeric.scale = 1 / (2 * Numeric.scale) + 1 / (2 * Numeric.scale) := by
    norm_num [Numeric.scale]
  have htotal := abs_le.mp hrounds.total
  have hwheeling := abs_le.mp hrounds.wheeling
  have hloss := abs_le.mp hrounds.loss
  have hfee := abs_le.mp hrounds.fee
  have hnet := abs_le.mp hrounds.net
  have hgross : (job.settlement m ids rates).totalAmount = m.settlePrice * m.matchAmount := mul_comm _ _
  have hflat : (job.settlement m ids rates).wheelingCharge = rates.wheelingPerKwh * m.matchAmount := mul_comm _ _
  have hshare : (job.settlement m ids rates).lossCost = rates.lossFraction * m.settlePrice * m.matchAmount := by
    simp only [Job.settlement, computeCharges, ChargeRates.lossFraction]
    ring
  have hproceeds : (job.settlement m ids rates).netAmount + (job.settlement m ids rates).feeAmount =
      (m.settlePrice - rates.wheelingPerKwh - rates.lossFraction * m.settlePrice) * m.matchAmount :=
    (computeCharges_rest m.settlePrice m.matchAmount).trans (mul_comm _ _)
  have hscale {c d : ℚ} (h : c ≤ d) : c * m.matchAmount ≤ d * m.matchAmount :=
    mul_le_mul_of_nonneg_right h hamount.1.le
  constructor
  · rw [hexact]
    linarith [hscale hlands.le_charged]
  · rw [hexact]
    linarith [hscale hlands.charged_le]
  · rw [hexact]
    linarith
  · rw [hexact]
    linarith
  · have hle : rates.lossFraction * price ≤ rates.lossFraction * m.settlePrice :=
      mul_le_mul_of_nonneg_left hlands.price_le ChargeRates.lossFraction_nonneg
    rw [hexact]
    linarith [hscale hle]
  · rw [hexact]
    linarith [hscale hlands.rest_le]
  · intro hfloor floor hsome hle
    have hsettles : rates.Settles m.settlePrice m.matchAmount :=
      hfloor.settles floor hsome m.settlePrice m.matchAmount (hle.trans hlands.price_le)
        (h0.trans_le hlands.price_le) hamount.1
    have hcap : (job.settlement m ids rates).wheelingCharge + (job.settlement m ids rates).lossCost ≤
        (job.settlement m ids rates).totalAmount * maxNetworkChargeBps / ChargeRates.bps := by
      unfold ChargeRates.Settles at hsettles
      rwa [mul_comm m.settlePrice] at hsettles
    have hfifth : ∀ d : ℚ, d * (maxNetworkChargeBps : ℤ) / ChargeRates.bps = d / 5 := by
      intro d
      norm_num [maxNetworkChargeBps, ChargeRates.bps]
      ring
    have htenths : (11 : ℚ) / (10 * Numeric.scale) = 11 / 5 * (1 / (2 * Numeric.scale)) := by
      norm_num [Numeric.scale]
    rw [hfifth] at hcap ⊢
    linarith

end Rows

def Database.OfAsk (db : Database) (orderId : Uuid) (P : MarketSegment → Numeric → Prop) : Prop :=
  ∃ o ∈ db.orders.rows, o.id = orderId ∧ P o.marketSegment o.pricePerKwh

def Database.KeepsAsks (db db' : Database) : Prop :=
  ∀ orderId P, db.OfAsk orderId P → db'.OfAsk orderId P

def MatchResult.LandsIn (m : MatchResult) (rates : ChargeRates) (db : Database) : Prop :=
  db.OfAsk m.sellOrderId fun segment price => segment = .realtime → m.settlePrice =
    (landedCost (FastPrice.ofDecimal price.toDecimal) (gridFees rates) FastPrice.one).toDecimal

def Settlement.QuotedIn (s : Settlement Numeric) (rates : ChargeRates) (db : Database) : Prop :=
  db.OfAsk s.sellOrderId fun segment price => segment = .realtime → 0 < price.toDecimal →
    rates.Unsaturated price.toDecimal → s.Quoted rates price.toDecimal

def Database.Quoted (db : Database) (rates : ChargeRates) : Prop :=
  ∀ s ∈ db.settlements.rows, s.QuotedIn rates db

def Phase.Lands (rates : ChargeRates) (db : Database) : Phase → Prop
  | .writing job => ∀ m ∈ job.pending, m.LandsIn rates db
  | _ => True

def JobStep.Under (rates : ChargeRates) : JobStep → Prop
  | .readSells topology _ => topology = gridAwareTopology rates
  | .persist _ rates' => rates' = rates
  | _ => True

section Steps

variable {db db' : Database} {rates : ChargeRates}

theorem Database.keepsAsks_of_later (hlater : Database.Later db db') (hext : Database.Extends db db') :
    db.KeepsAsks db' := by
  rintro orderId P ⟨o, ho, hid, hP⟩
  obtain ⟨o', ho', hterms⟩ := hext o ho
  obtain ⟨o₁, ho₁, hlater'⟩ := hlater o' ho'
  obtain rfl := KeyedTable.row_unique ho₁ ho (hlater'.id_eq.symm.trans hterms.id)
  obtain ⟨_, _, _, rfl⟩ := hlater'.columns
  exact ⟨_, ho', hid, hP⟩

theorem Database.exec_keepsAsks {st : Database.Statement} (h : db.exec st = some db') : db.KeepsAsks db' := by
  by_cases hst : st.isInsert = true
  · cases st with
    | insertOrder order =>
      obtain ⟨hrows, _⟩ := Database.insertOrder_eq_some h
      rintro orderId P ⟨o, ho, hask⟩
      exact ⟨o, hrows ▸ List.mem_cons_of_mem _ ho, hask⟩
    | _ => cases hst
  · exact Database.keepsAsks_of_later (Database.later_exec h (Bool.not_eq_true _ ▸ hst))
      (Database.exec_keeps h).extends

theorem Phase.Lands.mono {phase : Phase} (h : phase.Lands rates db) (hkeeps : db.KeepsAsks db') :
    phase.Lands rates db' := by
  cases phase with
  | idle => trivial
  | reading kind buys => trivial
  | writing job => exact fun m hm => hkeeps _ _ (h m hm)

theorem matchCycle_landed {buyOrders sellOrders : List FastOrder} {buyMetadata : List OrderMetadata}
    {nowNs : I64} :
    ∀ r ∈ (matchCycle buyOrders sellOrders buyMetadata (gridAwareTopology rates) FastPrice.one nowNs).results,
      ∃ s ∈ sellOrders, r.sellOrderId = s.id ∧
        r.settlePrice = (landedCost s.price (gridFees rates) FastPrice.one).toDecimal := by
  have hguard : guardMultiplier FastPrice.one = FastPrice.one := by decide
  unfold matchCycle
  rw [hguard]
  refine (matchBuys_induction (P := fun st => Later sellOrders.get st.sellOrders ∧ ∀ r ∈ st.results,
    ∃ s ∈ sellOrders, r.sellOrderId = s.id ∧
      r.settlePrice = (landedCost s.price (gridFees rates) FastPrice.one).toDecimal) _ ?_ _
    ⟨.refl _, by simp [initialState]⟩).2
  rintro buy _ start p c amount hcommit _ ⟨hlater, hresults⟩
  refine ⟨hlater.trans hcommit.later_after, List.forall_mem_append.mpr ⟨hresults, fun r hr => ?_⟩⟩
  obtain rfl := List.mem_singleton.mp hr
  refine ⟨sellOrders.get c.sellIdx, List.get_mem _ _, hlater.id c.sellIdx, ?_⟩
  simp only [matchResult, landed_gridAware hcommit, hlater.price]

theorem lands_of_mem_run (kind : JobKind) {buys : List OrderRow} {nowNs : I64} :
    ∀ m ∈ (kind.run buys (kind.select (db.activeOrders .sell)) (gridAwareTopology rates) nowNs).pending,
      m.LandsIn rates db := by
  intro m hm
  cases kind with
  | matching =>
    change m ∈ (runMatchingCycle _ _ _ _).pending at hm
    unfold runMatchingCycle at hm
    split_ifs at hm
    · cases hm
    · obtain ⟨s, hs, hid, hsettle⟩ := matchCycle_landed m hm
      obtain ⟨o, ho, i, rfl⟩ := mem_toFastOrders hs
      exact ⟨o, (select_sublist .matching .sell).subset ho, hid.symm, fun _ => hsettle⟩
  | clearing epochId =>
    obtain ⟨_, _, sell, hsell, hbetween⟩ := (JobKind.clearing epochId).run_between (gridAwareTopology rates)
      nowNs ⟨0, 0, 0, 0⟩ rates m hm
    have hsegment : sell.marketSegment = .interval :=
      (of_decide_eq_true (List.mem_filter.mp hsell).2).1
    refine ⟨sell, (select_sublist _ .sell).subset hsell, hbetween.seller.1.symm, fun hrealtime => ?_⟩
    rw [hsegment] at hrealtime
    cases hrealtime

theorem Move.quoted {phase phase' : Phase} {a : JobStep} (h : Move db phase a db' phase') (ha : a.Under rates)
    (hsound : phase.Sound db) (hphase : phase.Lands rates db) (hdb : db.Quoted rates) :
    db'.Quoted rates ∧ phase'.Lands rates db' := by
  obtain ⟨hlater, hext, _⟩ := h.later hsound
  have hkeeps : db.KeepsAsks db' := Database.keepsAsks_of_later hlater hext
  cases h with
  | readBuys kind => exact ⟨hdb, trivial⟩
  | readSells kind buys topology nowNs =>
    obtain rfl : topology = gridAwareTopology rates := ha
    exact ⟨hdb, lands_of_mem_run kind⟩
  | @persisted job m rest ids rates' _ hpending hcommitted =>
    obtain rfl : rates' = rates := ha
    have hm : m ∈ job.pending := hpending ▸ List.mem_cons_self
    obtain ⟨hpos, hgrid, _⟩ := hsound m hm
    obtain ⟨row, _, hrow, _, hrows⟩ := Job.persistMatch_rows hcommitted
    have hquoted : row.QuotedIn rates' db := by
      obtain ⟨o, ho, hid, hlands⟩ := hphase m hm
      refine ⟨o, ho, hid.trans (Settlement.store_eq_some hrow).2.2.2.1.symm, fun hrealtime h0 hfits => ?_⟩
      have hsettle := ChargeRates.lands h0 hfits
      rw [← hlands hrealtime] at hsettle
      exact Job.quoted_settlement ⟨hpos, hgrid⟩ h0 hsettle hrow
    constructor
    · intro s hs
      rw [hrows.settlements] at hs
      rcases List.mem_cons.mp hs with rfl | hs
      · exact hkeeps _ _ hquoted
      · exact hkeeps _ _ (hdb s hs)
    · exact fun m' hm' => hkeeps _ _ (hphase m' (hpending ▸ List.mem_cons_of_mem _ hm'))
  | @givenUp job m rest _ hpending =>
    exact ⟨hdb, fun m' hm' => hphase m' (hpending ▸ List.mem_cons_of_mem _ hm')⟩
  | swept _ _ hwritten =>
    have hsettlements : db'.settlements = db.settlements := by
      rcases Database.setFill_of_updateFilledAmount hwritten with ⟨rfl, _⟩ | ⟨_, _, _, _, _, _, rfl⟩
      · rfl
      · rfl
    refine ⟨fun s hs => ?_, fun m hm => hkeeps _ _ (hphase m hm)⟩
    rw [hsettlements] at hs
    exact hkeeps _ _ (hdb s hs)
  | stopped => exact ⟨hdb, trivial⟩

end Steps

section Ledger

def Database.sold (db : Database) (sellOrderId : Uuid) (column : Settlement Numeric → Numeric) : Decimal :=
  db.total (·.sellOrderId = sellOrderId) column

def Database.soldRows (db : Database) (sellOrderId : Uuid) : List (Settlement Numeric) :=
  db.settlements.rows.filter (·.sellOrderId = sellOrderId)

/-- The ledger of a sell, beside the amounts of a quote. A row takes half a unit of the last place for each
rounded column, and the buyers of a kilowatt-hour save at most the ninth place of its price. -/
structure Database.KeepsQuote (db : Database) (rates : ChargeRates) (sellOrderId : Uuid)
    (quote : Quote Decimal) : Prop where
  total_le : db.sold sellOrderId (·.totalAmount) ≤
    quote.breakdown.totalCost + 1 / (2 * Numeric.scale) * (db.soldRows sellOrderId).length
  le_total : quote.breakdown.totalCost - quote.gridMetrics.effectiveEnergyKwh / 1000000000 ≤
    db.sold sellOrderId (·.totalAmount) + 1 / (2 * Numeric.scale) * (db.soldRows sellOrderId).length
  wheeling : |db.sold sellOrderId (·.wheelingCharge) - quote.breakdown.wheelingCharge| ≤
    1 / (2 * Numeric.scale) * (db.soldRows sellOrderId).length
  le_loss : quote.breakdown.lossCost ≤
    db.sold sellOrderId (·.lossCost) + 1 / (2 * Numeric.scale) * (db.soldRows sellOrderId).length
  proceeds_le : db.sold sellOrderId (·.netAmount) + db.sold sellOrderId (·.feeAmount) ≤
    quote.breakdown.energyCost + 1 / Numeric.scale * (db.soldRows sellOrderId).length
  network : quote.gridMetrics.isGridCompliant → rates.wheelingRatePerKwh ≠ 0 ∨ rates.lossBps ≤ 2000 →
    ∀ s ∈ db.soldRows sellOrderId, s.wheelingCharge.toDecimal + s.lossCost.toDecimal ≤
      s.totalAmount.toDecimal * maxNetworkChargeBps / ChargeRates.bps + 11 / (10 * Numeric.scale)

/-- Whatever a sell of the continuous market has sold, the ledger keeps the amounts that a
quote for it writes out. -/
def Database.KeepsQuotes (db : Database) (rates : ChargeRates) : Prop :=
  ∀ sell ∈ db.orders.rows, sell.marketSegment = .realtime → 0 < sell.pricePerKwh.toDecimal →
    rates.Unsaturated sell.pricePerKwh.toDecimal →
    ∀ market fixed marketPrice req response, createQuote market rates fixed marketPrice req = .ok response →
      req.agreedPrice = .ok sell.pricePerKwh.toDecimal →
      req.energyAmountKwh = .ok (db.sold sell.id (·.energyAmount)) →
        ∃ quote, quoteAmounts market rates marketPrice req = .ok quote ∧ response = quote.write fixed ∧
          db.KeepsQuote rates sell.id quote

variable {db : Database} {rates : ChargeRates}

theorem Database.Quoted.keepsQuotes (h : db.Quoted rates) : db.KeepsQuotes rates := by
  intro sell hsell hsegment h0 hfits market fixed marketPrice req response hresponse hprice henergy
  obtain ⟨quote, hquote, rfl⟩ := exists_quoteAmounts hresponse
  refine ⟨quote, hquote, rfl, ?_⟩
  have hrow : ∀ s ∈ db.soldRows sell.id, s.Quoted rates sell.pricePerKwh.toDecimal := by
    intro s hs
    obtain ⟨hs, hid⟩ := List.mem_filter.mp hs
    obtain ⟨o, ho, hoid, hquoted⟩ := h s hs
    obtain rfl := KeyedTable.row_unique ho hsell (hoid.trans (of_decide_eq_true hid))
    exact hquoted hsegment h0 hfits
  obtain rfl := quoteAmounts_agreed hprice h0 henergy hquote
  have hscaled : ∀ c : ℚ, ((db.soldRows sell.id).map fun s => c * s.energyAmount.toDecimal).sum =
      c * db.sold sell.id (·.energyAmount) := fun c => List.sum_map_mul_left _ _ c
  have hsold : ∀ column : Settlement Numeric → Numeric,
      ((db.soldRows sell.id).map fun s => (column s).toDecimal).sum = db.sold sell.id column := fun _ => rfl
  have hproceeds : ((db.soldRows sell.id).map fun s => s.netAmount.toDecimal + s.feeAmount.toDecimal).sum =
      db.sold sell.id (·.netAmount) + db.sold sell.id (·.feeAmount) := List.sum_map_add
  have htotal := Rounding.sum_map_le_add fun s hs => (hrow s hs).total_le
  have htotal' := Rounding.sum_map_le_add fun s hs => (hrow s hs).le_total
  have hwheeling := Rounding.sum_map_le_add fun s hs => (hrow s hs).wheeling_le
  have hwheeling' := Rounding.sum_map_le_add fun s hs => (hrow s hs).le_wheeling
  have hloss := Rounding.sum_map_le_add fun s hs => (hrow s hs).le_loss
  have hrest := Rounding.sum_map_le_add fun s hs => (hrow s hs).proceeds_le
  rw [hscaled, hsold] at htotal htotal' hwheeling hwheeling' hloss
  rw [hscaled, hproceeds] at hrest
  constructor
  · rw [quoteAt_totalCost]
    exact htotal
  · rw [quoteAt_totalCost]
    refine le_trans (le_of_eq ?_) htotal'
    simp only [quoteAt]
    ring
  · change |_ - db.sold sell.id (·.energyAmount) * rates.wheelingPerKwh| ≤ _
    rw [mul_comm, abs_le]
    exact ⟨by linarith, by linarith⟩
  · rw [quoteAt_lossCost]
    exact hloss
  · exact hrest.trans_eq (by simp only [quoteAt, mul_comm])
  · intro hcompliant hrates s hs
    obtain ⟨hgate, _⟩ := isGridCompliant_iff.mp hcompliant
    obtain ⟨floor, hfloor, hle, _⟩ := checkSellPriceFloor_admitted hgate
    have hexact : rates.FloorExact := by
      by_cases hflat : rates.wheelingRatePerKwh = 0
      · exact (ChargeRates.floorExact_free hflat).mpr (hrates.resolve_left (not_not.mpr hflat))
      · exact ChargeRates.floorExact_flat hflat
    exact (hrow s hs).network hexact floor hfloor hle

end Ledger

def Action.Under {R : Type} (rates : ChargeRates) : Action R → Prop
  | .statement _ => True
  | .worker _ a => a.Under rates

/-- In every run of any number of replicas under one tariff, whatever way the orders of the
continuous market fill: at each state the ledger of each sell keeps the quote for what it has
sold at its price. -/
theorem State.quotes_kept {R : Type} [DecidableEq R] (rates : ChargeRates) (db : Database)
    (hdb : db.Quoted rates) (as : List (Action R))
    (has : Runs.AllSteps State.step (fun _ a => a.Under rates) (State.start db) as) :
    Runs.AllStates State.step (fun s : State R => s.db.KeepsQuotes rates) (State.start db) as := by
  have hinv : Runs.AllStates State.step
      (fun s : State R => s.Sound ∧ s.db.Quoted rates ∧ ∀ r, (s.phase r).Lands rates s.db)
      (State.start db) as := by
    refine Runs.AllStates.of_allSteps ?_ ⟨fun _ => trivial, hdb, fun _ => trivial⟩ has
    rintro s a s' ⟨hsound, hquoted, hphase⟩ ha hstep
    refine ⟨hsound.step hstep, ?_, ?_⟩
    · cases a with
      | statement st =>
        obtain ⟨db', hexec, rfl⟩ := Option.map_eq_some_iff.mp hstep
        intro t ht
        rw [Database.exec_settlements hexec] at ht
        exact Database.exec_keepsAsks hexec _ _ (hquoted t ht)
      | worker r b =>
        obtain ⟨⟨db', phase'⟩, hmove, rfl⟩ := Option.map_eq_some_iff.mp hstep
        exact ((Phase.move_of_step hmove).quoted ha (hsound r) (hphase r) hquoted).1
    · refine State.step_induction hphase ?_ ?_ hstep
      · intro st db' _ hexec r hr
        exact hr.mono (Database.exec_keepsAsks hexec)
      · rintro r b db' phase' rfl hmove
        obtain ⟨hlater, hext, _⟩ := hmove.later (hsound r)
        exact ⟨(hmove.quoted ha (hsound r) (hphase r) hquoted).2,
          fun q _ hq => hq.mono (Database.keepsAsks_of_later hlater hext)⟩
  exact hinv.mono fun s h => h.2.1.keepsQuotes

def sharedSell : List (Action Unit) :=
  [.statement (.insertOrder (.placed 1 .sell 4 5)), .statement (.insertOrder (.placed 2 .buy 5 2)),
    .statement (.insertOrder (.placed 3 .buy 5 3)), .worker () (.readBuys .matching),
    .worker () (.readSells (gridAwareTopology .deployed) (BoundedInt.saturate 0)),
    .worker () (.persist ⟨11, 12, 13, 0⟩ .deployed), .worker () (.persist ⟨21, 22, 23, 0⟩ .deployed)]

/-- The quote for the five units is what the two pay. -/
theorem State.quotes_kept_two_buyers :
    ((quoteAmounts ⟨1 / 2, 10⟩ .deployed (fun _ => .error "") ⟨BoundedInt.saturate 0, BoundedInt.saturate 1,
        .ok 5, .ok 4⟩).toOption.map fun quote => (quote.breakdown.totalCost, quote.gridMetrics.isGridCompliant)) =
        some (2051 / 100, true) ∧
      (sharedSell.foldlM State.step (State.start .empty)).map (fun s => s.db.sold 1 (·.totalAmount)) =
        some (2051 / 100) ∧
      Runs.AllStates State.step (fun s => s.db.KeepsQuotes .deployed) (State.start .empty) sharedSell := by
  refine ⟨by decide +kernel, by decide +kernel, ?_⟩
  have hempty : Database.empty.Quoted .deployed := fun s hs => absurd hs List.not_mem_nil
  have hunder : ∀ a ∈ sharedSell, a.Under .deployed := by
    intro a ha
    simp only [sharedSell, List.mem_cons, List.not_mem_nil, or_false] at ha
    rcases ha with rfl | rfl | rfl | rfl | rfl | rfl | rfl
    · trivial
    · trivial
    · trivial
    · trivial
    · rfl
    · rfl
    · rfl
  exact State.quotes_kept .deployed .empty hempty sharedSell (.of_forall (fun a ha _ => hunder a ha) _)

end TradingService
