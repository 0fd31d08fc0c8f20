import TradingService.Engine.Commits
import TradingService.Ledger.Matching

/-!
# Network charges as pass-throughs

The matcher puts wheeling and losses on top of the ask, in nine places, and the settlement
takes them out of the gross again, with formulas of its own. What is left for the seller is
the ask, less the loss that is charged on the charges.
-/

namespace TradingService

open MatchingEngine

/-- The topology of the service: every flow is admitted, and the tariff is the same on every link. -/
def gridAwareTopology (rates : ChargeRates) : TopologySnapshot where
  canAccommodateFlow _ _ _ := true
  calculateWheelingCharge _ _ := FastPrice.ofDecimal rates.wheelingPerKwh
  calculateLossFactor _ _ := FastPrice.ofDecimal rates.lossFactor

def gridFees (rates : ChargeRates) : ZoneFees :=
  ⟨FastPrice.ofDecimal rates.wheelingPerKwh, FastPrice.ofDecimal rates.lossFactor⟩

@[simp] theorem zoneFees_gridAwareTopology (rates : ChargeRates) (buy : FastOrder) (zone : ZoneId) :
    zoneFees buy (gridAwareTopology rates) zone = gridFees rates := rfl

namespace ChargeRates

def lossFraction (rates : ChargeRates) : Decimal := rates.lossBps.toNat / bps

def charged (rates : ChargeRates) (ask : Decimal) : Decimal :=
  ask + rates.wheelingPerKwh + rates.lossFraction * ask

/-- The ask with both charges on it is a price that the engine can represent. -/
def Unsaturated (rates : ChargeRates) (ask : Decimal) : Prop :=
  ⌊rates.charged ask * FastPrice.factor⌋ ≤ maxRaw

instance (rates : ChargeRates) (ask : Decimal) : Decidable (rates.Unsaturated ask) :=
  inferInstanceAs (Decidable (_ ≤ _))

variable {rates : ChargeRates}

theorem lossFraction_nonneg : 0 ≤ rates.lossFraction := div_nonneg (Nat.cast_nonneg _) (by norm_num [bps])

theorem wheeling_raw (h : 1000 * (rates.wheelingRatePerKwh.toNat : ℤ) ≤ maxRaw) :
    ((FastPrice.ofDecimal rates.wheelingPerKwh).raw : ℤ) = 1000 * (rates.wheelingRatePerKwh.toNat : ℤ) := by
  have hscaled : rates.wheelingPerKwh * FastPrice.factor = ((1000 * (rates.wheelingRatePerKwh.toNat : ℤ) : ℤ) : ℚ) := by
    unfold wheelingPerKwh currencyScale FastPrice.factor
    push_cast
    ring
  unfold FastPrice.ofDecimal
  rw [hscaled, Rounding.halfEven_intCast, saturate_raw (by positivity), min_eq_right h]

theorem extraLossRaw_lossFactor :
    extraLossRaw (FastPrice.ofDecimal rates.lossFactor) = 100000 * (rates.lossBps.toNat : ℤ) := by
  have hscaled : rates.lossFactor * FastPrice.factor =
      ((FastPrice.factor + 100000 * (rates.lossBps.toNat : ℤ) : ℤ) : ℚ) := by
    unfold lossFactor bps FastPrice.factor
    push_cast
    ring
  have hbound : (rates.lossBps.toNat : ℤ) < 65536 := by exact_mod_cast rates.lossBps.toNat_lt
  unfold FastPrice.ofDecimal extraLossRaw BoundedInt.saturatingSub
  rw [hscaled, Rounding.halfEven_intCast]
  simp only [BoundedInt.saturate, FastPrice.one, FastPrice.factor]
  omega

end ChargeRates

section Landed

variable {rates : ChargeRates} {ask : FastPrice}

/-- The charges are whole raw units but for the loss, which is rounded down to one. -/
theorem floor_charged (rates : ChargeRates) (ask : FastPrice) :
    ⌊rates.charged ask.toDecimal * FastPrice.factor⌋ =
      ask.raw + 1000 * (rates.wheelingRatePerKwh.toNat : ℤ) +
        (ask.raw : ℤ) * (100000 * (rates.lossBps.toNat : ℤ)) / FastPrice.factor := by
  have hsplit : rates.charged ask.toDecimal * FastPrice.factor =
      ((ask.raw : ℤ) * (100000 * (rates.lossBps.toNat : ℤ)) : ℤ) / ((1000000000 : ℕ) : ℚ) +
        ((ask.raw + 1000 * (rates.wheelingRatePerKwh.toNat : ℤ) : ℤ) : ℚ) := by
    unfold ChargeRates.charged ChargeRates.lossFraction ChargeRates.wheelingPerKwh ChargeRates.currencyScale
      ChargeRates.bps FastPrice.toDecimal FastPrice.factor
    push_cast
    ring
  rw [hsplit, Int.floor_add_intCast, Int.floor_div_natCast, Int.floor_intCast, add_comm]
  rfl

/-- The landed cost of an ask is the ask with its charges, rounded down at the ninth place. -/
theorem landedCost_gridFees (h0 : (0 : ℤ) ≤ ask.raw) (hfits : rates.Unsaturated ask.toDecimal) :
    ((landedCost ask (gridFees rates) FastPrice.one).raw : ℤ) =
      ⌊rates.charged ask.toDecimal * FastPrice.factor⌋ := by
  have hfloor := floor_charged rates ask
  have hloss : 0 ≤ (ask.raw : ℤ) * (100000 * (rates.lossBps.toNat : ℤ)) / FastPrice.factor :=
    Int.ediv_nonneg (by positivity) (by norm_num [FastPrice.factor])
  unfold ChargeRates.Unsaturated at hfits
  have hwheeling := @ChargeRates.wheeling_raw rates (by omega)
  have hcharged : chargedRaw ask (gridFees rates) = ⌊rates.charged ask.toDecimal * FastPrice.factor⌋ := by
    unfold chargedRaw gridFees
    rw [hwheeling, ChargeRates.extraLossRaw_lossFactor, max_eq_left (by positivity), ← hfloor,
      min_eq_right hfits]
  rw [landedCost_raw _ h0 FastPrice.one_raw_pos, landedRaw, hcharged,
    show (FastPrice.one.raw : ℤ) = FastPrice.factor from rfl,
    Int.mul_ediv_cancel _ (by norm_num [FastPrice.factor]), min_eq_right hfits]

/-- What rounding takes off the landed price is less than a unit of the ninth place, and no
more than the loss on the ask. -/
theorem landedCost_dust (h0 : (0 : ℤ) ≤ ask.raw) (hfits : rates.Unsaturated ask.toDecimal) :
    ∃ dust : Decimal, (landedCost ask (gridFees rates) FastPrice.one).toDecimal =
        rates.charged ask.toDecimal - dust ∧
      0 ≤ dust ∧ dust ≤ 1 / 1000000000 ∧ dust ≤ rates.lossFraction * ask.toDecimal := by
  have hraw := landedCost_gridFees h0 hfits
  have hlanded : (landedCost ask (gridFees rates) FastPrice.one).toDecimal =
      ⌊rates.charged ask.toDecimal * FastPrice.factor⌋ / FastPrice.factor := by
    rw [FastPrice.toDecimal, hraw]
  have hle := Int.floor_le (rates.charged ask.toDecimal * FastPrice.factor)
  have hlt := Int.lt_floor_add_one (rates.charged ask.toDecimal * FastPrice.factor)
  have hwhole : ((ask.raw + 1000 * (rates.wheelingRatePerKwh.toNat : ℤ) : ℤ) : ℚ) ≤
      ⌊rates.charged ask.toDecimal * FastPrice.factor⌋ := by
    rw [floor_charged]
    exact_mod_cast Int.le_add_of_nonneg_right
      (Int.ediv_nonneg (by positivity) (by norm_num [FastPrice.factor]))
  have hsum : ((ask.raw + 1000 * (rates.wheelingRatePerKwh.toNat : ℤ) : ℤ) : ℚ) =
      (ask.toDecimal + rates.wheelingPerKwh) * FastPrice.factor := by
    unfold FastPrice.toDecimal ChargeRates.wheelingPerKwh ChargeRates.currencyScale FastPrice.factor
    push_cast
    ring
  refine ⟨rates.charged ask.toDecimal - ⌊rates.charged ask.toDecimal * FastPrice.factor⌋ /
    FastPrice.factor, by rw [hlanded]; ring, ?_, ?_, ?_⟩
  · rw [sub_nonneg, div_le_iff₀ FastPrice.factor_pos]
    exact hle
  · have hunit : (1 : ℚ) / 1000000000 = 1 / FastPrice.factor := by norm_num [FastPrice.factor]
    rw [hunit, sub_le_iff_le_add, ← add_div, le_div_iff₀ FastPrice.factor_pos]
    linarith
  · rw [hsum, ← le_div_iff₀ FastPrice.factor_pos] at hwhole
    have hcharged : rates.charged ask.toDecimal =
      ask.toDecimal + rates.wheelingPerKwh + rates.lossFraction * ask.toDecimal := rfl
    linarith

end Landed

section Cycle

variable {n : ℕ} {rates : ChargeRates} {dynamicMultiplier : FastPrice} {nowNs : I64}
  {buyMetadata : List OrderMetadata} {buyOrders sellOrders : List FastOrder} {buy : FastOrder}
  {start p : CycleState n × FastOrder} {c : Candidate n} {amount : Decimal}

theorem landed_gridAware
    (h : Commit (gridAwareTopology rates) dynamicMultiplier nowNs buy start p c amount) :
    c.landed = landedCost (p.1.sellOrders c.sellIdx).price (gridFees rates) dynamicMultiplier := by
  obtain ⟨needAtStart, earlyStop, hc⟩ := h.gathered
  obtain ⟨zone, hpriced⟩ := mem_gatherCandidates _ _ _ _ hc
  rw [(prices_of_priceSell hpriced).landed, h.later.price]
  rfl

structure TariffPriced (rates : ChargeRates) (dynamicMultiplier : FastPrice) (sellOrders : List FastOrder)
    (r : MatchResult) : Prop where
  amount_pos : 0 < r.matchAmount
  bid : r.settlePrice ≤ r.buyerPrice
  landed : ∃ s ∈ sellOrders, r.sellerPrice = s.price.toDecimal ∧
    r.settlePrice = (landedCost s.price (gridFees rates) dynamicMultiplier).toDecimal

theorem matchCycle_tariffPriced :
    ∀ r ∈ (matchCycle buyOrders sellOrders buyMetadata (gridAwareTopology rates) dynamicMultiplier
        nowNs).results,
      TariffPriced rates (guardMultiplier dynamicMultiplier) sellOrders r := by
  refine (matchBuys_induction (P := fun st => Later sellOrders.get st.sellOrders ∧
    ∀ r ∈ st.results, TariffPriced rates (guardMultiplier dynamicMultiplier) sellOrders r) _ ?_ _
    ⟨.refl _, by simp [initialState]⟩).2
  rintro buy _ start p c amount hcommit _ ⟨hlater, hresults⟩
  refine ⟨hlater.trans hcommit.later_after, List.forall_mem_append.mpr ⟨hresults, fun r hr => ?_⟩⟩
  obtain rfl := List.mem_singleton.mp hr
  obtain ⟨filled, hbuy⟩ := hcommit.rest
  refine ⟨hcommit.amount_pos, ?_, sellOrders.get c.sellIdx, List.get_mem _ _, ?_, ?_⟩
  · simp only [matchResult, hbuy, FastOrder.fill_price]
    exact FastPrice.toDecimal_le.mpr hcommit.checked.bid
  · simp only [matchResult, hlater.price]
  · simp only [matchResult, landed_gridAware hcommit, hlater.price]

end Cycle

/-- How a settlement splits its gross, beside the ask and the bid of its match. -/
structure PassesThrough (rates : ChargeRates) (r : MatchResult) (s : Settlement Decimal) : Prop where
  sums : s.feeAmount + s.wheelingCharge + s.lossCost + s.netAmount = s.totalAmount
  bid : s.totalAmount ≤ r.matchAmount * r.buyerPrice
  never_above : s.netAmount + s.feeAmount ≤ r.matchAmount * r.sellerPrice
  never_below : r.matchAmount * r.sellerPrice - (s.netAmount + s.feeAmount) ≤
    r.matchAmount * (rates.lossFraction *
      (rates.wheelingPerKwh + rates.lossFraction * r.sellerPrice) + 1 / 1000000000)

section Split

variable {rates : ChargeRates}

/-- What the fee and the seller share of a gross, whatever the price was made of. -/
theorem computeCharges_rest (price quantity : Decimal) :
    (computeCharges (quantity * price) quantity rates).net +
        (computeCharges (quantity * price) quantity rates).fee =
      quantity * (price - rates.wheelingPerKwh - rates.lossFraction * price) := by
  unfold computeCharges ChargeRates.lossFraction
  ring

/-- The shortfall of a seller whose price is the charged ask without some dust. -/
theorem shortfall_eq (ask dust quantity : Decimal) :
    quantity * ask - quantity * (rates.charged ask - dust - rates.wheelingPerKwh -
        rates.lossFraction * (rates.charged ask - dust)) =
      quantity * (rates.lossFraction * (rates.wheelingPerKwh + rates.lossFraction * ask) +
        dust * (1 - rates.lossFraction)) := by
  unfold ChargeRates.charged
  ring

/-- The dust counts for the buyer, but the loss is charged on less. A loss above the whole
value turns its sign, and is then outweighed by the loss on the loss. -/
theorem dust_bounds {ask dust : Decimal} (h0 : 0 ≤ dust) (hunit : dust ≤ 1 / 1000000000)
    (hloss : dust ≤ rates.lossFraction * ask) :
    0 ≤ rates.lossFraction * (rates.wheelingPerKwh + rates.lossFraction * ask) +
        dust * (1 - rates.lossFraction) ∧
      rates.lossFraction * (rates.wheelingPerKwh + rates.lossFraction * ask) +
          dust * (1 - rates.lossFraction) ≤
        rates.lossFraction * (rates.wheelingPerKwh + rates.lossFraction * ask) + 1 / 1000000000 := by
  have hfraction : 0 ≤ rates.lossFraction := ChargeRates.lossFraction_nonneg
  have hwheeling : 0 ≤ rates.lossFraction * rates.wheelingPerKwh :=
    mul_nonneg hfraction ChargeRates.wheelingPerKwh_nonneg
  have hon : rates.lossFraction * dust ≤ rates.lossFraction * (rates.lossFraction * ask) :=
    mul_le_mul_of_nonneg_left hloss hfraction
  have hcharged : 0 ≤ dust * rates.lossFraction := mul_nonneg h0 hfraction
  constructor <;> linarith

theorem passesThrough_of_priced {r : MatchResult} {ask : FastPrice} (hamount : 0 < r.matchAmount)
    (hbid : r.settlePrice ≤ r.buyerPrice) (hseller : r.sellerPrice = ask.toDecimal)
    (hsettle : r.settlePrice = (landedCost ask (gridFees rates) FastPrice.one).toDecimal)
    (h0 : (0 : ℤ) ≤ ask.raw) (hfits : rates.Unsaturated ask.toDecimal) (job : Job) (ids : TradeIds) :
    PassesThrough rates r (job.settlement r ids rates) := by
  obtain ⟨dust, hlanded, hdust, hunit, hloss⟩ := landedCost_dust h0 hfits
  obtain ⟨hlow, hhigh⟩ := dust_bounds hdust hunit hloss
  have hrest : r.matchAmount * r.sellerPrice - ((job.settlement r ids rates).netAmount +
      (job.settlement r ids rates).feeAmount) =
      r.matchAmount * (rates.lossFraction * (rates.wheelingPerKwh + rates.lossFraction * ask.toDecimal) +
        dust * (1 - rates.lossFraction)) := by
    rw [← shortfall_eq, ← hlanded, ← hsettle, hseller]
    exact congrArg _ (computeCharges_rest r.settlePrice r.matchAmount)
  refine ⟨?_, mul_le_mul_of_nonneg_left hbid hamount.le, ?_, ?_⟩
  · simp only [Job.settlement, computeCharges]
    ring
  · rw [← sub_nonneg, hrest]
    exact mul_nonneg hamount.le hlow
  · rw [hrest, hseller]
    exact mul_le_mul_of_nonneg_left hhigh hamount.le

end Split

/-- A match that was priced and is settled under one tariff: the parts of the gross sum up to
it, it is within the bid, and seller and fee together get the ask, less at most the loss on
the charges and a unit of the ninth place. -/
theorem network_charges_pass_through (rates : ChargeRates) (buyOrders sellOrders : List FastOrder)
    (buyMetadata : List OrderMetadata) (nowNs : I64) (r : MatchResult)
    (hr : r ∈ (matchCycle buyOrders sellOrders buyMetadata (gridAwareTopology rates) FastPrice.one
      nowNs).results)
    (hask : 0 ≤ r.sellerPrice) (hfits : rates.Unsaturated r.sellerPrice) (job : Job) (ids : TradeIds) :
    0 < r.matchAmount ∧ PassesThrough rates r (job.settlement r ids rates) := by
  obtain ⟨hamount, hbid, s, _, hseller, hsettle⟩ := matchCycle_tariffPriced r hr
  refine ⟨hamount, passesThrough_of_priced hamount hbid hseller hsettle ?_ (hseller ▸ hfits) job ids⟩
  rw [hseller, FastPrice.toDecimal, le_div_iff₀ FastPrice.factor_pos, zero_mul] at hask
  exact_mod_cast hask

theorem network_charges_pass_through_deployed :
    let out := matchCycle [.placed 1 10 5 none] [.placed 2 4 5 none] [] (gridAwareTopology .deployed)
      FastPrice.one (BoundedInt.saturate 0)
    out.results.map (·.settlePrice) = [4102 / 1000] ∧
      ∀ r ∈ out.results, PassesThrough .deployed r
        ((Job.empty (BoundedInt.saturate 0)).settlement r ⟨1, 2, 3, 0⟩ .deployed) := by
  intro out
  have hall : ∀ r ∈ out.results, 0 ≤ r.sellerPrice ∧ ChargeRates.deployed.Unsaturated r.sellerPrice := by
    decide +kernel
  exact ⟨by decide +kernel, fun r hr => (network_charges_pass_through .deployed [.placed 1 10 5 none]
    [.placed 2 4 5 none] [] (BoundedInt.saturate 0) r hr (hall r hr).1 (hall r hr).2
    (Job.empty (BoundedInt.saturate 0)) ⟨1, 2, 3, 0⟩).2⟩

end TradingService
