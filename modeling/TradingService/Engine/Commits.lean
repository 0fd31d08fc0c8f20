import TradingService.Engine.FillOrKill
import TradingService.Engine.Priority

/-!
# What every match of a cycle stands for

The state of a cycle changes at one place only, where a gathered candidate is
committed. `Commit` says what is known there, and an invariant of the commits is an
invariant of the cycle. From it come the price bounds of a match, the limits of the
links, and that only legitimate pairs trade, each of them once.
-/

namespace TradingService.MatchingEngine

variable {n : ℕ}

section Commit

variable (topology : TopologySnapshot) (dynamicMultiplier : FastPrice) (nowNs : I64)

/-- In the turn of `buy`, a candidate that was gathered in the state and for the rest of
the buy in `start` is granted `amount` in those in `p`. -/
structure Commit (buy : FastOrder) (start p : CycleState n × FastOrder) (c : Candidate n)
    (amount : Decimal) : Prop where
  live : Live nowNs buy
  start_rest : ∃ filled, start.2 = buy.fill filled
  rest : ∃ filled, p.2 = buy.fill filled
  gathered : ∃ needAtStart earlyStop, c ∈ (gatherCandidates start.1.zoneBooks start.1.sellOrders
    start.2 needAtStart topology dynamicMultiplier earlyStop).1
  later : Later start.1.sellOrders p.1.sellOrders
  needs : minTradeAmount ≤ p.2.remainingAmount
  admitted : admittedTake topology (p.1.sellOrders c.sellIdx) p.2 p.1.committedFlow
    p.2.remainingAmount = some amount

variable {topology dynamicMultiplier nowNs} {buyMetadata : List OrderMetadata} {buy : FastOrder}
  {start p : CycleState n × FastOrder} {c : Candidate n} {amount : Decimal}

theorem Commit.amount_eq (h : Commit topology dynamicMultiplier nowNs buy start p c amount) :
    amount = min p.2.remainingAmount (p.1.sellOrders c.sellIdx).remainingAmount :=
  (admittedTake_eq_some topology h.admitted).1

theorem Commit.left (h : Commit topology dynamicMultiplier nowNs buy start p c amount) :
    minTradeAmount ≤ (p.1.sellOrders c.sellIdx).remainingAmount :=
  (admittedTake_eq_some topology h.admitted).2.1

theorem Commit.amount_pos (h : Commit topology dynamicMultiplier nowNs buy start p c amount) :
    0 < amount := by
  rw [h.amount_eq]
  exact minTradeAmount_pos.trans_le (le_min h.needs h.left)

theorem Commit.fits (h : Commit topology dynamicMultiplier nowNs buy start p c amount) :
    topology.canAccommodateFlow (p.1.sellOrders c.sellIdx).zoneId p.2.zoneId
      (p.1.committedFlow ((p.1.sellOrders c.sellIdx).zoneId, p.2.zoneId) + amount) = true :=
  (admittedTake_eq_some topology h.admitted).2.2

theorem Commit.later_after (h : Commit topology dynamicMultiplier nowNs buy start p c amount) :
    Later p.1.sellOrders (commitMatch p.1 p.2 c buyMetadata amount).sellOrders :=
  Later.update _ _ h.amount_pos.le

theorem Commit.exhausts (h : Commit topology dynamicMultiplier nowNs buy start p c amount) :
    (p.2.fill amount).remainingAmount < minTradeAmount ∨
      ((commitMatch p.1 p.2 c buyMetadata amount).sellOrders c.sellIdx).remainingAmount <
        minTradeAmount := by
  rw [commitMatch_sellOrders_self, FastOrder.fill_remainingAmount, FastOrder.fill_remainingAmount,
    h.amount_eq]
  rcases min_choice p.2.remainingAmount (p.1.sellOrders c.sellIdx).remainingAmount with he | he
  · exact .inl (by rw [he, sub_self]; exact minTradeAmount_pos)
  · exact .inr (by rw [he, sub_self]; exact minTradeAmount_pos)

structure Checked (dynamicMultiplier : FastPrice) (buy sell : FastOrder) (c : Candidate n) : Prop where
  owner : buy.userId ≠ sell.userId
  ask : sell.price ≤ buy.price
  bid : c.landed ≤ buy.price
  landed : ∃ fees, c.landed = landedCost sell.price fees dynamicMultiplier

theorem checked_of_priceSell {sellOrders : Fin n → FastOrder} {needAtStart : Decimal} {fees : ZoneFees}
    {i : Fin n}
    (h : priceSell sellOrders buy needAtStart topology dynamicMultiplier fees i = some c) :
    Checked dynamicMultiplier buy (sellOrders i) c := by
  unfold priceSell pricedCandidate at h
  split_ifs at h with hself hask hflow hbid
  obtain rfl := Option.some.inj h
  exact ⟨hself, not_lt.mp hask, hbid, fees, rfl⟩

/-- The checks are about parts of the orders that no fill changes. -/
theorem Commit.checked (h : Commit topology dynamicMultiplier nowNs buy start p c amount) :
    Checked dynamicMultiplier buy (p.1.sellOrders c.sellIdx) c := by
  obtain ⟨needAtStart, earlyStop, hc⟩ := h.gathered
  obtain ⟨zone, hpriced⟩ := mem_gatherCandidates _ _ _ _ hc
  have hstart := checked_of_priceSell hpriced
  obtain ⟨filled, hbuy⟩ := h.start_rest
  rw [hbuy] at hstart
  refine ⟨?_, ?_, hstart.bid, ?_⟩
  · rw [h.later.userId]
    exact hstart.owner
  · rw [h.later.price]
    exact hstart.ask
  · rw [h.later.price]
    exact hstart.landed

theorem Commit.viable (h : Commit topology dynamicMultiplier nowNs buy start p c amount)
    (hfiled : Filed nowNs start.1) :
    (p.1.sellOrders c.sellIdx).isExpired nowNs = false ∧
      topology.canAccommodateFlow (p.1.sellOrders c.sellIdx).zoneId buy.zoneId minTradeAmount = true := by
  obtain ⟨needAtStart, earlyStop, hc⟩ := h.gathered
  have hviable := viable_of_mem_gatherCandidates nowNs _ _ _ _ hfiled.booked hc
  obtain ⟨hcond, _⟩ := viableSell_eq_some.mp hviable
  obtain ⟨filled, hbuy⟩ := h.start_rest
  obtain ⟨filled', _, hsell⟩ := h.later c.sellIdx
  rw [hbuy] at hcond
  rw [hsell]
  exact ⟨by simpa using hcond.1.2, hcond.2⟩

end Commit

section Induction

variable {topology : TopologySnapshot} {dynamicMultiplier : FastPrice} {nowNs : I64}
  {buyMetadata : List OrderMetadata}

/-- Induction over the turn of a buy: a property of state and buy that every commit keeps. -/
theorem matchBuy_induction {motive : CycleState n × FastOrder → Prop} {buy : FastOrder}
    (hstep : ∀ start p c amount, Commit topology dynamicMultiplier nowNs buy start p c amount →
      motive start → motive p → motive (commitMatch p.1 p.2 c buyMetadata amount, p.2.fill amount))
    (st : CycleState n) (h : motive (st, buy)) :
    motive (matchBuy buyMetadata topology dynamicMultiplier nowNs st buy) := by
  by_cases hidle : buy.remainingAmount < minTradeAmount ∨ buy.isExpired nowNs
  · simp only [matchBuy, if_pos hidle]
    exact h
  obtain ⟨hneed, hexpired⟩ := not_or.mp hidle
  have hlive : Live nowNs buy := ⟨not_lt.mp hneed, by simpa using hexpired⟩
  -- One turn of the loop, from a state in which some of the buy may be filled already.
  have hpass : ∀ needAtStart fullScan p, (∃ filled, p.2 = buy.fill filled) → motive p →
      (∃ filled, (scanPass buyMetadata topology dynamicMultiplier needAtStart fullScan p).1.2 =
        buy.fill filled) ∧
      motive (scanPass buyMetadata topology dynamicMultiplier needAtStart fullScan p).1 := by
    rintro needAtStart fullScan p ⟨filled, hfilled⟩ hp
    simp only [scanPass]
    split_ifs
    · exact ⟨⟨filled, hfilled⟩, hp⟩
    · refine (drain_induction (motive := fun q => (Later p.1.sellOrders q.1.sellOrders ∧
        ∃ filled, q.2 = buy.fill filled) ∧ motive q) _ ?_ p
        ⟨⟨.refl _, filled, hfilled⟩, hp⟩).imp_left And.right
      rintro q c hc amount ⟨⟨hlater, filled', hfilled'⟩, hq⟩ hneed ha
      have hcommit : Commit topology dynamicMultiplier nowNs buy p q c amount :=
        { live := hlive
          start_rest := ⟨filled, hfilled⟩
          rest := ⟨filled', hfilled'⟩
          gathered := ⟨needAtStart, _, hc⟩
          later := hlater
          needs := hneed
          admitted := ha }
      refine ⟨⟨hlater.trans hcommit.later_after, filled' + amount, ?_⟩, hstep _ _ _ _ hcommit hp hq⟩
      rw [hfilled', FastOrder.fill_fill]
  have hstart : ∃ filled, (st, buy).2 = buy.fill filled := ⟨0, buy.fill_zero.symm⟩
  obtain ⟨hfilled, hfirst⟩ := hpass buy.remainingAmount (buy.timeInForce = .fok) (st, buy) hstart h
  simp only [matchBuy, if_neg hidle]
  split_ifs
  · exact (hpass _ _ _ hfilled hfirst).2
  · exact hfirst

/-- Induction over the loop of the buys: a property of the state that every turn keeps. -/
theorem overBuys_induction {P : CycleState n → Prop}
    {step : CycleState n → FastOrder → CycleState n × FastOrder} (buys : List FastOrder)
    (hstep : ∀ st, ∀ buy ∈ buys, P st → P (step st buy).1) (st : CycleState n) (h : P st) :
    P (overBuys step buys st).1 := by
  induction buys generalizing st with
  | nil => exact h
  | cons buy buys ih =>
    exact ih (fun st b hb => hstep st b (List.mem_cons_of_mem _ hb)) _
      (hstep st buy List.mem_cons_self h)

/-- Induction over a cycle: a property of the state that every commit keeps. -/
theorem matchBuys_induction {P : CycleState n → Prop} (buys : List FastOrder)
    (hstep : ∀ buy ∈ buys, ∀ start p c amount,
      Commit topology dynamicMultiplier nowNs buy start p c amount → P start.1 → P p.1 →
        P (commitMatch p.1 p.2 c buyMetadata amount))
    (st : CycleState n) (h : P st) :
    P (matchBuys buyMetadata topology dynamicMultiplier nowNs buys st).1 :=
  overBuys_induction buys (fun st buy hbuy hst => matchBuy_induction
    (motive := fun q => P q.1) (hstep buy hbuy) st hst) st h

end Induction

section Prices

def maxRaw : ℤ := 9223372036854775807

def FitsI128 (z : ℤ) : Prop := -2 ^ 127 ≤ z ∧ z < 2 ^ 127

instance (z : ℤ) : Decidable (FitsI128 z) := inferInstanceAs (Decidable (_ ∧ _))

/-- Ask and network charges over the integers, cut off at the greatest price. -/
def chargedRaw (price : FastPrice) (fees : ZoneFees) : ℤ :=
  min maxRaw (price.raw + max (fees.wheeling.raw : ℤ) 0 +
    (price.raw : ℤ) * extraLossRaw fees.loss / FastPrice.factor)

/-- The landed cost over the integers, cut off at the greatest price. -/
def landedRaw (price : FastPrice) (fees : ZoneFees) (dynamicMultiplier : FastPrice) : ℤ :=
  min maxRaw (chargedRaw price fees * dynamicMultiplier.raw / FastPrice.factor)

variable {price dynamicMultiplier : FastPrice} (fees : ZoneFees)

theorem raw_le_maxRaw (price : FastPrice) : (price.raw : ℤ) ≤ maxRaw := price.raw.le_hi

theorem extraLossRaw_nonneg (loss : FastPrice) : 0 ≤ extraLossRaw loss := le_max_right _ _

theorem extraLossRaw_le (loss : FastPrice) : extraLossRaw loss ≤ maxRaw := by
  have h := (BoundedInt.saturatingSub loss.raw FastPrice.one.raw).le_hi
  exact max_le h (by norm_num [maxRaw])

theorem saturate_raw {z : ℤ} (hz : 0 ≤ z) : ((BoundedInt.saturate z : I64) : ℤ) = min maxRaw z := by
  simp only [BoundedInt.saturate, maxRaw]
  omega

theorem wheelingFloor_raw (wheeling : FastPrice) :
    ((wheelingFloor wheeling).raw : ℤ) = max (wheeling.raw : ℤ) 0 := by
  unfold wheelingFloor
  split_ifs with h
  · exact (max_eq_right h.le).symm
  · exact (max_eq_left (not_lt.mp h)).symm

/-- A quotient of numbers that are not negative, outside the range or not, is cut off at the
greatest price. -/
theorem scaled_raw {a b : ℤ} (ha : 0 ≤ a) (hb : 0 ≤ b) :
    (((BoundedInt.tryFrom ((a * b).tdiv FastPrice.factor)).getD BoundedInt.top : I64) : ℤ) =
      min maxRaw (a * b / FastPrice.factor) := by
  have hab : 0 ≤ a * b := mul_nonneg ha hb
  have hq : 0 ≤ a * b / FastPrice.factor := Int.ediv_nonneg hab (by norm_num [FastPrice.factor])
  rw [Int.tdiv_eq_ediv_of_nonneg hab, BoundedInt.tryFrom_getD_top (by omega), saturate_raw hq]

theorem charges_nonneg (h0 : (0 : ℤ) ≤ price.raw) :
    0 ≤ (price.raw : ℤ) * extraLossRaw fees.loss / FastPrice.factor :=
  Int.ediv_nonneg (mul_nonneg h0 (extraLossRaw_nonneg _)) (by norm_num [FastPrice.factor])

theorem le_chargedRaw (h0 : (0 : ℤ) ≤ price.raw) : (price.raw : ℤ) ≤ chargedRaw price fees := by
  have hloss := charges_nonneg fees h0
  have hmax := raw_le_maxRaw price
  unfold chargedRaw
  omega

/-- The saturating sums are the exact sum cut off once. -/
theorem charged_raw (h0 : (0 : ℤ) ≤ price.raw) :
    ((BoundedInt.saturatingAdd (BoundedInt.saturatingAdd price.raw (wheelingFloor fees.wheeling).raw)
      (lossCostExtra price fees.loss).raw : I64) : ℤ) = chargedRaw price fees := by
  have hloss := charges_nonneg fees h0
  have hwheeling : 0 ≤ max (fees.wheeling.raw : ℤ) 0 := le_max_right _ _
  have hcost : ((lossCostExtra price fees.loss).raw : ℤ) =
      min maxRaw ((price.raw : ℤ) * extraLossRaw fees.loss / FastPrice.factor) :=
    scaled_raw h0 (extraLossRaw_nonneg _)
  have hfirst := saturate_raw (add_nonneg h0 hwheeling)
  have hmax : (0 : ℤ) ≤ maxRaw := by norm_num [maxRaw]
  unfold BoundedInt.saturatingAdd
  rw [wheelingFloor_raw, hcost, hfirst, saturate_raw (by omega)]
  unfold chargedRaw
  omega

theorem landedCost_raw (h0 : (0 : ℤ) ≤ price.raw) (hmul : (0 : ℤ) < dynamicMultiplier.raw) :
    ((landedCost price fees dynamicMultiplier).raw : ℤ) = landedRaw price fees dynamicMultiplier := by
  have hcharged := h0.trans (le_chargedRaw fees h0)
  have hle : chargedRaw price fees ≤ maxRaw := min_le_left _ _
  unfold landedCost landedRaw
  dsimp only
  split_ifs with hone
  · rw [hone]
    have hfactor : (FastPrice.one.raw : ℤ) = FastPrice.factor := rfl
    rw [hfactor, Int.mul_ediv_cancel _ (by norm_num [FastPrice.factor]), min_eq_right hle]
    exact charged_raw fees h0
  · rw [FastPrice.checkedMul_getD]
    simp only [FastPrice.fromRaw]
    rw [charged_raw fees h0]
    exact scaled_raw hcharged hmul.le

/-- A multiplier of at least one leaves the landed cost at or above the ask. -/
theorem le_landedCost (h0 : (0 : ℤ) ≤ price.raw) (hmul : FastPrice.one ≤ dynamicMultiplier) :
    price ≤ landedCost price fees dynamicMultiplier := by
  have hfactor : FastPrice.factor ≤ (dynamicMultiplier.raw : ℤ) := hmul
  have hpos : (0 : ℤ) < FastPrice.factor := by norm_num [FastPrice.factor]
  have hcharged := h0.trans (le_chargedRaw fees h0)
  have hscaled : chargedRaw price fees ≤ chargedRaw price fees * dynamicMultiplier.raw /
      FastPrice.factor := by
    rw [Int.le_ediv_iff_mul_le hpos]
    exact mul_le_mul_of_nonneg_left hfactor hcharged
  rw [FastPrice.le_iff, landedCost_raw fees h0 (hpos.trans_le hfactor)]
  exact le_min (raw_le_maxRaw _) ((le_chargedRaw fees h0).trans hscaled)

theorem fitsI128_mul {a b : ℤ} (ha : 0 ≤ a) (ha' : a ≤ maxRaw) (hb : 0 ≤ b) (hb' : b ≤ maxRaw) :
    FitsI128 (a * b) := by
  have hle : a * b ≤ maxRaw * maxRaw := mul_le_mul ha' hb' hb (by norm_num [maxRaw])
  have h0 : 0 ≤ a * b := mul_nonneg ha hb
  have hmax : maxRaw * maxRaw < 2 ^ 127 := by norm_num [maxRaw]
  exact ⟨by omega, hle.trans_lt hmax⟩

end Prices

section PriceBounds

variable {buyOrders sellOrders : List FastOrder} (buyMetadata : List OrderMetadata)
  (topology : TopologySnapshot) (dynamicMultiplier : FastPrice) (nowNs : I64)

/-- The prices that a result reports of the orders it names: ask and landed cost are
within the bid, and the landed cost is made of the ask. -/
structure Priced (sellOrders : List FastOrder) (dynamicMultiplier : FastPrice) (r : MatchResult) :
    Prop where
  ask : r.sellerPrice ≤ r.buyerPrice
  bid : r.settlePrice ≤ r.buyerPrice
  landed : ∃ s ∈ sellOrders, ∃ fees, r.sellerPrice = s.price.toDecimal ∧
    r.settlePrice = (landedCost s.price fees dynamicMultiplier).toDecimal

theorem matchCycle_priced :
    ∀ r ∈ (matchCycle buyOrders sellOrders buyMetadata topology dynamicMultiplier nowNs).results,
      Priced sellOrders (guardMultiplier dynamicMultiplier) r := by
  refine (matchBuys_induction (P := fun st => Later sellOrders.get st.sellOrders ∧
    ∀ r ∈ st.results, Priced sellOrders (guardMultiplier dynamicMultiplier) r) _ ?_ _
    ⟨.refl _, by simp [initialState]⟩).2
  rintro buy _ start p c amount hcommit _ ⟨hlater, hresults⟩
  refine ⟨hlater.trans hcommit.later_after, List.forall_mem_append.mpr ⟨hresults, fun r hr => ?_⟩⟩
  obtain rfl := List.mem_singleton.mp hr
  have hchecked := hcommit.checked
  obtain ⟨fees, hlanded⟩ := hchecked.landed
  obtain ⟨filled, hbuy⟩ := hcommit.rest
  have hbid : p.2.price = buy.price := by rw [hbuy, FastOrder.fill_price]
  refine ⟨?_, ?_, sellOrders.get c.sellIdx, List.get_mem _ _, fees, ?_, ?_⟩
  · simp only [matchResult, hbid]
    exact FastPrice.toDecimal_le.mpr hchecked.ask
  · simp only [matchResult, hbid]
    exact FastPrice.toDecimal_le.mpr hchecked.bid
  · simp only [matchResult, hlater.price]
  · simp only [matchResult, hlanded, hlater.price]

end PriceBounds

/-- The price bounds of a match: ask and settlement price are within the bid, and with a
multiplier of at least one, or none, the settlement price covers the ask. A landed cost is
the exact one cut off at the greatest price, and its products fit in 128 bits. -/
theorem matchCycle_price_bounds (buyOrders sellOrders : List FastOrder)
    (buyMetadata : List OrderMetadata) (topology : TopologySnapshot) (dynamicMultiplier : FastPrice)
    (nowNs : I64) (hprices : ∀ o ∈ buyOrders ++ sellOrders, (0 : ℤ) ≤ o.price.raw) :
    let out := matchCycle buyOrders sellOrders buyMetadata topology dynamicMultiplier nowNs
    let multiplier := guardMultiplier dynamicMultiplier
    (∀ r ∈ out.results, r.sellerPrice ≤ r.buyerPrice ∧ r.settlePrice ≤ r.buyerPrice ∧
      (FastPrice.one ≤ dynamicMultiplier ∨ (dynamicMultiplier.raw : ℤ) ≤ 0 →
        r.sellerPrice ≤ r.settlePrice)) ∧
      ∀ s ∈ sellOrders, ∀ fees,
        ((landedCost s.price fees multiplier).raw : ℤ) = landedRaw s.price fees multiplier ∧
        FitsI128 (s.price.raw * extraLossRaw fees.loss) ∧
        FitsI128 (chargedRaw s.price fees * multiplier.raw) := by
  intro out multiplier
  have hask : ∀ s ∈ sellOrders, (0 : ℤ) ≤ s.price.raw := fun s hs =>
    hprices s (List.mem_append_right _ hs)
  have hmul : (0 : ℤ) < multiplier.raw := guardMultiplier_pos dynamicMultiplier
  refine ⟨fun r hr => ?_, fun s hs fees => ⟨landedCost_raw fees (hask s hs) hmul, ?_, ?_⟩⟩
  · have hpriced := matchCycle_priced buyMetadata topology dynamicMultiplier nowNs r hr
    refine ⟨hpriced.ask, hpriced.bid, fun hone => ?_⟩
    obtain ⟨s, hs, fees, hseller, hsettle⟩ := hpriced.landed
    have hguarded : FastPrice.one ≤ multiplier := by
      simp only [multiplier, guardMultiplier]
      split_ifs with hnonpos
      · exact le_rfl
      · exact hone.resolve_right hnonpos
    rw [hseller, hsettle]
    exact FastPrice.toDecimal_le.mpr (le_landedCost fees (hask s hs) hguarded)
  · exact fitsI128_mul (hask s hs) (raw_le_maxRaw _) (extraLossRaw_nonneg _) (extraLossRaw_le _)
  · exact fitsI128_mul ((hask s hs).trans (le_chargedRaw fees (hask s hs))) (min_le_left _ _) hmul.le
      (raw_le_maxRaw _)

def lossyGrid : TopologySnapshot where
  canAccommodateFlow _ _ _ := true
  calculateWheelingCharge _ _ := FastPrice.ofInt (-1)
  calculateLossFactor _ _ := FastPrice.fromRaw (BoundedInt.saturate 1050000000)

/-- The ask of four lands at eight and two fifths once losses and multiplier are on it. -/
theorem matchCycle_price_bounds_lossy :
    let out := matchCycle [.placed 1 10 5 none] [.placed 2 4 5 none] [] lossyGrid (FastPrice.ofInt 2)
      (BoundedInt.saturate 0)
    out.results.map (·.settlePrice) = [42 / 5] ∧
      ∀ r ∈ out.results, r.settlePrice ≤ r.buyerPrice ∧ r.sellerPrice ≤ r.settlePrice := by
  refine ⟨by decide +kernel, fun r hr => ?_⟩
  have h := (matchCycle_price_bounds [.placed 1 10 5 none] [.placed 2 4 5 none] [] lossyGrid
    (FastPrice.ofInt 2) (BoundedInt.saturate 0) (by decide)).1 r hr
  exact ⟨h.2.1, h.2.2 (.inl (by decide))⟩

section LinkLimits

def linkFlow (results : List MatchResult) (link : ZoneId × ZoneId) : Decimal :=
  ((results.filter fun r => (r.sellerZoneId, r.buyerZoneId) = link).map (·.matchAmount)).sum

@[simp] theorem linkFlow_nil (link : ZoneId × ZoneId) : linkFlow [] link = 0 := rfl

theorem linkFlow_append_singleton (results : List MatchResult) (r : MatchResult)
    (link : ZoneId × ZoneId) :
    linkFlow (results ++ [r]) link =
      linkFlow results link + if (r.sellerZoneId, r.buyerZoneId) = link then r.matchAmount else 0 := by
  unfold linkFlow
  rw [List.filter_append, List.map_append, List.sum_append]
  by_cases h : (r.sellerZoneId, r.buyerZoneId) = link <;> simp [h]

variable (topology : TopologySnapshot)

/-- The flow ledger holds what the results move, and every link that moves something was
accepted at its total. -/
structure WithinLimits (st : CycleState n) : Prop where
  ledger : ∀ link, st.committedFlow link = linkFlow st.results link
  accepted : ∀ r ∈ st.results, topology.canAccommodateFlow r.sellerZoneId r.buyerZoneId
    (linkFlow st.results (r.sellerZoneId, r.buyerZoneId)) = true

variable {topology} {dynamicMultiplier : FastPrice} {nowNs : I64} {buyMetadata : List OrderMetadata}
  {buy : FastOrder} {start p : CycleState n × FastOrder} {c : Candidate n} {amount : Decimal}

theorem WithinLimits.commit (h : WithinLimits topology p.1)
    (hcommit : Commit topology dynamicMultiplier nowNs buy start p c amount) :
    WithinLimits topology (commitMatch p.1 p.2 c buyMetadata amount) := by
  have hfits := hcommit.fits
  rw [h.ledger] at hfits
  refine ⟨fun link => ?_, List.forall_mem_append.mpr ⟨fun r hr => ?_, fun r hr => ?_⟩⟩
  · simp only [commitMatch, linkFlow_append_singleton, matchResult, ← h.ledger]
    by_cases hlink : link = ((p.1.sellOrders c.sellIdx).zoneId, p.2.zoneId)
    · subst hlink
      rw [Function.update_self, if_pos rfl]
    · rw [Function.update_of_ne hlink, if_neg (Ne.symm hlink), add_zero]
  · simp only [commitMatch, linkFlow_append_singleton, matchResult]
    by_cases hlink : ((p.1.sellOrders c.sellIdx).zoneId, p.2.zoneId) = (r.sellerZoneId, r.buyerZoneId)
    · obtain ⟨hseller, hbuyer⟩ := Prod.mk.inj hlink
      rw [if_pos hlink, ← hseller, ← hbuyer]
      exact hfits
    · rw [if_neg hlink, add_zero]
      exact h.accepted r hr
  · obtain rfl := List.mem_singleton.mp hr
    simp only [commitMatch, linkFlow_append_singleton, matchResult, if_true]
    exact hfits

end LinkLimits

/-- Transmission limits: every link that carries a result accepts the sum of all results
that it carries. -/
theorem matchCycle_within_limits (buyOrders sellOrders : List FastOrder)
    (buyMetadata : List OrderMetadata) (topology : TopologySnapshot) (dynamicMultiplier : FastPrice)
    (nowNs : I64) :
    let out := matchCycle buyOrders sellOrders buyMetadata topology dynamicMultiplier nowNs
    ∀ r ∈ out.results, topology.canAccommodateFlow r.sellerZoneId r.buyerZoneId
      (linkFlow out.results (r.sellerZoneId, r.buyerZoneId)) = true :=
  (matchBuys_induction (P := WithinLimits topology) _
    (fun _ _ _ _ _ _ hcommit _ h => h.commit hcommit) _
    ⟨fun _ => rfl, by simp [initialState]⟩).accepted

section Legitimate

/-- A result pairs two orders of different users, both of which could trade when the cycle
began, over a link that carries the minimum. -/
structure Legitimate (topology : TopologySnapshot) (nowNs : I64) (buyOrders sellOrders : List FastOrder)
    (r : MatchResult) : Prop where
  users : r.buyerId ≠ r.sellerId
  buy : ∃ b ∈ buyOrders, r.buyOrderId = b.id ∧ r.buyerId = b.userId ∧ r.buyerZoneId = b.zoneId ∧
    Live nowNs b
  sell : ∃ s ∈ sellOrders, r.sellOrderId = s.id ∧ r.sellerId = s.userId ∧ r.sellerZoneId = s.zoneId ∧
    Live nowNs s
  link : topology.canAccommodateFlow r.sellerZoneId r.buyerZoneId minTradeAmount = true

/-- What the turns keep: the sells are those of the entry, in part filled, the books file
the live ones, and the results are legitimate. -/
structure LegitimateSoFar (topology : TopologySnapshot) (nowNs : I64) (buyOrders sellOrders : List FastOrder)
    (st : CycleState sellOrders.length) : Prop where
  later : Later sellOrders.get st.sellOrders
  filed : Filed nowNs st
  results : ∀ r ∈ st.results, Legitimate topology nowNs buyOrders sellOrders r

variable {topology : TopologySnapshot} {dynamicMultiplier : FastPrice} {nowNs : I64}
  {buyMetadata : List OrderMetadata} {buyOrders sellOrders : List FastOrder} {buy : FastOrder}
  {start p : CycleState sellOrders.length × FastOrder} {c : Candidate sellOrders.length}
  {amount : Decimal}

theorem LegitimateSoFar.commit (h : LegitimateSoFar topology nowNs buyOrders sellOrders p.1)
    (hbuy : buy ∈ buyOrders) (hstart : Filed nowNs start.1)
    (hcommit : Commit topology dynamicMultiplier nowNs buy start p c amount) :
    LegitimateSoFar topology nowNs buyOrders sellOrders
      (commitMatch p.1 p.2 c buyMetadata amount) := by
  refine ⟨h.later.trans hcommit.later_after, h.filed.commitMatch hcommit.amount_pos.le,
    List.forall_mem_append.mpr ⟨h.results, fun r hr => ?_⟩⟩
  obtain rfl := List.mem_singleton.mp hr
  obtain ⟨hlive, hlink⟩ := hcommit.viable hstart
  obtain ⟨filled, hrest⟩ := hcommit.rest
  obtain ⟨filled', _, hsell⟩ := h.later c.sellIdx
  have hleft := hcommit.left.trans (h.later.remaining_le c.sellIdx)
  refine ⟨?_, ⟨buy, hbuy, ?_, ?_, ?_, hcommit.live⟩,
    ⟨sellOrders.get c.sellIdx, List.get_mem _ _, ?_, ?_, ?_, hleft, ?_⟩, ?_⟩
  · simp only [matchResult, hrest, FastOrder.fill_userId]
    exact hcommit.checked.owner
  · simp only [matchResult, hrest, FastOrder.fill_id]
  · simp only [matchResult, hrest, FastOrder.fill_userId]
  · simp only [matchResult, hrest, FastOrder.fill_zoneId]
  · simp only [matchResult, hsell, FastOrder.fill_id]
  · simp only [matchResult, hsell, FastOrder.fill_userId]
  · simp only [matchResult, hsell, FastOrder.fill_zoneId]
  · rw [hsell, FastOrder.fill_isExpired] at hlive
    simpa using hlive
  · simp only [matchResult, hrest, FastOrder.fill_zoneId]
    exact hlink

theorem matchCycle_legitimate (hids : (sellOrders.map (·.id)).Nodup) :
    ∀ r ∈ (matchCycle buyOrders sellOrders buyMetadata topology dynamicMultiplier nowNs).results,
      Legitimate topology nowNs buyOrders sellOrders r := by
  have hperm : (sortBuys buyOrders).Perm buyOrders := List.perm_insertionSort _ _
  exact (matchBuys_induction (P := LegitimateSoFar topology nowNs buyOrders sellOrders) _
    (fun _ hbuy _ _ _ _ hcommit hstart h => h.commit (hperm.subset hbuy) hstart.filed hcommit) _
    ⟨.refl _, filed_initialState (get_ids_injective hids), by simp [initialState]⟩).results

end Legitimate

section Pairs

def MatchResult.pair (r : MatchResult) : Uuid × Uuid := (r.buyOrderId, r.sellOrderId)

/-- In the turn of `buy`: no pair has two results, and a sell that the buy has taken from
is used up unless the buy is served. The results before are those of other buys. -/
structure PairedOnce (before : List MatchResult) (buy : FastOrder) (q : CycleState n × FastOrder) :
    Prop where
  pairs : (q.1.results.map MatchResult.pair).Nodup
  sell_ids : Function.Injective fun i => (q.1.sellOrders i).id
  others : ∀ r ∈ q.1.results, r ∈ before ∨ r.buyOrderId = buy.id
  taken : ∀ r ∈ q.1.results, r.buyOrderId = buy.id → ∀ i, r.sellOrderId = (q.1.sellOrders i).id →
    q.1.UsedUp i ∨ q.2.remainingAmount < minTradeAmount

variable {topology : TopologySnapshot} {dynamicMultiplier : FastPrice} {nowNs : I64}
  {buyMetadata : List OrderMetadata} {buy : FastOrder} {start p : CycleState n × FastOrder}
  {c : Candidate n} {amount : Decimal}

theorem PairedOnce.commit {before : List MatchResult} (h : PairedOnce before buy p)
    (hcommit : Commit topology dynamicMultiplier nowNs buy start p c amount) :
    PairedOnce before buy (commitMatch p.1 p.2 c buyMetadata amount, p.2.fill amount) := by
  have hlater : Later p.1.sellOrders (commitMatch p.1 p.2 c buyMetadata amount).sellOrders :=
    hcommit.later_after
  have hids : ∀ i, ((commitMatch p.1 p.2 c buyMetadata amount).sellOrders i).id =
      (p.1.sellOrders i).id := hlater.id
  obtain ⟨filled, hrest⟩ := hcommit.rest
  have hbuyId : p.2.id = buy.id := by rw [hrest, FastOrder.fill_id]
  refine ⟨?_, fun i j hij => ?_, List.forall_mem_append.mpr ⟨h.others, fun r hr => ?_⟩,
    List.forall_mem_append.mpr ⟨fun r hr hbuy i hi => ?_, fun r hr _ i hi => ?_⟩⟩
  · simp only [commitMatch, List.map_append, List.map_singleton]
    refine List.nodup_append.mpr ⟨h.pairs, List.nodup_singleton _, ?_⟩
    rintro pair hpair pair' hpair' rfl
    obtain ⟨r, hr, hrpair⟩ := List.mem_map.mp hpair
    obtain ⟨hbuy, hsell⟩ := Prod.mk.inj (hrpair.trans (List.mem_singleton.mp hpair'))
    rcases h.taken r hr (hbuy.trans hbuyId) c.sellIdx hsell with hused | hserved
    · exact absurd hcommit.left (not_le.mpr hused)
    · exact absurd hcommit.needs (not_le.mpr hserved)
  · simp only [hids] at hij
    exact h.sell_ids hij
  · right
    rw [List.mem_singleton.mp hr]
    exact hbuyId
  · rw [hids] at hi
    rcases h.taken r hr hbuy i hi with hused | hserved
    · exact .inl (hused.later hlater)
    · exact absurd hcommit.needs (not_le.mpr hserved)
  · rw [hids, List.mem_singleton.mp hr] at hi
    obtain rfl := h.sell_ids hi
    exact hcommit.exhausts.symm

theorem overBuys_pairedOnce (buys : List FastOrder) (st : CycleState n)
    (hbuys : (buys.map (·.id)).Nodup) (hsells : Function.Injective fun i => (st.sellOrders i).id)
    (hpairs : (st.results.map MatchResult.pair).Nodup)
    (hothers : ∀ r ∈ st.results, ∀ b ∈ buys, r.buyOrderId ≠ b.id) :
    ((overBuys (matchBuy buyMetadata topology dynamicMultiplier nowNs) buys st).1.results.map
      MatchResult.pair).Nodup := by
  induction buys generalizing st with
  | nil => exact hpairs
  | cons buy buys ih =>
    obtain ⟨hfresh, hbuys⟩ := List.nodup_cons.mp hbuys
    have hstart : PairedOnce st.results buy (st, buy) :=
      ⟨hpairs, hsells, fun _ hr => .inl hr, fun r hr hbuy =>
        absurd hbuy (hothers r hr buy List.mem_cons_self)⟩
    have hturn : PairedOnce st.results buy
        (matchBuy buyMetadata topology dynamicMultiplier nowNs st buy) :=
      matchBuy_induction (fun _ _ _ _ hcommit _ h => h.commit hcommit) st hstart
    refine ih _ hbuys hturn.sell_ids hturn.pairs fun r hr b hb => ?_
    rcases hturn.others r hr with hbefore | hbuy
    · exact hothers r hbefore b (List.mem_cons_of_mem _ hb)
    · rw [hbuy]
      exact fun hid => hfresh (List.mem_map.mpr ⟨b, hb, hid.symm⟩)

end Pairs

/-- Only legitimate pairs trade, and each once: no buy and sell have two results in a cycle,
and every result pairs two orders of different users, neither expired nor below the minimum
when the cycle began, over a link that carries the minimum. -/
theorem matchCycle_pairs_once (buyOrders sellOrders : List FastOrder)
    (buyMetadata : List OrderMetadata) (topology : TopologySnapshot) (dynamicMultiplier : FastPrice)
    (nowNs : I64) (hids : ((buyOrders ++ sellOrders).map (·.id)).Nodup) :
    let out := matchCycle buyOrders sellOrders buyMetadata topology dynamicMultiplier nowNs
    (out.results.map MatchResult.pair).Nodup ∧
      ∀ r ∈ out.results, Legitimate topology nowNs buyOrders sellOrders r := by
  intro out
  have hdistinct := distinct_initialState nowNs hids
  rw [List.map_append, List.nodup_append] at hids
  refine ⟨?_, matchCycle_legitimate hids.2.1⟩
  exact overBuys_pairedOnce (sortBuys buyOrders) _ hdistinct.buy_ids hdistinct.sell_ids
    (by simp [initialState]) (by simp [initialState])

theorem matchCycle_pairs_once_regathered :
    let out := matchCycle [.placed 1 10 15 none] readmittedSells [] cappedGrid FastPrice.one
      (BoundedInt.saturate 0)
    out.results.map MatchResult.pair = [(1, 2), (1, 4), (1, 3)] ∧
      (out.results.map MatchResult.pair).Nodup :=
  ⟨by decide +kernel, (matchCycle_pairs_once [.placed 1 10 15 none] readmittedSells [] cappedGrid
    FastPrice.one (BoundedInt.saturate 0) (by decide)).1⟩

end TradingService.MatchingEngine
