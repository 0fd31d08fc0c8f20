import TradingService.Engine.Commits
import TradingService.Ledger.Provenance

/-!
# Limit prices from the rows to the match

A match settles between the two fixed-point prices of its orders. A column holds
prices that a fixed-point price does not: those are clamped to the largest one, which
the buyer does not mind and the seller does.
-/

namespace TradingService

namespace MatchingEngine

variable {n : ℕ} {buyMetadata : List OrderMetadata} {topology : TopologySnapshot} {nowNs : I64}

def Between (sells₀ : Fin n → FastOrder) (buys : List FastOrder) (r : MatchResult) : Prop :=
  ∃ i, ∃ b ∈ buys, r.sellOrderId = (sells₀ i).id ∧ r.buyOrderId = b.id ∧
    ∃ p : FastPrice, r.settlePrice = p.toDecimal ∧ (sells₀ i).price ≤ p ∧ p ≤ b.price

structure PricedInv (nowNs : I64) (sells₀ : Fin n → FastOrder) (buys : List FastOrder)
    (st : CycleState n) : Prop where
  cycle : CycleInv nowNs st
  sells : ∀ i, (st.sellOrders i).id = (sells₀ i).id ∧ (st.sellOrders i).price = (sells₀ i).price
  results : ∀ r ∈ st.results, Between sells₀ buys r

/-- A committed candidate is no dearer than the bid and no cheaper than the ask. -/
theorem PricedInv.commit {sells₀ : Fin n → FastOrder} {buys : List FastOrder} {buy : FastOrder}
    {start p : CycleState n × FastOrder} {c : Candidate n} {amount : Decimal}
    (h : PricedInv nowNs sells₀ buys p.1) (hbuy : buy ∈ buys)
    (hcommit : Commit topology FastPrice.one nowNs buy start p c amount) :
    PricedInv nowNs sells₀ buys (commitMatch p.1 p.2 c buyMetadata amount) := by
  obtain ⟨filled, hrest⟩ := hcommit.rest
  refine ⟨h.cycle.commitMatch hcommit.amount_pos.le, fun i => ?_,
    List.forall_mem_append.mpr ⟨h.results, fun r hr => ?_⟩⟩
  · have hlater : Later p.1.sellOrders (commitMatch p.1 p.2 c buyMetadata amount).sellOrders :=
      hcommit.later_after
    rw [hlater.id, hlater.price]
    exact h.sells i
  · obtain rfl := List.mem_singleton.mp hr
    have hchecked := hcommit.checked
    obtain ⟨fees, hlanded⟩ := hchecked.landed
    refine ⟨c.sellIdx, buy, hbuy, (h.sells c.sellIdx).1, by rw [hrest]; rfl, c.landed, rfl, ?_,
      hchecked.bid⟩
    rw [hlanded, ← (h.sells c.sellIdx).2]
    exact le_landedCost fees (h.cycle.asks c.sellIdx) le_rfl

/-- Every match of a cycle without a multiplier settles between the prices of its
orders. -/
theorem matchCycle_between {buyOrders sellOrders : List FastOrder} (hids : (sellOrders.map (·.id)).Nodup)
    (hasks : ∀ s ∈ sellOrders, (0 : ℤ) ≤ s.price.raw) :
    ∀ r ∈ (matchCycle buyOrders sellOrders buyMetadata topology FastPrice.one nowNs).results,
      Between sellOrders.get buyOrders r := by
  have hstart : PricedInv nowNs sellOrders.get buyOrders (initialState nowNs sellOrders.get) :=
    ⟨cycleInv_initialState (get_ids_injective hids) fun i => hasks _ (List.get_mem sellOrders i),
      fun _ => ⟨rfl, rfl⟩, by simp [initialState]⟩
  have hguard : guardMultiplier FastPrice.one = FastPrice.one := by decide
  have hperm : (sortBuys buyOrders).Perm buyOrders := List.perm_insertionSort _ _
  unfold matchCycle
  rw [hguard]
  exact (matchBuys_induction (sortBuys buyOrders)
    (fun _ hbuy _ _ _ _ hcommit _ h => h.commit (hperm.subset hbuy) hcommit) _ hstart).results

end MatchingEngine

namespace UniformAuction

variable {m n : ℕ} {buys₀ : Fin m → FastOrder} {sells₀ : Fin n → FastOrder} {buyMetadata : List OrderMetadata}
  {topology : TopologySnapshot} {nowNs : I64}

def Between (buys₀ : Fin m → FastOrder) (sells₀ : Fin n → FastOrder) (r : MatchResult) : Prop :=
  minTradeAmount ≤ r.matchAmount ∧ ∃ i j, r.buyOrderId = (buys₀ i).id ∧ r.sellOrderId = (sells₀ j).id ∧
    (sells₀ j).price.toDecimal ≤ r.settlePrice ∧ r.settlePrice ≤ (buys₀ i).price.toDecimal

theorem between_clearZone {st : AuctionState m n} {entry : ZoneId × List (Fin m)}
    (hdraws : Draws buyMetadata buys₀ sells₀ st) (h : ∀ r ∈ st.results, Between buys₀ sells₀ r) :
    ∀ r ∈ (clearZone buyMetadata topology (partitionByZone sells₀ nowNs) st entry).results,
      Between buys₀ sells₀ r := by
  apply clearZone_induction (motive := fun out => ∀ r ∈ out.results, Between buys₀ sells₀ r)
  · intro _
    exact h
  · intro _ _ _
    exact h
  · intro sells bid ask _ hmarginal r hr
    rw [AuctionState.results_report] at hr
    rcases List.mem_append.mp hr with hr | hr
    · exact h r hr
    obtain ⟨f, hf, rfl⟩ := List.mem_map.mp hr
    obtain ⟨_, _, hunder, _⟩ := underway_sweepZone st entry.2 sells
    obtain ⟨hcross, hmargin⟩ := hunder.marginal _ hmarginal
    obtain ⟨hbid, hask⟩ := hmargin f hf
    obtain ⟨hlow, hhigh⟩ := midpoint_between hcross
    obtain ⟨filled, hbuy⟩ := hdraws.buys f.1
    obtain ⟨filled', hsell⟩ := hdraws.sells f.2.1
    rw [hbuy, FastOrder.fill_price] at hbid
    rw [hsell, FastOrder.fill_price] at hask
    refine ⟨(hunder.fills f hf).amount_min, f.1, f.2.1, ?_, ?_, FastPrice.toDecimal_le.mpr (hask.trans hlow),
      FastPrice.toDecimal_le.mpr (hhigh.trans hbid)⟩
    · simp only [settleFill, hunder.credited.buys_eq, hbuy, FastOrder.fill_id]
    · simp only [settleFill, hunder.credited.sells_eq, hsell, FastOrder.fill_id]

/-- Every match of an auction settles between the prices of its orders. -/
theorem clearCycle_between {buyOrders sellOrders : List FastOrder} :
    ∀ r ∈ (clearCycle buyOrders sellOrders buyMetadata topology nowNs).results,
      Between buyOrders.get sellOrders.get r := by
  have hrun : Draws buyMetadata buyOrders.get sellOrders.get
        (clearCycle buyOrders sellOrders buyMetadata topology nowNs) ∧
      ∀ r ∈ (clearCycle buyOrders sellOrders buyMetadata topology nowNs).results,
        Between buyOrders.get sellOrders.get r := by
    unfold clearCycle
    apply List.foldlRecOn (motive := fun st => Draws buyMetadata buyOrders.get sellOrders.get st ∧
      ∀ r ∈ st.results, Between buyOrders.get sellOrders.get r)
    · exact ⟨.start, by simp [AuctionState.results]⟩
    · rintro st ⟨hdraws, h⟩ entry _
      exact ⟨hdraws.clearZone _ entry, between_clearZone hdraws h⟩
  exact hrun.2

end UniformAuction

/-- The largest price of the engines, a little over nine billion. -/
def FastPrice.maxPrice : Decimal := (FastPrice.fromRaw BoundedInt.top).toDecimal

theorem FastPrice.toDecimal_le_maxPrice (p : FastPrice) : p.toDecimal ≤ FastPrice.maxPrice :=
  FastPrice.toDecimal_le.mpr (FastPrice.le_iff.mpr (BoundedInt.le_top p.raw))

theorem toDecimal_ofDecimal {x : Numeric} (h : 0 ≤ x.toDecimal) :
    (FastPrice.ofDecimal x.toDecimal).toDecimal = min x.toDecimal FastPrice.maxPrice := by
  have hunits : 0 ≤ (x.units : ℤ) := by
    unfold Numeric.toDecimal at h
    rw [le_div_iff₀ Numeric.scale_pos, zero_mul] at h
    exact_mod_cast h
  have hscaled : x.toDecimal * FastPrice.factor = ((x.units * 10 : ℤ) : ℚ) := by
    unfold Numeric.toDecimal Numeric.scale FastPrice.factor
    push_cast
    ring
  have hdecimal : x.toDecimal = ((x.units * 10 : ℤ) : ℚ) / FastPrice.factor := by
    rw [← hscaled, mul_div_cancel_right₀ _ FastPrice.factor_pos.ne']
  unfold FastPrice.ofDecimal FastPrice.maxPrice FastPrice.toDecimal
  rw [hscaled, Rounding.halfEven_intCast, hdecimal, min_div_div_right FastPrice.factor_pos.le,
    ← Int.cast_min]
  congr 2
  simp only [BoundedInt.saturate, FastPrice.fromRaw, BoundedInt.top]
  omega

/-- The settle price is within the limits of the two rows. -/
def RespectsLimits (buy sell : OrderRow) (r : MatchResult) : Prop :=
  sell.pricePerKwh.toDecimal ≤ r.settlePrice ∧ r.settlePrice ≤ buy.pricePerKwh.toDecimal

instance (buy sell : OrderRow) (r : MatchResult) : Decidable (RespectsLimits buy sell r) :=
  inferInstanceAs (Decidable (_ ∧ _))

section Rows

variable {buys sells : List OrderRow}

theorem price_toFastOrder_nonneg {o : OrderRow} (h : 0 < o.pricePerKwh.toDecimal) (i : ℕ) :
    (0 : ℤ) ≤ (o.toFastOrder i).price.raw := by
  have hle : (0 : ℚ) ≤ (FastPrice.ofDecimal o.pricePerKwh.toDecimal).toDecimal := by
    rw [toDecimal_ofDecimal h.le]
    exact le_min h.le (by norm_num [FastPrice.maxPrice, FastPrice.toDecimal, FastPrice.fromRaw,
      BoundedInt.top, FastPrice.factor])
  unfold FastPrice.toDecimal at hle
  rw [le_div_iff₀ FastPrice.factor_pos, zero_mul] at hle
  exact_mod_cast hle

/-- A price between two converted prices is between the stored ones, if the ask was converted
as it is. -/
theorem respectsLimits_of_between {b s : OrderRow} {i k : ℕ} {r : MatchResult}
    (hb : 0 < b.pricePerKwh.toDecimal) (hs : 0 < s.pricePerKwh.toDecimal)
    (hmax : s.pricePerKwh.toDecimal ≤ FastPrice.maxPrice)
    (hask : (s.toFastOrder i).price.toDecimal ≤ r.settlePrice)
    (hbid : r.settlePrice ≤ (b.toFastOrder k).price.toDecimal) : RespectsLimits b s r := by
  simp only [OrderRow.toFastOrder, toDecimal_ofDecimal hs.le, toDecimal_ofDecimal hb.le,
    min_eq_left hmax] at hask hbid
  exact ⟨hask, hbid.trans (min_le_left _ _)⟩

/-- A match between two rows of positive prices respects both limits exactly if the
ask is not beyond the largest price of the engine; the bid is respected in any case. -/
theorem match_respects_limits_iff (topology : TopologySnapshot) (nowNs : I64)
    (hbuys : (buys.map (·.id)).Nodup) (hsells : (sells.map (·.id)).Nodup)
    (hprices : ∀ o ∈ buys ++ sells, 0 < o.pricePerKwh.toDecimal) :
    ∀ r ∈ (MatchingEngine.matchCycle (toFastOrders buys).1 (toFastOrders sells).1 (toFastOrders buys).2
        topology FastPrice.one nowNs).results,
      ∀ b ∈ buys, b.id = r.buyOrderId → ∀ s ∈ sells, s.id = r.sellOrderId →
        (RespectsLimits b s r ↔ s.pricePerKwh.toDecimal ≤ FastPrice.maxPrice) := by
  intro r hr b hb hbid s hs hsid
  have hasks : ∀ f ∈ (toFastOrders sells).1, (0 : ℤ) ≤ f.price.raw := by
    intro f hf
    obtain ⟨o, ho, i, rfl⟩ := mem_toFastOrders hf
    exact price_toFastOrder_nonneg (hprices o (List.mem_append_right _ ho)) i
  obtain ⟨i, f, hf, hsell, hbuy, p, hsettle, hask, hle⟩ :=
    MatchingEngine.matchCycle_between ((toFastOrders_ids sells).nodup hsells) hasks r hr
  obtain ⟨b', hb', k, rfl⟩ := mem_toFastOrders hf
  obtain ⟨s', hs', j, hj⟩ := mem_toFastOrders (List.get_mem (toFastOrders sells).1 i)
  rw [hj] at hsell hask
  obtain rfl := List.inj_on_of_nodup_map hbuys hb hb' (hbid.trans hbuy)
  obtain rfl := List.inj_on_of_nodup_map hsells hs hs' (hsid.trans hsell)
  have hbpos := hprices b (List.mem_append_left _ hb)
  have hspos := hprices s (List.mem_append_right _ hs)
  constructor
  · rintro ⟨hsell', _⟩
    rw [hsettle] at hsell'
    exact hsell'.trans p.toDecimal_le_maxPrice
  · intro hmax
    exact respectsLimits_of_between hbpos hspos hmax (hsettle ▸ FastPrice.toDecimal_le.mpr hask)
      (hsettle ▸ FastPrice.toDecimal_le.mpr hle)

theorem JobKind.run_respectsLimits (kind : JobKind) (topology : TopologySnapshot) (nowNs : I64)
    (hids : ((buys ++ sells).map (·.id)).Nodup)
    (hprices : ∀ o ∈ buys ++ sells,
      0 < o.pricePerKwh.toDecimal ∧ o.pricePerKwh.toDecimal ≤ FastPrice.maxPrice) :
    ∀ r ∈ (kind.run buys sells topology nowNs).pending, minTradeAmount ≤ r.matchAmount ∧
      ∃ b ∈ buys, ∃ s ∈ sells, b.id = r.buyOrderId ∧ s.id = r.sellOrderId ∧ RespectsLimits b s r := by
  cases kind with
  | matching =>
    intro r hr
    have hresults := pending_runMatchingCycle buys sells topology nowNs r hr
    have hsells : (sells.map (·.id)).Nodup := by
      rw [List.map_append, List.nodup_append] at hids
      exact hids.2.1
    have hasks : ∀ f ∈ (toFastOrders sells).1, (0 : ℤ) ≤ f.price.raw := by
      intro f hf
      obtain ⟨o, ho, i, rfl⟩ := mem_toFastOrders hf
      exact price_toFastOrder_nonneg (hprices o (List.mem_append_right _ ho)).1 i
    obtain ⟨i, f, hf, hsell, hbuy, p, hsettle, hask, hbid⟩ :=
      MatchingEngine.matchCycle_between ((toFastOrders_ids sells).nodup hsells) hasks r hresults
    obtain ⟨b, hb, k, rfl⟩ := mem_toFastOrders hf
    obtain ⟨s, hs, j, hj⟩ := mem_toFastOrders (List.get_mem (toFastOrders sells).1 i)
    rw [hj] at hsell hask
    obtain ⟨hspos, hsmax⟩ := hprices s (List.mem_append_right _ hs)
    have hcycle := MatchingEngine.conserves_matchCycle nowNs (toFastOrders buys).2 topology FastPrice.one
      (toFastOrders_append_ids hids)
    refine ⟨hcycle.amount_min r hresults, b, hb, s, hs, hbuy.symm, hsell.symm, ?_⟩
    exact respectsLimits_of_between (hprices b (List.mem_append_left _ hb)).1 hspos hsmax
      (hsettle ▸ FastPrice.toDecimal_le.mpr hask) (hsettle ▸ FastPrice.toDecimal_le.mpr hbid)
  | clearing epochId =>
    change ∀ r ∈ (runEpochClearing buys sells topology nowNs).pending, _
    unfold runEpochClearing
    split_ifs
    · simp [Job.empty]
    · intro r hr
      obtain ⟨hmin, i, j, hbuy, hsell, hask, hbid⟩ := UniformAuction.clearCycle_between r hr
      obtain ⟨b, hb, k, hk⟩ := mem_toFastOrders (List.get_mem (toFastOrders buys).1 i)
      obtain ⟨s, hs, l, hl⟩ := mem_toFastOrders (List.get_mem (toFastOrders sells).1 j)
      rw [hk] at hbuy hbid
      rw [hl] at hsell hask
      obtain ⟨hspos, hsmax⟩ := hprices s (List.mem_append_right _ hs)
      exact ⟨hmin, b, hb, s, hs, hbuy.symm, hsell.symm, respectsLimits_of_between
        (hprices b (List.mem_append_left _ hb)).1 hspos hsmax hask hbid⟩

end Rows

def pairAt (price : ℕ) : List OrderRow × List OrderRow :=
  ([.placed 1 .buy price 1], [.placed 2 .sell price 1])

def matchPairAt (price : ℕ) : List MatchResult :=
  (MatchingEngine.matchCycle (toFastOrders (pairAt price).1).1 (toFastOrders (pairAt price).2).1
    (toFastOrders (pairAt price).1).2 (.freeGrid fun _ _ => 100) FastPrice.one (BoundedInt.saturate 0)).results

theorem match_respects_limits_five :
    ∃ r ∈ matchPairAt 5, RespectsLimits (.placed 1 .buy 5 1) (.placed 2 .sell 5 1) r := by
  obtain ⟨r, hr⟩ : ∃ r, r ∈ matchPairAt 5 := List.exists_mem_of_ne_nil _ (by decide +kernel)
  have hids : ∀ r ∈ matchPairAt 5, 1 = r.buyOrderId ∧ 2 = r.sellOrderId := by decide +kernel
  refine ⟨r, hr, (match_respects_limits_iff (.freeGrid fun _ _ => 100) (BoundedInt.saturate 0)
    (by decide +kernel) (by decide +kernel) (by decide +kernel) r hr _ List.mem_cons_self (hids r hr).1
    _ List.mem_cons_self (hids r hr).2).mpr (by decide +kernel)⟩

/-- Ten billion a unit, asked and bid: the seller gets less. -/
theorem match_below_ask :
    ∃ r ∈ matchPairAt 10000000000, r.buyOrderId = 1 ∧ r.sellOrderId = 2 ∧
      r.settlePrice < (OrderRow.placed 2 .sell 10000000000 1).pricePerKwh.toDecimal := by
  decide +kernel

end TradingService
