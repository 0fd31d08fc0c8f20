import TradingService.Engine.AuctionSound

/-!
# Who goes without in the auction

The price of a zone is the midpoint of its last pair and not a price that the curves
support, so on the long side orders better than the price can be left. They are no better
than the orders that were filled, and the other side has none of them.
-/

namespace TradingService.UniformAuction

variable {m n : ℕ}

structure LeftIn (nowNs : I64) (zone : ZoneId) (o : FastOrder) : Prop where
  zone : o.zoneId = zone
  live : o.isExpired nowNs = false
  remaining : minTradeAmount ≤ o.remainingAmount

instance (nowNs : I64) (zone : ZoneId) (o : FastOrder) : Decidable (LeftIn nowNs zone o) :=
  decidable_of_iff (o.zoneId = zone ∧ o.isExpired nowNs = false ∧ minTradeAmount ≤ o.remainingAmount)
    ⟨fun h => ⟨h.1, h.2.1, h.2.2⟩, fun h => ⟨h.zone, h.live, h.remaining⟩⟩

/-- No order that is strictly better than the price of its zone is left. -/
def NoEnvy (nowNs : I64) (buyOrders : Fin m → FastOrder) (sellOrders : Fin n → FastOrder)
    (zc : ZoneClearing) : Prop :=
  (∀ i, LeftIn nowNs zc.zoneId (buyOrders i) → (buyOrders i).price.toDecimal ≤ zc.clearingPrice) ∧
    ∀ j, LeftIn nowNs zc.zoneId (sellOrders j) → zc.clearingPrice ≤ (sellOrders j).price.toDecimal

instance (nowNs : I64) (buyOrders : Fin m → FastOrder) (sellOrders : Fin n → FastOrder)
    (zc : ZoneClearing) : Decidable (NoEnvy nowNs buyOrders sellOrders zc) :=
  inferInstanceAs (Decidable (_ ∧ _))

/-- What is left is no better than what was filled on its side, and orders that are
strictly better than the price are left on one side at most. -/
structure RationsOneSide (nowNs : I64) (buyOrders : Fin m → FastOrder) (sellOrders : Fin n → FastOrder)
    (zc : ZoneClearing) : Prop where
  buys : ∀ i, LeftIn nowNs zc.zoneId (buyOrders i) →
    ∀ r ∈ zc.results, (buyOrders i).price.toDecimal ≤ r.buyerPrice
  sells : ∀ j, LeftIn nowNs zc.zoneId (sellOrders j) →
    ∀ r ∈ zc.results, r.sellerPrice ≤ (sellOrders j).price.toDecimal
  one_side : (∀ i, LeftIn nowNs zc.zoneId (buyOrders i) →
      (buyOrders i).price.toDecimal ≤ zc.clearingPrice) ∨
    ∀ j, LeftIn nowNs zc.zoneId (sellOrders j) → zc.clearingPrice ≤ (sellOrders j).price.toDecimal

section Rationing

variable {nowNs : I64} {buys₀ buys buys' : Fin m → FastOrder} {sells₀ sells sells' : Fin n → FastOrder}
  {zone : ZoneId} {zc : ZoneClearing}

theorem LeftIn.earlier {orders orders' : Fin n → FastOrder} (hlater : Later orders orders') {i : Fin n}
    (h : LeftIn nowNs zone (orders' i)) : LeftIn nowNs zone (orders i) := by
  obtain ⟨amount, _, heq⟩ := hlater i
  have hremaining := h.remaining.trans (hlater.remaining_le i)
  rw [heq] at h
  exact ⟨h.zone, h.live, hremaining⟩

theorem RationsOneSide.later (h : RationsOneSide nowNs buys sells zc) (hbuys : Later buys buys')
    (hsells : Later sells sells') : RationsOneSide nowNs buys' sells' zc := by
  refine ⟨fun i hi => ?_, fun j hj => ?_, h.one_side.imp (fun hall i hi => ?_) fun hall j hj => ?_⟩
  · rw [hbuys.price]
    exact h.buys i (hi.earlier hbuys)
  · rw [hsells.price]
    exact h.sells j (hj.earlier hsells)
  · rw [hbuys.price]
    exact hall i (hi.earlier hbuys)
  · rw [hsells.price]
    exact hall j (hj.earlier hsells)

def Separate (buys₀ : Fin m → FastOrder) (sells₀ : Fin n → FastOrder) (zone : ZoneId) : Prop :=
  ∀ i j, (buys₀ i).zoneId = zone → (sells₀ j).zoneId = zone → (buys₀ i).userId ≠ (sells₀ j).userId

structure RationsSoFar (nowNs : I64) (buys₀ : Fin m → FastOrder) (sells₀ : Fin n → FastOrder)
    (st : AuctionState m n) : Prop where
  buys_later : Later buys₀ st.buyOrders
  sells_later : Later sells₀ st.sellOrders
  zones : ∀ zc ∈ st.zones, Separate buys₀ sells₀ zc.zoneId →
    RationsOneSide nowNs st.buyOrders st.sellOrders zc

variable {st : AuctionState m n} (buyMetadata : List OrderMetadata) (topology : TopologySnapshot)

theorem rations_settleFills (hbuysLater : Later buys₀ st.buyOrders) (hsellsLater : Later sells₀ st.sellOrders)
    (hseparate : Separate buys₀ sells₀ zone) {buys : List (Fin m)} {sells : List (Fin n)}
    (hbuys : ∀ i, i ∈ buys ↔ Files nowNs zone (buys₀ i))
    (hsells : ∀ j, j ∈ sells ↔ Files nowNs zone (sells₀ j)) (pStar : FastPrice) :
    RationsOneSide nowNs (sweepZone st buys sells).buyOrders (sweepZone st buys sells).sellOrders
      (settleFills buyMetadata topology zone pStar (sweepZone st buys sells)) := by
  obtain ⟨is, js, hunder, happart⟩ := underway_sweepZone st buys sells
  obtain ⟨hbuysSwept, hsellsSwept⟩ : Later st.buyOrders (sweepZone st buys sells).buyOrders ∧
      Later st.sellOrders (sweepZone st buys sells).sellOrders := sweep_later _ _ _ _
  have hbuyPerm : (sortBuyIndices st.buyOrders buys).Perm buys := List.perm_insertionSort _ _
  have hsellPerm : (sortSellIndices st.sellOrders sells).Perm sells := List.perm_insertionSort _ _
  have hbuyLeft : ∀ i, LeftIn nowNs zone ((sweepZone st buys sells).buyOrders i) → i ∈ is := by
    intro i hi
    have h₀ := (hi.earlier hbuysSwept).earlier hbuysLater
    have hmem := (hbuys i).mpr ⟨h₀.zone, h₀.live, h₀.remaining⟩
    exact (hunder.buys_passed i (hbuyPerm.symm.subset hmem)).resolve_right (not_lt.mpr hi.remaining)
  have hsellLeft : ∀ j, LeftIn nowNs zone ((sweepZone st buys sells).sellOrders j) → j ∈ js := by
    intro j hj
    have h₀ := (hj.earlier hsellsSwept).earlier hsellsLater
    have hmem := (hsells j).mpr ⟨h₀.zone, h₀.live, h₀.remaining⟩
    rcases hunder.sells_passed j (hsellPerm.symm.subset hmem) with hleft | hdust | ⟨i, hi, hown⟩
    · exact hleft
    · exact absurd hj.remaining (not_le.mpr hdust)
    · have hbuy := (hbuys i).mp (hbuyPerm.subset hi)
      rw [hbuysLater.userId, hsellsLater.userId] at hown
      exact absurd hown (hseparate i j hbuy.zone h₀.zone)
  refine ⟨fun i hi r hr => ?_, fun j hj r hr => ?_, ?_⟩
  · obtain ⟨f, hf, rfl⟩ := List.mem_map.mp hr
    have hle := (hunder.ahead f hf).1 i (hbuyLeft i hi)
    simp only [settleFill, hunder.credited.buy_price]
    exact FastPrice.toDecimal_le.mpr hle
  · obtain ⟨f, hf, rfl⟩ := List.mem_map.mp hr
    have hle := (hunder.ahead f hf).2 j (hsellLeft j hj)
    simp only [settleFill, hunder.credited.sell_price]
    exact FastPrice.toDecimal_le.mpr hle
  · by_contra hboth
    obtain ⟨hbuy, hsell⟩ := not_or.mp hboth
    push Not at hbuy hsell
    obtain ⟨i, hi, hbid⟩ := hbuy
    obtain ⟨j, hj, hask⟩ := hsell
    have hlt := happart i (hbuyLeft i hi) j (hsellLeft j hj)
    rw [← hunder.credited.buy_price, ← hunder.credited.sell_price] at hlt
    have hle := FastPrice.toDecimal_le.mpr hlt.le
    exact absurd (hask.trans hbid) (not_lt.mpr hle)

theorem RationsSoFar.clearZone (h : RationsSoFar nowNs buys₀ sells₀ st) {entry : ZoneId × List (Fin m)}
    (hentry : ∀ i, i ∈ entry.2 ↔ Files nowNs entry.1 (buys₀ i)) :
    RationsSoFar nowNs buys₀ sells₀
      (clearZone buyMetadata topology (partitionByZone sells₀ nowNs) st entry) := by
  have hswept : ∀ sells, RationsSoFar nowNs buys₀ sells₀ (st.withOrders (sweepZone st entry.2 sells)) := by
    intro sells
    obtain ⟨hbuys, hsells⟩ : Later st.buyOrders (sweepZone st entry.2 sells).buyOrders ∧
        Later st.sellOrders (sweepZone st entry.2 sells).sellOrders := sweep_later _ _ _ _
    exact ⟨h.buys_later.trans hbuys, h.sells_later.trans hsells,
      fun zc hzc hseparate => (h.zones zc hzc hseparate).later hbuys hsells⟩
  refine clearZone_induction (fun _ => h) (fun sells _ _ => hswept sells) fun sells bid ask hget _ => ?_
  refine ⟨(hswept sells).buys_later, (hswept sells).sells_later, ?_⟩
  refine List.forall_mem_append.mpr ⟨(hswept sells).zones, fun zc hzc hseparate => ?_⟩
  obtain rfl := List.mem_singleton.mp hzc
  exact rations_settleFills buyMetadata topology h.buys_later h.sells_later hseparate hentry
    (files_of_mem_partition hget) _

end Rationing

/-- In a zone where nobody both buys and sells, an order that is left is no better than the
filled orders of its side, and orders strictly better than the price of the zone are left
on one side at most. -/
theorem clearCycle_rations_one_side (buyOrders sellOrders : List FastOrder)
    (buyMetadata : List OrderMetadata) (topology : TopologySnapshot) (nowNs : I64) :
    let out := clearCycle buyOrders sellOrders buyMetadata topology nowNs
    ∀ zc ∈ out.zones, Separate buyOrders.get sellOrders.get zc.zoneId →
      RationsOneSide nowNs out.buyOrders out.sellOrders zc := by
  have hstart : RationsSoFar nowNs buyOrders.get sellOrders.get
      ⟨buyOrders.get, sellOrders.get, [], 0, 0⟩ := ⟨.refl _, .refl _, by simp⟩
  have hrun : RationsSoFar nowNs buyOrders.get sellOrders.get
      (clearCycle buyOrders sellOrders buyMetadata topology nowNs) :=
    List.foldlRecOn _ _ hstart fun st h entry hentry => h.clearZone buyMetadata topology
      (files_of_mem_partition (OrderedMap.get?_eq_some.mpr hentry))
  exact hrun.zones

/-- The bid of nine is left with its unit, and it is no better than the bid that was filled. -/
theorem clearCycle_rations_two_buys :
    let out := clearCycle twoBuys (sellBy 3) [] (.freeGrid fun _ _ => 100) (BoundedInt.saturate 0)
    out.results.map (fun r => (r.buyOrderId, r.matchAmount)) = [(1, 1)] ∧
      ∀ zc ∈ out.zones, RationsOneSide (BoundedInt.saturate 0) out.buyOrders out.sellOrders zc := by
  have howners : ∀ i j, (twoBuys.get i).userId ≠ ((sellBy 3).get j).userId := by decide
  exact ⟨by decide +kernel, fun zc hzc => clearCycle_rations_one_side twoBuys (sellBy 3) []
    (.freeGrid fun _ _ => 100) (BoundedInt.saturate 0) zc hzc fun i j _ _ => howners i j⟩

/-- The zone clears at seven and a half, and of three different owners the one who bids
nine goes without. -/
theorem clearCycle_leaves_better_bid :
    ((twoBuys ++ sellBy 3).map (·.userId)).Nodup ∧
      let out := clearCycle twoBuys (sellBy 3) [] (.freeGrid fun _ _ => 100) (BoundedInt.saturate 0)
      out.zones.map (·.clearingPrice) = [15 / 2] ∧
        ¬∀ zc ∈ out.zones, NoEnvy (BoundedInt.saturate 0) out.buyOrders out.sellOrders zc := by
  refine ⟨by decide, by decide +kernel, by decide +kernel⟩

end TradingService.UniformAuction
