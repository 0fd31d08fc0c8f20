import TradingService.Engine.Commits
import TradingService.Engine.AuctionSound

/-!
# Where a match comes from

Both engines fill the orders that they were given and change nothing else of them, so
what a match reports of its two sides, the places in the sidecar tables among it, is
what two orders of the slices brought along.
-/

namespace TradingService

/-- Everything that the match says about who trades is taken from the two orders, and its
epoch from the place of the buy in the sidecar. -/
structure MatchResult.DrawnFrom (r : MatchResult) (buyMetadata : List OrderMetadata)
    (buy sell : FastOrder) : Prop where
  buyOrderId : r.buyOrderId = buy.id
  sellOrderId : r.sellOrderId = sell.id
  buyMetadataIndex : r.buyMetadataIndex = buy.metadataIndex
  sellMetadataIndex : r.sellMetadataIndex = sell.metadataIndex
  buyerId : r.buyerId = buy.userId
  sellerId : r.sellerId = sell.userId
  buyerZoneId : r.buyerZoneId = buy.zoneId
  sellerZoneId : r.sellerZoneId = sell.zoneId
  epochId : r.epochId = (buyMetadata.getD buy.metadataIndex default).epochId

theorem MatchResult.DrawnFrom.of_fill {r : MatchResult} {buyMetadata : List OrderMetadata}
    {buy sell buy' sell' : FastOrder} {filled filled' : Decimal}
    (h : r.DrawnFrom buyMetadata buy' sell') (hbuy : buy' = buy.fill filled)
    (hsell : sell' = sell.fill filled') : r.DrawnFrom buyMetadata buy sell := by
  subst hbuy hsell
  exact ⟨h.buyOrderId, h.sellOrderId, h.buyMetadataIndex, h.sellMetadataIndex, h.buyerId,
    h.sellerId, h.buyerZoneId, h.sellerZoneId, h.epochId⟩

namespace MatchingEngine

variable {buyOrders sellOrders : List FastOrder} {buyMetadata : List OrderMetadata}
  {topology : TopologySnapshot} {dynamicMultiplier : FastPrice} {nowNs : I64}

theorem matchResult_drawnFrom {n : ℕ} (buy sell : FastOrder) (c : Candidate n)
    (buyMetadata : List OrderMetadata) (matchAmount : Decimal) :
    (matchResult buy sell c buyMetadata matchAmount).DrawnFrom buyMetadata buy sell :=
  ⟨rfl, rfl, rfl, rfl, rfl, rfl, rfl, rfl, rfl⟩

theorem matchCycle_drawnFrom :
    ∀ r ∈ (matchCycle buyOrders sellOrders buyMetadata topology dynamicMultiplier nowNs).results,
      ∃ b ∈ buyOrders, ∃ s ∈ sellOrders, r.DrawnFrom buyMetadata b s := by
  have hperm : (sortBuys buyOrders).Perm buyOrders := List.perm_insertionSort _ _
  refine (matchBuys_induction (P := fun st => Later sellOrders.get st.sellOrders ∧
    ∀ r ∈ st.results, ∃ b ∈ buyOrders, ∃ s ∈ sellOrders, r.DrawnFrom buyMetadata b s) _ ?_ _
    ⟨.refl _, by simp [initialState]⟩).2
  rintro buy hbuy start p c amount hcommit _ ⟨hlater, hresults⟩
  refine ⟨hlater.trans hcommit.later_after, List.forall_mem_append.mpr ⟨hresults, fun r hr => ?_⟩⟩
  obtain rfl := List.mem_singleton.mp hr
  obtain ⟨filled, hrest⟩ := hcommit.rest
  obtain ⟨filled', _, hsell⟩ := hlater c.sellIdx
  exact ⟨buy, hperm.subset hbuy, sellOrders.get c.sellIdx, List.get_mem _ _,
    (matchResult_drawnFrom _ _ _ _ _).of_fill hrest hsell⟩

end MatchingEngine

namespace UniformAuction

variable {m n : ℕ} {buys₀ : Fin m → FastOrder} {sells₀ : Fin n → FastOrder}
  {buyMetadata : List OrderMetadata} {topology : TopologySnapshot}

structure Draws (buyMetadata : List OrderMetadata) (buys₀ : Fin m → FastOrder)
    (sells₀ : Fin n → FastOrder) (st : AuctionState m n) : Prop where
  buys : ∀ i, ∃ filled, st.buyOrders i = (buys₀ i).fill filled
  sells : ∀ j, ∃ filled, st.sellOrders j = (sells₀ j).fill filled
  results : ∀ r ∈ st.results, ∃ i j, r.DrawnFrom buyMetadata (buys₀ i) (sells₀ j)

theorem Draws.start : Draws buyMetadata buys₀ sells₀ ⟨buys₀, sells₀, [], 0, 0⟩ where
  buys _ := ⟨0, (FastOrder.fill_zero _).symm⟩
  sells _ := ⟨0, (FastOrder.fill_zero _).symm⟩
  results := by simp [AuctionState.results]

theorem settleFill_drawnFrom (buyMetadata : List OrderMetadata) (topology : TopologySnapshot)
    (zone : ZoneId) (pStar : FastPrice) (buy sell : FastOrder) (amount : Decimal) :
    (settleFill buyMetadata topology zone pStar buy sell amount).DrawnFrom buyMetadata buy sell :=
  ⟨rfl, rfl, rfl, rfl, rfl, rfl, rfl, rfl, rfl⟩

theorem Draws.clearZone {st : AuctionState m n} (h : Draws buyMetadata buys₀ sells₀ st)
    (sellsByZone : OrderedMap ZoneId (List (Fin n))) (entry : ZoneId × List (Fin m)) :
    Draws buyMetadata buys₀ sells₀ (clearZone buyMetadata topology sellsByZone st entry) := by
  have hswept : ∀ sells, Draws buyMetadata buys₀ sells₀ (st.withOrders (sweepZone st entry.2 sells)) := by
    intro sells
    obtain ⟨_, _, hunder, _⟩ := underway_sweepZone st entry.2 sells
    refine ⟨fun i => ?_, fun j => ?_, h.results⟩
    · obtain ⟨filled, hbuy⟩ := h.buys i
      exact ⟨_, (hunder.credited.buys_eq i).trans (by rw [hbuy, FastOrder.fill_fill])⟩
    · obtain ⟨filled, hsell⟩ := h.sells j
      exact ⟨_, (hunder.credited.sells_eq j).trans (by rw [hsell, FastOrder.fill_fill])⟩
  refine clearZone_induction (fun _ => h) (fun sells _ _ => hswept sells) fun sells bid ask _ _ =>
    ⟨(hswept sells).buys, (hswept sells).sells, fun r hr => ?_⟩
  rw [AuctionState.results_report] at hr
  rcases List.mem_append.mp hr with hr | hr
  · exact h.results r hr
  · obtain ⟨f, _, rfl⟩ := List.mem_map.mp hr
    obtain ⟨filled, hbuy⟩ := (hswept sells).buys f.1
    obtain ⟨filled', hsell⟩ := (hswept sells).sells f.2.1
    exact ⟨f.1, f.2.1, (settleFill_drawnFrom _ _ _ _ _ _ _).of_fill hbuy hsell⟩

theorem clearCycle_drawnFrom {buyOrders sellOrders : List FastOrder} {nowNs : I64} :
    ∀ r ∈ (clearCycle buyOrders sellOrders buyMetadata topology nowNs).results,
      ∃ b ∈ buyOrders, ∃ s ∈ sellOrders, r.DrawnFrom buyMetadata b s := by
  have hdraws : Draws buyMetadata buyOrders.get sellOrders.get
      (clearCycle buyOrders sellOrders buyMetadata topology nowNs) :=
    List.foldlRecOn _ _ .start fun st h entry _ => h.clearZone _ entry
  intro r hr
  obtain ⟨i, j, hdrawn⟩ := hdraws.results r hr
  exact ⟨_, List.get_mem _ i, _, List.get_mem _ j, hdrawn⟩

end UniformAuction

/-- The match is a result of one of the two engines on the slices. -/
def MatchResult.ProducedFrom (r : MatchResult) (buyOrders sellOrders : List FastOrder)
    (buyMetadata : List OrderMetadata) : Prop :=
  ∃ topology nowNs,
    (∃ dynamicMultiplier, r ∈ (MatchingEngine.matchCycle buyOrders sellOrders buyMetadata topology
      dynamicMultiplier nowNs).results) ∨
    r ∈ (UniformAuction.clearCycle buyOrders sellOrders buyMetadata topology nowNs).results

theorem MatchResult.ProducedFrom.drawnFrom {r : MatchResult} {buyOrders sellOrders : List FastOrder}
    {buyMetadata : List OrderMetadata} (h : r.ProducedFrom buyOrders sellOrders buyMetadata) :
    ∃ b ∈ buyOrders, ∃ s ∈ sellOrders, r.DrawnFrom buyMetadata b s := by
  obtain ⟨topology, nowNs, ⟨dynamicMultiplier, hr⟩ | hr⟩ := h
  · exact MatchingEngine.matchCycle_drawnFrom r hr
  · exact UniformAuction.clearCycle_drawnFrom r hr

end TradingService
