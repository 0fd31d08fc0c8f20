import TradingService.Engine.Conservation

/-!
# The uniform-price auction

Every zone is cleared on its own: the buys from the best bid down and the sells from
the best ask up are swept with two pointers until they no longer cross, and all
fills of the zone settle at the midpoint of the last pair.
-/

namespace TradingService.UniformAuction

structure ZoneClearing where
  zoneId : ZoneId
  clearingPrice : Decimal
  clearedVolume : Decimal
  results : List MatchResult
  deriving DecidableEq

structure SweepState (m n : ℕ) where
  buyOrders : Fin m → FastOrder
  sellOrders : Fin n → FastOrder
  fills : List (Fin m × Fin n × Decimal)
  marginal : Option (FastPrice × FastPrice)

variable {m n : ℕ}

def partitionByZone (orders : Fin n → FastOrder) (nowNs : I64) : OrderedMap ZoneId (List (Fin n)) :=
  (List.finRange n).foldl (fun zones idx =>
    let o := orders idx
    if minTradeAmount ≤ o.remainingAmount ∧ !o.isExpired nowNs then
      zones.insert o.zoneId ((zones.get? o.zoneId).getD [] ++ [idx])
    else zones) ∅

def sortBuyIndices (buyOrders : Fin m → FastOrder) (buys : List (Fin m)) : List (Fin m) :=
  buys.insertionSort fun a b => MatchingEngine.buyPriority (buyOrders a) (buyOrders b)

def sortSellIndices (sellOrders : Fin n → FastOrder) (sells : List (Fin n)) : List (Fin n) :=
  sells.insertionSort fun a b =>
    MatchingEngine.bookKey (sellOrders a) ≤ MatchingEngine.bookKey (sellOrders b)

def SweepState.fill (st : SweepState m n) (i : Fin m) (j : Fin n) (amount : Decimal) :
    SweepState m n where
  buyOrders := Function.update st.buyOrders i ((st.buyOrders i).fill amount)
  sellOrders := Function.update st.sellOrders j ((st.sellOrders j).fill amount)
  fills := st.fills ++ [(i, j, amount)]
  marginal := some ((st.buyOrders i).price, (st.sellOrders j).price)

/-- The two-pointer sweep. Each turn moves at least one pointer, so the fuel bounds
the orders that are left. -/
def sweep : ℕ → List (Fin m) → List (Fin n) → SweepState m n → SweepState m n
  | fuel + 1, i :: is, j :: js, st =>
    let buy := st.buyOrders i
    let sell := st.sellOrders j
    if buy.price < sell.price then st
    else if buy.userId = sell.userId then sweep fuel (i :: is) js st
    else if buy.remainingAmount < minTradeAmount then sweep fuel is (j :: js) st
    else if sell.remainingAmount < minTradeAmount then sweep fuel (i :: is) js st
    else
      let st := st.fill i j (min buy.remainingAmount sell.remainingAmount)
      sweep fuel
        (if (st.buyOrders i).remainingAmount < minTradeAmount then is else i :: is)
        (if (st.sellOrders j).remainingAmount < minTradeAmount then js else j :: js) st
  | _, _, _, st => st

def settleFill (buyMetadata : List OrderMetadata) (topology : TopologySnapshot) (zone : ZoneId)
    (pStar : FastPrice) (buy sell : FastOrder) (amount : Decimal) : MatchResult :=
  let loss := topology.calculateLossFactor zone zone
  { buyOrderId := buy.id
    sellOrderId := sell.id
    buyMetadataIndex := buy.metadataIndex
    sellMetadataIndex := sell.metadataIndex
    matchAmount := amount
    matchPrice := pStar.toDecimal
    settlePrice := pStar.toDecimal
    sellerPrice := sell.price.toDecimal
    buyerPrice := buy.price.toDecimal
    totalEnergyCost := amount * pStar.toDecimal
    wheelingCharge := amount * (topology.calculateWheelingCharge zone zone).toDecimal
    lossFactor := loss.toDecimal
    lossCost := amount * (MatchingEngine.lossCostExtra pStar loss).toDecimal
    buyerZoneId := buy.zoneId
    sellerZoneId := sell.zoneId
    buyerId := buy.userId
    sellerId := sell.userId
    epochId := (buyMetadata.getD buy.metadataIndex default).epochId }

def settleFills (buyMetadata : List OrderMetadata) (topology : TopologySnapshot) (zone : ZoneId)
    (pStar : FastPrice) (st : SweepState m n) : ZoneClearing where
  zoneId := zone
  clearingPrice := pStar.toDecimal
  clearedVolume := (st.fills.map fun f => f.2.2).sum
  results := st.fills.map fun f =>
    settleFill buyMetadata topology zone pStar (st.buyOrders f.1) (st.sellOrders f.2.1) f.2.2

structure AuctionState (m n : ℕ) where
  buyOrders : Fin m → FastOrder
  sellOrders : Fin n → FastOrder
  zones : List ZoneClearing
  matchesCreated : ℕ
  totalVolume : Decimal

def sweepZone (st : AuctionState m n) (buys : List (Fin m)) (sells : List (Fin n)) :
    SweepState m n :=
  sweep (buys.length + sells.length) (sortBuyIndices st.buyOrders buys)
    (sortSellIndices st.sellOrders sells)
    { buyOrders := st.buyOrders, sellOrders := st.sellOrders, fills := [], marginal := none }

/-- One zone. Nothing is reported, and nothing has changed, if no pair crossed. -/
def clearZone (buyMetadata : List OrderMetadata) (topology : TopologySnapshot)
    (sellsByZone : OrderedMap ZoneId (List (Fin n))) (st : AuctionState m n)
    (entry : ZoneId × List (Fin m)) : AuctionState m n :=
  match sellsByZone.get? entry.1 with
  | none => st
  | some sells =>
    let swept := sweepZone st entry.2 sells
    match swept.marginal with
    | none => { st with buyOrders := swept.buyOrders, sellOrders := swept.sellOrders }
    | some (bid, ask) =>
      let zc := settleFills buyMetadata topology entry.1 (FastPrice.midpoint bid ask) swept
      { buyOrders := swept.buyOrders
        sellOrders := swept.sellOrders
        zones := st.zones ++ [zc]
        matchesCreated := st.matchesCreated + zc.results.length
        totalVolume := st.totalVolume + zc.clearedVolume }

def clearCycle (buyOrders sellOrders : List FastOrder) (buyMetadata : List OrderMetadata)
    (topology : TopologySnapshot) (nowNs : I64) :
    AuctionState buyOrders.length sellOrders.length :=
  (partitionByZone buyOrders.get nowNs).toList.foldl
    (clearZone buyMetadata topology (partitionByZone sellOrders.get nowNs))
    { buyOrders := buyOrders.get
      sellOrders := sellOrders.get
      zones := []
      matchesCreated := 0
      totalVolume := 0 }

def AuctionState.results (st : AuctionState m n) : List MatchResult := st.zones.flatMap (·.results)

def AuctionState.Tallied (st : AuctionState m n) : Prop :=
  st.totalVolume = (st.results.map (·.matchAmount)).sum ∧ st.matchesCreated = st.results.length

theorem clearedVolume_settleFills (buyMetadata : List OrderMetadata) (topology : TopologySnapshot)
    (zone : ZoneId) (pStar : FastPrice) (st : SweepState m n) :
    (settleFills buyMetadata topology zone pStar st).clearedVolume =
      ((settleFills buyMetadata topology zone pStar st).results.map (·.matchAmount)).sum := by
  simp only [settleFills, List.map_map]
  rfl

def AuctionState.withOrders (st : AuctionState m n) (swept : SweepState m n) : AuctionState m n :=
  { st with buyOrders := swept.buyOrders, sellOrders := swept.sellOrders }

def AuctionState.report (st : AuctionState m n) (zc : ZoneClearing) : AuctionState m n :=
  { st with
    zones := st.zones ++ [zc]
    matchesCreated := st.matchesCreated + zc.results.length
    totalVolume := st.totalVolume + zc.clearedVolume }

theorem AuctionState.results_withOrders (st : AuctionState m n) (swept : SweepState m n) :
    (st.withOrders swept).results = st.results := rfl

theorem AuctionState.results_report (st : AuctionState m n) (zc : ZoneClearing) :
    (st.report zc).results = st.results ++ zc.results := by
  simp only [report, results, List.flatMap_append, List.flatMap_singleton]

/-- What the turn of a zone can do: nothing, when nobody sells there; else it leaves the
orders as swept, and reports the zone if a pair crossed. -/
theorem clearZone_induction {buyMetadata : List OrderMetadata} {topology : TopologySnapshot}
    {sellsByZone : OrderedMap ZoneId (List (Fin n))} {st : AuctionState m n}
    {entry : ZoneId × List (Fin m)} {motive : AuctionState m n → Prop}
    (hskip : sellsByZone.get? entry.1 = none → motive st)
    (hquiet : ∀ sells, sellsByZone.get? entry.1 = some sells →
      (sweepZone st entry.2 sells).marginal = none → motive (st.withOrders (sweepZone st entry.2 sells)))
    (hclear : ∀ sells bid ask, sellsByZone.get? entry.1 = some sells →
      (sweepZone st entry.2 sells).marginal = some (bid, ask) →
      motive ((st.withOrders (sweepZone st entry.2 sells)).report
        (settleFills buyMetadata topology entry.1 (FastPrice.midpoint bid ask)
          (sweepZone st entry.2 sells)))) :
    motive (clearZone buyMetadata topology sellsByZone st entry) := by
  unfold clearZone
  cases hget : sellsByZone.get? entry.1 with
  | none => exact hskip hget
  | some sells =>
    dsimp only
    cases hmarginal : (sweepZone st entry.2 sells).marginal with
    | none => exact hquiet sells hget hmarginal
    | some pair => exact hclear sells pair.1 pair.2 hget hmarginal

theorem AuctionState.Tallied.clearZone {buyMetadata : List OrderMetadata} {topology : TopologySnapshot}
    {st : AuctionState m n} (h : st.Tallied) (sellsByZone : OrderedMap ZoneId (List (Fin n)))
    (entry : ZoneId × List (Fin m)) : (clearZone buyMetadata topology sellsByZone st entry).Tallied := by
  refine clearZone_induction (fun _ => h) (fun _ _ _ => h) fun sells bid ask _ _ => ?_
  obtain ⟨hvolume, hcount⟩ := h
  constructor
  · rw [results_report, List.map_append, List.sum_append, ← clearedVolume_settleFills]
    exact congrArg (· + _) hvolume
  · rw [results_report, List.length_append]
    exact congrArg (· + _) hcount

theorem clearCycle_tallied (buyOrders sellOrders : List FastOrder) (buyMetadata : List OrderMetadata)
    (topology : TopologySnapshot) (nowNs : I64) :
    (clearCycle buyOrders sellOrders buyMetadata topology nowNs).Tallied := by
  unfold clearCycle
  apply List.foldlRecOn (motive := AuctionState.Tallied)
  · exact ⟨rfl, rfl⟩
  · intro st h entry _
    exact h.clearZone _ entry

section Amounts

open MatchingEngine (OnGrid)

variable {grid : AddSubgroup Decimal} {buys₀ : Fin m → FastOrder} {sells₀ : Fin n → FastOrder}

structure Slices (grid : AddSubgroup Decimal) (buys₀ : Fin m → FastOrder)
    (sells₀ : Fin n → FastOrder) (buyOrders : Fin m → FastOrder) (sellOrders : Fin n → FastOrder) :
    Prop where
  buy_id : ∀ i, (buyOrders i).id = (buys₀ i).id
  sell_id : ∀ j, (sellOrders j).id = (sells₀ j).id
  buys_onGrid : ∀ i, OnGrid grid (buyOrders i)
  sells_onGrid : ∀ j, OnGrid grid (sellOrders j)

structure SweepInv (grid : AddSubgroup Decimal) (buys₀ : Fin m → FastOrder)
    (sells₀ : Fin n → FastOrder) (st : SweepState m n) : Prop where
  slices : Slices grid buys₀ sells₀ st.buyOrders st.sellOrders
  fills : ∀ f ∈ st.fills, minTradeAmount ≤ f.2.2 ∧ f.2.2 ∈ grid

theorem update_fill_of_forall {P : FastOrder → Prop} {orders : Fin n → FastOrder} (i : Fin n)
    {amount : Decimal} (h : ∀ k, P (orders k)) (hi : P ((orders i).fill amount)) (k : Fin n) :
    P (Function.update orders i ((orders i).fill amount) k) := by
  by_cases hk : k = i
  · subst hk
    rwa [Function.update_self]
  · rw [Function.update_of_ne hk]
    exact h k

theorem update_fill_id (orders : Fin n → FastOrder) (i k : Fin n) (amount : Decimal) :
    (Function.update orders i ((orders i).fill amount) k).id = (orders k).id := by
  by_cases hk : k = i
  · subst hk
    rw [Function.update_self, FastOrder.fill_id]
  · rw [Function.update_of_ne hk]

theorem SweepInv.fill {st : SweepState m n} (h : SweepInv grid buys₀ sells₀ st) (i : Fin m)
    (j : Fin n) (hbuy : minTradeAmount ≤ (st.buyOrders i).remainingAmount)
    (hsell : minTradeAmount ≤ (st.sellOrders j).remainingAmount) :
    SweepInv grid buys₀ sells₀ (st.fill i j
      (min (st.buyOrders i).remainingAmount (st.sellOrders j).remainingAmount)) := by
  have hmem := MatchingEngine.min_remaining_mem (h.slices.buys_onGrid i) (h.slices.sells_onGrid j)
  exact
    { slices :=
        { buy_id := fun k => (update_fill_id _ _ _ _).trans (h.slices.buy_id k)
          sell_id := fun k => (update_fill_id _ _ _ _).trans (h.slices.sell_id k)
          buys_onGrid := update_fill_of_forall i h.slices.buys_onGrid
            ((h.slices.buys_onGrid i).fill hmem)
          sells_onGrid := update_fill_of_forall j h.slices.sells_onGrid
            ((h.slices.sells_onGrid j).fill hmem) }
      fills := List.forall_mem_append.mpr ⟨h.fills, by simpa using ⟨⟨hbuy, hsell⟩, hmem⟩⟩ }

theorem sweep_inv (fuel : ℕ) (is : List (Fin m)) (js : List (Fin n)) (st : SweepState m n)
    (h : SweepInv grid buys₀ sells₀ st) : SweepInv grid buys₀ sells₀ (sweep fuel is js st) := by
  induction fuel generalizing is js st with
  | zero => exact h
  | succ fuel ih =>
    cases is with
    | nil => exact h
    | cons i is =>
      cases js with
      | nil => exact h
      | cons j js =>
        simp only [sweep]
        split_ifs with hcross huser hbuy hsell
        · exact h
        · exact ih _ _ _ h
        · exact ih _ _ _ h
        · exact ih _ _ _ h
        all_goals exact ih _ _ _ (h.fill i j (not_lt.mp hbuy) (not_lt.mp hsell))

structure Settles (grid : AddSubgroup Decimal) (buys₀ : Fin m → FastOrder)
    (sells₀ : Fin n → FastOrder) (r : MatchResult) : Prop where
  buy_mem : ∃ i, r.buyOrderId = (buys₀ i).id
  sell_mem : ∃ j, r.sellOrderId = (sells₀ j).id
  amount_min : minTradeAmount ≤ r.matchAmount
  amount_mem : r.matchAmount ∈ grid

variable (buyMetadata : List OrderMetadata) (topology : TopologySnapshot)

theorem settles_of_mem_settleFills {st : SweepState m n} (h : SweepInv grid buys₀ sells₀ st)
    {zone : ZoneId} {pStar : FastPrice} {r : MatchResult}
    (hr : r ∈ (settleFills buyMetadata topology zone pStar st).results) :
    Settles grid buys₀ sells₀ r := by
  obtain ⟨f, hf, rfl⟩ := List.mem_map.mp hr
  exact ⟨⟨f.1, h.slices.buy_id f.1⟩, ⟨f.2.1, h.slices.sell_id f.2.1⟩, (h.fills f hf).1,
    (h.fills f hf).2⟩

structure AuctionInv (grid : AddSubgroup Decimal) (buys₀ : Fin m → FastOrder)
    (sells₀ : Fin n → FastOrder) (st : AuctionState m n) : Prop where
  slices : Slices grid buys₀ sells₀ st.buyOrders st.sellOrders
  results : ∀ r ∈ st.results, Settles grid buys₀ sells₀ r

theorem clearZone_inv (sellsByZone : OrderedMap ZoneId (List (Fin n))) (st : AuctionState m n)
    (entry : ZoneId × List (Fin m)) (h : AuctionInv grid buys₀ sells₀ st) :
    AuctionInv grid buys₀ sells₀ (clearZone buyMetadata topology sellsByZone st entry) := by
  have hswept : ∀ sells, SweepInv grid buys₀ sells₀ (sweepZone st entry.2 sells) := fun sells =>
    sweep_inv _ _ _ _ ⟨h.slices, by simp⟩
  refine clearZone_induction (fun _ => h) (fun sells _ _ => ⟨(hswept sells).slices, h.results⟩)
    fun sells bid ask _ _ => ⟨(hswept sells).slices, fun r hr => ?_⟩
  rw [AuctionState.results_report] at hr
  rcases List.mem_append.mp hr with hr | hr
  · exact h.results r hr
  · exact settles_of_mem_settleFills buyMetadata topology (hswept sells) hr

theorem clearCycle_settles {buyOrders sellOrders : List FastOrder} (nowNs : I64)
    (hgrid : ∀ o ∈ buyOrders ++ sellOrders, OnGrid grid o) :
    ∀ r ∈ (clearCycle buyOrders sellOrders buyMetadata topology nowNs).results,
      Settles grid buyOrders.get sellOrders.get r := by
  have hstart : Slices grid buyOrders.get sellOrders.get buyOrders.get sellOrders.get :=
    { buy_id := fun _ => rfl
      sell_id := fun _ => rfl
      buys_onGrid := fun i => hgrid _ (List.mem_append_left _ (List.get_mem buyOrders i))
      sells_onGrid := fun j => hgrid _ (List.mem_append_right _ (List.get_mem sellOrders j)) }
  exact (List.foldlRecOn _ _ ⟨hstart, by simp [AuctionState.results]⟩ fun st h entry _ =>
    clearZone_inv buyMetadata topology _ st entry h : AuctionInv grid _ _ _).results

end Amounts

end TradingService.UniformAuction
