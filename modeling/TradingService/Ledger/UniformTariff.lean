import TradingService.Engine.Priority
import TradingService.Ledger.PassThrough

/-!
# Zones under one tariff

The engine keeps a book for each zone and asks the grid about each link. Where every link
admits every flow at the same charges, as the service's topology has it, none of this shows:
orders that are moved to other zones trade as they did.
-/

namespace TradingService

open MatchingEngine

def FastOrder.rezone (zone : Uuid → ZoneId) (o : FastOrder) : FastOrder := { o with zoneId := zone o.id }

def MatchResult.rezone (zone : Uuid → ZoneId) (r : MatchResult) : MatchResult :=
  { r with buyerZoneId := zone r.buyOrderId, sellerZoneId := zone r.sellOrderId }

def MatchingEngine.CycleOutcome.rezone (zone : Uuid → ZoneId) (out : CycleOutcome) : CycleOutcome where
  buyOrders := out.buyOrders.map (·.rezone zone)
  sellOrders := out.sellOrders.map (·.rezone zone)
  results := out.results.map (·.rezone zone)
  stats := out.stats

namespace MatchingEngine

/-- Every link admits every flow, at the charges of every other. -/
structure UniformGrid (topology : TopologySnapshot) : Prop where
  admits : AdmitsAll topology
  wheeling : ∀ a b a' b', topology.calculateWheelingCharge a b = topology.calculateWheelingCharge a' b'
  loss : ∀ a b a' b', topology.calculateLossFactor a b = topology.calculateLossFactor a' b'

theorem uniformGrid_gridAware (rates : ChargeRates) : UniformGrid (gridAwareTopology rates) where
  admits _ _ _ := rfl
  wheeling _ _ _ _ := rfl
  loss _ _ _ _ := rfl

variable {n : ℕ} {zone : Uuid → ZoneId} {topology : TopologySnapshot} {dynamicMultiplier : FastPrice}
  {nowNs : I64} {buyMetadata : List OrderMetadata}

theorem live_rezone {o : FastOrder} : Live nowNs (o.rezone zone) ↔ Live nowNs o := Iff.rfl

structure Rezones (zone : Uuid → ZoneId) (st st' : CycleState n) : Prop where
  sells : ∀ i, st'.sellOrders i = (st.sellOrders i).rezone zone
  results : st'.results = st.results.map (·.rezone zone)
  created : st'.matchesCreated = st.matchesCreated
  volume : st'.totalVolume = st.totalVolume

variable {st st' : CycleState n} {buy : FastOrder}

theorem UniformGrid.zoneFees (h : UniformGrid topology) (buy buy' : FastOrder) (a b : ZoneId) :
    MatchingEngine.zoneFees buy topology a = MatchingEngine.zoneFees buy' topology b := by
  unfold MatchingEngine.zoneFees
  rw [h.wheeling a buy.zoneId b buy'.zoneId, h.loss a buy.zoneId b buy'.zoneId]

/-- A candidate knows nothing of zones. -/
theorem UniformGrid.viableSells_rezone (h : UniformGrid topology) {sells sells' : Fin n → FastOrder}
    (hsells : ∀ i, sells' i = (sells i).rezone zone) (needAtStart : Decimal) :
    viableSells nowNs sells' (buy.rezone zone) needAtStart topology dynamicMultiplier =
      viableSells nowNs sells buy needAtStart topology dynamicMultiplier := by
  have hone : ∀ i, viableSell nowNs sells' (buy.rezone zone) needAtStart topology dynamicMultiplier i =
      viableSell nowNs sells buy needAtStart topology dynamicMultiplier i := by
    intro i
    have hfees := h.zoneFees (buy.rezone zone) buy (sells' i).zoneId (sells i).zoneId
    unfold viableSell priceSell pricedCandidate
    rw [hfees]
    simp only [hsells, h.admits _ _ _, live_rezone]
    rfl
  unfold viableSells
  rw [funext hone]

theorem simulateFok_rezone (hopen : AdmitsAll topology) {sells sells' : Fin n → FastOrder}
    (hsells : ∀ i, sells' i = (sells i).rezone zone) (buy : FastOrder) (cs : List (Candidate n))
    (flow flow' : ZoneId × ZoneId → Decimal) (need : Decimal) :
    simulateFok topology sells' (buy.rezone zone) cs flow' need =
      simulateFok topology sells buy cs flow need := by
  induction cs generalizing flow flow' need with
  | nil => rfl
  | cons c cs ih =>
    have hremaining : (sells' c.sellIdx).remainingAmount = (sells c.sellIdx).remainingAmount := by
      rw [hsells]
      rfl
    simp only [simulateFok]
    rw [admittedTake_of_admitsAll hopen, admittedTake_of_admitsAll hopen, hremaining]
    cases fillTake need (sells c.sellIdx).remainingAmount with
    | none => exact ih flow flow' need
    | some take =>
      dsimp only
      split_ifs
      · rfl
      · exact ih _ _ _

theorem Rezones.commitMatch (h : Rezones zone st st') (c : Candidate n) (amount : Decimal) :
    Rezones zone (commitMatch st buy c buyMetadata amount)
      (commitMatch st' (buy.rezone zone) c buyMetadata amount) := by
  constructor
  · intro i
    by_cases hi : i = c.sellIdx
    · rw [hi, commitMatch_sellOrders_self, commitMatch_sellOrders_self, h.sells]
      rfl
    · rw [commitMatch_sellOrders_of_ne _ _ _ _ _ hi, commitMatch_sellOrders_of_ne _ _ _ _ _ hi]
      exact h.sells i
  · simp only [MatchingEngine.commitMatch, h.results, h.sells, List.map_append, List.map_singleton]
    rfl
  · simp only [MatchingEngine.commitMatch, h.created]
  · simp only [MatchingEngine.commitMatch, h.volume]

def RezonesPass (zone : Uuid → ZoneId) (p p' : CycleState n × FastOrder) : Prop :=
  Rezones zone p.1 p'.1 ∧ p'.2 = p.2.rezone zone

theorem RezonesPass.drain (hopen : AdmitsAll topology) (cs : List (Candidate n))
    {p p' : CycleState n × FastOrder} (h : RezonesPass zone p p') :
    RezonesPass zone (drain buyMetadata topology cs p) (drain buyMetadata topology cs p') := by
  induction cs generalizing p p' with
  | nil => exact h
  | cons c cs ih =>
    have hstate := h.1
    have hbuy := h.2
    have hneed : p'.2.remainingAmount = p.2.remainingAmount := by
      rw [hbuy]
      rfl
    have hremaining : (p'.1.sellOrders c.sellIdx).remainingAmount = (p.1.sellOrders c.sellIdx).remainingAmount := by
      rw [hstate.sells]
      rfl
    rw [MatchingEngine.drain, MatchingEngine.drain, hneed]
    split_ifs
    · exact h
    · apply ih
      unfold drainStep
      rw [admittedTake_of_admitsAll hopen, admittedTake_of_admitsAll hopen, hneed, hremaining]
      cases fillTake p.2.remainingAmount (p.1.sellOrders c.sellIdx).remainingAmount with
      | none => exact h
      | some amount =>
        rw [hbuy]
        exact ⟨hstate.commitMatch c amount, rfl⟩

theorem Rezones.exhaustiveBuy (hgrid : UniformGrid topology) (h : Rezones zone st st') (buy : FastOrder) :
    RezonesPass zone (exhaustiveBuy buyMetadata topology dynamicMultiplier nowNs st buy)
      (exhaustiveBuy buyMetadata topology dynamicMultiplier nowNs st' (buy.rezone zone)) := by
  have hstart : RezonesPass zone (st, buy) (st', buy.rezone zone) := ⟨h, rfl⟩
  have hneed : (buy.rezone zone).remainingAmount = buy.remainingAmount := rfl
  have hviable : viableSells nowNs st'.sellOrders (buy.rezone zone) buy.remainingAmount topology
      dynamicMultiplier = viableSells nowNs st.sellOrders buy buy.remainingAmount topology dynamicMultiplier :=
    hgrid.viableSells_rezone h.sells buy.remainingAmount
  have hfok := simulateFok_rezone hgrid.admits h.sells buy
    (viableSells nowNs st.sellOrders buy buy.remainingAmount topology dynamicMultiplier) st.committedFlow
    st'.committedFlow buy.remainingAmount
  have hexpired : (buy.rezone zone).isExpired nowNs = buy.isExpired nowNs := rfl
  have htif : (buy.rezone zone).timeInForce = buy.timeInForce := rfl
  simp only [MatchingEngine.exhaustiveBuy, hneed, hviable, hfok, hexpired, htif]
  split_ifs
  · exact hstart
  · exact hstart
  · exact hstart.drain hgrid.admits _

variable (buyMetadata dynamicMultiplier nowNs) in
theorem Rezones.overBuys (hgrid : UniformGrid topology) (h : Rezones zone st st') (buys : List FastOrder) :
    let turn : CycleState n → FastOrder → CycleState n × FastOrder :=
      MatchingEngine.exhaustiveBuy buyMetadata topology dynamicMultiplier nowNs
    Rezones zone (overBuys turn buys st).1 (overBuys turn (buys.map (·.rezone zone)) st').1 ∧
      (overBuys turn (buys.map (·.rezone zone)) st').2 = (overBuys turn buys st).2.map (·.rezone zone) := by
  intro turn
  induction buys generalizing st st' with
  | nil => exact ⟨h, rfl⟩
  | cons buy buys ih =>
    obtain ⟨hstate, hbuy⟩ : RezonesPass zone (turn st buy) (turn st' (buy.rezone zone)) :=
      h.exhaustiveBuy hgrid buy
    obtain ⟨hrest, hbuys⟩ := ih hstate
    simp only [List.map_cons, MatchingEngine.overBuys]
    exact ⟨hrest, by rw [hbuy, hbuys]⟩

theorem sortBuys_rezone (zone : Uuid → ZoneId) (buys : List FastOrder) :
    sortBuys (buys.map (·.rezone zone)) = (sortBuys buys).map (·.rezone zone) :=
  (List.map_insertionSort buyPriority buyPriority (·.rezone zone) buys fun _ _ _ _ => Iff.rfl).symm

theorem Rezones.finishCycle {p p' : CycleState n × List FastOrder} (hstate : Rezones zone p.1 p'.1)
    (hbuys : p'.2 = p.2.map (·.rezone zone)) :
    finishCycle nowNs p' = (finishCycle nowNs p).rezone zone := by
  have hsells : List.ofFn p'.1.sellOrders = (List.ofFn p.1.sellOrders).map (·.rezone zone) := by
    rw [List.map_ofFn]
    exact congrArg List.ofFn (funext hstate.sells)
  have hsweep : ∀ orders : List FastOrder,
      immediateSweep nowNs (orders.map (·.rezone zone)) = immediateSweep nowNs orders := by
    intro orders
    unfold immediateSweep
    rw [List.filter_map, List.map_map]
    rfl
  unfold MatchingEngine.finishCycle CycleOutcome.rezone
  rw [hbuys, hsells, hstate.results, hstate.created, hstate.volume, ← List.map_append, hsweep]

theorem exhaustiveCycle_of_get {slice : List FastOrder} (sells : Fin n → FastOrder)
    (hn : slice.length = n) (hget : ∀ i, slice.get (i.cast hn.symm) = sells i) (buys : List FastOrder) :
    finishCycle nowNs (overBuys (exhaustiveBuy buyMetadata topology dynamicMultiplier nowNs) buys
        (initialState nowNs slice.get)) =
      finishCycle nowNs (overBuys (exhaustiveBuy buyMetadata topology dynamicMultiplier nowNs) buys
        (initialState nowNs sells)) := by
  subst hn
  obtain rfl : slice.get = sells := funext hget
  rfl

end MatchingEngine

/-- A cycle of the service does not see the zones: orders that are moved to other zones make the
same matches, and are left as they were left before. -/
theorem matchCycle_rezone (zone : Uuid → ZoneId) (rates : ChargeRates) (buyOrders sellOrders : List FastOrder)
    (buyMetadata : List OrderMetadata) (dynamicMultiplier : FastPrice) (nowNs : I64)
    (hids : (sellOrders.map (·.id)).Nodup) (hasks : ∀ s ∈ sellOrders, (0 : ℤ) ≤ s.price.raw) :
    matchCycle (buyOrders.map (·.rezone zone)) (sellOrders.map (·.rezone zone)) buyMetadata
        (gridAwareTopology rates) dynamicMultiplier nowNs =
      (matchCycle buyOrders sellOrders buyMetadata (gridAwareTopology rates) dynamicMultiplier nowNs).rezone
        zone := by
  have hgrid := uniformGrid_gridAware rates
  have hids' : ((sellOrders.map (·.rezone zone)).map (·.id)).Nodup := by
    rw [List.map_map]
    exact hids
  have hasks' : ∀ s ∈ sellOrders.map (·.rezone zone), (0 : ℤ) ≤ s.price.raw := by
    intro s hs
    obtain ⟨o, ho, rfl⟩ := List.mem_map.mp hs
    exact hasks o ho
  rw [matchCycle_of_admitsAll hgrid.admits (get_ids_injective hids') hasks',
    matchCycle_of_admitsAll hgrid.admits (get_ids_injective hids) hasks, sortBuys_rezone,
    exhaustiveCycle_of_get (fun i => (sellOrders.get i).rezone zone) (List.length_map _)
      (fun i => by simp)]
  have hstart : Rezones zone (initialState nowNs sellOrders.get)
      (initialState nowNs fun i => (sellOrders.get i).rezone zone) :=
    ⟨fun _ => rfl, rfl, rfl, rfl⟩
  obtain ⟨hstate, hbuys⟩ := hstart.overBuys (guardMultiplier dynamicMultiplier) nowNs buyMetadata hgrid
    (sortBuys buyOrders)
  exact hstate.finishCycle hbuys

theorem matchCycle_rezone_no_zones :
    let buyOrders := [FastOrder.placed 1 10 5 (.number 1)]
    let sellOrders := [FastOrder.placed 2 4 3 (.number 1), FastOrder.placed 3 5 5 (.number 2)]
    let out := matchCycle buyOrders sellOrders [] (gridAwareTopology .deployed) FastPrice.one
      (BoundedInt.saturate 0)
    out.results.map (fun r => (r.sellOrderId, r.matchAmount)) = [(2, 3), (3, 2)] ∧
      matchCycle (buyOrders.map (·.rezone fun _ => ⊥)) (sellOrders.map (·.rezone fun _ => ⊥)) []
        (gridAwareTopology .deployed) FastPrice.one (BoundedInt.saturate 0) = out.rezone fun _ => ⊥ :=
  ⟨by decide +kernel, matchCycle_rezone _ _ _ _ _ _ _ (by decide) (by decide +kernel)⟩

end TradingService
