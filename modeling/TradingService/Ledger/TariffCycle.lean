import TradingService.Ledger.PassThrough
import TradingService.Lib.CellProgram

/-!
# A matching cycle on a changing tariff

The worker of the charge rates replaces the whole schedule at any time. A cycle of the
matcher reads it all over again: the wheeling rate and the loss rate of every link when a
buy gathers its candidates, and all three rates when the charges of a match are booked.
-/

namespace TradingService

open MatchingEngine

/-- The cycle puts out its settlements, each with its match. -/
abbrev RateProgram (α : Type) := CellProgram ChargeRates (MatchResult × Settlement Decimal) α

namespace RateProgram

def readZoneFees : RateProgram ZoneFees :=
  .read fun wheeling => .read fun loss =>
    .done ⟨FastPrice.ofDecimal wheeling.wheelingPerKwh, FastPrice.ofDecimal loss.lossFactor⟩

def readLinks : List ZoneId → RateProgram (List (ZoneId × ZoneFees))
  | [] => .done []
  | zone :: zones => readZoneFees.bind fun fees => (readLinks zones).bind fun links =>
      .done ((zone, fees) :: links)

def feesOf (links : List (ZoneId × ZoneFees)) (zone : ZoneId) : ZoneFees :=
  (((links.find? (·.1 = zone)).or links.head?).map (·.2)).getD ⟨FastPrice.ofDecimal 0, FastPrice.one⟩

def topologyOf (links : List (ZoneId × ZoneFees)) : TopologySnapshot where
  canAccommodateFlow _ _ _ := true
  calculateWheelingCharge zone _ := (feesOf links zone).wheeling
  calculateLossFactor zone _ := (feesOf links zone).loss

variable {n : ℕ} (buyMetadata : List OrderMetadata) (nowNs : I64)

/-- The fees of all zones with a book are read before a candidate is priced. -/
def scanPass (needAtStart : Decimal) (fullScan : Bool) (p : CycleState n × FastOrder) :
    RateProgram ((CycleState n × FastOrder) × Bool) :=
  (readLinks (p.1.zoneBooks.toList.map (·.1))).bind fun links =>
    .done (MatchingEngine.scanPass buyMetadata (topologyOf links) FastPrice.one needAtStart fullScan p)

def matchBuy (st : CycleState n) (buy : FastOrder) : RateProgram (CycleState n × FastOrder) :=
  if buy.remainingAmount < minTradeAmount ∨ buy.isExpired nowNs then .done (st, buy)
  else
    (scanPass buyMetadata buy.remainingAmount (buy.timeInForce = .fok) (st, buy)).bind fun first =>
      if first.2 then
        (scanPass buyMetadata buy.remainingAmount true first.1).bind fun second => .done second.1
      else .done first.1

def matchBuys : List FastOrder → CycleState n → RateProgram (CycleState n × List FastOrder)
  | [], st => .done (st, [])
  | buy :: buys, st => (matchBuy buyMetadata nowNs st buy).bind fun matched =>
      (matchBuys buys matched.1).bind fun rest => .done (rest.1, matched.2 :: rest.2)

def matchCycle (buyOrders sellOrders : List FastOrder) : RateProgram CycleOutcome :=
  (matchBuys buyMetadata nowNs (sortBuys buyOrders) (initialState nowNs sellOrders.get)).bind fun p =>
    .done (finishCycle nowNs p)

def runMatchingCycle (buys sells : List OrderRow) : RateProgram Job :=
  if buys = [] ∧ sells = [] then .done (Job.empty nowNs)
  else
    let fastBuys := toFastOrders buys
    let fastSells := toFastOrders sells
    (matchCycle fastBuys.2 nowNs fastBuys.1 fastSells.1).bind fun out => .done
      { pending := out.results
        sweep := (out.buyOrders ++ out.sellOrders).filter fun o => o.id ∈ out.stats.iocCancellations
        buyMetadata := fastBuys.2
        sellMetadata := fastSells.2
        owners := buys ++ sells
        refused := []
        nowNs := nowNs }

/-- `compute_charges` for each match, which reads the fee, the wheeling rate and the loss
in this order. -/
def persistMatches (job : Job) (draw : ℕ → TradeIds) : List MatchResult → RateProgram Unit
  | [] => .done ()
  | m :: ms =>
    .read fun fee => .read fun wheeling => .read fun loss =>
      .emit (m, job.settlement m (draw ms.length) ⟨fee.feeBps, wheeling.wheelingRatePerKwh, loss.lossBps⟩)
        (persistMatches job draw ms)

def cycle (buys sells : List OrderRow) (draw : ℕ → TradeIds) : RateProgram Unit :=
  (runMatchingCycle nowNs buys sells).bind fun job => persistMatches job draw job.pending

end RateProgram

def ChargeRates.SameNetwork (rates rates' : ChargeRates) : Prop :=
  rates.wheelingRatePerKwh = rates'.wheelingRatePerKwh ∧ rates.lossBps = rates'.lossBps

instance : DecidableRel ChargeRates.SameNetwork := fun _ _ => inferInstanceAs (Decidable (_ ∧ _))

theorem ChargeRates.SameNetwork.gridFees_eq {rates rates' : ChargeRates} (h : rates.SameNetwork rates') :
    gridFees rates' = gridFees rates := by
  unfold gridFees wheelingPerKwh lossFactor
  rw [h.1, h.2]

namespace RateProgram

section Undisturbed

variable {n : ℕ} {rates : ChargeRates} {buyMetadata : List OrderMetadata} {nowNs : I64}

theorem yields_readZoneFees : readZoneFees.Yields rates.SameNetwork (gridFees rates) := by
  intro wheeling hwheeling loss hloss
  change (⟨FastPrice.ofDecimal wheeling.wheelingPerKwh, FastPrice.ofDecimal loss.lossFactor⟩ : ZoneFees) = _
  unfold ChargeRates.wheelingPerKwh ChargeRates.lossFactor
  rw [← hwheeling.1, ← hloss.2]
  rfl

theorem yields_readLinks (zones : List ZoneId) :
    (readLinks zones).Yields rates.SameNetwork (zones.map fun zone => (zone, gridFees rates)) := by
  induction zones with
  | nil => rfl
  | cons zone zones ih => exact yields_readZoneFees.bind (ih.bind rfl)

theorem topologyOf_eq {zones : List ZoneId} (h : zones ≠ []) :
    topologyOf (zones.map fun zone => (zone, gridFees rates)) = gridAwareTopology rates := by
  have hfees : feesOf (zones.map fun zone => (zone, gridFees rates)) = fun _ => gridFees rates := by
    funext zone
    unfold feesOf
    cases hfind : (zones.map fun zone => (zone, gridFees rates)).find? (·.1 = zone) with
    | some link =>
      obtain ⟨_, _, rfl⟩ := List.mem_map.mp (List.mem_of_find?_eq_some hfind)
      rfl
    | none =>
      obtain ⟨first, rest, rfl⟩ := List.exists_cons_of_ne_nil h
      rfl
  unfold topologyOf
  rw [hfees]
  rfl

/-- Without a book there is nothing to gather, whatever the topology. -/
theorem scanPass_of_no_books {topology topology' : TopologySnapshot} {needAtStart : Decimal}
    {fullScan : Bool} {p : CycleState n × FastOrder} (h : p.1.zoneBooks.toList = []) :
    MatchingEngine.scanPass buyMetadata topology FastPrice.one needAtStart fullScan p =
      MatchingEngine.scanPass buyMetadata topology' FastPrice.one needAtStart fullScan p := by
  have hgather : ∀ topology, gatherCandidates p.1.zoneBooks p.1.sellOrders p.2 needAtStart topology
      FastPrice.one (!fullScan) = ([], false) := by
    intro topology
    unfold gatherCandidates
    rw [h]
  unfold MatchingEngine.scanPass
  rw [hgather, hgather]
  rfl

theorem yields_scanPass (needAtStart : Decimal) (fullScan : Bool) (p : CycleState n × FastOrder) :
    (scanPass buyMetadata needAtStart fullScan p).Yields rates.SameNetwork
      (MatchingEngine.scanPass buyMetadata (gridAwareTopology rates) FastPrice.one needAtStart fullScan p) := by
  refine (yields_readLinks _).bind ?_
  change MatchingEngine.scanPass _ _ _ _ _ _ = _
  by_cases hbooks : p.1.zoneBooks.toList = []
  · exact scanPass_of_no_books hbooks
  · rw [topologyOf_eq (by simpa using hbooks)]

theorem yields_matchBuy (st : CycleState n) (buy : FastOrder) :
    (matchBuy buyMetadata nowNs st buy).Yields rates.SameNetwork
      (MatchingEngine.matchBuy buyMetadata (gridAwareTopology rates) FastPrice.one nowNs st buy) := by
  unfold matchBuy MatchingEngine.matchBuy
  split_ifs with hskip
  · rfl
  · refine (yields_scanPass _ _ _).bind ?_
    dsimp only
    split_ifs
    · exact (yields_scanPass _ _ _).bind rfl
    · rfl

theorem yields_matchBuys (buys : List FastOrder) (st : CycleState n) :
    (matchBuys buyMetadata nowNs buys st).Yields rates.SameNetwork
      (MatchingEngine.matchBuys buyMetadata (gridAwareTopology rates) FastPrice.one nowNs buys st) := by
  induction buys generalizing st with
  | nil => rfl
  | cons buy buys ih => exact (yields_matchBuy st buy).bind ((ih _).bind rfl)

/-- A cycle that sees one wheeling rate and one loss rate is the cycle under that tariff. -/
theorem yields_runMatchingCycle (buys sells : List OrderRow) :
    (runMatchingCycle nowNs buys sells).Yields rates.SameNetwork
      (TradingService.runMatchingCycle buys sells (gridAwareTopology rates) nowNs) := by
  unfold runMatchingCycle TradingService.runMatchingCycle
  split_ifs with hempty
  · rfl
  · refine CellProgram.Yields.bind (CellProgram.Yields.bind (yields_matchBuys _ _) rfl) ?_
    rfl

end Undisturbed

end RateProgram

/-- The price of a match and the charges on its settlement are those of one schedule. -/
structure ChargeRates.Governs (rates : ChargeRates) (o : MatchResult × Settlement Decimal) : Prop where
  landed : o.1.settlePrice =
    (landedCost (FastPrice.ofDecimal o.1.sellerPrice) (gridFees rates) FastPrice.one).toDecimal
  fee : o.2.feeAmount = (computeCharges o.2.totalAmount o.2.energyAmount rates).fee
  wheeling : o.2.wheelingCharge = (computeCharges o.2.totalAmount o.2.energyAmount rates).wheeling
  loss : o.2.lossCost = (computeCharges o.2.totalAmount o.2.energyAmount rates).loss

instance (rates : ChargeRates) (o : MatchResult × Settlement Decimal) : Decidable (rates.Governs o) :=
  decidable_of_iff
    (o.1.settlePrice =
        (landedCost (FastPrice.ofDecimal o.1.sellerPrice) (gridFees rates) FastPrice.one).toDecimal ∧
      o.2.feeAmount = (computeCharges o.2.totalAmount o.2.energyAmount rates).fee ∧
      o.2.wheelingCharge = (computeCharges o.2.totalAmount o.2.energyAmount rates).wheeling ∧
      o.2.lossCost = (computeCharges o.2.totalAmount o.2.energyAmount rates).loss)
    ⟨fun h => ⟨h.1, h.2.1, h.2.2.1, h.2.2.2⟩, fun h => ⟨h.1, h.2, h.3, h.4⟩⟩

namespace RateProgram

variable {rates : ChargeRates} {nowNs : I64}

theorem landed_of_pending {buys sells : List OrderRow} {m : MatchResult}
    (hm : m ∈ (TradingService.runMatchingCycle buys sells (gridAwareTopology rates) nowNs).pending) :
    m.settlePrice =
      (landedCost (FastPrice.ofDecimal m.sellerPrice) (gridFees rates) FastPrice.one).toDecimal := by
  unfold TradingService.runMatchingCycle at hm
  split_ifs at hm
  · cases hm
  · obtain ⟨_, _, s, _, hseller, hsettle⟩ := matchCycle_tariffPriced m hm
    rw [hseller, FastPrice.ofDecimal_toDecimal]
    exact hsettle

theorem sound_persistMatches (job : Job) (draw : ℕ → TradeIds) {ms : List MatchResult}
    (hms : ∀ m ∈ ms, m.settlePrice =
      (landedCost (FastPrice.ofDecimal m.sellerPrice) (gridFees rates) FastPrice.one).toDecimal)
    (seen : List ChargeRates) :
    (persistMatches job draw ms).Sound rates.SameNetwork ChargeRates.Governs seen := by
  induction ms generalizing seen with
  | nil => exact True.intro
  | cons m ms ih =>
    intro fee hfee wheeling hwheeling loss hloss
    refine ⟨⟨fee, by simp, ?_⟩, ih (fun m hm => hms m (List.mem_cons_of_mem _ hm)) _⟩
    rw [← hwheeling.1, ← hloss.2, hfee.1, hfee.2]
    exact ⟨hfee.gridFees_eq ▸ hms m List.mem_cons_self, rfl, rfl, rfl⟩

theorem sound_cycle (buys sells : List OrderRow) (draw : ℕ → TradeIds) (rates : ChargeRates) :
    (cycle nowNs buys sells draw).Sound rates.SameNetwork ChargeRates.Governs [] :=
  (yields_runMatchingCycle buys sells).sound_bind fun seen =>
    sound_persistMatches _ draw (fun _ hm => landed_of_pending hm) seen

/-- In a run in which no refresh between the first read of the cycle and its end changes the
wheeling rate or the loss rate, every match is priced and booked under one schedule. -/
theorem one_tariff_per_cycle (initial : ChargeRates) (buys sells : List OrderRow) (draw : ℕ → TradeIds)
    (nowNs : I64) (as : List (CellAction ChargeRates))
    (has : Runs.AllSteps CellState.step (CellState.StoresAlike ChargeRates.SameNetwork)
      (CellState.start initial (cycle nowNs buys sells draw)) as) :
    Runs.AllStates CellState.step (fun s => ∀ o ∈ s.emitted, ∃ rates ∈ s.stored, rates.Governs o)
      (CellState.start initial (cycle nowNs buys sells draw)) as :=
  CellState.emitted_from_stored (fun _ => ⟨rfl, rfl⟩) (fun _ _ _ h h' => ⟨h.1.trans h'.1, h.2.trans h'.2⟩)
    (sound_cycle buys sells draw) initial has

def raised : ChargeRates := { ChargeRates.deployed with wheelingRatePerKwh := 250000 }

def pairCycle : RateProgram Unit :=
  cycle (BoundedInt.saturate 0) [OrderRow.placed 1 .buy 10 5] [OrderRow.placed 2 .sell 4 5] fun _ => ⟨1, 2, 3, 0⟩

theorem one_tariff_per_cycle_raised :
    let as : List (CellAction ChargeRates) :=
      [.store raised, .read, .read, .read, .read, .read, .emit, .store .deployed]
    (as.foldlM CellState.step (CellState.start .deployed pairCycle)).isSome ∧
      Runs.AllStates CellState.step (fun s => ∀ o ∈ s.emitted, ∃ rates ∈ s.stored, rates.Governs o)
        (CellState.start .deployed pairCycle) as :=
  ⟨by decide +kernel, one_tariff_per_cycle .deployed _ _ _ _ _ (by decide +kernel)⟩

/-- The tariff is raised when the match is priced and not yet booked: the price holds a
wheeling charge of a tenth, and the seller pays a quarter. -/
theorem two_tariffs_in_one_cycle :
    ¬∀ (initial : ChargeRates) (buys sells : List OrderRow) (draw : ℕ → TradeIds) (nowNs : I64)
      (as : List (CellAction ChargeRates)),
      Runs.AllStates CellState.step (fun s => ∀ o ∈ s.emitted, ∃ rates ∈ s.stored, rates.Governs o)
        (CellState.start initial (cycle nowNs buys sells draw)) as := by
  intro h
  have hrun := h .deployed [OrderRow.placed 1 .buy 10 5] [OrderRow.placed 2 .sell 4 5]
    (fun _ => ⟨1, 2, 3, 0⟩) (BoundedInt.saturate 0)
    [.read, .read, .store raised, .read, .read, .read, .emit]
  revert hrun
  decide +kernel

end RateProgram

end TradingService
