import TradingService.Engine.Candidates

/-!
# One cycle of the continuous double auction

The buys are taken in price-time order. Each gathers candidates from the zone
books and drains them under the running per-link flow ledger; a buy that the
early stop and a full link left short gathers once more without the early stop.
-/

namespace TradingService.MatchingEngine

variable {n : ℕ}

/-- What the buy loop carries: the sells as filled so far, the books, the energy
committed to each link, and the output. -/
structure CycleState (n : ℕ) where
  sellOrders : Fin n → FastOrder
  zoneBooks : ZoneBooks n
  committedFlow : ZoneId × ZoneId → Decimal
  results : List MatchResult
  matchesCreated : ℕ
  totalVolume : Decimal

def matchResult (buy sell : FastOrder) (c : Candidate n) (buyMetadata : List OrderMetadata)
    (matchAmount : Decimal) : MatchResult where
  buyOrderId := buy.id
  sellOrderId := sell.id
  buyMetadataIndex := buy.metadataIndex
  sellMetadataIndex := sell.metadataIndex
  matchAmount := matchAmount
  matchPrice := c.landed.toDecimal
  settlePrice := c.landed.toDecimal
  sellerPrice := sell.price.toDecimal
  buyerPrice := buy.price.toDecimal
  totalEnergyCost := matchAmount * c.landed.toDecimal
  wheelingCharge := matchAmount * c.wheeling.toDecimal
  lossFactor := c.loss.toDecimal
  lossCost := matchAmount * c.lossCost.toDecimal
  buyerZoneId := buy.zoneId
  sellerZoneId := sell.zoneId
  buyerId := buy.userId
  sellerId := sell.userId
  -- An index past the sidecar panics in the source; `to_fast_orders` never makes one.
  epochId := (buyMetadata.getD buy.metadataIndex default).epochId

def bookKey (sell : FastOrder) : BookKey := toLex (sell.price, toLex (sell.createdAtNs, sell.id))

/-- A sell whose remainder fell below the minimum leaves its book. -/
def cleanupBook (zoneBooks : ZoneBooks n) (sell : FastOrder) : ZoneBooks n :=
  if sell.remainingAmount < minTradeAmount then
    zoneBooks.adjust sell.zoneId (·.erase (bookKey sell))
  else zoneBooks

def commitMatch (st : CycleState n) (buy : FastOrder) (c : Candidate n)
    (buyMetadata : List OrderMetadata) (matchAmount : Decimal) : CycleState n :=
  let sell := st.sellOrders c.sellIdx
  let filled := sell.fill matchAmount
  let flowKey := (sell.zoneId, buy.zoneId)
  { sellOrders := Function.update st.sellOrders c.sellIdx filled
    zoneBooks := cleanupBook st.zoneBooks filled
    committedFlow := Function.update st.committedFlow flowKey (st.committedFlow flowKey + matchAmount)
    results := st.results ++ [matchResult buy sell c buyMetadata matchAmount]
    matchesCreated := st.matchesCreated + 1
    totalVolume := st.totalVolume + matchAmount }

section CommitMatch

variable (st : CycleState n) (buy : FastOrder) (c : Candidate n) (buyMetadata : List OrderMetadata)
  (matchAmount : Decimal)

@[simp] theorem commitMatch_sellOrders_self :
    (commitMatch st buy c buyMetadata matchAmount).sellOrders c.sellIdx =
      (st.sellOrders c.sellIdx).fill matchAmount := by simp [commitMatch]

theorem commitMatch_sellOrders_of_ne {i : Fin n} (hi : i ≠ c.sellIdx) :
    (commitMatch st buy c buyMetadata matchAmount).sellOrders i = st.sellOrders i := by
  simp [commitMatch, hi]

end CommitMatch

section Cycle

variable (buyMetadata : List OrderMetadata) (topology : TopologySnapshot)
  (dynamicMultiplier : FastPrice) (nowNs : I64)

/-- The amount a candidate would trade with a buy that still needs `need`, or
nothing if the sell is dust or the link has no room for it. -/
def admittedTake (sell buy : FastOrder) (committedFlow : ZoneId × ZoneId → Decimal)
    (need : Decimal) : Option Decimal :=
  match fillTake need sell.remainingAmount with
  | none => none
  | some take =>
    if topology.canAccommodateFlow sell.zoneId buy.zoneId
        (committedFlow (sell.zoneId, buy.zoneId) + take) then some take
    else none

def drainStep (st : CycleState n) (buy : FastOrder) (c : Candidate n) :
    CycleState n × FastOrder :=
  match admittedTake topology (st.sellOrders c.sellIdx) buy st.committedFlow buy.remainingAmount with
  | none => (st, buy)
  | some matchAmount => (commitMatch st buy c buyMetadata matchAmount, buy.fill matchAmount)

/-- The drain loop: it stops once the buy's need is below the minimum. -/
def drain : List (Candidate n) → CycleState n × FastOrder → CycleState n × FastOrder
  | [], p => p
  | c :: cs, p =>
    if p.2.remainingAmount < minTradeAmount then p
    else drain cs (drainStep buyMetadata topology p.1 p.2 c)

/-- The all-or-nothing simulation of the drain loop, on a copy of the flow
ledger: what would be left of the buy's need. -/
def simulateFok (sellOrders : Fin n → FastOrder) (buy : FastOrder) :
    List (Candidate n) → (ZoneId × ZoneId → Decimal) → Decimal → Decimal
  | [], _, need => need
  | c :: cs, simFlow, need =>
    let simSell := sellOrders c.sellIdx
    match admittedTake topology simSell buy simFlow need with
    | none => simulateFok sellOrders buy cs simFlow need
    | some take =>
      let key := (simSell.zoneId, buy.zoneId)
      if need - take < minTradeAmount then need - take
      else simulateFok sellOrders buy cs (Function.update simFlow key (simFlow key + take))
        (need - take)

/-- One turn of the buy's loop: gather, check a fill-or-kill buy, drain. The flag
says that a full scan may still find energy for the buy. -/
def scanPass (needAtStart : Decimal) (fullScan : Bool) (p : CycleState n × FastOrder) :
    (CycleState n × FastOrder) × Bool :=
  let gathered := gatherCandidates p.1.zoneBooks p.1.sellOrders p.2 needAtStart topology
    dynamicMultiplier (!fullScan)
  if p.2.timeInForce = .fok ∧
      0 < simulateFok topology p.1.sellOrders p.2 gathered.1 p.1.committedFlow
        p.2.remainingAmount then (p, false)
  else
    let drained := drain buyMetadata topology gathered.1 p
    (drained, !fullScan && !(drained.2.remainingAmount < minTradeAmount) && gathered.2)

/-- The loop of one buy. Its second turn runs with the full scan set, and so is
the last. -/
def matchBuy (st : CycleState n) (buy : FastOrder) : CycleState n × FastOrder :=
  if buy.remainingAmount < minTradeAmount ∨ buy.isExpired nowNs then (st, buy)
  else
    let needAtStart := buy.remainingAmount
    let first := scanPass buyMetadata topology dynamicMultiplier needAtStart
      (buy.timeInForce = .fok) (st, buy)
    if first.2 then
      (scanPass buyMetadata topology dynamicMultiplier needAtStart true first.1).1
    else first.1

def overBuys (step : CycleState n → FastOrder → CycleState n × FastOrder) :
    List FastOrder → CycleState n → CycleState n × List FastOrder
  | [], st => (st, [])
  | buy :: buys, st =>
    let matched := step st buy
    let rest := overBuys step buys matched.1
    (rest.1, matched.2 :: rest.2)

def matchBuys : List FastOrder → CycleState n → CycleState n × List FastOrder :=
  overBuys (matchBuy buyMetadata topology dynamicMultiplier nowNs)

end Cycle

/-- Highest bid first, then arrival, then id. -/
def buyPriority (a b : FastOrder) : Prop :=
  toLex (OrderDual.toDual a.price, toLex (a.createdAtNs, a.id)) ≤
    toLex (OrderDual.toDual b.price, toLex (b.createdAtNs, b.id))

instance : DecidableRel buyPriority := fun _ _ => inferInstanceAs (Decidable (_ ≤ _))

def sortBuys (buyOrders : List FastOrder) : List FastOrder := buyOrders.insertionSort buyPriority

def fileSell (nowNs : I64) (sellOrders : Fin n → FastOrder) (zoneBooks : ZoneBooks n)
    (idx : Fin n) : ZoneBooks n :=
  let sell := sellOrders idx
  if minTradeAmount ≤ sell.remainingAmount ∧ !sell.isExpired nowNs then
    zoneBooks.insert sell.zoneId
      (((zoneBooks.get? sell.zoneId).getD ∅).insert (bookKey sell) idx)
  else zoneBooks

def buildZoneBooks (nowNs : I64) (sellOrders : Fin n → FastOrder) : ZoneBooks n :=
  (List.finRange n).foldl (fileSell nowNs sellOrders) ∅

def initialState (nowNs : I64) (sellOrders : Fin n → FastOrder) : CycleState n where
  sellOrders := sellOrders
  zoneBooks := buildZoneBooks nowNs sellOrders
  committedFlow := fun _ => 0
  results := []
  matchesCreated := 0
  totalVolume := 0

/-- A multiplier that is not positive is a misconfiguration and counts as one. -/
def guardMultiplier (dynamicMultiplier : FastPrice) : FastPrice :=
  if (dynamicMultiplier.raw : ℤ) ≤ 0 then FastPrice.one else dynamicMultiplier

def immediateSweep (nowNs : I64) (orders : List FastOrder) : List Uuid :=
  (orders.filter fun o =>
    o.timeInForce.isImmediate && !o.isExpired nowNs && decide (0 < o.remainingAmount)).map (·.id)

structure CycleOutcome where
  buyOrders : List FastOrder
  sellOrders : List FastOrder
  results : List MatchResult
  stats : CycleStats
  deriving DecidableEq

def finishCycle (nowNs : I64) (p : CycleState n × List FastOrder) : CycleOutcome where
  buyOrders := p.2
  sellOrders := List.ofFn p.1.sellOrders
  results := p.1.results
  stats :=
    { matchesCreated := p.1.matchesCreated
      totalVolume := p.1.totalVolume
      iocCancellations := immediateSweep nowNs (p.2 ++ List.ofFn p.1.sellOrders) }

def matchCycle (buyOrders sellOrders : List FastOrder) (buyMetadata : List OrderMetadata)
    (topology : TopologySnapshot) (dynamicMultiplier : FastPrice) (nowNs : I64) : CycleOutcome :=
  finishCycle nowNs
    (matchBuys buyMetadata topology (guardMultiplier dynamicMultiplier) nowNs (sortBuys buyOrders)
      (initialState nowNs sellOrders.get))

end TradingService.MatchingEngine
