import TradingService.Engine.Types
import TradingService.Lib.GroupedIndex
import TradingService.Lib.KWayMerge

/-!
# Pricing and gathering candidates

One sell priced against one buy, and the three ways the engine collects the
candidates of a buy from the zone books: the only book, the only reachable book,
and the lazy merge of several.
-/

namespace TradingService.MatchingEngine

/-- The decision of one fill step: nothing from a sell below the minimum,
otherwise as much as both sides have. -/
def fillTake (need avail : Decimal) : Option Decimal :=
  if avail < minTradeAmount then none else some (min need avail)

abbrev BookKey := FastPrice ×ₗ I64 ×ₗ Uuid

abbrev ZoneBooks (n : ℕ) := OrderedMap ZoneId (OrderedMap BookKey (Fin n))

structure Candidate (n : ℕ) where
  sellIdx : Fin n
  landed : FastPrice
  wheeling : FastPrice
  loss : FastPrice
  lossCost : FastPrice
  sortPrice : FastPrice
  sortTime : I64
  sortId : Uuid
  deriving DecidableEq

structure ZoneFees where
  wheeling : FastPrice
  loss : FastPrice
  deriving DecidableEq

/-- Cheapest landed cost first, then raw ask, arrival and id. -/
def Candidate.key {n : ℕ} (c : Candidate n) : FastPrice ×ₗ FastPrice ×ₗ I64 ×ₗ Uuid :=
  toLex (c.landed, toLex (c.sortPrice, toLex (c.sortTime, c.sortId)))

def wheelingFloor (wheeling : FastPrice) : FastPrice :=
  if (wheeling.raw : ℤ) < 0 then ⟨⟨0, by omega, by omega⟩⟩ else wheeling

/-- The part of a loss factor above one, floored at zero. -/
def extraLossRaw (loss : FastPrice) : ℤ :=
  max (BoundedInt.saturatingSub loss.raw FastPrice.one.raw : ℤ) 0

/-- The per-unit loss charge on `price`; an `i128` quotient outside `i64` counts
as the largest price. -/
def lossCostExtra (price loss : FastPrice) : FastPrice :=
  FastPrice.fromRaw
    ((BoundedInt.tryFrom (((price.raw : ℤ) * extraLossRaw loss).tdiv FastPrice.factor)).getD BoundedInt.top)

/-- What the buyer pays per unit: the ask, the network charges, and the dynamic
multiplier on the sum. -/
def landedCost (price : FastPrice) (fees : ZoneFees) (dynamicMultiplier : FastPrice) : FastPrice :=
  let landed := FastPrice.fromRaw
    (BoundedInt.saturatingAdd (BoundedInt.saturatingAdd price.raw (wheelingFloor fees.wheeling).raw)
      (lossCostExtra price fees.loss).raw)
  if dynamicMultiplier = FastPrice.one then landed
  else (landed.checkedMul dynamicMultiplier).getD (FastPrice.fromRaw BoundedInt.top)

theorem wheelingFloor_nonneg (wheeling : FastPrice) : (0 : ℤ) ≤ (wheelingFloor wheeling).raw := by
  unfold wheelingFloor
  split_ifs with h
  · exact le_rfl
  · exact not_lt.mp h

/-- A dearer ask lands dearer: the charges of one zone grow with the ask. -/
theorem landedCost_mono {price price' : FastPrice} (fees : ZoneFees) {dynamicMultiplier : FastPrice}
    (h0 : (0 : ℤ) ≤ price.raw) (hprice : price ≤ price') (hmul : (0 : ℤ) ≤ dynamicMultiplier.raw) :
    landedCost price fees dynamicMultiplier ≤ landedCost price' fees dynamicMultiplier := by
  have hextra : 0 ≤ extraLossRaw fees.loss := le_max_right _ _
  have hloss : lossCostExtra price fees.loss ≤ lossCostExtra price' fees.loss :=
    FastPrice.scaled_mono h0 hprice hextra
  have hsum := BoundedInt.saturatingAdd_mono (BoundedInt.saturatingAdd_mono
    (FastPrice.le_iff.mp hprice) (le_refl (wheelingFloor fees.wheeling).raw)) (FastPrice.le_iff.mp hloss)
  unfold landedCost
  dsimp only
  split_ifs with hone
  · exact hsum
  · rw [FastPrice.checkedMul_getD, FastPrice.checkedMul_getD]
    refine FastPrice.scaled_mono ?_ hsum hmul
    exact BoundedInt.saturatingAdd_nonneg (by norm_num) (BoundedInt.saturatingAdd_nonneg (by norm_num)
      h0 (wheelingFloor_nonneg _)) (FastPrice.scaled_nonneg h0 hextra)

section Gather

variable {n : ℕ}

def pricedCandidate (buy : FastOrder) (buyRemaining : Decimal) (sellIdx : Fin n) (sell : FastOrder)
    (topology : TopologySnapshot) (fees : ZoneFees) (dynamicMultiplier : FastPrice) :
    Option (Candidate n) :=
  if buy.userId = sell.userId then none
  else if buy.price < sell.price then none
  else if !topology.canAccommodateFlow sell.zoneId buy.zoneId
      (min buyRemaining sell.remainingAmount) then none
  else if landedCost sell.price fees dynamicMultiplier ≤ buy.price then
    some
      { sellIdx := sellIdx
        landed := landedCost sell.price fees dynamicMultiplier
        wheeling := wheelingFloor fees.wheeling
        loss := fees.loss
        lossCost := lossCostExtra sell.price fees.loss
        sortPrice := sell.price
        sortTime := sell.createdAtNs
        sortId := sell.id }
  else none

variable (zoneBooks : ZoneBooks n) (sellOrders : Fin n → FastOrder) (buy : FastOrder)
  (needAtStart : Decimal) (topology : TopologySnapshot) (dynamicMultiplier : FastPrice)
  (earlyStop : Bool)

def zoneFees (sellZoneId : ZoneId) : ZoneFees where
  wheeling := topology.calculateWheelingCharge sellZoneId buy.zoneId
  loss := topology.calculateLossFactor sellZoneId buy.zoneId

def priceSell (fees : ZoneFees) (sellIdx : Fin n) : Option (Candidate n) :=
  pricedCandidate buy needAtStart sellIdx (sellOrders sellIdx) topology fees dynamicMultiplier

def crossingRange (book : OrderedMap BookKey (Fin n)) : List (BookKey × Fin n) :=
  book.rangeTo (toLex (buy.price, toLex (BoundedInt.top, Uuid.max)))

def drainRange (fees : ZoneFees) :
    Decimal → List (BookKey × Fin n) → List (Candidate n) × Bool
  | _, [] => ([], false)
  | gathered, (_, sellIdx) :: range =>
    match priceSell sellOrders buy needAtStart topology dynamicMultiplier fees sellIdx with
    | none => drainRange fees gathered range
    | some c =>
      let gathered := gathered + (sellOrders sellIdx).remainingAmount
      if earlyStop ∧ needAtStart ≤ gathered then ([c], true)
      else
        let rest := drainRange fees gathered range
        (c :: rest.1, rest.2)

def nextPriced (fees : ZoneFees) :
    List (BookKey × Fin n) → Option (Candidate n × List (BookKey × Fin n))
  | [] => none
  | (_, sellIdx) :: range =>
    match priceSell sellOrders buy needAtStart topology dynamicMultiplier fees sellIdx with
    | some c => some (c, range)
    | none => nextPriced fees range

/-- The only reachable zone, drained through its cursor. The fuel bounds the
entries left in the range. -/
def drainCursor (fees : ZoneFees) :
    ℕ → Decimal → List (BookKey × Fin n) → List (Candidate n) × Bool
  | 0, _, _ => ([], false)
  | fuel + 1, gathered, range =>
    match nextPriced sellOrders buy needAtStart topology dynamicMultiplier fees range with
    | none => ([], false)
    | some (c, range) =>
      let gathered := gathered + (sellOrders c.sellIdx).remainingAmount
      if earlyStop ∧ needAtStart ≤ gathered then ([c], true)
      else
        let rest := drainCursor fees fuel gathered range
        (c :: rest.1, rest.2)

structure HeapHead (n : ℕ) where
  cand : Candidate n
  fees : ZoneFees
  range : List (BookKey × Fin n)

def pushNext (fees : ZoneFees) (range : List (BookKey × Fin n)) : List (HeapHead n) :=
  match nextPriced sellOrders buy needAtStart topology dynamicMultiplier fees range with
  | none => []
  | some (c, range) => [{ cand := c, fees := fees, range := range }]

def drainHeap : ℕ → Decimal → List (HeapHead n) → List (Candidate n) × Bool
  | 0, _, _ => ([], false)
  | fuel + 1, gathered, heap =>
    match KWayMerge.popMin (fun h : HeapHead n => h.cand.key) heap with
    | none => ([], false)
    | some (head, heap) =>
      let gathered := gathered + (sellOrders head.cand.sellIdx).remainingAmount
      if earlyStop ∧ needAtStart ≤ gathered then ([head.cand], true)
      else
        let rest := drainHeap fuel gathered
          (pushNext sellOrders buy needAtStart topology dynamicMultiplier head.fees head.range ++ heap)
        (head.cand :: rest.1, rest.2)

def reachableCursors : List (ZoneFees × List (BookKey × Fin n)) :=
  zoneBooks.toList.filterMap fun (sellZoneId, book) =>
    if topology.canAccommodateFlow sellZoneId buy.zoneId minTradeAmount then
      some (zoneFees buy topology sellZoneId, crossingRange buy book)
    else none

/-- Collect the candidates of one buy in landed order. The flag says that the
collection stopped early, with resting energy unscanned. -/
def gatherCandidates : List (Candidate n) × Bool :=
  match zoneBooks.toList with
  | [] => ([], false)
  | [(sellZoneId, book)] =>
    if topology.canAccommodateFlow sellZoneId buy.zoneId minTradeAmount then
      drainRange sellOrders buy needAtStart topology dynamicMultiplier earlyStop
        (zoneFees buy topology sellZoneId) 0 (crossingRange buy book)
    else ([], false)
  | _ =>
    match reachableCursors zoneBooks buy topology with
    | [(fees, range)] =>
      drainCursor sellOrders buy needAtStart topology dynamicMultiplier earlyStop fees
        (range.length + 1) 0 range
    | cursors =>
      let heap := cursors.flatMap fun (fees, range) =>
        pushNext sellOrders buy needAtStart topology dynamicMultiplier fees range
      drainHeap sellOrders buy needAtStart topology dynamicMultiplier earlyStop
        ((heap.map fun h => h.range.length + 1).sum) 0 heap

end Gather

end TradingService.MatchingEngine
