import TradingService.Engine.UniformAuction
import TradingService.Ledger.Database

/-!
# Jobs of the matcher and of the auction

Rows are converted for the engines, an engine runs on the snapshot, and what it
decided is left to be written: its matches one transaction at a time, then, for the
continuous matcher, the remainders of its immediate orders. `Job` is what is still to
be written.
-/

namespace TradingService

open MatchingEngine (OnGrid InBounds)

/-- `timestamp_nanos_opt().unwrap_or(0)`. -/
def timestampNanos (t : ℤ) : I64 := (BoundedInt.tryFrom t).getD (BoundedInt.saturate 0)

def OrderRow.toFastOrder (o : OrderRow) (metadataIndex : ℕ) : FastOrder where
  id := o.id
  userId := o.userId
  price := FastPrice.ofDecimal o.pricePerKwh.toDecimal
  energyAmount := o.energy
  filledAmount := o.filled
  zoneId := o.zoneId
  createdAtNs := (o.createdAt.map timestampNanos).getD (BoundedInt.saturate 0)
  expiresAtNs := o.expiresAt.map timestampNanos
  timeInForce := o.timeInForce
  metadataIndex := metadataIndex

/-- Orders without an epoch are left out. -/
def toFastOrders (orders : List OrderRow) : List FastOrder × List OrderMetadata :=
  let kept := orders.filterMap fun o => o.epochId.map fun epochId => (o, epochId)
  (kept.zipIdx.map fun e => e.1.1.toFastOrder e.2,
    kept.map fun e =>
      { epochId := e.2, orderPda := e.1.orderPda, sessionToken := e.1.sessionToken })

/-- What a cycle or a clearing has decided and not yet written. `refused` records the
matches that were given up and `nowNs` the time of the engine, which the service does not
keep. -/
structure Job where
  pending : List MatchResult
  sweep : List FastOrder
  buyMetadata : List OrderMetadata
  sellMetadata : List OrderMetadata
  owners : List OrderRow
  refused : List MatchResult
  nowNs : I64

def Job.empty (nowNs : I64) : Job := ⟨[], [], [], [], [], [], nowNs⟩

inductive JobKind
  | matching
  | clearing (epochId : Uuid)
  deriving DecidableEq

def JobKind.select (kind : JobKind) (orders : List OrderRow) : List OrderRow :=
  match kind with
  | .matching => orders.filter fun o => o.marketSegment = .realtime
  | .clearing epochId => orders.filter fun o => o.marketSegment = .interval ∧ o.epochId = some epochId

def runMatchingCycle (buys sells : List OrderRow) (topology : TopologySnapshot) (nowNs : I64) : Job :=
  if buys = [] ∧ sells = [] then Job.empty nowNs
  else
    let fastBuys := toFastOrders buys
    let fastSells := toFastOrders sells
    let out := MatchingEngine.matchCycle fastBuys.1 fastSells.1 fastBuys.2 topology FastPrice.one nowNs
    { pending := out.results
      sweep := (out.buyOrders ++ out.sellOrders).filter fun o => o.id ∈ out.stats.iocCancellations
      buyMetadata := fastBuys.2
      sellMetadata := fastSells.2
      owners := buys ++ sells
      refused := []
      nowNs := nowNs }

def runEpochClearing (buys sells : List OrderRow) (topology : TopologySnapshot) (nowNs : I64) : Job :=
  if buys = [] ∨ sells = [] then Job.empty nowNs
  else
    let fastBuys := toFastOrders buys
    let fastSells := toFastOrders sells
    { pending :=
        (UniformAuction.clearCycle fastBuys.1 fastSells.1 fastBuys.2 topology nowNs).results
      sweep := []
      buyMetadata := fastBuys.2
      sellMetadata := fastSells.2
      owners := buys ++ sells
      refused := []
      nowNs := nowNs }

def JobKind.run : JobKind → List OrderRow → List OrderRow → TopologySnapshot → I64 → Job
  | .matching => runMatchingCycle
  | .clearing _ => runEpochClearing

def Job.ownerOf (job : Job) (orderId : Uuid) : Option Uuid :=
  (job.owners.find? (·.id = orderId)).map (·.userId)

structure TradeIds where
  matchId : Uuid
  settlementId : Uuid
  tradeId : Uuid
  now : ℤ

def Job.settlement (job : Job) (m : MatchResult) (ids : TradeIds) (rates : ChargeRates) :
    Settlement Decimal :=
  let totalAtSettlePrice := m.matchAmount * m.settlePrice
  let charges := computeCharges totalAtSettlePrice m.matchAmount rates
  { id := ids.settlementId
    tradeId := ids.tradeId
    epochId := m.epochId
    buyerId := m.buyerId
    sellerId := m.sellerId
    buyOrderId := m.buyOrderId
    sellOrderId := m.sellOrderId
    energyAmount := m.matchAmount
    price := m.settlePrice
    totalAmount := totalAtSettlePrice
    feeAmount := charges.fee
    netAmount := charges.net
    wheelingCharge := charges.wheeling
    lossFactor := m.lossFactor
    lossCost := charges.loss
    effectiveEnergy := m.matchAmount
    buyerZoneId := m.buyerZoneId
    sellerZoneId := m.sellerZoneId
    status := .pending
    buyerSessionToken := (job.buyMetadata.getD m.buyMetadataIndex default).sessionToken
    sellerSessionToken := (job.sellMetadata.getD m.sellMetadataIndex default).sessionToken
    transactionHash := none
    retryCount := 0
    errorMessage := none
    updatedAt := ids.now }

/-- The loop body of `persist_matches`. -/
def Job.persistMatch (job : Job) (db : Database) (m : MatchResult) (ids : TradeIds)
    (rates : ChargeRates) : Database.TradeOutcome :=
  db.persistMatchedTrade (job.settlement m ids rates)
    { id := ids.matchId
      epochId := m.epochId
      buyOrderId := m.buyOrderId
      sellOrderId := m.sellOrderId
      matchedAmount := m.matchAmount
      matchPrice := m.settlePrice }
    (.orderMatched ids.matchId m.buyOrderId m.sellOrderId m.matchAmount m.settlePrice m.buyerZoneId)
    { orderId := m.buyOrderId, userId := job.ownerOf m.buyOrderId, delta := m.matchAmount
      zoneId := m.buyerZoneId }
    { orderId := m.sellOrderId, userId := job.ownerOf m.sellOrderId, delta := m.matchAmount
      zoneId := m.sellerZoneId }

def cancelIocRemainder (db : Database) (o : FastOrder) : Option Database :=
  db.updateFilledAmountWithEvent o.id o.filledAmount .cancelled
    (.orderUpdate o.id (some o.userId) o.filledAmount .cancelled o.zoneId)

theorem Job.persistMatch_committed {job : Job} {db db' : Database} {m : MatchResult}
    {ids : TradeIds} {rates : ChargeRates} (hmem : m.matchAmount ∈ Numeric.grid)
    (h : job.persistMatch db m ids rates = .committed db') :
    Database.Trades db db' m.buyOrderId m.sellOrderId m.matchAmount :=
  Database.persistMatchedTrade_committed hmem ⟨rfl, rfl⟩ ⟨rfl, rfl⟩ h

section Conversion

theorem mem_toFastOrders {orders : List OrderRow} {f : FastOrder}
    (h : f ∈ (toFastOrders orders).1) : ∃ o ∈ orders, ∃ i, f = o.toFastOrder i := by
  obtain ⟨e, he, rfl⟩ := List.mem_map.mp h
  obtain ⟨o, ho, hkept⟩ := List.mem_filterMap.mp (List.fst_mem_of_mem_zipIdx he)
  obtain ⟨epochId, _, hpair⟩ := Option.map_eq_some_iff.mp hkept
  rw [← hpair]
  exact ⟨o, ho, e.2, rfl⟩

theorem kept_ids (orders : List OrderRow) :
    ((orders.filterMap fun o => o.epochId.map fun epochId => (o, epochId)).map (·.1.id)).Sublist
      (orders.map (·.id)) := by
  induction orders with
  | nil => exact List.Sublist.slnil
  | cons o orders ih =>
    cases he : o.epochId with
    | none => simpa [List.filterMap_cons, he] using ih.cons o.id
    | some epochId => simpa [List.filterMap_cons, he] using ih

theorem toFastOrders_ids (orders : List OrderRow) :
    ((toFastOrders orders).1.map (·.id)).Sublist (orders.map (·.id)) := by
  have hids : (toFastOrders orders).1.map (·.id) =
      (orders.filterMap fun o => o.epochId.map fun epochId => (o, epochId)).map (·.1.id) := by
    simp only [toFastOrders, List.map_map]
    conv_rhs => rw [← List.zipIdx_map_fst 0 (orders.filterMap _), List.map_map]
    rfl
  rw [hids]
  exact kept_ids orders

theorem toFastOrders_onGrid {orders : List OrderRow} {f : FastOrder}
    (h : f ∈ (toFastOrders orders).1) : OnGrid Numeric.grid f := by
  obtain ⟨o, _, i, rfl⟩ := mem_toFastOrders h
  exact ⟨o.filled_mem_grid, o.energyAmount.toDecimal_mem_grid⟩

theorem toFastOrders_append_onGrid (buys sells : List OrderRow) :
    ∀ f ∈ (toFastOrders buys).1 ++ (toFastOrders sells).1, OnGrid Numeric.grid f := by
  intro f hf
  exact (List.mem_append.mp hf).elim toFastOrders_onGrid toFastOrders_onGrid

variable {buys sells : List OrderRow}

theorem mem_toFastOrders_append {f : FastOrder}
    (h : f ∈ (toFastOrders buys).1 ++ (toFastOrders sells).1) :
    ∃ o ∈ buys ++ sells, ∃ i, f = o.toFastOrder i := by
  rcases List.mem_append.mp h with h | h
  · obtain ⟨o, ho, hi⟩ := mem_toFastOrders h
    exact ⟨o, List.mem_append_left _ ho, hi⟩
  · obtain ⟨o, ho, hi⟩ := mem_toFastOrders h
    exact ⟨o, List.mem_append_right _ ho, hi⟩

theorem toFastOrders_append_ids (hids : ((buys ++ sells).map (·.id)).Nodup) :
    (((toFastOrders buys).1 ++ (toFastOrders sells).1).map (·.id)).Nodup := by
  refine List.Sublist.nodup ?_ hids
  simp only [List.map_append]
  exact (toFastOrders_ids buys).append (toFastOrders_ids sells)

end Conversion

structure Job.Decided (buys sells : List OrderRow) (job : Job) : Prop where
  refused : job.refused = []
  amount_pos : ∀ m ∈ job.pending, 0 < m.matchAmount
  amount_mem : ∀ m ∈ job.pending, m.matchAmount ∈ Numeric.grid
  buy_mem : ∀ m ∈ job.pending, ∃ b ∈ buys, b.id = m.buyOrderId
  sell_mem : ∀ m ∈ job.pending, ∃ s ∈ sells, s.id = m.sellOrderId
  sweep_ids : (job.sweep.map (·.id)).Nodup
  /-- An order to be swept carries its matches in full, whatever becomes of them. -/
  sweep_mem : ∀ o ∈ job.sweep, ∃ row ∈ buys ++ sells, row.id = o.id ∧
    o.energyAmount = row.energy ∧ o.filledAmount = row.filled + tradedAmount job.pending o.id
  inBounds : (∀ row ∈ buys ++ sells, row.InBounds) → ∀ o ∈ job.sweep, InBounds o

section Jobs

variable {buys sells : List OrderRow}

theorem Job.Decided.sweep_onGrid {job : Job} (h : job.Decided buys sells) :
    ∀ o ∈ job.sweep, o.filledAmount ∈ Numeric.grid := by
  intro o ho
  obtain ⟨row, _, _, _, hfilled⟩ := h.sweep_mem o ho
  rw [hfilled]
  exact Numeric.grid.add_mem row.filled_mem_grid (tradedAmount_mem h.amount_mem o.id)

theorem Job.decided_empty (nowNs : I64) : (Job.empty nowNs).Decided buys sells where
  refused := rfl
  amount_pos := by simp [Job.empty]
  amount_mem := by simp [Job.empty]
  buy_mem := by simp [Job.empty]
  sell_mem := by simp [Job.empty]
  sweep_ids := List.nodup_nil
  sweep_mem := by simp [Job.empty]
  inBounds := by simp [Job.empty]

theorem pending_runMatchingCycle (buys sells : List OrderRow) (topology : TopologySnapshot) (nowNs : I64) :
    ∀ m ∈ (runMatchingCycle buys sells topology nowNs).pending,
      m ∈ (MatchingEngine.matchCycle (toFastOrders buys).1 (toFastOrders sells).1 (toFastOrders buys).2
        topology FastPrice.one nowNs).results := by
  intro m hm
  unfold runMatchingCycle at hm
  split_ifs at hm
  · cases hm
  · exact hm

theorem Job.decided_runMatchingCycle (topology : TopologySnapshot) (nowNs : I64)
    (hids : ((buys ++ sells).map (·.id)).Nodup) :
    (runMatchingCycle buys sells topology nowNs).Decided buys sells := by
  unfold runMatchingCycle
  split_ifs
  · exact Job.decided_empty nowNs
  let fastBuys := toFastOrders buys
  let fastSells := toFastOrders sells
  have hfast : ((fastBuys.1 ++ fastSells.1).map (·.id)).Nodup := toFastOrders_append_ids hids
  let out := MatchingEngine.matchCycle fastBuys.1 fastSells.1 fastBuys.2 topology FastPrice.one nowNs
  have hout := MatchingEngine.conserves_matchCycle nowNs fastBuys.2 topology FastPrice.one
    hfast
  have hcredit := hout.orders_perm
  exact
    { refused := rfl
      amount_pos := fun m hm => minTradeAmount_pos.trans_le (hout.amount_min m hm)
      amount_mem := hout.amount_mem Numeric.grid (toFastOrders_append_onGrid buys sells)
      buy_mem := fun m hm => by
        obtain ⟨f, hf, hid⟩ := hout.buy_mem m hm
        obtain ⟨b, hb, i, rfl⟩ := mem_toFastOrders hf
        exact ⟨b, hb, hid.symm⟩
      sell_mem := fun m hm => by
        obtain ⟨f, hf, hid⟩ := hout.sell_mem m hm
        obtain ⟨b, hb, i, rfl⟩ := mem_toFastOrders hf
        exact ⟨b, hb, hid.symm⟩
      sweep_ids := by
        apply (List.filter_sublist.map _).nodup
        apply (hcredit.map _).nodup_iff.mpr
        simpa only [List.map_map, Function.comp_def, FastOrder.credit_id] using hfast
      sweep_mem := fun o ho => by
        obtain ⟨f, hf, rfl⟩ := List.mem_map.mp (hcredit.subset (List.mem_of_mem_filter ho))
        obtain ⟨row, hrow, i, rfl⟩ := mem_toFastOrders_append hf
        exact ⟨row, hrow, rfl, rfl, rfl⟩
      inBounds := fun hrows o ho => by
        apply hout.inBounds _ o (List.mem_of_mem_filter ho)
        intro f hf
        obtain ⟨row, hrow, i, rfl⟩ := mem_toFastOrders_append hf
        exact ⟨(hrows row hrow).filled_nonneg, (hrows row hrow).filled_le⟩ }

theorem Job.decided_runEpochClearing (topology : TopologySnapshot) (nowNs : I64) :
    (runEpochClearing buys sells topology nowNs).Decided buys sells := by
  unfold runEpochClearing
  split_ifs
  · exact Job.decided_empty nowNs
  have hsettles := UniformAuction.clearCycle_settles (toFastOrders buys).2 topology nowNs
    (toFastOrders_append_onGrid buys sells)
  exact
    { refused := rfl
      amount_pos := fun m hm => minTradeAmount_pos.trans_le (hsettles m hm).amount_min
      amount_mem := fun m hm => (hsettles m hm).amount_mem
      buy_mem := fun m hm => by
        obtain ⟨i, hid⟩ := (hsettles m hm).buy_mem
        obtain ⟨b, hb, k, hk⟩ := mem_toFastOrders (List.get_mem (toFastOrders buys).1 i)
        rw [hk] at hid
        exact ⟨b, hb, hid.symm⟩
      sell_mem := fun m hm => by
        obtain ⟨i, hid⟩ := (hsettles m hm).sell_mem
        obtain ⟨b, hb, k, hk⟩ := mem_toFastOrders (List.get_mem (toFastOrders sells).1 i)
        rw [hk] at hid
        exact ⟨b, hb, hid.symm⟩
      sweep_ids := List.nodup_nil
      sweep_mem := by simp
      inBounds := by simp }

theorem JobKind.decided_run (kind : JobKind) (topology : TopologySnapshot) (nowNs : I64)
    (hids : ((buys ++ sells).map (·.id)).Nodup) :
    (kind.run buys sells topology nowNs).Decided buys sells := by
  cases kind with
  | matching => exact Job.decided_runMatchingCycle topology nowNs hids
  | clearing epochId => exact Job.decided_runEpochClearing topology nowNs

end Jobs

end TradingService
