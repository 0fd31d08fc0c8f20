import TradingService.Engine.Provenance
import TradingService.Ledger.Matching

/-!
# A settlement is built from its own two orders

The conversion drops the rows without an epoch and numbers those that are left, and the
number is the place in the sidecar. However the engines order the slices, a match
brings back the two numbers that its orders came with, so what is written for it is
taken from the two rows that it names.
-/

namespace TradingService

open Database (Trade TradeRows)

structure OrderRow.Converts (o : OrderRow) (metadata : List OrderMetadata) (f : FastOrder) :
    Prop where
  fast : f = o.toFastOrder f.metadataIndex
  sidecar : ∃ epochId, o.epochId = some epochId ∧ metadata[f.metadataIndex]? =
    some { epochId := epochId, orderPda := o.orderPda, sessionToken := o.sessionToken }

/-- Whatever was dropped before it, a fast order and its sidecar row have one number. -/
theorem converts_of_mem {orders : List OrderRow} {f : FastOrder}
    (h : f ∈ (toFastOrders orders).1) : ∃ o ∈ orders, o.Converts (toFastOrders orders).2 f := by
  obtain ⟨⟨⟨o, epochId⟩, i⟩, he, rfl⟩ := List.mem_map.mp h
  have hkept := List.mem_zipIdx_iff_getElem?.mp he
  obtain ⟨o', ho, hepoch⟩ := List.mem_filterMap.mp (List.mem_of_getElem? hkept)
  obtain ⟨epochId', hsome, hpair⟩ := Option.map_eq_some_iff.mp hepoch
  obtain ⟨rfl, rfl⟩ := Prod.mk.inj hpair
  refine ⟨o', ho, rfl, epochId', hsome, ?_⟩
  change (List.map _ _)[i]? = _
  rw [List.getElem?_map, hkept]
  rfl

section Columns

variable {Amount : Type} {buy sell : OrderRow}

structure Settlement.Carries (s : Settlement Amount) (buy sell : OrderRow) : Prop where
  buyOrderId : s.buyOrderId = buy.id
  sellOrderId : s.sellOrderId = sell.id
  buyerId : s.buyerId = buy.userId
  sellerId : s.sellerId = sell.userId
  buyerZoneId : s.buyerZoneId = buy.zoneId
  sellerZoneId : s.sellerZoneId = sell.zoneId
  buyerSessionToken : s.buyerSessionToken = buy.sessionToken
  sellerSessionToken : s.sellerSessionToken = sell.sessionToken
  epochId : buy.epochId = some s.epochId

structure OrderMatch.Carries (m : OrderMatch Amount) (buy sell : OrderRow) : Prop where
  buyOrderId : m.buyOrderId = buy.id
  sellOrderId : m.sellOrderId = sell.id
  epochId : buy.epochId = some m.epochId

theorem Settlement.Carries.store {s : Settlement Decimal} {row : Settlement Numeric}
    (h : s.Carries buy sell) (hstore : s.store = some row) : row.Carries buy sell := by
  simp only [Settlement.store, Option.bind_eq_bind, Option.bind_eq_some_iff] at hstore
  obtain ⟨_, _, _, _, _, _, _, _, _, _, _, _, _, _, _, _, _, _, hrow⟩ := hstore
  obtain rfl := Option.some.inj hrow
  exact ⟨h.buyOrderId, h.sellOrderId, h.buyerId, h.sellerId, h.buyerZoneId, h.sellerZoneId,
    h.buyerSessionToken, h.sellerSessionToken, h.epochId⟩

theorem OrderMatch.Carries.store {m : OrderMatch Decimal} {row : OrderMatch Numeric}
    (h : m.Carries buy sell) (hstore : m.store = some row) : row.Carries buy sell := by
  simp only [OrderMatch.store, Option.bind_eq_bind, Option.bind_eq_some_iff] at hstore
  obtain ⟨_, _, _, _, hrow⟩ := hstore
  obtain rfl := Option.some.inj hrow
  exact ⟨h.buyOrderId, h.sellOrderId, h.epochId⟩

end Columns

structure Database.Trade.Between (t : Trade) (buy sell : OrderRow) : Prop where
  settlement : t.settlement.Carries buy sell
  orderMatch : t.orderMatch.Carries buy sell
  event : ∃ matchId amount price,
    t.event = .orderMatched matchId buy.id sell.id amount price buy.zoneId
  buyer : t.buyer.orderId = buy.id ∧ t.buyer.zoneId = buy.zoneId
  seller : t.seller.orderId = sell.id ∧ t.seller.zoneId = sell.zoneId

def Job.trade (job : Job) (m : MatchResult) (ids : TradeIds) (rates : ChargeRates) : Trade where
  settlement := job.settlement m ids rates
  orderMatch :=
    { id := ids.matchId
      epochId := m.epochId
      buyOrderId := m.buyOrderId
      sellOrderId := m.sellOrderId
      matchedAmount := m.matchAmount
      matchPrice := m.settlePrice }
  event := .orderMatched ids.matchId m.buyOrderId m.sellOrderId m.matchAmount m.settlePrice
    m.buyerZoneId
  buyer :=
    { orderId := m.buyOrderId
      userId := job.ownerOf m.buyOrderId
      delta := m.matchAmount
      zoneId := m.buyerZoneId }
  seller :=
    { orderId := m.sellOrderId
      userId := job.ownerOf m.sellOrderId
      delta := m.matchAmount
      zoneId := m.sellerZoneId }

/-- The sidecars and the owners that a job writes with are those of its rows. -/
structure Job.PreparedFrom (job : Job) (buys sells : List OrderRow) : Prop where
  buyMetadata : job.buyMetadata = (toFastOrders buys).2
  sellMetadata : job.sellMetadata = (toFastOrders sells).2
  owners : job.owners = buys ++ sells

section Job

variable {job : Job} {buys sells : List OrderRow} {m : MatchResult} {ids : TradeIds}
  {rates : ChargeRates} {db db' : Database} {buy sell : OrderRow}

theorem Job.persistMatch_eq :
    let t := job.trade m ids rates
    job.persistMatch db m ids rates =
      db.persistMatchedTrade t.settlement t.orderMatch t.event t.buyer t.seller := rfl

theorem Job.persistMatch_rows (h : job.persistMatch db m ids rates = .committed db') :
    let t := job.trade m ids rates
    ∃ row ledgerRow, t.settlement.store = some row ∧ t.orderMatch.store = some ledgerRow ∧
      TradeRows db db' row ledgerRow t.event t.buyer t.seller := by
  rw [Job.persistMatch_eq] at h
  exact Database.persistMatchedTrade_rows h

/-- Among rows with different ids the owner of an order is the user of its row. -/
theorem Job.ownerOf_eq (hjob : job.PreparedFrom buys sells)
    (hids : ∀ r ∈ buys ++ sells, ∀ r' ∈ buys ++ sells, r.id = r'.id → r = r') {row : OrderRow}
    (hrow : row ∈ buys ++ sells) : job.ownerOf row.id = some row.userId := by
  unfold Job.ownerOf
  rw [hjob.owners]
  cases hfind : (buys ++ sells).find? (·.id = row.id) with
  | none => exact absurd (List.find?_eq_none.mp hfind row hrow) (by simp)
  | some r =>
    have hid : r.id = row.id := by simpa using List.find?_some hfind
    rw [hids r (List.mem_of_find?_eq_some hfind) row hrow hid]
    rfl

theorem Job.trade_between (hjob : job.PreparedFrom buys sells) {b s : FastOrder}
    (hm : m.DrawnFrom (toFastOrders buys).2 b s) (hbuy : buy.Converts (toFastOrders buys).2 b)
    (hsell : sell.Converts (toFastOrders sells).2 s) :
    (job.trade m ids rates).Between buy sell := by
  obtain ⟨epochId, hepoch, hbuyMeta⟩ := hbuy.sidecar
  obtain ⟨_, _, hsellMeta⟩ := hsell.sidecar
  have hb := hbuy.fast
  have hs := hsell.fast
  have hbuyId : m.buyOrderId = buy.id := by rw [hm.buyOrderId, hb]; rfl
  have hsellId : m.sellOrderId = sell.id := by rw [hm.sellOrderId, hs]; rfl
  have hbuyZone : m.buyerZoneId = buy.zoneId := by rw [hm.buyerZoneId, hb]; rfl
  have hsellZone : m.sellerZoneId = sell.zoneId := by rw [hm.sellerZoneId, hs]; rfl
  have hmEpoch : buy.epochId = some m.epochId := by
    rw [hm.epochId, List.getD_eq_getElem?_getD, hbuyMeta, hepoch]
    rfl
  exact
    { settlement :=
        { buyOrderId := hbuyId
          sellOrderId := hsellId
          buyerId := by rw [Job.trade, Job.settlement, hm.buyerId, hb]; rfl
          sellerId := by rw [Job.trade, Job.settlement, hm.sellerId, hs]; rfl
          buyerZoneId := hbuyZone
          sellerZoneId := hsellZone
          buyerSessionToken := by
            simp only [Job.trade, Job.settlement, hjob.buyMetadata, hm.buyMetadataIndex,
              List.getD_eq_getElem?_getD, hbuyMeta, Option.getD_some]
          sellerSessionToken := by
            simp only [Job.trade, Job.settlement, hjob.sellMetadata, hm.sellMetadataIndex,
              List.getD_eq_getElem?_getD, hsellMeta, Option.getD_some]
          epochId := hmEpoch }
      orderMatch := ⟨hbuyId, hsellId, hmEpoch⟩
      event := ⟨ids.matchId, m.matchAmount, m.settlePrice, by
        rw [Job.trade, hbuyId, hsellId, hbuyZone]⟩
      buyer := ⟨hbuyId, hbuyZone⟩
      seller := ⟨hsellId, hsellZone⟩ }

/-- Either engine may take the two slices in any order. -/
theorem drawnFrom_converted {fastBuys fastSells : List FastOrder}
    (hbuys : fastBuys.Perm (toFastOrders buys).1) (hsells : fastSells.Perm (toFastOrders sells).1)
    (hm : m.ProducedFrom fastBuys fastSells (toFastOrders buys).2) :
    ∃ buy ∈ buys, ∃ sell ∈ sells, ∃ b s, m.DrawnFrom (toFastOrders buys).2 b s ∧
      buy.Converts (toFastOrders buys).2 b ∧ sell.Converts (toFastOrders sells).2 s := by
  obtain ⟨b, hb, s, hs, hdrawn⟩ := hm.drawnFrom
  obtain ⟨buy, hbuy, hbuyConverts⟩ := converts_of_mem (hbuys.subset hb)
  obtain ⟨sell, hsell, hsellConverts⟩ := converts_of_mem (hsells.subset hs)
  exact ⟨buy, hbuy, sell, hsell, b, s, hdrawn, hbuyConverts, hsellConverts⟩

theorem OrderRow.Converts.index_lt {o : OrderRow} {metadata : List OrderMetadata} {f : FastOrder}
    (h : o.Converts metadata f) : f.metadataIndex < metadata.length := by
  obtain ⟨_, _, hsidecar⟩ := h.sidecar
  exact (List.getElem?_eq_some_iff.mp hsidecar).1

theorem Job.exists_between (hjob : job.PreparedFrom buys sells)
    (hm : m.ProducedFrom (toFastOrders buys).1 (toFastOrders sells).1 (toFastOrders buys).2) :
    ∃ buy ∈ buys, ∃ sell ∈ sells, (job.trade m ids rates).Between buy sell := by
  obtain ⟨buy, hbuy, sell, hsell, b, s, hdrawn, hb, hs⟩ :=
    drawnFrom_converted (.refl _) (.refl _) hm
  exact ⟨buy, hbuy, sell, hsell, Job.trade_between hjob hdrawn hb hs⟩

end Job

/-- Each settlement is built from its own two orders: a match of either engine indexes the
sidecars in range, and the trade that is written for it, in the arguments of the transaction
and in the rows that it commits, is one between the two rows that the match names. -/
theorem persistMatch_provenance (buys sells : List OrderRow) (fastBuys fastSells : List FastOrder)
    (job : Job) (m : MatchResult) (ids : TradeIds) (rates : ChargeRates)
    (hbuys : fastBuys.Perm (toFastOrders buys).1) (hsells : fastSells.Perm (toFastOrders sells).1)
    (hjob : job.PreparedFrom buys sells)
    (hm : m.ProducedFrom fastBuys fastSells (toFastOrders buys).2) :
    m.buyMetadataIndex < job.buyMetadata.length ∧ m.sellMetadataIndex < job.sellMetadata.length ∧
      ∃ buy ∈ buys, ∃ sell ∈ sells, m.buyOrderId = buy.id ∧ m.sellOrderId = sell.id ∧
        let t := job.trade m ids rates
        t.Between buy sell ∧
          ((∀ r ∈ buys ++ sells, ∀ r' ∈ buys ++ sells, r.id = r'.id → r = r') →
            t.buyer.userId = some buy.userId ∧ t.seller.userId = some sell.userId) ∧
          ∀ db db', job.persistMatch db m ids rates = .committed db' →
            ∃ row ledgerRow, row.Carries buy sell ∧ ledgerRow.Carries buy sell ∧
              TradeRows db db' row ledgerRow t.event t.buyer t.seller := by
  obtain ⟨buy, hbuy, sell, hsell, b, s, hdrawn, hb, hs⟩ := drawnFrom_converted hbuys hsells hm
  have hbetween : (job.trade m ids rates).Between buy sell := Job.trade_between hjob hdrawn hb hs
  refine ⟨?_, ?_, buy, hbuy, sell, hsell, hbetween.buyer.1, hbetween.seller.1, hbetween,
    fun hids => ⟨?_, ?_⟩, fun db db' hcommitted => ?_⟩
  · rw [hjob.buyMetadata, hdrawn.buyMetadataIndex]
    exact hb.index_lt
  · rw [hjob.sellMetadata, hdrawn.sellMetadataIndex]
    exact hs.index_lt
  · exact (congrArg job.ownerOf hbetween.buyer.1).trans
      (Job.ownerOf_eq hjob hids (List.mem_append_left _ hbuy))
  · exact (congrArg job.ownerOf hbetween.seller.1).trans
      (Job.ownerOf_eq hjob hids (List.mem_append_right _ hsell))
  · obtain ⟨row, ledgerRow, hrow, hledgerRow, hrows⟩ := Job.persistMatch_rows hcommitted
    exact ⟨row, ledgerRow, hbetween.settlement.store hrow, hbetween.orderMatch.store hledgerRow,
      hrows⟩

def buyRows : List OrderRow :=
  [{ OrderRow.placed 1 .buy 9 5 with epochId := none }, .placed 2 .buy 10 5,
    { OrderRow.placed 3 .buy 11 5 with sessionToken := some "session" }]

def sellRows : List OrderRow :=
  [{ OrderRow.placed 4 .sell 5 5 with epochId := none }, .placed 5 .sell 6 5]

def rowResults : List MatchResult :=
  (MatchingEngine.matchCycle (toFastOrders buyRows).1.reverse (toFastOrders sellRows).1
    (toFastOrders buyRows).2 MatchingEngine.openGrid FastPrice.one (BoundedInt.saturate 0)).results

def rowJob : Job where
  pending := rowResults
  sweep := []
  buyMetadata := (toFastOrders buyRows).2
  sellMetadata := (toFastOrders sellRows).2
  owners := buyRows ++ sellRows
  refused := []
  nowNs := BoundedInt.saturate 0

theorem persistMatch_provenance_dropped_rows :
    rowResults.map (fun m => (m.buyOrderId, m.buyMetadataIndex)) = [(3, 1)] ∧
      ∀ m ∈ rowResults, ∃ buy ∈ buyRows, ∃ sell ∈ sellRows, m.buyOrderId = buy.id ∧
        (rowJob.trade m ⟨1, 2, 3, 0⟩ ⟨0, 0, 0⟩).Between buy sell := by
  refine ⟨by decide +kernel, fun m hm => ?_⟩
  obtain ⟨_, _, buy, hbuy, sell, hsell, hid, _, hbetween, _⟩ := persistMatch_provenance buyRows
    sellRows _ _ rowJob m ⟨1, 2, 3, 0⟩ ⟨0, 0, 0⟩ (List.reverse_perm _) (.refl _) ⟨rfl, rfl, rfl⟩
    ⟨MatchingEngine.openGrid, BoundedInt.saturate 0, .inl ⟨FastPrice.one, hm⟩⟩
  exact ⟨buy, hbuy, sell, hsell, hid, hbetween⟩

theorem JobKind.run_between (kind : JobKind) {buys sells : List OrderRow}
    (topology : TopologySnapshot) (nowNs : I64) (ids : TradeIds) (rates : ChargeRates) :
    ∀ m ∈ (kind.run buys sells topology nowNs).pending, ∃ buy ∈ buys, ∃ sell ∈ sells,
      ((kind.run buys sells topology nowNs).trade m ids rates).Between buy sell := by
  cases kind with
  | matching =>
    change ∀ m ∈ (runMatchingCycle buys sells topology nowNs).pending, ∃ buy ∈ buys,
      ∃ sell ∈ sells, ((runMatchingCycle buys sells topology nowNs).trade m ids rates).Between buy sell
    unfold runMatchingCycle
    split_ifs
    · simp [Job.empty]
    · exact fun m hm => Job.exists_between ⟨rfl, rfl, rfl⟩ ⟨topology, nowNs, .inl ⟨FastPrice.one, hm⟩⟩
  | clearing epochId =>
    change ∀ m ∈ (runEpochClearing buys sells topology nowNs).pending, ∃ buy ∈ buys,
      ∃ sell ∈ sells, ((runEpochClearing buys sells topology nowNs).trade m ids rates).Between buy sell
    unfold runEpochClearing
    split_ifs
    · simp [Job.empty]
    · exact fun m hm => Job.exists_between ⟨rfl, rfl, rfl⟩ ⟨topology, nowNs, .inr hm⟩

end TradingService
