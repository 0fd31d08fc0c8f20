import TradingService.Ledger.DoubleEntry
import TradingService.Ledger.MatcherWorker

/-!
# Who trades with whom

The two mechanisms share the tables of the orders and of the settlements, and any number of
workers run either of them at the same time. `OrderRow.Partners` are two orders that may trade
with each other. Every trade on the books is between partners: no user trades with himself,
no continuous order with one of an auction, and no order of an auction with one of another
epoch or zone.
-/

namespace TradingService

namespace UniformAuction

variable {m n : ℕ} {buys₀ : Fin m → FastOrder} {sells₀ : Fin n → FastOrder} {nowNs : I64}
  {buyMetadata : List OrderMetadata} {topology : TopologySnapshot}

def Neighbours (r : MatchResult) : Prop := r.buyerId ≠ r.sellerId ∧ r.sellerZoneId = r.buyerZoneId

theorem neighbours_clearZone {st : AuctionState m n} {entry : ZoneId × List (Fin m)}
    (hdraws : Draws buyMetadata buys₀ sells₀ st) (h : ∀ r ∈ st.results, Neighbours r)
    (hentry : ∀ i ∈ entry.2, (buys₀ i).zoneId = entry.1) :
    ∀ r ∈ (clearZone buyMetadata topology (partitionByZone sells₀ nowNs) st entry).results,
      Neighbours r := by
  apply clearZone_induction (motive := fun out => ∀ r ∈ out.results, Neighbours r)
  · intro _
    exact h
  · intro _ _ _
    exact h
  · intro sells bid ask hsells _ r hr
    rw [AuctionState.results_report] at hr
    rcases List.mem_append.mp hr with hr | hr
    · exact h r hr
    obtain ⟨f, hf, rfl⟩ := List.mem_map.mp hr
    obtain ⟨_, _, hunder, _⟩ := underway_sweepZone st entry.2 sells
    have hfill := hunder.fills f hf
    have hbuyPerm : (sortBuyIndices st.buyOrders entry.2).Perm entry.2 := List.perm_insertionSort _ _
    have hsellPerm : (sortSellIndices st.sellOrders sells).Perm sells := List.perm_insertionSort _ _
    obtain ⟨filled, hbuy⟩ := hdraws.buys f.1
    obtain ⟨filled', hsell⟩ := hdraws.sells f.2.1
    have hbuyZone := hentry f.1 (hbuyPerm.subset hfill.buy)
    have hsellZone := ((files_of_mem_partition hsells f.2.1).mp (hsellPerm.subset hfill.sell)).zone
    constructor
    · simp only [settleFill, hunder.credited.buys_eq, hunder.credited.sells_eq, FastOrder.fill_userId]
      exact hfill.owners
    · simp only [settleFill, hunder.credited.buys_eq, hunder.credited.sells_eq, FastOrder.fill_zoneId,
        hbuy, hsell, hbuyZone, hsellZone]

theorem clearCycle_neighbours {buyOrders sellOrders : List FastOrder} :
    ∀ r ∈ (clearCycle buyOrders sellOrders buyMetadata topology nowNs).results, Neighbours r := by
  have hrun : Draws buyMetadata buyOrders.get sellOrders.get
        (clearCycle buyOrders sellOrders buyMetadata topology nowNs) ∧
      ∀ r ∈ (clearCycle buyOrders sellOrders buyMetadata topology nowNs).results, Neighbours r := by
    unfold clearCycle
    apply List.foldlRecOn (motive := fun st => Draws buyMetadata buyOrders.get sellOrders.get st ∧
      ∀ r ∈ st.results, Neighbours r)
    · exact ⟨.start, by simp [AuctionState.results]⟩
    · rintro st ⟨hdraws, h⟩ entry hentry
      have hplaces : ∀ i ∈ entry.2, (buyOrders.get i).zoneId = entry.1 := fun i hi =>
        ((files_of_mem_partition (OrderedMap.get?_eq_some.mpr hentry) i).mp hi).zone
      exact ⟨hdraws.clearZone _ entry, neighbours_clearZone hdraws h hplaces⟩
  exact hrun.2

end UniformAuction

open Database (Retains)

/-- A buy and a sell of two users that may trade with each other: both are continuous, or both
are of one epoch's auction. -/
structure OrderRow.Partners (buy sell : OrderRow) : Prop where
  buySide : buy.side = .buy
  sellSide : sell.side = .sell
  owners : buy.userId ≠ sell.userId
  segment : sell.marketSegment = buy.marketSegment
  epoch : buy.marketSegment = .interval → sell.epochId = buy.epochId

theorem OrderRow.Partners.upkeep {buy sell buy' sell' : OrderRow} (h : buy.Partners sell)
    (hbuy : buy.Upkeep buy') (hsell : sell.Upkeep sell') : buy'.Partners sell' where
  buySide := hbuy.terms.side.trans h.buySide
  sellSide := hsell.terms.side.trans h.sellSide
  owners := by
    rw [hbuy.terms.userId, hsell.terms.userId]
    exact h.owners
  segment := by rw [hsell.marketSegment, hbuy.marketSegment, h.segment]
  epoch hinterval := by
    rw [hbuy.marketSegment] at hinterval
    rw [hsell.epochId, hbuy.epochId, h.epoch hinterval]

structure Parties where
  buyOrderId : Uuid
  sellOrderId : Uuid
  buyerId : Uuid
  sellerId : Uuid
  epochId : Uuid
  buyerZoneId : ZoneId
  sellerZoneId : ZoneId

def MatchResult.parties (m : MatchResult) : Parties :=
  ⟨m.buyOrderId, m.sellOrderId, m.buyerId, m.sellerId, m.epochId, m.buyerZoneId, m.sellerZoneId⟩

def Settlement.parties {Amount : Type} (s : Settlement Amount) : Parties :=
  ⟨s.buyOrderId, s.sellOrderId, s.buyerId, s.sellerId, s.epochId, s.buyerZoneId, s.sellerZoneId⟩

structure Parties.Hold (p : Parties) (buy sell : OrderRow) : Prop where
  buyOrderId : buy.id = p.buyOrderId
  sellOrderId : sell.id = p.sellOrderId
  buyerId : buy.userId = p.buyerId
  sellerId : sell.userId = p.sellerId
  epochId : buy.epochId = some p.epochId
  zones : buy.marketSegment = .interval → p.sellerZoneId = p.buyerZoneId

theorem Parties.Hold.upkeep {p : Parties} {buy sell buy' sell' : OrderRow} (h : p.Hold buy sell)
    (hbuy : buy.Upkeep buy') (hsell : sell.Upkeep sell') : p.Hold buy' sell' where
  buyOrderId := hbuy.terms.id.trans h.buyOrderId
  sellOrderId := hsell.terms.id.trans h.sellOrderId
  buyerId := hbuy.terms.userId.trans h.buyerId
  sellerId := hsell.terms.userId.trans h.sellerId
  epochId := hbuy.epochId.trans h.epochId
  zones hinterval := h.zones (hbuy.marketSegment ▸ hinterval)

def Parties.Trade (p : Parties) (db : Database) : Prop :=
  ∃ buy ∈ db.orders.rows, ∃ sell ∈ db.orders.rows, buy.Partners sell ∧ p.Hold buy sell

section Steps

variable {db db' : Database}

theorem Parties.Trade.mono {p : Parties} (h : p.Trade db) (hretains : Retains db db') : p.Trade db' := by
  obtain ⟨buy, hbuy, sell, hsell, hpartners, hhold⟩ := h
  obtain ⟨buy', hbuy', hbuyUp⟩ := hretains buy hbuy
  obtain ⟨sell', hsell', hsellUp⟩ := hretains sell hsell
  exact ⟨buy', hbuy', sell', hsell', hpartners.upkeep hbuyUp hsellUp, hhold.upkeep hbuyUp hsellUp⟩

structure BuysRead (db : Database) (kind : JobKind) (buys : List OrderRow) : Prop where
  side : ∀ b ∈ buys, b.side = .buy
  takes : ∀ b ∈ buys, kind.Takes b
  known : ∀ b ∈ buys, ∃ o ∈ db.orders.rows, b.Upkeep o

theorem BuysRead.select (kind : JobKind) : BuysRead db kind (kind.select (db.activeOrders .buy)) where
  side _ hb := side_of_mem_select hb
  takes _ hb := (JobKind.mem_select.mp hb).2
  known b hb := ⟨b, (select_sublist kind .buy).subset hb, .refl b⟩

theorem BuysRead.mono {kind : JobKind} {buys : List OrderRow} (h : BuysRead db kind buys)
    (hretains : Retains db db') : BuysRead db' kind buys :=
  { h with
    known := fun b hb => by
      obtain ⟨o, ho, hup⟩ := h.known b hb
      obtain ⟨o', ho', hup'⟩ := hretains o ho
      exact ⟨o', ho', hup.trans hup'⟩ }

/-- The parties of a match are two users, and in one zone if the match is of an auction. -/
theorem apart_of_mem_run {kind : JobKind} {buys sells : List OrderRow} {topology : TopologySnapshot}
    {nowNs : I64} (hids : (sells.map (·.id)).Nodup) :
    ∀ m ∈ (kind.run buys sells topology nowNs).pending,
      m.buyerId ≠ m.sellerId ∧ (kind ≠ .matching → m.sellerZoneId = m.buyerZoneId) := by
  cases kind with
  | matching =>
    change ∀ m ∈ (runMatchingCycle buys sells topology nowNs).pending, _
    unfold runMatchingCycle
    split_ifs
    · simp [Job.empty]
    · intro m hm
      have hlegitimate := MatchingEngine.matchCycle_legitimate ((toFastOrders_ids sells).nodup hids) m hm
      exact ⟨hlegitimate.users, fun hne => absurd rfl hne⟩
  | clearing epochId =>
    change ∀ m ∈ (runEpochClearing buys sells topology nowNs).pending, _
    unfold runEpochClearing
    split_ifs
    · simp [Job.empty]
    · intro m hm
      obtain ⟨howners, hzones⟩ := UniformAuction.clearCycle_neighbours m hm
      exact ⟨howners, fun _ => hzones⟩

theorem trade_of_mem_run {kind : JobKind} {buys : List OrderRow} {topology : TopologySnapshot} {nowNs : I64}
    (hbuys : BuysRead db kind buys) :
    ∀ m ∈ (kind.run buys (kind.select (db.activeOrders .sell)) topology nowNs).pending,
      m.parties.Trade db := by
  intro m hm
  obtain ⟨buy, hbuy, sell, hsell, hbetween⟩ := kind.run_between topology nowNs ⟨0, 0, 0, 0⟩ ⟨0, 0, 0⟩ m hm
  obtain ⟨howners, hzones⟩ := apart_of_mem_run (select_ids_nodup kind .sell) m hm
  have hcarries := hbetween.settlement
  have hbuyer : m.buyerId = buy.userId := hcarries.buyerId
  have hseller : m.sellerId = sell.userId := hcarries.sellerId
  have htakes := hbuys.takes buy hbuy
  have htakes' : kind.Takes sell := (JobKind.mem_select.mp hsell).2
  have hpartners : buy.Partners sell := by
    constructor
    · exact hbuys.side buy hbuy
    · exact side_of_mem_select hsell
    · rwa [← hbuyer, ← hseller]
    · cases kind with
      | matching => exact htakes'.trans htakes.symm
      | clearing epochId => exact htakes'.1.trans htakes.1.symm
    · intro hinterval
      cases kind with
      | matching =>
        rw [htakes] at hinterval
        cases hinterval
      | clearing epochId => exact htakes'.2.trans htakes.2.symm
  have hhold : m.parties.Hold buy sell := by
    constructor
    · exact hcarries.buyOrderId.symm
    · exact hcarries.sellOrderId.symm
    · exact hbuyer.symm
    · exact hseller.symm
    · exact hcarries.epochId
    · intro hinterval
      apply hzones
      rintro rfl
      rw [htakes] at hinterval
      cases hinterval
  obtain ⟨o, ho, hup⟩ := hbuys.known buy hbuy
  have hrow : sell ∈ db.orders.rows := (select_sublist kind .sell).subset hsell
  exact ⟨o, ho, sell, hrow, hpartners.upkeep hup (.refl sell), hhold.upkeep hup (.refl sell)⟩

def Phase.Trade (db : Database) : Phase → Prop
  | .idle => True
  | .reading kind buys => BuysRead db kind buys
  | .writing job => ∀ m ∈ job.pending, m.parties.Trade db

theorem Phase.Trade.mono {phase : Phase} (h : phase.Trade db) (hretains : Retains db db') :
    phase.Trade db' := by
  cases phase with
  | idle => trivial
  | reading kind buys => exact BuysRead.mono h hretains
  | writing job => exact fun m hm => (h m hm).mono hretains

theorem parties_of_store {s : Settlement Decimal} {row : Settlement Numeric} (h : s.store = some row) :
    row.parties = s.parties := by
  simp only [Settlement.store, Option.bind_eq_bind, Option.bind_eq_some_iff] at h
  obtain ⟨_, _, _, _, _, _, _, _, _, _, _, _, _, _, _, _, _, _, hrow⟩ := h
  obtain rfl := Option.some.inj hrow
  rfl

/-- Every trade on the books is between partners. -/
def Database.TradesWithinMarkets (db : Database) : Prop := ∀ s ∈ db.settlements.rows, s.parties.Trade db

theorem Move.trade {phase phase' : Phase} {a : JobStep} (h : Move db phase a db' phase')
    (hphase : phase.Trade db) (hdb : db.TradesWithinMarkets) :
    db'.TradesWithinMarkets ∧ phase'.Trade db' := by
  have hretains : Retains db db' := h.retains
  cases h with
  | readBuys kind => exact ⟨hdb, BuysRead.select kind⟩
  | readSells kind buys topology nowNs => exact ⟨hdb, trade_of_mem_run hphase⟩
  | @persisted job m rest ids rates _ hpending hcommitted =>
    have hjob : ∀ m' ∈ job.pending, m'.parties.Trade db := hphase
    obtain ⟨row, _, hrow, _, hrows⟩ := Job.persistMatch_rows hcommitted
    have hparties : row.parties = m.parties := parties_of_store hrow
    constructor
    · intro s hs
      rw [hrows.settlements] at hs
      rcases List.mem_cons.mp hs with rfl | hs
      · rw [hparties]
        exact (hjob m (hpending ▸ List.mem_cons_self)).mono hretains
      · exact (hdb s hs).mono hretains
    · exact fun m' hm' => (hjob m' (hpending ▸ List.mem_cons_of_mem _ hm')).mono hretains
  | @givenUp job m rest _ hpending =>
    exact ⟨hdb, fun m' hm' => hphase m' (hpending ▸ List.mem_cons_of_mem _ hm')⟩
  | swept _ _ hwritten =>
    have hsettlements : db'.settlements = db.settlements := by
      rcases Database.setFill_of_updateFilledAmount hwritten with ⟨rfl, _⟩ | ⟨_, _, _, _, _, _, rfl⟩
      · rfl
      · rfl
    refine ⟨fun s hs => ?_, fun m hm => (hphase m hm).mono hretains⟩
    rw [hsettlements] at hs
    exact (hdb s hs).mono hretains
  | stopped => exact ⟨hdb, trivial⟩

end Steps

/-- In every run of any number of replicas, over a database whose trades are between partners,
every trade on the books is one at each state: between a buy and a sell of two users, both of
the continuous market, or both of one epoch's auction and in one zone. -/
theorem State.trades_within_markets {R : Type} [DecidableEq R] (db : Database)
    (hdb : db.TradesWithinMarkets) (as : List (Action R)) :
    Runs.AllStates State.step (fun s : State R => s.db.TradesWithinMarkets) (State.start db) as := by
  have hinv : Runs.AllStates State.step
      (fun s : State R => s.db.TradesWithinMarkets ∧ ∀ r, (s.phase r).Trade s.db) (State.start db) as := by
    apply Runs.AllStates.of_invariant _ ⟨hdb, fun _ => trivial⟩ as
    rintro s a s' ⟨hbooks, hphase⟩ hstep
    constructor
    · cases a with
      | statement st =>
        obtain ⟨db', hexec, rfl⟩ := Option.map_eq_some_iff.mp hstep
        intro t ht
        rw [Database.exec_settlements hexec] at ht
        exact (hbooks t ht).mono (Database.exec_retains hexec)
      | worker r b =>
        obtain ⟨⟨db', phase'⟩, hmove, rfl⟩ := Option.map_eq_some_iff.mp hstep
        exact ((Phase.move_of_step hmove).trade (hphase r) hbooks).1
    · refine State.step_induction hphase ?_ ?_ hstep
      · intro st db' _ hexec r hr
        exact hr.mono (Database.exec_retains hexec)
      · intro r b db' phase' _ hmove
        exact ⟨(hmove.trade (hphase r) hbooks).2, fun q _ hq => hq.mono hmove.retains⟩
  exact hinv.mono fun s h => h.1

def twoMarkets : List (Action Bool) :=
  [.statement (.insertOrder (.placed 1 .buy 9 5)),
    .statement (.insertOrder (.placed 2 .sell 4 5)),
    .statement (.insertOrder { OrderRow.placed 3 .buy 10 5 with marketSegment := .interval }),
    .statement (.insertOrder { OrderRow.placed 4 .sell 3 5 with marketSegment := .interval }),
    .worker false (.readBuys .matching), .worker true (.readBuys (.clearing 0)),
    .worker true (.readSells MatchingEngine.openGrid (BoundedInt.saturate 0)),
    .worker false (.readSells MatchingEngine.openGrid (BoundedInt.saturate 0)),
    .worker true (.persist ⟨11, 12, 13, 0⟩ ⟨0, 0, 0⟩), .worker false (.persist ⟨21, 22, 23, 0⟩ ⟨0, 0, 0⟩)]

theorem State.trades_within_markets_two :
    (twoMarkets.foldlM State.step (State.start .empty)).map
        (fun s => s.db.settlements.rows.map fun t => (t.buyOrderId, t.sellOrderId)) = some [(1, 2), (3, 4)] ∧
      Runs.AllStates State.step (fun s => s.db.TradesWithinMarkets) (State.start .empty) twoMarkets := by
  constructor
  · decide +kernel
  · exact State.trades_within_markets .empty (fun t ht => absurd ht List.not_mem_nil) twoMarkets

end TradingService
