import TradingService.Ledger.Bounds
import TradingService.Ledger.Provenance
import TradingService.Settlement.Repository

/-!
# Settlements and matches, row by row

A trade writes a settlement and a ledger row in one transaction, from one match. So the two
tables pair off in every run, each pair between a buy of the buyer and a sell of the seller,
and the energy that was bought is the energy that was sold and is to be settled.
-/

namespace TradingService

open Database (Extends)

def Database.Names (db : Database) (side : OrderSide) (orderId userId : Uuid) : Prop :=
  ∃ o ∈ db.orders.rows, o.id = orderId ∧ o.side = side ∧ o.userId = userId

instance (db : Database) (side : OrderSide) (orderId userId : Uuid) : Decidable (db.Names side orderId userId) :=
  inferInstanceAs (Decidable (∃ o ∈ db.orders.rows, _))

structure Settlement.Books (s : Settlement Numeric) (m : OrderMatch Numeric) : Prop where
  epochId : s.epochId = m.epochId
  buyOrderId : s.buyOrderId = m.buyOrderId
  sellOrderId : s.sellOrderId = m.sellOrderId
  energyAmount : s.energyAmount = m.matchedAmount
  price : s.price = m.matchPrice

def Settlement.Sided (db : Database) (s : Settlement Numeric) : Prop :=
  db.Names .buy s.buyOrderId s.buyerId ∧ db.Names .sell s.sellOrderId s.sellerId

structure Database.Balanced (db : Database) : Prop where
  paired : List.Forall₂ Settlement.Books db.settlements.rows db.orderMatches.rows
  sided : ∀ s ∈ db.settlements.rows, s.Sided db

/-- What the ledger has matched for the orders of a side. -/
def Database.matchedOn (db : Database) (side : OrderSide) : Decimal :=
  ((db.orders.rows.filter (·.side = side)).map fun o => db.matchedTotal o.id).sum

def Database.settledEnergy (db : Database) : Decimal :=
  (db.settlements.rows.map (·.energyAmount.toDecimal)).sum

section Totals

variable {db : Database}

theorem Database.Names.unique {side side' : OrderSide} {orderId userId userId' : Uuid}
    (h : db.Names side orderId userId) (h' : db.Names side' orderId userId') : side = side' := by
  obtain ⟨o, ho, hid, hside, _⟩ := h
  obtain ⟨o', ho', hid', hside', _⟩ := h'
  obtain rfl := KeyedTable.row_unique ho ho' (hid.trans hid'.symm)
  exact hside.symm.trans hside'

/-- Of the orders of a side exactly one is named by a trade between the sides. -/
theorem sum_named {side other : OrderSide} {orderId otherId userId otherUser : Uuid} (hne : side ≠ other)
    (horder : db.Names side orderId userId) (hother : db.Names other otherId otherUser)
    {p : Uuid → Prop} [DecidablePred p] (hp : ∀ id, p id ↔ id = orderId ∨ id = otherId) (amount : Decimal) :
    ((db.orders.rows.filter (·.side = side)).map fun o => if p o.id then amount else 0).sum = amount := by
  have horder' := horder
  obtain ⟨o, ho, hid, hside, _⟩ := horder'
  have hmem : o ∈ db.orders.rows.filter (·.side = side) := List.mem_filter.mpr ⟨ho, by simpa using hside⟩
  have hrows : db.orders.rows.Nodup := List.Nodup.of_map _ db.orders.keys_nodup
  have honly : ∀ o' ∈ db.orders.rows.filter (·.side = side), p o'.id → o' = o := by
    intro o' ho' hnamed
    obtain ⟨ho', hside'⟩ := List.mem_filter.mp ho'
    rcases (hp o'.id).mp hnamed with hid' | hid'
    · exact KeyedTable.row_unique ho' ho (hid'.trans hid.symm)
    · have hown : db.Names side otherId o'.userId := ⟨o', ho', hid', by simpa using hside', rfl⟩
      exact absurd (hown.unique hother) hne
  rw [List.sum_map_eq_nsmul_single o _ fun o' hne' ho' => if_neg fun hnamed => hne' (honly o' ho' hnamed),
    List.count_eq_one_of_mem (hrows.filter _) hmem, one_nsmul, if_pos ((hp o.id).mpr (.inl hid))]

/-- Each side of a balanced ledger adds up to what is to be settled. -/
theorem Database.Balanced.matchedOn (h : db.Balanced) (side : OrderSide) :
    db.matchedOn side = db.settledEnergy := by
  suffices hlists : ∀ (ss : List (Settlement Numeric)) (ms : List (OrderMatch Numeric)),
      List.Forall₂ Settlement.Books ss ms → (∀ s ∈ ss, s.Sided db) →
      ((db.orders.rows.filter (·.side = side)).map fun o =>
        ((ms.filter fun m => m.buyOrderId = o.id ∨ m.sellOrderId = o.id).map
          (·.matchedAmount.toDecimal)).sum).sum = (ss.map (·.energyAmount.toDecimal)).sum by
    exact hlists _ _ h.paired h.sided
  intro ss ms hpaired hsided
  induction hpaired with
  | nil => simp
  | @cons s m ss ms hbooks _ ih =>
    obtain ⟨hbuy, hsell⟩ := hsided s List.mem_cons_self
    rw [hbooks.buyOrderId] at hbuy
    rw [hbooks.sellOrderId] at hsell
    have hhead : ((db.orders.rows.filter (·.side = side)).map fun o =>
        if m.buyOrderId = o.id ∨ m.sellOrderId = o.id then m.matchedAmount.toDecimal else 0).sum =
          m.matchedAmount.toDecimal := by
      cases side with
      | buy =>
        exact sum_named (by decide) hbuy hsell
          (p := fun i => m.buyOrderId = i ∨ m.sellOrderId = i) (fun i => by simp only [eq_comm]) _
      | sell =>
        exact sum_named (by decide) hsell hbuy
          (p := fun i => m.buyOrderId = i ∨ m.sellOrderId = i) (fun i => by simp only [eq_comm, or_comm]) _
    have hcons : ∀ o : OrderRow,
        (((m :: ms).filter fun m => m.buyOrderId = o.id ∨ m.sellOrderId = o.id).map
          (·.matchedAmount.toDecimal)).sum =
        (if m.buyOrderId = o.id ∨ m.sellOrderId = o.id then m.matchedAmount.toDecimal else 0) +
          ((ms.filter fun m => m.buyOrderId = o.id ∨ m.sellOrderId = o.id).map
            (·.matchedAmount.toDecimal)).sum := by
      intro o
      rw [List.filter_cons]
      simp only [decide_eq_true_eq]
      split_ifs
      · rw [List.map_cons, List.sum_cons]
      · rw [zero_add]
    rw [List.map_congr_left fun o _ => hcons o, List.sum_map_add, hhead,
      ih fun s' hs' => hsided s' (List.mem_cons_of_mem _ hs'), List.map_cons, List.sum_cons,
      hbooks.energyAmount]

end Totals

section Steps

variable {db db' : Database}

theorem Database.Names.mono {side : OrderSide} {orderId userId : Uuid} (h : db.Names side orderId userId)
    (hext : Extends db db') : db'.Names side orderId userId := by
  obtain ⟨o, ho, hid, hside, huser⟩ := h
  obtain ⟨o', ho', hterms⟩ := hext o ho
  exact ⟨o', ho', hterms.id.trans hid, hterms.side.trans hside, hterms.userId.trans huser⟩

theorem Settlement.Sided.mono {s : Settlement Numeric} (h : s.Sided db) (hext : Extends db db') : s.Sided db' :=
  ⟨h.1.mono hext, h.2.mono hext⟩

theorem Database.Balanced.mono (h : db.Balanced) (hext : Extends db db')
    (hsettlements : db'.settlements = db.settlements) (hmatches : db'.orderMatches = db.orderMatches) :
    db'.Balanced where
  paired := by
    rw [hsettlements, hmatches]
    exact h.paired
  sided s hs := by
    rw [hsettlements] at hs
    exact (h.sided s hs).mono hext

def MatchResult.Sided (db : Database) (m : MatchResult) : Prop :=
  db.Names .buy m.buyOrderId m.buyerId ∧ db.Names .sell m.sellOrderId m.sellerId

def Phase.Sided (db : Database) : Phase → Prop
  | .idle => True
  | .reading _ buys => BuySnapshot db buys
  | .writing job => ∀ m ∈ job.pending, m.Sided db

theorem Phase.Sided.mono {phase : Phase} (h : phase.Sided db) (hext : Extends db db') : phase.Sided db' := by
  cases phase with
  | idle => trivial
  | reading kind buys =>
    have hbuys : BuySnapshot db buys := h
    exact hbuys.mono hext
  | writing job =>
    intro m hm
    exact ⟨(h m hm).1.mono hext, (h m hm).2.mono hext⟩

theorem sided_of_mem_run {kind : JobKind} {buys : List OrderRow} {topology : TopologySnapshot} {nowNs : I64}
    (hbuys : BuySnapshot db buys) :
    ∀ m ∈ (kind.run buys (kind.select (db.activeOrders .sell)) topology nowNs).pending, m.Sided db := by
  intro m hm
  obtain ⟨b, hb, s, hs, hbetween⟩ := kind.run_between topology nowNs ⟨0, 0, 0, 0⟩ ⟨0, 0, 0⟩ m hm
  have hcarries := hbetween.settlement
  constructor
  · obtain ⟨o, ho, hterms⟩ := hbuys.known b hb
    exact ⟨o, ho, hterms.id.trans hcarries.buyOrderId.symm, hterms.side.trans (hbuys.side b hb),
      hterms.userId.trans hcarries.buyerId.symm⟩
  · exact ⟨s, (select_sublist kind .sell).subset hs, hcarries.sellOrderId.symm, side_of_mem_select hs,
      hcarries.sellerId.symm⟩

theorem Database.incrementalFill_extends {fill : TradeFill} (h : db.incrementalFill fill = .committed db') :
    Extends db db' := by
  obtain ⟨_, _, _, _, filled, _, rfl⟩ := setFill_of_incrementalFill h
  exact (setFill_rewrites db fill.orderId filled _ _).extends

theorem Database.persistMatchedTrade_extends {settlement : Settlement Decimal} {orderMatch : OrderMatch Decimal}
    {event : Event} {buyer seller : TradeFill}
    (h : db.persistMatchedTrade settlement orderMatch event buyer seller = .committed db') : Extends db db' := by
  obtain ⟨_, _, db₁, db₂, _, _, hins, hfill, hfill'⟩ := statements_of_persistMatchedTrade h
  intro o ho
  rw [← hins.orders] at ho
  obtain ⟨o₂, ho₂, hterms⟩ := incrementalFill_extends hfill o ho
  obtain ⟨o', ho', hterms'⟩ := incrementalFill_extends hfill' o₂ ho₂
  exact ⟨o', ho', hterms.trans hterms'⟩

theorem books_of_store {job : Job} {m : MatchResult} {ids : TradeIds} {rates : ChargeRates}
    {row : Settlement Numeric} {ledgerRow : OrderMatch Numeric}
    (hrow : (job.trade m ids rates).settlement.store = some row)
    (hledgerRow : (job.trade m ids rates).orderMatch.store = some ledgerRow) :
    row.Books ledgerRow ∧ row.buyOrderId = m.buyOrderId ∧ row.sellOrderId = m.sellOrderId ∧
      row.buyerId = m.buyerId ∧ row.sellerId = m.sellerId := by
  simp only [Settlement.store, Option.bind_eq_bind, Option.bind_eq_some_iff] at hrow
  obtain ⟨energy, henergy, price, hprice, _, _, _, _, _, _, _, _, _, _, _, _, _, _, hrow⟩ := hrow
  obtain rfl := Option.some.inj hrow
  simp only [OrderMatch.store, Option.bind_eq_bind, Option.bind_eq_some_iff] at hledgerRow
  obtain ⟨amount, hamount, price', hprice', hledgerRow⟩ := hledgerRow
  obtain rfl := Option.some.inj hledgerRow
  have hsame : energy = amount := Option.some.inj (henergy.symm.trans hamount)
  have hsame' : price = price' := Option.some.inj (hprice.symm.trans hprice')
  exact ⟨⟨rfl, rfl, rfl, hsame, hsame'⟩, rfl, rfl, rfl, rfl⟩

theorem Database.Balanced.persistMatch (h : db.Balanced) {job : Job} {m : MatchResult} {ids : TradeIds}
    {rates : ChargeRates} (hm : m.Sided db) (hcommitted : job.persistMatch db m ids rates = .committed db') :
    db'.Balanced := by
  have hext : Extends db db' := persistMatchedTrade_extends hcommitted
  obtain ⟨row, ledgerRow, hrow, hledgerRow, hrows⟩ := Job.persistMatch_rows hcommitted
  obtain ⟨hbooks, hbuy, hsell, hbuyer, hseller⟩ := books_of_store hrow hledgerRow
  constructor
  · rw [hrows.settlements, hrows.orderMatches]
    exact .cons hbooks h.paired
  · rw [hrows.settlements]
    have hpair : row.Sided db' := by
      unfold Settlement.Sided
      rw [hbuy, hsell, hbuyer, hseller]
      exact ⟨hm.1.mono hext, hm.2.mono hext⟩
    exact List.forall_mem_cons.mpr ⟨hpair, fun s hs => (h.sided s hs).mono hext⟩

theorem Move.balanced {phase phase' : Phase} {a : JobStep} (h : Move db phase a db' phase')
    (hphase : phase.Sided db) (hdb : db.Balanced) :
    Extends db db' ∧ db'.Balanced ∧ phase'.Sided db' := by
  cases h with
  | readBuys kind => exact ⟨.refl, hdb, BuySnapshot.select kind⟩
  | readSells kind buys topology nowNs => exact ⟨.refl, hdb, sided_of_mem_run hphase⟩
  | @persisted job m rest ids rates _ hpending hcommitted =>
    have hext : Extends db db' := Database.persistMatchedTrade_extends hcommitted
    have hm : m.Sided db := hphase m (hpending ▸ List.mem_cons_self)
    refine ⟨hext, hdb.persistMatch hm hcommitted, fun m' hm' => ?_⟩
    have hpending' := hphase m' (hpending ▸ List.mem_cons_of_mem _ hm')
    exact ⟨hpending'.1.mono hext, hpending'.2.mono hext⟩
  | @givenUp job m rest _ hpending =>
    exact ⟨.refl, hdb, fun m' hm' => hphase m' (hpending ▸ List.mem_cons_of_mem _ hm')⟩
  | @swept job o rest _ hpending _ hwritten =>
    rcases Database.setFill_of_updateFilledAmount hwritten with ⟨rfl, _⟩ | ⟨_, _, _, _, filled, _, rfl⟩
    · exact ⟨.refl, hdb, hphase⟩
    · have hext : Extends db (db.setFill o.id filled .cancelled
          [.orderUpdate o.id (some o.userId) o.filledAmount .cancelled o.zoneId]) :=
        (Database.setFill_rewrites db o.id filled _ _).extends
      have hjob : (Phase.writing job).Sided _ := Phase.Sided.mono hphase hext
      exact ⟨hext, hdb.mono hext rfl rfl, hjob⟩
  | stopped => exact ⟨.refl, hdb, trivial⟩

end Steps

/-- Every state of a run of any number of replicas, over a database in which the two tables pair
off: they do, and what was bought is what was sold and is to be settled. -/
theorem State.ledger_balances {R : Type} [DecidableEq R] (db : Database) (hdb : db.Balanced)
    (as : List (Action R)) :
    Runs.AllStates State.step
      (fun s : State R => s.db.Balanced ∧ s.db.matchedOn .buy = s.db.settledEnergy ∧
        s.db.matchedOn .sell = s.db.settledEnergy) (State.start db) as := by
  have hinv : Runs.AllStates State.step
      (fun s : State R => s.db.Balanced ∧ ∀ r, (s.phase r).Sided s.db) (State.start db) as := by
    apply Runs.AllStates.of_invariant _ ⟨hdb, fun _ => trivial⟩ as
    rintro s a s' ⟨hbalanced, hphase⟩ hstep
    constructor
    · cases a with
      | statement st =>
        obtain ⟨db', hexec, rfl⟩ := Option.map_eq_some_iff.mp hstep
        have hkeeps := Database.exec_keeps hexec
        exact hbalanced.mono hkeeps.extends (Database.exec_settlements hexec) hkeeps.orderMatches
      | worker r b =>
        obtain ⟨⟨db', phase'⟩, hmove, rfl⟩ := Option.map_eq_some_iff.mp hstep
        exact ((Phase.move_of_step hmove).balanced (hphase r) hbalanced).2.1
    · refine State.step_induction hphase ?_ ?_ hstep
      · intro st db' _ hexec r hr
        exact hr.mono (Database.exec_keeps hexec).extends
      · intro r b db' phase' _ hmove
        obtain ⟨hext, _, hown⟩ := hmove.balanced (hphase r) hbalanced
        exact ⟨hown, fun q _ hq => hq.mono hext⟩
  exact hinv.mono fun s h => ⟨h.1, h.1.matchedOn .buy, h.1.matchedOn .sell⟩

/-- Also where two replicas between them fill a buy beyond its energy. -/
theorem State.ledger_balances_overfilled :
    (staleSnapshotRun.foldlM State.step (State.start .empty)).map (·.db.settledEnergy) = some 12 ∧
      Runs.AllStates State.step (fun s => s.db.matchedOn .sell = s.db.settledEnergy) (State.start .empty)
        staleSnapshotRun := by
  constructor
  · decide +kernel
  · have hempty : Database.empty.Balanced := ⟨.nil, fun s hs => absurd hs List.not_mem_nil⟩
    exact (State.ledger_balances .empty hempty staleSnapshotRun).mono fun s h => h.2.2

end TradingService
