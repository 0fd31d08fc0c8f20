import TradingService.Ledger.Epochs
import TradingService.Ledger.Replicas
import TradingService.Orders.Intake
import TradingService.Orders.Lifetimes

/-!
# Interval orders and the clearing of their epochs

An interval order is stamped with an epoch first and inserted later. Meanwhile the
clearers poll: they list the due epochs, and for each one they fetch its buys and its
sells, run the auction, persist the matches and close the epoch. `closed` pairs every
epoch that was closed with the orders that its clearer had fetched.
-/

namespace TradingService

open Database (Statement)

inductive Clearer
  | idle
  | due (epochIds : List Uuid)
  | reading (epochId : Uuid) (buys : List OrderRow) (rest : List Uuid)
  | clearing (epochId : Uuid) (snapshot : List OrderRow) (summary : ClearingSummary) (job : Job)
    (rest : List Uuid)

inductive ClearerStep
  | fetchDue (now : ℤ)
  | fetchBuys
  | fetchSells (topology : TopologySnapshot) (nowNs : I64)
  | persist (ids : TradeIds) (rates : ChargeRates)
  | persistError
  | markCleared
  | stop

structure EpochState (R : Type) where
  db : Database
  epochs : Epochs
  clearer : R → Clearer
  /-- The stamps of the orders that are yet to be inserted. -/
  stamped : List Uuid
  closed : List (Uuid × List OrderRow)

inductive EpochAction (R : Type)
  | stamp (now : ℤ) (newId : Uuid)
  | insert (order : TradingOrder) (now : ℤ)
  /-- The chain has answered about an order of the gRPC edge. -/
  | placed (orderId : Uuid) (reply : Except String (String × String))
  | statement (st : Statement)
  | trade (t : Database.Trade)
  | clearer (r : R) (a : ClearerStep)

namespace EpochState

variable {R : Type} [DecidableEq R]

def start (db : Database) : EpochState R := ⟨db, .empty, fun _ => .idle, [], []⟩

def advance (s : EpochState R) (r : R) (c : Clearer) : EpochState R :=
  { s with clearer := Function.update s.clearer r c }

def clear (s : EpochState R) (r : R) : Clearer → ClearerStep → Option (EpochState R)
  | .idle, .fetchDue now => some (s.advance r (.due (s.epochs.dueForClearing now)))
  | .due (epochId :: rest), .fetchBuys =>
    some (s.advance r (.reading epochId ((JobKind.clearing epochId).select (s.db.activeOrders .buy)) rest))
  | .reading epochId buys rest, .fetchSells topology nowNs =>
    let sells := (JobKind.clearing epochId).select (s.db.activeOrders .sell)
    some (s.advance r (.clearing epochId (buys ++ sells)
      (clearingSummary epochId buys sells topology nowNs) (runEpochClearing buys sells topology nowNs) rest))
  | .clearing epochId snapshot summary job rest, .persist ids rates =>
    match job.pending with
    | [] => none
    | m :: pending =>
      match job.persistMatch s.db m ids rates with
      | .committed db => some { s.advance r
          (.clearing epochId snapshot summary { job with pending := pending } rest) with db := db }
      | _ => some (s.advance r (.clearing epochId snapshot summary (job.giveUp m pending) rest))
  | .clearing epochId snapshot summary job rest, .persistError =>
    match job.pending with
    | [] => none
    | m :: pending => some (s.advance r (.clearing epochId snapshot summary (job.giveUp m pending) rest))
  | .clearing epochId snapshot summary job rest, .markCleared =>
    match job.pending, s.epochs.markEpochCleared summary with
    | [], some epochs =>
      some { s.advance r (.due rest) with
        epochs := epochs
        closed := if s.epochs.IsActive epochId then (epochId, snapshot) :: s.closed else s.closed }
    | [], none => some (s.advance r .idle)
    | _ :: _, _ => none
  | _, .stop => some (s.advance r .idle)
  | _, _ => none

def step (s : EpochState R) : EpochAction R → Option (EpochState R)
  | .stamp now newId => (s.epochs.getOrCreateActiveEpoch now newId).map fun out =>
      { s with epochs := out.2, stamped := out.1 :: s.stamped }
  | .insert order now =>
    match order.epochId with
    | none => none
    | some epochId =>
      if epochId ∈ s.stamped then
        (s.db.insertOrderWithEvent order now).map fun db =>
          { s with db := db, stamped := s.stamped.erase epochId }
      else none
  | .placed orderId reply => some { s with db := s.db.afterPlacement orderId reply }
  | .statement st => if st.isInsert then none else (s.db.exec st).map fun db => { s with db := db }
  | .trade t =>
    match s.db.persistMatchedTrade t.settlement t.orderMatch t.event t.buyer t.seller with
    | .committed db => some { s with db := db }
    | _ => none
  | .clearer r a => s.clear r (s.clearer r) a

/-- A live interval order of a cleared epoch was among the orders that were fetched
for it. -/
def NoneOrphaned (s : EpochState R) : Prop :=
  ∀ o ∈ s.db.orders.rows, o.status.isLive → o.marketSegment = .interval →
    ∀ e ∈ s.epochs.rows, e.status = .cleared → o.epochId = some e.id →
      ∃ p ∈ s.closed, p.1 = e.id ∧ ∃ row ∈ p.2, row.id = o.id

instance (s : EpochState R) : Decidable s.NoneOrphaned :=
  inferInstanceAs (Decidable (∀ o ∈ _, _))

end EpochState

def Clearer.HasFetched (epochId : Uuid) (side : OrderSide) : Clearer → Prop
  | .reading e _ _ => e = epochId ∧ side = .buy
  | .clearing e _ _ _ _ => e = epochId
  | _ => False

instance (epochId : Uuid) (side : OrderSide) (c : Clearer) : Decidable (c.HasFetched epochId side) := by
  unfold Clearer.HasFetched
  split <;> infer_instance

/-- The insert of an interval order comes before its epoch is cleared, and before a
clearer has fetched its side. -/
def EpochState.InsertsInTime {R : Type} (s : EpochState R) : EpochAction R → Prop
  | .insert order _ => order.marketSegment = .interval → ∀ epochId ∈ order.epochId,
      (∀ e ∈ s.epochs.rows, e.id = epochId → e.status ≠ .cleared) ∧
        ∀ r, ¬(s.clearer r).HasFetched epochId order.side
  | _ => True

instance {R : Type} [Fintype R] (s : EpochState R) (a : EpochAction R) : Decidable (s.InsertsInTime a) := by
  unfold EpochState.InsertsInTime
  split <;> infer_instance

namespace Database

def Covers (db : Database) (epochId : Uuid) (sides : List OrderSide) (snapshot : List OrderRow) : Prop :=
  ∀ o ∈ db.orders.rows, o.status.isLive → o.marketSegment = .interval → o.epochId = some epochId →
    o.side ∈ sides → ∃ row ∈ snapshot, row.id = o.id

def Settled (db db' : Database) : Prop :=
  ∀ o' ∈ db'.orders.rows, o'.status.isLive → ∃ o ∈ db.orders.rows, o.status.isLive ∧
    o'.id = o.id ∧ o'.marketSegment = o.marketSegment ∧ o'.epochId = o.epochId ∧ o'.side = o.side

variable {db db' : Database} {epochId : Uuid} {sides : List OrderSide} {snapshot : List OrderRow}

theorem Settled.refl : Settled db db := fun o ho hlive => ⟨o, ho, hlive, rfl, rfl, rfl, rfl⟩

theorem Upkeeps.settled (h : Upkeeps db db') : Settled db db' := by
  intro o' ho' hlive
  obtain ⟨o, ho, hup⟩ := h.back o' ho'
  exact ⟨o, ho, hup.live hlive, hup.terms.id, hup.marketSegment, hup.epochId, hup.terms.side⟩

theorem afterPlacement_settled (orderId : Uuid) (reply : Except String (String × String)) :
    Settled db (db.afterPlacement orderId reply) := by
  unfold afterPlacement
  split
  · exact (updateOrderPda_upkeeps _ _).settled
  · split_ifs
    · intro o' ho' hlive
      obtain ⟨o, ho, rfl⟩ := List.mem_map.mp ho'
      by_cases hid : o.id = orderId
      · simp [hid, OrderStatus.isLive] at hlive
      · rw [if_neg hid] at hlive ⊢
        exact ⟨o, ho, hlive, rfl, rfl, rfl, rfl⟩
    · exact .refl

theorem Covers.settled (h : db.Covers epochId sides snapshot) (hsettled : Settled db db') :
    db'.Covers epochId sides snapshot := by
  intro o' ho' hlive hsegment hepoch hside
  obtain ⟨o, ho, hlive', hid, hsegment', hepoch', hside'⟩ := hsettled o' ho' hlive
  obtain ⟨row, hrow, hrowid⟩ := h o ho hlive' (hsegment' ▸ hsegment) (hepoch' ▸ hepoch) (hside' ▸ hside)
  exact ⟨row, hrow, hrowid.trans hid.symm⟩

theorem Covers.insert {order : TradingOrder} {now : ℤ} (h : db.Covers epochId sides snapshot)
    (hins : db.insertOrderWithEvent order now = some db')
    (hother : order.marketSegment = .interval → order.epochId = some epochId → order.side ∉ sides) :
    db'.Covers epochId sides snapshot := by
  obtain ⟨row, hrow, hins⟩ := Option.bind_eq_some_iff.mp hins
  obtain ⟨energyAmount, _, hrow⟩ := Option.bind_eq_some_iff.mp hrow
  obtain ⟨pricePerKwh, _, hrow⟩ := Option.bind_eq_some_iff.mp hrow
  obtain rfl := Option.some.inj hrow
  intro o ho hlive hsegment hepoch hside
  rw [insertOrder_rows hins] at ho
  rcases List.mem_cons.mp ho with rfl | ho
  · exact absurd hside (hother hsegment hepoch)
  · exact h o ho hlive hsegment hepoch hside

theorem covers_select (db : Database) (epochId : Uuid) (side : OrderSide) :
    db.Covers epochId [side] ((JobKind.clearing epochId).select (db.activeOrders side)) := by
  intro o ho hlive hsegment hepoch hside
  refine ⟨o, ?_, rfl⟩
  simp only [JobKind.select, activeOrders, List.mem_filter, decide_eq_true_eq]
  exact ⟨⟨ho, List.mem_singleton.mp hside, hlive⟩, hsegment, hepoch⟩

theorem Covers.append {buys : List OrderRow} (hbuys : db.Covers epochId [.buy] buys) :
    db.Covers epochId [.buy, .sell]
      (buys ++ (JobKind.clearing epochId).select (db.activeOrders .sell)) := by
  intro o ho hlive hsegment hepoch hside
  cases hs : o.side with
  | buy =>
    obtain ⟨row, hrow, hid⟩ := hbuys o ho hlive hsegment hepoch (by simp [hs])
    exact ⟨row, List.mem_append_left _ hrow, hid⟩
  | sell =>
    obtain ⟨row, hrow, hid⟩ := covers_select db epochId .sell o ho hlive hsegment hepoch (by simp [hs])
    exact ⟨row, List.mem_append_right _ hrow, hid⟩

end Database

/-- What a clearer has fetched covers its epoch from then on. -/
def Clearer.Fetched (db : Database) : Clearer → Prop
  | .reading epochId buys _ => db.Covers epochId [.buy] buys
  | .clearing epochId snapshot summary _ _ =>
    db.Covers epochId [.buy, .sell] snapshot ∧ summary.epochId = epochId
  | _ => True

theorem Clearer.Fetched.settled {db db' : Database} {c : Clearer} (h : c.Fetched db)
    (hsettled : Database.Settled db db') : c.Fetched db' := by
  cases c with
  | reading epochId buys rest => exact Database.Covers.settled h hsettled
  | clearing epochId snapshot summary job rest => exact ⟨h.1.settled hsettled, h.2⟩
  | _ => trivial

theorem Clearer.Fetched.insert {db db' : Database} {c : Clearer} {order : TradingOrder} {now : ℤ}
    (h : c.Fetched db) (hins : db.insertOrderWithEvent order now = some db')
    (hlate : order.marketSegment = .interval → ∀ epochId ∈ order.epochId,
      ¬c.HasFetched epochId order.side) : c.Fetched db' := by
  cases c with
  | reading epochId buys rest =>
    apply Database.Covers.insert h hins
    intro hsegment hepoch hside
    exact hlate hsegment epochId hepoch ⟨rfl, List.mem_singleton.mp hside⟩
  | clearing epochId snapshot summary job rest =>
    refine ⟨h.1.insert hins fun hsegment hepoch _ => ?_, h.2⟩
    exact hlate hsegment epochId hepoch rfl
  | _ => trivial

namespace EpochState

variable {R : Type} [DecidableEq R] {s s' : EpochState R}

structure Inv (s : EpochState R) : Prop where
  fetched : ∀ r, (s.clearer r).Fetched s.db
  closed : ∀ e ∈ s.epochs.rows, e.status = .cleared →
    ∃ p ∈ s.closed, p.1 = e.id ∧ s.db.Covers e.id [.buy, .sell] p.2

omit [DecidableEq R] in
theorem Inv.settled {db : Database} (h : s.Inv) (hsettled : Database.Settled s.db db) :
    Inv { s with db := db } where
  fetched r := (h.fetched r).settled hsettled
  closed e he hcleared := by
    obtain ⟨p, hp, hid, hcovers⟩ := h.closed e he hcleared
    exact ⟨p, hp, hid, hcovers.settled hsettled⟩

theorem Inv.advance (h : s.Inv) (r : R) {c : Clearer} (hc : c.Fetched s.db) : (s.advance r c).Inv where
  fetched := (Function.forall_update_iff s.clearer fun _ c => c.Fetched s.db).mpr
    ⟨hc, fun q _ => h.fetched q⟩
  closed := h.closed

theorem inv_clear {r : R} {a : ClearerStep} (h : s.Inv) (hstep : s.clear r (s.clearer r) a = some s') :
    s'.Inv := by
  have hfetched := h.fetched r
  generalize s.clearer r = c at hfetched hstep
  unfold clear at hstep
  split at hstep
  · obtain rfl := Option.some.inj hstep
    exact h.advance r trivial
  · obtain rfl := Option.some.inj hstep
    exact h.advance r (Database.covers_select s.db _ .buy)
  · obtain rfl := Option.some.inj hstep
    exact h.advance r ⟨Database.Covers.append hfetched, clearingSummary_epochId _ _ _ _ _⟩
  · split at hstep
    · cases hstep
    · split at hstep
      next hcommitted =>
        obtain rfl := Option.some.inj hstep
        have hsettled := (Database.persistMatchedTrade_upkeeps hcommitted).settled
        exact (h.settled hsettled).advance r (hfetched.settled hsettled)
      · obtain rfl := Option.some.inj hstep
        exact h.advance r hfetched
  · split at hstep
    · cases hstep
    · obtain rfl := Option.some.inj hstep
      exact h.advance r hfetched
  · obtain ⟨hcovers, hsummary⟩ := hfetched
    split at hstep
    next hmark =>
      obtain rfl := Option.some.inj hstep
      refine ⟨(h.advance r (c := .due _) trivial).fetched, fun e he hcleared => ?_⟩
      rcases Epochs.cleared_of_markEpochCleared hmark he hcleared with ⟨e₀, he₀, hid, hcleared₀⟩ | ⟨hid, hactive⟩
      · obtain ⟨p, hp, hpid, hpcovers⟩ := h.closed e₀ he₀ hcleared₀
        refine ⟨p, ?_, hpid.trans hid, hid ▸ hpcovers⟩
        dsimp only
        split_ifs
        · exact List.mem_cons_of_mem _ hp
        · exact hp
      · rw [hsummary] at hid hactive
        refine ⟨_, by rw [if_pos hactive]; exact List.mem_cons_self, hid.symm, ?_⟩
        rw [hid]
        exact hcovers
    · obtain rfl := Option.some.inj hstep
      exact h.advance r trivial
    · cases hstep
  · obtain rfl := Option.some.inj hstep
    exact h.advance r trivial
  · cases hstep

theorem inv_step {a : EpochAction R} (h : s.Inv) (htime : s.InsertsInTime a)
    (hstep : s.step a = some s') : s'.Inv := by
  cases a with
  | stamp now newId =>
    obtain ⟨⟨epochId, epochs⟩, hstamp, rfl⟩ := Option.map_eq_some_iff.mp hstep
    exact ⟨h.fetched, fun e he hcleared => h.closed e (Epochs.cleared_of_getOrCreate hstamp he hcleared)
      hcleared⟩
  | insert order now =>
    unfold step at hstep
    dsimp only at hstep
    split at hstep
    · cases hstep
    next epochId hepoch =>
      split_ifs at hstep
      obtain ⟨db, hins, rfl⟩ := Option.map_eq_some_iff.mp hstep
      refine ⟨fun r => (h.fetched r).insert hins fun hsegment e he => (htime hsegment e he).2 r,
        fun e he hcleared => ?_⟩
      obtain ⟨p, hp, hid, hcovers⟩ := h.closed e he hcleared
      refine ⟨p, hp, hid, hcovers.insert hins fun hsegment hstamp => ?_⟩
      exact absurd hcleared ((htime hsegment e.id hstamp).1 e he rfl)
  | placed orderId reply =>
    obtain rfl := Option.some.inj hstep
    exact h.settled (Database.afterPlacement_settled orderId reply)
  | statement st =>
    unfold step at hstep
    dsimp only at hstep
    split_ifs at hstep with hinsert
    obtain ⟨db, hexec, rfl⟩ := Option.map_eq_some_iff.mp hstep
    exact h.settled (Database.exec_upkeeps hexec (by simpa using hinsert)).settled
  | trade t =>
    unfold step at hstep
    dsimp only at hstep
    split at hstep
    next hcommitted =>
      obtain rfl := Option.some.inj hstep
      exact h.settled (Database.persistMatchedTrade_upkeeps hcommitted).settled
    · cases hstep
  | clearer r a => exact inv_clear h hstep

omit [DecidableEq R] in
theorem Inv.noneOrphaned (h : s.Inv) : s.NoneOrphaned := by
  intro o ho hlive hsegment e he hcleared hepoch
  obtain ⟨p, hp, hid, hcovers⟩ := h.closed e he hcleared
  refine ⟨p, hp, hid, hcovers o ho hlive hsegment hepoch ?_⟩
  cases o.side <;> simp

/-- Every run from any database, before the first epoch is opened. -/
theorem none_orphaned (db : Database) (as : List (EpochAction R))
    (has : Runs.AllSteps step InsertsInTime (start db) as) :
    Runs.AllStates step NoneOrphaned (start db) as := by
  have hinv : Runs.AllStates step Inv (start (R := R) db) as := by
    apply Runs.AllStates.of_allSteps (C := InsertsInTime) _ ⟨fun _ => trivial, by simp [start, KeyedTable.empty]⟩ has
    intro s a s' h htime hstep
    exact inv_step h htime hstep
  exact hinv.mono fun _ h => h.noneOrphaned

def lateStamp : List (EpochAction Unit) := [.stamp 0 7, .stamp (899 * 1000000000) 8]

def lateInsert : EpochAction Unit := .insert .intervalBuy 0

def fetchEpoch : List (EpochAction Unit) :=
  [.clearer () (.fetchDue (900 * 1000000000)), .clearer () .fetchBuys,
    .clearer () (.fetchSells (.freeGrid fun _ _ => 100) (BoundedInt.saturate 900000000000))]

def markEpoch : EpochAction Unit := .clearer () .markCleared

theorem none_orphaned_inserted_first :
    Runs.AllStates step NoneOrphaned (start .empty)
      (lateStamp ++ lateInsert :: fetchEpoch ++ [markEpoch]) :=
  none_orphaned .empty (lateStamp ++ lateInsert :: fetchEpoch ++ [markEpoch]) (by decide +kernel)

/-- The order is inserted when its epoch is being cleared already. -/
theorem late_insert_is_orphaned :
    ¬Runs.AllStates step NoneOrphaned (start .empty)
      (lateStamp ++ fetchEpoch ++ [lateInsert, markEpoch]) := by
  decide +kernel

end EpochState

end TradingService
