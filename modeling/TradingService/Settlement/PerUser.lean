import TradingService.Orders.Signed
import TradingService.Settlement.Worker

/-!
# Signed orders on their way to the chain

In per-user mode the REST edge places nothing on the chain, so its orders have no PDA,
and nobody gives them one later. The first pre-flight and the gateway both ask for the
PDA of each side, in either mode.
-/

namespace TradingService

open Database (Statement)

structure EscrowState (W : Type) where
  core : SettlementState W
  intake : Intake

inductive EscrowAction (W : Type)
  | intake (a : IntakeAction)
  | core (a : SettlementAction W)

/-- Both pre-flights let the settlement pass, and the gateway hands it to
`execute_offchain_settlement`. -/
structure Executes (env : Surroundings) (db : Database) (now : ℤ) (x : Settlement Numeric) : Prop where
  placed : x.id ∉ db.settlementsMissingOrderPda [x.id]
  unlapsed : x.id ∉ db.settlementsWithLapsedOrders [x.id] now
  routed : env.isOffchain db x = true

namespace Database

def Unplaced (db : Database) (id : Uuid) : Prop :=
  ∃ o ∈ db.orders.rows, o.id = id ∧ o.orderPda = none

variable {db db' : Database} {id : Uuid}

theorem Unplaced.of_rows (h : db.Unplaced id) (hsub : db.orders.rows ⊆ db'.orders.rows) :
    db'.Unplaced id := by
  obtain ⟨o, ho, hid, hpda⟩ := h
  exact ⟨o, hsub ho, hid, hpda⟩

theorem Unplaced.updateOrders {f : OrderRow → OrderRow} {hf : ∀ o, (f o).id = o.id}
    {events : List Event} (h : db.Unplaced id)
    (hpda : ∀ o ∈ db.orders.rows, o.id = id → (f o).orderPda = o.orderPda) :
    (db.updateOrders f hf events).Unplaced id := by
  obtain ⟨o, ho, hid, hnone⟩ := h
  exact ⟨f o, List.mem_map_of_mem ho, (hf o).trans hid, (hpda o ho hid).trans hnone⟩

theorem Unplaced.exec {st : Statement} (h : db.Unplaced id) (hexec : db.exec st = some db') :
    db'.Unplaced id := by
  cases st with
  | insertOrder order =>
    exact h.of_rows (insertOrder_rows hexec ▸ List.subset_cons_self _ _)
  | setWalletSignature orderId signature =>
    obtain rfl := setWalletSignature_eq_some hexec
    exact h.updateOrders fun o _ _ => by split_ifs <;> rfl
  | cancelOrder orderId userId =>
    obtain rfl := Option.some.inj hexec
    exact h.updateOrders fun o _ _ => by split_ifs <;> rfl
  | expireStaleOrders now =>
    simp only [Database.exec, Database.expireStaleOrders] at hexec
    split_ifs at hexec
    obtain rfl := Option.some.inj hexec
    exact h.updateOrders fun o _ _ => by split_ifs <;> rfl
  | reorder rows =>
    simp only [Database.exec] at hexec
    split_ifs at hexec with hperm
    obtain rfl := Option.some.inj hexec
    exact h.of_rows hperm.symm.subset

theorem Unplaced.incrementalFill {side : TradeFill} (h : db.Unplaced id)
    (hfill : db.incrementalFill side = .committed db') : db'.Unplaced id := by
  obtain ⟨_, _, _, _, _, _, rfl⟩ := setFill_of_incrementalFill hfill
  exact h.updateOrders fun o _ _ => by split_ifs <;> rfl

theorem Unplaced.trade {settlement : Settlement Decimal} {orderMatch : OrderMatch Decimal}
    {event : Event} {buyer seller : TradeFill} (h : db.Unplaced id)
    (htrade : db.persistMatchedTrade settlement orderMatch event buyer seller = .committed db') :
    db'.Unplaced id := by
  obtain ⟨_, _, db₁, _, _, _, hins, hfill, hfill'⟩ := statements_of_persistMatchedTrade htrade
  have h₁ : db₁.Unplaced id := h.of_rows (by rw [hins.orders]; exact List.Subset.refl _)
  exact (h₁.incrementalFill hfill).incrementalFill hfill'

theorem Unplaced.afterPlacement {orderId : Uuid} {reply : Except String (String × String)}
    (h : db.Unplaced id) (hne : id ≠ orderId) : (db.afterPlacement orderId reply).Unplaced id := by
  unfold Database.afterPlacement
  split
  · exact h.updateOrders fun o _ hid => by rw [if_neg (hid ▸ hne)]
  · split_ifs
    · exact h.updateOrders fun o _ _ => by split_ifs <;> rfl
    · exact h

theorem Unplaced.insert {order : TradingOrder} {now : ℤ} (h : db.Unplaced id)
    (hins : db.insertOrderWithEvent order now = some db') : db'.Unplaced id := by
  obtain ⟨row, hrows, _⟩ := insertOrderWithEvent_eq_some hins
  exact h.of_rows (hrows ▸ List.subset_cons_self _ _)

theorem find?_of_unplaced (h : db.Unplaced id) :
    ∃ o, db.orders.find? id = some o ∧ o.orderPda = none := by
  obtain ⟨o, ho, hid, hpda⟩ := h
  exact ⟨o, KeyedTable.find?_eq_some.mpr ⟨ho, hid⟩, hpda⟩

end Database

theorem Task.run_orders {db : Database} {now : ℤ} {task : Task} {answer : Answer} {out : Outcome}
    (h : task.run db now answer = some out) : out.db.orders = db.orders := by
  unfold Task.run at h
  split at h <;> try (obtain rfl := Option.some.inj h; rfl)
  · split at h <;> (obtain rfl := Option.some.inj h; rfl)
  · cases h

theorem SettlementState.unplaced_step {W : Type} [DecidableEq W] {s s' : SettlementState W}
    {a : SettlementAction W} {id : Uuid} (hu : s.db.Unplaced id) (h : s.step a = some s') :
    s'.db.Unplaced id := by
  cases a with
  | order st =>
    obtain ⟨db, hexec, rfl⟩ := Option.map_eq_some_iff.mp h
    exact hu.exec hexec
  | trade t =>
    obtain ⟨db, hcommitted, rfl⟩ := committed_of_step h
    exact hu.trade hcommitted
  | claim w ids now =>
    obtain ⟨_, rfl⟩ := claimed_of_step h
    exact hu.of_rows (List.Subset.refl _)
  | reclaim now =>
    obtain rfl := Option.some.inj h
    exact hu.of_rows (List.Subset.refl _)
  | run w now answer =>
    obtain ⟨_, _, out, _, hrun, rfl⟩ := run_of_step h
    exact hu.of_rows (by rw [Task.run_orders hrun]; exact List.Subset.refl _)
  | restart w landed =>
    obtain ⟨_, rfl⟩ := restarted_of_step h
    exact hu

section Rules

variable {db : Database} {x : Settlement Numeric}

/-- The gateway passes a settlement by whose buy has no PDA, in either mode. -/
theorem Surroundings.route_of_unplaced (env : Surroundings) (h : db.Unplaced x.buyOrderId) :
    env.route db x = .skipped := by
  obtain ⟨o, hfind, hpda⟩ := Database.find?_of_unplaced h
  have hnone : env.orderPda db x.buyOrderId = none := by
    unfold Surroundings.orderPda
    rw [hfind]
    simp [hpda]
  simp only [Surroundings.route, hnone]

theorem Database.missing_of_unplaced (hx : x ∈ db.settlements.rows) (hbuy : db.Unplaced x.buyOrderId)
    (hsell : db.Unplaced x.sellOrderId) : x.id ∈ db.settlementsMissingOrderPda [x.id] := by
  obtain ⟨b, hb, hpda⟩ := Database.find?_of_unplaced hbuy
  obtain ⟨s, hs, _⟩ := Database.find?_of_unplaced hsell
  refine List.mem_map_of_mem (List.mem_filter.mpr ⟨hx, decide_eq_true ⟨List.mem_singleton_self _, ?_⟩⟩)
  simp [Database.eitherOrder, hb, hs, hpda]

theorem not_executes_of_unplaced (env : Surroundings) (now : ℤ) (h : db.Unplaced x.buyOrderId) :
    ¬Executes env db now x := by
  intro hexec
  have hrouted := hexec.routed
  unfold Surroundings.isOffchain at hrouted
  rw [env.route_of_unplaced h] at hrouted
  cases hrouted

end Rules

/-- In per-user mode the REST edge builds an order without a PDA. -/
theorem Rest.submitOrder_unplaced {config : ServiceConfig} {moment : Moment} {userId : Uuid}
    {req : Rest.SubmitOrderRequest} {order : TradingOrder} {signature : Option String}
    (hmode : config.perUserEscrowSettlement = true)
    (h : Rest.submitOrder config moment userId req = .ok (order, signature)) :
    order.orderPda = none := by
  obtain ⟨terms, meter, signed, expiresAt, orderPda, epochId, _, _, _, _, _, hpda, rfl, _⟩ :=
    Rest.submitOrder_ok h
  unfold Rest.custodialPlacement at hpda
  rw [hmode] at hpda
  exact (Except.ok.inj hpda).symm

/-- The REST orders have no PDA, and the gRPC edge is not about to give them one. -/
structure Intake.Unplaced (db : Database) (intake : Intake) : Prop where
  rest : ∀ id ∈ intake.rest, db.Unplaced id
  toSign : ∀ e ∈ intake.toSign, e.1 ∈ intake.rest
  signed : ∀ id ∈ intake.signed, id ∈ intake.rest
  toPlace : ∀ id ∈ intake.toPlace, id ∉ intake.rest ∧ ∃ o ∈ db.orders.rows, o.id = id

theorem Intake.Unplaced.mono {db db' : Database} {intake : Intake} (h : intake.Unplaced db)
    (hunplaced : ∀ id, db.Unplaced id → db'.Unplaced id) (hext : Database.Extends db db') :
    intake.Unplaced db' where
  rest id hid := hunplaced id (h.rest id hid)
  toSign := h.toSign
  signed := h.signed
  toPlace id hid := by
    obtain ⟨hnot, o, ho, hoid⟩ := h.toPlace id hid
    obtain ⟨o', ho', hterms⟩ := hext o ho
    exact ⟨hnot, o', ho', hterms.id.trans hoid⟩

theorem Intake.Unplaced.step {config : ServiceConfig} {db db' : Database} {intake intake' : Intake}
    {a : IntakeAction} (h : intake.Unplaced db) (hmode : config.perUserEscrowSettlement = true)
    (hmove : Intake.Move config db intake a db' intake') : intake'.Unplaced db' := by
  have hext := hmove.extends
  cases hmove with
  | @rest userId req moment order signature _ hsubmit hins =>
    have hold := h.mono (fun id hu => hu.insert hins) hext
    obtain ⟨row, hrows, hheld, hfresh, _⟩ := Database.insertOrderWithEvent_eq_some hins
    have hnew : db'.Unplaced order.id :=
      ⟨row, hrows ▸ List.mem_cons_self, hheld.id, hheld.orderPda.trans (Rest.submitOrder_unplaced hmode hsubmit)⟩
    refine ⟨List.forall_mem_cons.mpr ⟨hnew, hold.rest⟩, fun e he => ?_,
      fun id hid => List.mem_cons_of_mem _ (h.signed id hid), fun id hid => ?_⟩
    · rcases List.mem_append.mp he with he | he
      · obtain ⟨s, _, rfl⟩ := List.mem_map.mp he
        exact List.mem_cons_self
      · exact List.mem_cons_of_mem _ (h.toSign e he)
    · obtain ⟨hnot, o, ho, hoid⟩ := h.toPlace id hid
      refine ⟨fun hin => ?_, (hold.toPlace id hid).2⟩
      rcases List.mem_cons.mp hin with rfl | hin
      · exact hfresh o ho hoid
      · exact hnot hin
  | @signed id signature _ hmem hwritten =>
    have hexec : db.exec (.setWalletSignature id signature) = some db' := hwritten
    have hold := h.mono (fun _ hu => hu.exec hexec) hext
    have hin : id ∈ intake.rest := h.toSign (id, signature) hmem
    exact ⟨hold.rest, fun e he => h.toSign e (List.mem_of_mem_erase he),
      List.forall_mem_cons.mpr ⟨hin, h.signed⟩, hold.toPlace⟩
  | unsigned hsub => exact { h with toSign := fun e he => h.toSign e (hsub he) }
  | @grpc req moment order _ toPlace hplace hins =>
    have hold := h.mono (fun id hu => hu.insert hins) hext
    obtain ⟨row, hrows, hheld, hfresh, _⟩ := Database.insertOrderWithEvent_eq_some hins
    refine ⟨hold.rest, h.toSign, h.signed, fun id hin => ?_⟩
    rcases List.mem_cons.mp (hplace hin) with rfl | hin
    · refine ⟨fun hrest => ?_, row, hrows ▸ List.mem_cons_self, hheld.id⟩
      obtain ⟨o, ho, hoid, _⟩ := h.rest _ hrest
      exact hfresh o ho hoid
    · exact hold.toPlace id hin
  | @place orderId reply written hmem =>
    have hnot := (h.toPlace orderId hmem).1
    have hrest : ∀ id ∈ intake.rest,
        (if written then db.afterPlacement orderId reply else db).Unplaced id := by
      intro id hid
      split_ifs
      · exact (h.rest id hid).afterPlacement fun heq => hnot (heq ▸ hid)
      · exact h.rest id hid
    refine ⟨hrest, h.toSign, h.signed, fun id hid => ?_⟩
    obtain ⟨hnot', o, ho, hoid⟩ := h.toPlace id (List.mem_of_mem_erase hid)
    obtain ⟨o', ho', hterms⟩ := hext o ho
    exact ⟨hnot', o', ho', hterms.id.trans hoid⟩
  | recurring hins =>
    have hold := h.mono (fun id hu => hu.insert hins) hext
    exact ⟨hold.rest, hold.toSign, hold.signed, hold.toPlace⟩

theorem SettlementState.extends_step {W : Type} [DecidableEq W] {s s' : SettlementState W}
    {a : SettlementAction W} (h : s.step a = some s') : Database.Extends s.db s'.db := by
  cases a with
  | order st =>
    obtain ⟨db, hexec, rfl⟩ := Option.map_eq_some_iff.mp h
    exact (Database.exec_keeps hexec).extends
  | trade t =>
    obtain ⟨db, hcommitted, rfl⟩ := committed_of_step h
    exact (Database.persistMatchedTrade_upkeeps hcommitted).retains.extends
  | claim w ids now =>
    obtain ⟨_, rfl⟩ := claimed_of_step h
    exact .refl
  | reclaim now =>
    obtain rfl := Option.some.inj h
    exact .refl
  | run w now answer =>
    obtain ⟨_, _, out, _, hrun, rfl⟩ := run_of_step h
    intro o ho
    exact ⟨o, by rw [Task.run_orders hrun]; exact ho, .refl o⟩
  | restart w landed =>
    obtain ⟨_, rfl⟩ := restarted_of_step h
    exact .refl

namespace EscrowState

variable {W : Type} [DecidableEq W] {config : ServiceConfig} {s s' : EscrowState W}

def start (db : Database) : EscrowState W := ⟨⟨db, fun _ => [], [], []⟩, .empty⟩

def step (config : ServiceConfig) (s : EscrowState W) : EscrowAction W → Option (EscrowState W)
  | .intake a => (s.intake.step config s.core.db a).map fun out =>
      ⟨{ s.core with db := out.1 }, out.2⟩
  | .core a => (s.core.step a).map fun core => { s with core := core }

/-- No settlement between two signed orders gets through: the first pre-flight parks
it, and the gateway would skip it. -/
def SignedNeverExecutes (s : EscrowState W) : Prop :=
  ∀ x ∈ s.core.db.settlements.rows, x.buyOrderId ∈ s.intake.signed →
    x.sellOrderId ∈ s.intake.signed → x.id ∈ s.core.db.settlementsMissingOrderPda [x.id] ∧
      ∀ env now, ¬Executes env s.core.db now x

theorem unplaced_step {a : EscrowAction W} (h : s.intake.Unplaced s.core.db)
    (hmode : config.perUserEscrowSettlement = true) (hstep : s.step config a = some s') :
    s'.intake.Unplaced s'.core.db := by
  cases a with
  | intake a =>
    obtain ⟨⟨db', intake'⟩, hintake, rfl⟩ := Option.map_eq_some_iff.mp hstep
    exact h.step hmode (Intake.move_of_step hintake)
  | core a =>
    obtain ⟨core', hcore, rfl⟩ := Option.map_eq_some_iff.mp hstep
    exact h.mono (fun id hu => SettlementState.unplaced_step hu hcore)
      (SettlementState.extends_step hcore)

/-- Every run in per-user mode, from any database, with any traffic on the entry paths
and any number of settlement workers. -/
theorem signed_never_executes (config : ServiceConfig)
    (hmode : config.perUserEscrowSettlement = true) (db : Database) (as : List (EscrowAction W)) :
    Runs.AllStates (step config) SignedNeverExecutes (start db) as := by
  have hinv : Runs.AllStates (step config) (fun s : EscrowState W => s.intake.Unplaced s.core.db)
      (start db) as := by
    refine Runs.AllStates.of_invariant ?_ ⟨by simp [start, Intake.empty], by simp [start, Intake.empty],
      by simp [start, Intake.empty], by simp [start, Intake.empty]⟩ as
    intro s a s' h hstep
    exact unplaced_step h hmode hstep
  apply hinv.mono
  intro s h x hx hbuy hsell
  have hbuy' := h.rest _ (h.signed _ hbuy)
  refine ⟨Database.missing_of_unplaced hx hbuy' (h.rest _ (h.signed _ hsell)), fun env now => ?_⟩
  exact not_executes_of_unplaced env now hbuy'

end EscrowState

def Rest.SubmitOrderRequest.signedSell : Rest.SubmitOrderRequest :=
  { signedBuy with side := some .sell, orderId := some 2, walletSignature := some "other" }

namespace EscrowState

def metered : Moment := { Moment.quiet with meters := [⟨"meter", ⟨9, 2, true⟩⟩] }

/-- Both orders come in by REST with their signatures, and they trade. -/
def signedTrade : List (EscrowAction Unit) :=
  [.intake (.submitRest 1 .signedBuy .quiet), .intake (.submitRest 2 .signedSell metered),
    .intake (.writeSignature 1 true), .intake (.writeSignature 2 true),
    .core (.trade (.oneUnit 3 1 2))]

theorem signed_never_executes_signedTrade :
    Runs.AllStates (step .perUser) SignedNeverExecutes (start .empty) signedTrade :=
  signed_never_executes .perUser rfl .empty signedTrade

instance (env : Surroundings) (db : Database) (now : ℤ) (x : Settlement Numeric) :
    Decidable (Executes env db now x) :=
  decidable_of_iff (x.id ∉ db.settlementsMissingOrderPda [x.id] ∧
      x.id ∉ db.settlementsWithLapsedOrders [x.id] now ∧ env.isOffchain db x = true)
    ⟨fun h => ⟨h.1, h.2.1, h.2.2⟩, fun h => ⟨h.placed, h.unlapsed, h.routed⟩⟩

/-- A settlement between two signed orders that have not lapsed, every user with a
wallet and every transaction landing, is parked and never sent. -/
theorem signed_trade_is_parked :
    ∃ s ∈ signedTrade.foldlM (step .perUser) (start .empty),
      ∃ x ∈ s.core.db.settlements.rows,
        x.buyOrderId ∈ s.intake.signed ∧ x.sellOrderId ∈ s.intake.signed ∧
          s.core.db.settlementsWithLapsedOrders [x.id] 0 = [] ∧
            ¬Executes (.calm true) s.core.db 0 x := by
  decide +kernel

end EscrowState

end TradingService
