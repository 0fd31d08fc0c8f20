import TradingService.Lib.Runs
import TradingService.Orders.Intake

/-!
# Terminal orders

Every write to a status or a fill is guarded on a live status, but for one: the
cancellation after a rejected placement. A run keeps its terminal orders as long as no
such cancellation meets an order that others have finished in the meantime.
-/

namespace TradingService

open Database (Statement Trade)

structure OrdersState where
  db : Database
  intake : Intake

inductive OrdersAction
  | intake (a : IntakeAction)
  | statement (st : Statement)
  | trade (t : Trade)
  | sweep (o : FastOrder)

namespace OrdersState

def start (db : Database) : OrdersState := ⟨db, .empty⟩

def step (config : ServiceConfig) (s : OrdersState) : OrdersAction → Option OrdersState
  | .intake a => (s.intake.step config s.db a).map fun out => ⟨out.1, out.2⟩
  | .statement st => (s.db.exec st).map fun db => { s with db := db }
  | .trade t =>
    match s.db.persistMatchedTrade t.settlement t.orderMatch t.event t.buyer t.seller with
    | .committed db => some { s with db := db }
    | _ => none
  | .sweep o => (cancelIocRemainder s.db o).map fun db => { s with db := db }

/-- A rejected placement finds its order live, or cancelled already. -/
def RejectsLive (s : OrdersState) : OrdersAction → Prop
  | .intake (.place orderId (.error msg) true) => isDeterministicChainRejection msg = true →
      orderId ∈ s.intake.toPlace → ∀ o ∈ s.db.orders.rows, o.id = orderId →
        o.status.isLive = true ∨ o.status = .cancelled
  | _ => True

def Holds (o : OrderRow) (s : OrdersState) : Prop :=
  ∃ o' ∈ s.db.orders.rows, o'.id = o.id ∧ o'.status = o.status ∧ o'.filledAmount = o.filledAmount

instance (o : OrderRow) (s : OrdersState) : Decidable (Holds o s) :=
  inferInstanceAs (Decidable (∃ o' ∈ s.db.orders.rows, _))

variable {config : ServiceConfig} {s s' : OrdersState} {o : OrderRow}

theorem Holds.of_upkeeps (hdead : o.status.isLive = false) (h : Holds o s)
    (hup : Database.Retains s.db s'.db) : Holds o s' := by
  obtain ⟨p, hp, hid, hstatus, hfilled⟩ := h
  obtain ⟨p', hp', hkeep⟩ := hup p hp
  obtain ⟨hstatus', hfilled'⟩ := hkeep.frozen (by rw [hstatus, hdead])
  exact ⟨p', hp', hkeep.terms.id.trans hid, hstatus'.trans hstatus, hfilled'.trans hfilled⟩

theorem intake_retains {db' : Database} {intake' : Intake} {a : IntakeAction}
    (hmove : Intake.Move config s.db s.intake a db' intake') (hlive : s.RejectsLive (.intake a)) :
    Database.Retains s.db db' := by
  cases hmove with
  | rest _ hins => exact Database.insertOrderWithEvent_retains hins
  | signed _ hwritten => exact (Database.setWalletSignature_upkeeps hwritten).retains
  | unsigned _ => exact .refl
  | grpc _ hins => exact Database.insertOrderWithEvent_retains hins
  | @place id reply written hmem =>
    cases written with
    | false => exact .refl
    | true =>
      refine (Database.afterPlacement_upkeeps fun msg hmsg hrejected => ?_).retains
      subst hmsg
      exact hlive hrejected hmem
  | recurring hins => exact Database.insertOrderWithEvent_retains hins

theorem holds_step {a : OrdersAction} (hdead : o.status.isLive = false) (hholds : Holds o s)
    (hlive : s.RejectsLive a) (h : s.step config a = some s') : Holds o s' := by
  cases a with
  | intake a =>
    obtain ⟨⟨db', intake'⟩, hstep, rfl⟩ := Option.map_eq_some_iff.mp h
    exact hholds.of_upkeeps hdead (intake_retains (Intake.move_of_step hstep) hlive)
  | statement st =>
    obtain ⟨db', hexec, rfl⟩ := Option.map_eq_some_iff.mp h
    exact hholds.of_upkeeps hdead (Database.exec_retains hexec)
  | trade t =>
    unfold step at h
    dsimp only at h
    split at h
    next hcommitted =>
      obtain rfl := Option.some.inj h
      exact hholds.of_upkeeps hdead (Database.persistMatchedTrade_upkeeps hcommitted).retains
    · cases h
  | sweep f =>
    obtain ⟨db', hswept, rfl⟩ := Option.map_eq_some_iff.mp h
    exact hholds.of_upkeeps hdead (Database.updateFilledAmountWithEvent_upkeeps hswept).retains

/-- From any state on, an order that is terminal there keeps its status and its fill
in every state of a run whose rejected placements find their orders live. -/
theorem terminal_absorbing (config : ServiceConfig) (s : OrdersState) (as : List OrdersAction)
    (has : Runs.AllSteps (step config) RejectsLive s as) (o : OrderRow) (ho : o ∈ s.db.orders.rows)
    (hdead : o.status.isLive = false) : Runs.AllStates (step config) (Holds o) s as := by
  apply Runs.AllStates.of_allSteps (C := RejectsLive) _ ⟨o, ho, rfl, rfl, rfl⟩ has
  intro s a s' hholds hlive hstep
  exact holds_step hdead hholds hlive hstep

instance (s : OrdersState) (a : OrdersAction) : Decidable (s.RejectsLive a) := by
  unfold RejectsLive
  split <;> infer_instance

def filledBuy : OrderRow := { OrderRow.placed 1 .buy 5 1 with status := .filled }

theorem terminal_absorbing_filledBuy :
    Runs.AllStates (step .shipped) (Holds filledBuy)
      (start (.ofRows ⟨[filledBuy], by simp⟩ .empty))
      [.statement (.cancelOrder 1 1), .statement (.expireStaleOrders 5)] :=
  terminal_absorbing .shipped _ _ (by decide +kernel) filledBuy List.mem_cons_self rfl

end OrdersState

def Grpc.SubmitOrderRequest.buyOne : Grpc.SubmitOrderRequest where
  userId := .ok 1
  side := some .buy
  orderType := .limit
  timeInForce := none
  marketSegment := none
  energyAmount := some 1
  pricePerKwh := some (some 5)
  meterId := none
  zoneId := ⊥
  sessionToken := ""
  expiresAt := none
  expiresInSecs := none

def OrdersState.filledWhilePlacing : List OrdersAction :=
  [.statement (.insertOrder (.placed 2 .sell 5 1)), .intake (.submitGrpc .buyOne .quiet),
    .trade (.oneUnit 3 1 2)]

/-- The program refuses the placement, and the filled buy becomes a cancelled one. -/
theorem OrdersState.rejection_cancels_filled :
    ∃ s ∈ filledWhilePlacing.foldlM (step .shipped) (start .empty),
      ∃ o ∈ s.db.orders.rows, o.status = .filled ∧
        ¬Runs.AllStates (step .shipped) (Holds o) s
          [.intake (.place 1 (.error "InstructionError") true)] := by
  decide +kernel

end TradingService
