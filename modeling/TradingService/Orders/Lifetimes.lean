import TradingService.Ledger.Epochs
import TradingService.Orders.Admission

/-!
# The default lifetime and the auction

An order that names no expiry lives for the default lifetime, from its submission on.
The shipped default is as long as an epoch. The epoch of the order ends when it ends,
and the auction comes later still.
-/

namespace TradingService

open OrderPolicy

/-- The request leaves the expiry to the policy. An order that is to settle from the
user's own escrow signs one. -/
def EntryRequest.LeavesExpiry (config : ServiceConfig) : EntryRequest → Prop
  | .rest _ req => config.perUserEscrowSettlement = false ∧ req.expiresAt = none ∧
      req.expiresInSecs = none
  | .grpc req => req.expiresAt = none ∧ req.expiresInSecs = none
  | .recurring _ => False

/-- An interval order that was accepted under the shipped default lifetime. -/
structure DefaultInterval (config : ServiceConfig) (moment : Moment) (req : EntryRequest)
    (order : TradingOrder) : Prop where
  policy : config.orderExpiry = .shipped
  leavesExpiry : req.LeavesExpiry config
  accepted : req.order config moment = some order
  interval : order.marketSegment = .interval

def defaultLifetime : ℤ := 900 * 1000000000

theorem resolveExpiresAt_default {now t : ℤ} (h : resolveExpiresAt now none none none .shipped = .ok t) :
    t = now + defaultLifetime := by
  unfold resolveExpiresAt at h
  simp only at h
  split at h
  · cases h
  next hafter =>
    obtain rfl := Except.ok.inj h
    exact Calendar.after_eq_some hafter

section Accepted

variable {config : ServiceConfig} {moment : Moment} {req : EntryRequest} {order : TradingOrder}

theorem Rest.signedOrder_pooled {terms : Rest.Terms} {req : Rest.SubmitOrderRequest}
    {signed : Option Rest.SignedOrder} (hmode : config.perUserEscrowSettlement = false)
    (h : Rest.signedOrder config moment req terms = .ok signed) : signed = none := by
  unfold Rest.signedOrder at h
  rw [hmode] at h
  exact (Except.ok.inj h).symm

theorem DefaultInterval.expiresAt (h : DefaultInterval config moment req order) :
    order.expiresAt = some (moment.now + defaultLifetime) := by
  have haccepted := h.accepted
  cases req with
  | rest userId req =>
    obtain ⟨hmode, hat, hin⟩ := h.leavesExpiry
    obtain ⟨out, hsubmit, rfl⟩ := Option.map_eq_some_iff.mp haccepted
    obtain ⟨terms, meter, signed, expiresAt, orderPda, epochId, _, _, _, hsigned, hexpiry, _, horder, _⟩ :=
      Rest.submitOrder_ok (Except.toOption_eq_some_iff.mp hsubmit)
    obtain rfl := Rest.signedOrder_pooled hmode hsigned
    rw [hat, hin, h.policy] at hexpiry
    rw [horder]
    exact congrArg some (resolveExpiresAt_default hexpiry)
  | grpc req =>
    obtain ⟨hat, hin⟩ := h.leavesExpiry
    have hsubmit := Except.toOption_eq_some_iff.mp haccepted
    unfold Grpc.submitOrder at hsubmit
    obtain ⟨userId, _, hsubmit⟩ := Except.bind_eq_ok_iff.mp hsubmit
    obtain ⟨terms, _, hsubmit⟩ := Except.bind_eq_ok_iff.mp hsubmit
    obtain ⟨meter, _, hsubmit⟩ := Except.bind_eq_ok_iff.mp hsubmit
    obtain ⟨_, _, hsubmit⟩ := Except.bind_eq_ok_iff.mp hsubmit
    obtain ⟨epochId, _, hsubmit⟩ := Except.bind_eq_ok_iff.mp hsubmit
    obtain ⟨requested, hrequested, hsubmit⟩ := Except.bind_eq_ok_iff.mp hsubmit
    obtain ⟨expiresAt, hexpiry, hsubmit⟩ := Except.bind_eq_ok_iff.mp hsubmit
    obtain rfl := Except.ok.inj hsubmit
    unfold Grpc.readExpiresAt at hrequested
    rw [hat] at hrequested
    obtain rfl := Except.ok.inj hrequested
    have hresolved := Except.mapError_eq_ok_iff.mp hexpiry
    rw [hin, h.policy] at hresolved
    exact congrArg some (resolveExpiresAt_default hresolved)
  | recurring rule => exact h.leavesExpiry.elim

/-- When the clearing that takes it up runs, the order has not lapsed. -/
def OrderRow.SurvivesUntil (row : OrderRow) (epochs : Epochs) (dueAt clearedAt : ℤ) : Prop :=
  ∀ epochId, row.epochId = some epochId → epochId ∈ epochs.dueForClearing dueAt →
    ∀ i, (row.toFastOrder i).isExpired (timestampNanos clearedAt) = false

/-- The auction comes before the default lifetime of the order is over. -/
def TradingOrder.ClearedInTime (order : TradingOrder) (moment : Moment) (epochs : Epochs)
    (dueAt clearedAt : ℤ) : Prop :=
  ∀ epochId, order.epochId = some epochId → epochId ∈ epochs.dueForClearing dueAt →
    timestampNanos clearedAt < timestampNanos (storeInstant (moment.now + defaultLifetime))

theorem isExpired_toFastOrder {row : OrderRow} {t : ℤ} {i : ℕ} {nowNs : I64}
    (h : row.expiresAt = some t) :
    (row.toFastOrder i).isExpired nowNs = false ↔ nowNs < timestampNanos t := by
  simp [OrderRow.toFastOrder, FastOrder.isExpired, h]

theorem DefaultInterval.isExpired_iff (h : DefaultInterval config moment req order) {storedAt : ℤ}
    {row : OrderRow} (hrow : order.store storedAt = some row) {i : ℕ} {nowNs : I64} :
    (row.toFastOrder i).isExpired nowNs = false ↔
      nowNs < timestampNanos (storeInstant (moment.now + defaultLifetime)) := by
  have hexpiry := (TradingOrder.heldBy_of_store hrow).expiresAt
  rw [h.expiresAt] at hexpiry
  exact isExpired_toFastOrder hexpiry

/-- A default order is in its auction exactly if the auction comes before its lifetime
is over, whenever it was submitted. -/
theorem DefaultInterval.survives_iff (h : DefaultInterval config moment req order) {storedAt : ℤ}
    {row : OrderRow} (hrow : order.store storedAt = some row) (epochs : Epochs) (dueAt clearedAt : ℤ) :
    row.SurvivesUntil epochs dueAt clearedAt ↔ order.ClearedInTime moment epochs dueAt clearedAt := by
  unfold OrderRow.SurvivesUntil TradingOrder.ClearedInTime
  rw [(TradingOrder.heldBy_of_store hrow).epochId]
  constructor
  · intro hsurvives epochId hid hdue
    exact (h.isExpired_iff hrow).mp (hsurvives epochId hid hdue 0)
  · intro hearly epochId hid hdue i
    exact (h.isExpired_iff hrow).mpr (hearly epochId hid hdue)

theorem Epochs.endTime_of_opened {epochs epochs' : Epochs} {now : ℤ} {newId epochId : Uuid}
    (hnone : epochs.findOpen now = none)
    (h : epochs.getOrCreateActiveEpoch now newId = some (epochId, epochs')) :
    ∃ e ∈ epochs'.rows, e.id = epochId ∧ e.endTime = now + Epochs.window := by
  unfold Epochs.getOrCreateActiveEpoch at h
  rw [hnone] at h
  obtain ⟨epochs₁, hinsert, heq⟩ := Option.map_eq_some_iff.mp h
  obtain ⟨rfl, rfl⟩ := Prod.mk.inj heq
  obtain ⟨_, hrows⟩ := KeyedTable.insert?_eq_some hinsert
  exact ⟨_, hrows ▸ List.mem_cons_self, rfl, rfl⟩

theorem timestampNanos_of_mem {t : ℤ} (hlo : 0 ≤ t) (hhi : t ≤ 9223372036854775807) :
    (timestampNanos t : ℤ) = t := by
  have hrange : -9223372036854775808 ≤ t ∧ t ≤ 9223372036854775807 := ⟨by omega, hhi⟩
  simp [timestampNanos, BoundedInt.tryFrom, hrange]

/-- The order that opens its epoch is never in the auction, as long as the clock is
within the range of the engine. -/
theorem DefaultInterval.opened_lapses (h : DefaultInterval config moment req order) {storedAt : ℤ}
    {row : OrderRow} (hrow : order.store storedAt = some row) {epochs epochs' : Epochs}
    {newId epochId : Uuid} {stampedAt dueAt clearedAt : ℤ} (hnone : epochs.findOpen stampedAt = none)
    (hopened : epochs.getOrCreateActiveEpoch stampedAt newId = some (epochId, epochs'))
    (horder : order.epochId = some epochId) (hera : 946684800000000000 ≤ moment.now)
    (hstamped : moment.now ≤ stampedAt) (hdue : epochId ∈ epochs'.dueForClearing dueAt)
    (hclock : dueAt ≤ clearedAt) (hrange : clearedAt ≤ 9223372036854775807) :
    ¬row.SurvivesUntil epochs' dueAt clearedAt := by
  intro hsurvives
  have hepoch := (TradingOrder.heldBy_of_store hrow).epochId.trans horder
  have hearly := (h.isExpired_iff hrow).mp (hsurvives epochId hepoch hdue 0)
  obtain ⟨e, he, hid, hend⟩ := Epochs.endTime_of_opened hnone hopened
  obtain ⟨e', he', hid', _, hpast⟩ := epochs'.mem_dueForClearing.mp hdue
  obtain rfl := KeyedTable.row_unique he he' (hid.trans hid'.symm)
  rw [hend] at hpast
  unfold Epochs.window at hpast
  have hlapse : moment.now + defaultLifetime ≤ clearedAt := by
    unfold defaultLifetime
    omega
  have hstored := storeInstant_le (t := moment.now + defaultLifetime) (by unfold defaultLifetime; omega)
  have hstored₀ : 0 ≤ storeInstant (moment.now + defaultLifetime) := by
    unfold storeInstant defaultLifetime
    rw [Int.tdiv_eq_ediv_of_nonneg (by omega)]
    omega
  rw [BoundedInt.lt_iff, timestampNanos_of_mem (by omega) hrange,
    timestampNanos_of_mem hstored₀ (by omega)] at hearly
  omega

end Accepted

def Grpc.SubmitOrderRequest.intervalBuy : Grpc.SubmitOrderRequest where
  userId := .ok 1
  side := some .buy
  orderType := .limit
  timeInForce := none
  marketSegment := some (some .interval)
  energyAmount := some 1
  pricePerKwh := some (some 5)
  meterId := none
  zoneId := ⊥
  sessionToken := ""
  expiresAt := none
  expiresInSecs := none

def Moment.stamped : Moment := { quiet with epoch := .ok 7 }

def TradingOrder.intervalBuy : TradingOrder :=
  Grpc.buildOrder .stamped .intervalBuy 1 ⟨1, .buy, .gtc, some 5, 5, .interval⟩ none 7 defaultLifetime

theorem defaultInterval_intervalBuy :
    DefaultInterval .shipped .stamped (.grpc .intervalBuy) .intervalBuy where
  policy := rfl
  leavesExpiry := ⟨rfl, rfl⟩
  accepted := by decide +kernel
  interval := rfl

theorem DefaultInterval.survives_halfway :
    ∃ row ∈ TradingOrder.intervalBuy.store 0,
      row.SurvivesUntil .halfway (310 * 1000000000) (310 * 1000000000) := by
  obtain ⟨row, hrow⟩ : ∃ row, TradingOrder.intervalBuy.store 0 = some row :=
    Option.isSome_iff_exists.mp (by decide +kernel)
  refine ⟨row, hrow, (DefaultInterval.survives_iff defaultInterval_intervalBuy hrow _ _ _).mpr ?_⟩
  intro _ _ _
  decide

/-- The order that opens its epoch has lapsed when the epoch is due. -/
theorem DefaultInterval.opening_order_lapses :
    ∃ row ∈ TradingOrder.intervalBuy.store 0,
      ∃ opened ∈ Epochs.getOrCreateActiveEpoch .empty Moment.stamped.now 7,
        row.epochId = some opened.1 ∧
          ¬row.SurvivesUntil opened.2 (900 * 1000000000) (900 * 1000000000) := by
  obtain ⟨row, hrow⟩ : ∃ row, TradingOrder.intervalBuy.store 0 = some row :=
    Option.isSome_iff_exists.mp (by decide +kernel)
  have hepoch := (TradingOrder.heldBy_of_store hrow).epochId
  have hexpiry := (TradingOrder.heldBy_of_store hrow).expiresAt
  refine ⟨row, hrow, _, rfl, hepoch, fun h => ?_⟩
  have hearly := (isExpired_toFastOrder hexpiry).mp (h 7 hepoch (by decide) 0)
  exact absurd hearly (by decide)

end TradingService
