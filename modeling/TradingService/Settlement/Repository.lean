import TradingService.Ledger.Database

/-!
# The settlement repository

The statements that move a settlement between its statuses. Claiming, releasing and
reclaiming are guarded on the status that they start from; the plain status write is
not. `KeepsOutside` says of each of them which settlements it can touch.
-/

namespace TradingService.Database

variable {db db' db'' : Database}

def updateSettlements (db : Database) (f : Settlement Numeric → Settlement Numeric)
    (hf : ∀ s, (f s).id = s.id) (events : List Event) : Database :=
  { db with settlements := db.settlements.mapRows f hf, outbox := db.outbox ++ events }

/-- The joined condition of the two pre-flight queries. A settlement whose orders are
not both there is not returned. -/
def eitherOrder (db : Database) (p : OrderRow → Bool) (s : Settlement Numeric) : Bool :=
  match db.orders.find? s.buyOrderId, db.orders.find? s.sellOrderId with
  | some buyOrder, some sellOrder => p buyOrder || p sellOrder
  | _, _ => false

def settlementsMissingOrderPda (db : Database) (ids : List Uuid) : List Uuid :=
  (db.settlements.rows.filter fun s => s.id ∈ ids ∧ db.eitherOrder (·.orderPda.isNone) s).map (·.id)

def settlementsWithLapsedOrders (db : Database) (ids : List Uuid) (now : ℤ) : List Uuid :=
  (db.settlements.rows.filter fun s =>
    s.id ∈ ids ∧ db.eitherOrder (·.expiresAt.any (· ≤ now)) s).map (·.id)

def claimable (ids : List Uuid) (s : Settlement Numeric) : Bool := s.id ∈ ids ∧ s.status = .pending

/-- The claimed rows are returned as they are after the update. -/
def claimSettlementsForProcessing (db : Database) (ids : List Uuid) (now : ℤ) :
    Database × List (Settlement Numeric) :=
  let claim := fun s : Settlement Numeric => { s with status := .processing, updatedAt := now }
  (db.updateSettlements (fun s => if claimable ids s then claim s else s)
      (fun s => by split_ifs <;> rfl) [],
    (db.settlements.rows.filter (claimable ids)).map claim)

/-- A failed attempt is counted, and the last one is final. -/
def retried (s : Settlement Numeric) (maxRetries : ℤ) (now : ℤ) : Settlement Numeric :=
  { s with
    retryCount := s.retryCount + 1
    status := if maxRetries ≤ s.retryCount + 1 then .permanentlyFailed else .pending
    updatedAt := now }

def resetSettlementsForRetry (db : Database) (ids : List Uuid) (maxRetries : ℤ)
    (error : Option String) (now : ℤ) : Database :=
  db.updateSettlements
    (fun s => if s.id ∈ ids ∧ s.status = .processing then
      { retried s maxRetries now with errorMessage := error } else s)
    (fun s => by split_ifs <;> rfl) []

def seconds (n : ℤ) : ℤ := n * 1000000000

def staleProcessing (staleAfterSecs now : ℤ) (s : Settlement Numeric) : Bool :=
  s.status = .processing ∧ s.updatedAt < now - seconds staleAfterSecs

def reclaimStaleProcessing (db : Database) (staleAfterSecs maxRetries now : ℤ) : Database :=
  db.updateSettlements
    (fun s => if staleProcessing staleAfterSecs now s then retried s maxRetries now else s)
    (fun s => by split_ifs <;> rfl) []

/-- `update_settlement_status`, or with events the variant that writes the outbox too. -/
def updateSettlementStatus (db : Database) (id : Uuid) (status : SettlementStatus)
    (txHash error : Option String) (now : ℤ) (events : List Event) : Database :=
  db.updateSettlements
    (fun s => if s.id = id then
      { s with status := status, transactionHash := txHash, errorMessage := error, updatedAt := now }
      else s)
    (fun s => by split_ifs <;> rfl) events

def HasStatus (db : Database) (id : Uuid) (status : SettlementStatus) : Prop :=
  ∃ s ∈ db.settlements.rows, s.id = id ∧ s.status = status

theorem HasStatus.unique {id : Uuid} {x y : SettlementStatus} (hx : db.HasStatus id x)
    (hy : db.HasStatus id y) : x = y := by
  obtain ⟨s, hs, hid, rfl⟩ := hx
  obtain ⟨s', hs', hid', rfl⟩ := hy
  rw [KeyedTable.row_unique hs hs' (hid.trans hid'.symm)]

def KeepsOutside (touched : List Uuid) (db db' : Database) : Prop :=
  ∀ id ∉ touched, ∀ status, db.HasStatus id status → db'.HasStatus id status

theorem KeepsOutside.refl (touched : List Uuid) : KeepsOutside touched db db := fun _ _ _ h => h

theorem KeepsOutside.mono {touched touched' : List Uuid} (h : KeepsOutside touched db db')
    (hsub : touched ⊆ touched') : KeepsOutside touched' db db' :=
  fun id hid => h id fun hmem => hid (hsub hmem)

theorem keepsOutside_of_rows (touched : List Uuid)
    (h : ∀ s ∈ db.settlements.rows, s ∈ db'.settlements.rows) : KeepsOutside touched db db' := by
  rintro id _ status ⟨s, hs, hid, hstatus⟩
  exact ⟨s, h s hs, hid, hstatus⟩

theorem exec_settlements {st : Statement} (h : db.exec st = some db') :
    db'.settlements = db.settlements := by
  cases st with
  | insertOrder order =>
    simp only [exec, insertOrder] at h
    split_ifs at h
    split at h
    · cases h
    · obtain rfl := Option.some.inj h
      rfl
  | setWalletSignature orderId signature =>
    obtain rfl := setWalletSignature_eq_some h
    rfl
  | cancelOrder orderId userId =>
    obtain rfl := Option.some.inj h
    rfl
  | expireStaleOrders now =>
    simp only [exec, expireStaleOrders] at h
    split_ifs at h
    obtain rfl := Option.some.inj h
    rfl
  | reorder rows =>
    simp only [exec] at h
    split_ifs at h
    obtain rfl := Option.some.inj h
    rfl

theorem settlements_of_trade {settlement : Settlement Decimal} {orderMatch : OrderMatch Decimal}
    {event : Event} {buyer seller : TradeFill}
    (h : db.persistMatchedTrade settlement orderMatch event buyer seller = .committed db') :
    ∃ row, settlement.store = some row ∧ (∀ s ∈ db.settlements.rows, s.id ≠ row.id) ∧
      db'.settlements.rows = row :: db.settlements.rows := by
  obtain ⟨row, _, hstore, _, hrows⟩ := persistMatchedTrade_rows h
  exact ⟨row, hstore, hrows.fresh, hrows.settlements⟩

theorem mem_settlements_of_trade {settlement : Settlement Decimal} {orderMatch : OrderMatch Decimal}
    {event : Event} {buyer seller : TradeFill}
    (h : db.persistMatchedTrade settlement orderMatch event buyer seller = .committed db') :
    ∀ s ∈ db.settlements.rows, s ∈ db'.settlements.rows := by
  obtain ⟨row, _, _, hrows⟩ := settlements_of_trade h
  rw [hrows]
  exact fun s hs => List.mem_cons_of_mem _ hs

theorem updateSettlements_keepsOutside {f : Settlement Numeric → Settlement Numeric}
    {hf : ∀ s, (f s).id = s.id} {events : List Event} {touched : List Uuid}
    (h : ∀ s ∈ db.settlements.rows, s.id ∉ touched → (f s).status = s.status) :
    KeepsOutside touched db (db.updateSettlements f hf events) := by
  rintro id hid status ⟨s, hs, rfl, rfl⟩
  exact ⟨f s, List.mem_map_of_mem hs, hf s, h s hs hid⟩

theorem claim_keepsOutside (ids : List Uuid) (now : ℤ) :
    KeepsOutside ((db.claimSettlementsForProcessing ids now).2.map (·.id)) db
      (db.claimSettlementsForProcessing ids now).1 := by
  apply updateSettlements_keepsOutside
  intro s hs hnot
  by_cases hclaim : claimable ids s
  · refine absurd ?_ hnot
    simp only [claimSettlementsForProcessing, List.map_map]
    exact List.mem_map.mpr ⟨s, List.mem_filter.mpr ⟨hs, hclaim⟩, rfl⟩
  · rw [if_neg hclaim]

variable (db) in
/-- A claim takes pending settlements, each once, and leaves them processing. -/
theorem claim_spec (ids : List Uuid) (now : ℤ) :
    ((db.claimSettlementsForProcessing ids now).2.map (·.id)).Nodup ∧
      ∀ s ∈ (db.claimSettlementsForProcessing ids now).2, db.HasStatus s.id .pending ∧
        (db.claimSettlementsForProcessing ids now).1.HasStatus s.id .processing := by
  constructor
  · simp only [claimSettlementsForProcessing, List.map_map]
    exact (List.filter_sublist.map _).nodup db.settlements.keys_nodup
  · intro s' hs'
    obtain ⟨s, hs, rfl⟩ := List.mem_map.mp hs'
    obtain ⟨hmem, hclaim⟩ := List.mem_filter.mp hs
    have hpending := (of_decide_eq_true hclaim).2
    refine ⟨⟨s, hmem, rfl, hpending⟩, _, List.mem_map_of_mem hmem, ?_⟩
    rw [if_pos hclaim]
    exact ⟨rfl, rfl⟩

theorem reset_keepsOutside (ids : List Uuid) (maxRetries : ℤ) (error : Option String) (now : ℤ) :
    KeepsOutside ids db (db.resetSettlementsForRetry ids maxRetries error now) := by
  apply updateSettlements_keepsOutside
  intro s _ hnot
  rw [if_neg fun h => hnot h.1]

theorem reclaim_keepsOutside (staleAfterSecs maxRetries now : ℤ) :
    KeepsOutside ((db.settlements.rows.filter (staleProcessing staleAfterSecs now)).map (·.id)) db
      (db.reclaimStaleProcessing staleAfterSecs maxRetries now) := by
  apply updateSettlements_keepsOutside
  intro s hs hnot
  rw [if_neg fun h => hnot (List.mem_map_of_mem (List.mem_filter.mpr ⟨hs, h⟩))]

theorem updateStatus_keepsOutside (id : Uuid) (status : SettlementStatus)
    (txHash error : Option String) (now : ℤ) (events : List Event) :
    KeepsOutside [id] db (db.updateSettlementStatus id status txHash error now events) := by
  apply updateSettlements_keepsOutside
  intro s _ hnot
  rw [if_neg fun h => hnot (List.mem_singleton.mpr h)]

theorem updateStatus_hasStatus {id : Uuid} {x : SettlementStatus} (h : db.HasStatus id x)
    (status : SettlementStatus) (txHash error : Option String) (now : ℤ) (events : List Event) :
    (db.updateSettlementStatus id status txHash error now events).HasStatus id status := by
  obtain ⟨s, hs, hid, _⟩ := h
  refine ⟨_, List.mem_map_of_mem hs, ?_⟩
  rw [if_pos hid]
  exact ⟨hid, rfl⟩

end TradingService.Database
