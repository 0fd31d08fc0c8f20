import TradingService.Ledger.Matching

/-!
# What happens to a row

A row of the orders keeps its identity under every statement, and all but one of them
leave a row alone that can no longer trade. `Upkeeps` says so of a whole table, in
both directions.
-/

namespace TradingService

structure OrderRow.Upkeep (o o' : OrderRow) : Prop where
  terms : o.SameTerms o'
  epochId : o'.epochId = o.epochId
  marketSegment : o'.marketSegment = o.marketSegment
  frozen : o.status.isLive = false → o'.status = o.status ∧ o'.filledAmount = o.filledAmount

namespace OrderRow.Upkeep

variable {o o' o'' : OrderRow}

theorem refl (o : OrderRow) : o.Upkeep o := ⟨.refl o, rfl, rfl, fun _ => ⟨rfl, rfl⟩⟩

theorem trans (h : o.Upkeep o') (h' : o'.Upkeep o'') : o.Upkeep o'' where
  terms := h.terms.trans h'.terms
  epochId := h'.epochId.trans h.epochId
  marketSegment := h'.marketSegment.trans h.marketSegment
  frozen hdead := by
    obtain ⟨hstatus, hfilled⟩ := h.frozen hdead
    obtain ⟨hstatus', hfilled'⟩ := h'.frozen (by rw [hstatus, hdead])
    exact ⟨hstatus'.trans hstatus, hfilled'.trans hfilled⟩

theorem live (h : o.Upkeep o') (hlive : o'.status.isLive) : o.status.isLive := by
  by_contra hdead
  rw [(h.frozen (by simpa using hdead)).1] at hlive
  exact hdead hlive

theorem of_live (hterms : o.SameTerms o') (hepoch : o'.epochId = o.epochId)
    (hsegment : o'.marketSegment = o.marketSegment) (hlive : o.status.isLive) : o.Upkeep o' :=
  ⟨hterms, hepoch, hsegment, fun hdead => by simp [hlive] at hdead⟩

end OrderRow.Upkeep

namespace Database

structure Upkeeps (db db' : Database) : Prop where
  forth : ∀ o ∈ db.orders.rows, ∃ o' ∈ db'.orders.rows, o.Upkeep o'
  back : ∀ o' ∈ db'.orders.rows, ∃ o ∈ db.orders.rows, o.Upkeep o'

variable {db db' db'' : Database}

theorem Upkeeps.of_perm (h : db'.orders.rows.Perm db.orders.rows) : Upkeeps db db' where
  forth o ho := ⟨o, h.symm.subset ho, .refl o⟩
  back o ho := ⟨o, h.subset ho, .refl o⟩

theorem Upkeeps.trans (h : Upkeeps db db') (h' : Upkeeps db' db'') : Upkeeps db db'' where
  forth o ho := by
    obtain ⟨o', ho', hup⟩ := h.forth o ho
    obtain ⟨o'', ho'', hup'⟩ := h'.forth o' ho'
    exact ⟨o'', ho'', hup.trans hup'⟩
  back o'' ho'' := by
    obtain ⟨o', ho', hup'⟩ := h'.back o'' ho''
    obtain ⟨o, ho, hup⟩ := h.back o' ho'
    exact ⟨o, ho, hup.trans hup'⟩

theorem updateOrders_upkeeps {f : OrderRow → OrderRow} {hf : ∀ o, (f o).id = o.id}
    {events : List Event} (h : ∀ o ∈ db.orders.rows, o.Upkeep (f o)) :
    Upkeeps db (db.updateOrders f hf events) where
  forth o ho := ⟨f o, List.mem_map_of_mem ho, h o ho⟩
  back o' ho' := by
    obtain ⟨o, ho, rfl⟩ := List.mem_map.mp ho'
    exact ⟨o, ho, h o ho⟩

theorem setFill_upkeeps {orderId : Uuid} {filled : Numeric} {status : OrderStatus}
    {events : List Event} (hlive : ∀ o ∈ db.orders.rows, o.id = orderId → o.status.isLive) :
    Upkeeps db (db.setFill orderId filled status events) := by
  apply updateOrders_upkeeps
  intro o ho
  by_cases hid : o.id = orderId
  · rw [if_pos hid]
    exact .of_live ⟨rfl, rfl, rfl, rfl, rfl, rfl⟩ rfl rfl (hlive o ho hid)
  · rw [if_neg hid]
    exact .refl o

theorem setWalletSignature_upkeeps {orderId : Uuid} {signature : String}
    (h : db.setWalletSignature orderId signature = some db') : Upkeeps db db' := by
  obtain rfl := setWalletSignature_eq_some h
  apply updateOrders_upkeeps
  intro o _
  split_ifs
  · exact ⟨⟨rfl, rfl, rfl, rfl, rfl, rfl⟩, rfl, rfl, fun _ => ⟨rfl, rfl⟩⟩
  · exact .refl o

theorem cancelOrder_upkeeps (orderId userId : Uuid) : Upkeeps db (db.cancelOrder orderId userId) := by
  apply updateOrders_upkeeps
  intro o _
  split_ifs with hguard
  · exact .of_live ⟨rfl, rfl, rfl, rfl, rfl, rfl⟩ rfl rfl hguard.2.2
  · exact .refl o

theorem expireStaleOrders_upkeeps {now : ℤ} (h : db.expireStaleOrders now = some db') :
    Upkeeps db db' := by
  unfold expireStaleOrders at h
  dsimp only at h
  split_ifs at h
  obtain rfl := Option.some.inj h
  apply updateOrders_upkeeps
  intro o _
  split_ifs with hstale
  · exact .of_live ⟨rfl, rfl, rfl, rfl, rfl, rfl⟩ rfl rfl (Bool.and_eq_true_iff.mp hstale).1
  · exact .refl o

theorem reorder_upkeeps {rows : List OrderRow} (h : rows.Perm db.orders.rows) :
    Upkeeps db (db.reorder rows h) := .of_perm h

theorem incrementalFill_upkeeps {side : TradeFill} (h : db.incrementalFill side = .committed db') :
    Upkeeps db db' := by
  obtain ⟨row, hmem, hid, hlive, _, _, rfl⟩ := setFill_of_incrementalFill h
  apply setFill_upkeeps
  intro o ho hoid
  obtain rfl := KeyedTable.row_unique ho hmem (hoid.trans hid.symm)
  exact hlive

theorem persistMatchedTrade_upkeeps {settlement : Settlement Decimal} {orderMatch : OrderMatch Decimal}
    {event : Event} {buyer seller : TradeFill}
    (h : db.persistMatchedTrade settlement orderMatch event buyer seller = .committed db') :
    Upkeeps db db' := by
  obtain ⟨_, _, db₁, _, _, _, hins, hfill, hfill'⟩ := statements_of_persistMatchedTrade h
  have hstart : Upkeeps db db₁ := .of_perm (by rw [hins.orders])
  exact (hstart.trans (incrementalFill_upkeeps hfill)).trans (incrementalFill_upkeeps hfill')

theorem updateFilledAmountWithEvent_upkeeps {orderId : Uuid} {filledAmount : Decimal}
    {status : OrderStatus} {event : Event}
    (h : db.updateFilledAmountWithEvent orderId filledAmount status event = some db') :
    Upkeeps db db' := by
  rcases setFill_of_updateFilledAmount h with ⟨rfl, _⟩ | ⟨row, hrow, hid, hlive, _, _, rfl⟩
  · exact .of_perm (.refl _)
  · apply setFill_upkeeps
    intro o ho hoid
    obtain rfl := KeyedTable.row_unique ho hrow (hoid.trans hid.symm)
    exact hlive

theorem insertOrder_rows {order : OrderRow} (h : db.insertOrder order = some db') :
    db'.orders.rows =
      { order with filledAmount := some Numeric.zero, signature := none } :: db.orders.rows :=
  (insertOrder_eq_some h).1

/-- The orders of `db` were kept up; others may have come in. -/
def Retains (db db' : Database) : Prop :=
  ∀ o ∈ db.orders.rows, ∃ o' ∈ db'.orders.rows, o.Upkeep o'

theorem Retains.refl : Retains db db := fun o ho => ⟨o, ho, .refl o⟩

theorem Retains.extends (h : Retains db db') : Extends db db' := by
  intro o ho
  obtain ⟨o', ho', hup⟩ := h o ho
  exact ⟨o', ho', hup.terms⟩

theorem Retains.not_live (h : Retains db db') {id : Uuid} (hold : ∃ o ∈ db.orders.rows, o.id = id)
    (hdead : ¬db.Live id) : ¬db'.Live id := by
  rintro ⟨o', ho', hid', hlive'⟩
  obtain ⟨o, ho, hid⟩ := hold
  obtain ⟨o'', ho'', hup⟩ := h o ho
  obtain rfl := KeyedTable.row_unique ho'' ho' (hup.terms.id.trans (hid.trans hid'.symm))
  exact hdead ⟨o, ho, hid, hup.live hlive'⟩

theorem Upkeeps.retains (h : Upkeeps db db') : Retains db db' := h.forth

def Statement.isInsert : Statement → Bool
  | .insertOrder _ => true
  | _ => false

theorem exec_upkeeps {st : Statement} (h : db.exec st = some db') (hst : st.isInsert = false) :
    Upkeeps db db' := by
  cases st with
  | insertOrder order => cases hst
  | setWalletSignature orderId signature => exact setWalletSignature_upkeeps h
  | cancelOrder orderId userId =>
    obtain rfl := Option.some.inj h
    exact cancelOrder_upkeeps orderId userId
  | expireStaleOrders now => exact expireStaleOrders_upkeeps h
  | reorder rows =>
    simp only [exec] at h
    split_ifs at h with hperm
    obtain rfl := Option.some.inj h
    exact reorder_upkeeps hperm

/-- The statements of users, gates and the reaper keep the orders that are there. -/
theorem exec_retains {st : Statement} (h : db.exec st = some db') : Retains db db' := by
  by_cases hst : st.isInsert = true
  · cases st with
    | insertOrder order =>
      intro o ho
      exact ⟨o, insertOrder_rows h ▸ List.mem_cons_of_mem _ ho, .refl o⟩
    | _ => cases hst
  · exact (exec_upkeeps h (by simpa using hst)).retains

end Database

end TradingService
