import TradingService.Ledger.Epochs
import TradingService.Ledger.Upkeep

/-!
# Epoch totals and persisted trades

A clearing persists its matches one by one and closes its epoch with the totals of the
auction. A match that is given up on the way stays in the totals; what an earlier
attempt at the same epoch persisted is not in them.
-/

namespace TradingService

namespace Database

def IsInterval (db : Database) (epochId id : Uuid) : Prop :=
  ∃ o ∈ db.orders.rows, o.id = id ∧ o.marketSegment = .interval ∧ o.epochId = some epochId

instance (db : Database) (epochId id : Uuid) : Decidable (db.IsInterval epochId id) :=
  inferInstanceAs (Decidable (∃ o ∈ db.orders.rows, _))

def intervalTrades (db : Database) (epochId : Uuid) : List (OrderMatch Numeric) :=
  db.orderMatches.rows.filter fun m => db.IsInterval epochId m.buyOrderId

def intervalVolume (db : Database) (epochId : Uuid) : Decimal :=
  ((db.intervalTrades epochId).map (·.matchedAmount.toDecimal)).sum

inductive Write
  | statement (st : Statement)
  | trade (t : Trade)
  | sweep (orderId : Uuid) (filledAmount : Decimal) (status : OrderStatus) (event : Event)

def write (db : Database) : Write → Database
  | .statement st => (db.exec st).getD db
  | .trade t =>
    match db.persistMatchedTrade t.settlement t.orderMatch t.event t.buyer t.seller with
    | .committed db' => db'
    | _ => db
  | .sweep orderId filledAmount status event =>
    (db.updateFilledAmountWithEvent orderId filledAmount status event).getD db

def writeAll (db : Database) (writes : List Write) : Database :=
  writes.foldl write db

/-- The orders of `db` were kept up, and its matches are still there. -/
structure Grows (db db' : Database) : Prop where
  orders : Retains db db'
  orderMatches : db.orderMatches.rows <:+ db'.orderMatches.rows

variable {db db' db'' : Database} {epochId : Uuid}

theorem Retains.trans (h : Retains db db') (h' : Retains db' db'') : Retains db db'' := by
  intro o ho
  obtain ⟨o', ho', hup⟩ := h o ho
  obtain ⟨o'', ho'', hup'⟩ := h' o' ho'
  exact ⟨o'', ho'', hup.trans hup'⟩

theorem Grows.refl (db : Database) : Grows db db := ⟨.refl, List.suffix_rfl⟩

theorem Grows.trans (h : Grows db db') (h' : Grows db' db'') : Grows db db'' :=
  ⟨h.orders.trans h'.orders, h.orderMatches.trans h'.orderMatches⟩

theorem grows_write (db : Database) (w : Write) : Grows db (db.write w) := by
  cases w with
  | statement st =>
    cases hexec : db.exec st with
    | none => simpa only [write, hexec] using .refl db
    | some db' =>
      simp only [write, hexec, Option.getD_some]
      exact ⟨exec_retains hexec, by rw [(exec_keeps hexec).orderMatches]⟩
  | trade t =>
    cases htrade : db.persistMatchedTrade t.settlement t.orderMatch t.event t.buyer t.seller with
    | refused => simpa only [write, htrade] using .refl db
    | failed => simpa only [write, htrade] using .refl db
    | committed db' =>
      simp only [write, htrade]
      obtain ⟨_, row, _, _, hrows⟩ := persistMatchedTrade_rows htrade
      exact ⟨(persistMatchedTrade_upkeeps htrade).retains, hrows.orderMatches ▸ List.suffix_cons row _⟩
  | sweep orderId filledAmount status event =>
    cases hupdate : db.updateFilledAmountWithEvent orderId filledAmount status event with
    | none => simpa only [write, hupdate] using .refl db
    | some db' =>
      simp only [write, hupdate, Option.getD_some]
      have hmatches : db'.orderMatches = db.orderMatches := by
        rcases setFill_of_updateFilledAmount hupdate with ⟨rfl, _⟩ | ⟨_, _, _, _, _, _, rfl⟩ <;> rfl
      exact ⟨(updateFilledAmountWithEvent_upkeeps hupdate).retains, by rw [hmatches]⟩

theorem grows_writeAll (db : Database) (writes : List Write) : Grows db (db.writeAll writes) := by
  unfold writeAll
  apply List.foldlRecOn (motive := Grows db)
  · exact .refl db
  · exact fun db' h w _ => h.trans (db'.grows_write w)

theorem IsInterval.retains {id : Uuid} (h : db.IsInterval epochId id) (hret : Retains db db') :
    db'.IsInterval epochId id := by
  obtain ⟨o, ho, hid, hsegment, hepoch⟩ := h
  obtain ⟨o', ho', hup⟩ := hret o ho
  exact ⟨o', ho', hup.terms.id.trans hid, hup.marketSegment.trans hsegment, hup.epochId.trans hepoch⟩

def writtenTrades (db : Database) (epochId : Uuid) (ids : List Uuid) : List (OrderMatch Numeric) :=
  (db.intervalTrades epochId).filter (·.id ∈ ids)

def othersTrades (db : Database) (epochId : Uuid) (ids : List Uuid) : List (OrderMatch Numeric) :=
  (db.intervalTrades epochId).filter fun m => ¬m.id ∈ ids

theorem mem_intervalTrades {m : OrderMatch Numeric} :
    m ∈ db.intervalTrades epochId ↔ m ∈ db.orderMatches.rows ∧ db.IsInterval epochId m.buyOrderId := by
  rw [intervalTrades, List.mem_filter, decide_eq_true_iff]

theorem nodup_writtenTrades (db : Database) (epochId : Uuid) (ids : List Uuid) :
    (db.writtenTrades epochId ids).Nodup :=
  (db.orderMatches.keys_nodup.of_map.filter _).filter _

theorem writtenTrades_cons {m : OrderMatch Numeric} {ids : List Uuid} (hm : m ∈ db.intervalTrades epochId)
    (hfresh : m.id ∉ ids) :
    (db.writtenTrades epochId (m.id :: ids)).Perm (m :: db.writtenTrades epochId ids) := by
  have hout : m ∉ db.writtenTrades epochId ids := fun h =>
    hfresh (of_decide_eq_true (List.mem_filter.mp h).2)
  rw [List.perm_ext_iff_of_nodup (db.nodup_writtenTrades epochId _)
    (List.nodup_cons.mpr ⟨hout, db.nodup_writtenTrades epochId ids⟩)]
  intro m'
  simp only [writtenTrades, List.mem_filter, List.mem_cons, decide_eq_true_eq]
  constructor
  · rintro ⟨hm', hid | hid⟩
    · exact .inl (KeyedTable.row_unique (mem_intervalTrades.mp hm').1 (mem_intervalTrades.mp hm).1 hid)
    · exact .inr ⟨hm', hid⟩
  · rintro (rfl | ⟨hm', hid⟩)
    · exact ⟨hm, .inl rfl⟩
    · exact ⟨hm', .inr hid⟩

theorem intervalTrades_perm (db : Database) (epochId : Uuid) (ids : List Uuid) :
    (db.writtenTrades epochId ids ++ db.othersTrades epochId ids).Perm (db.intervalTrades epochId) := by
  unfold writtenTrades othersTrades
  convert List.filter_append_perm (fun m : OrderMatch Numeric => decide (m.id ∈ ids)) _ using 3
  simp

end Database

structure Attempt where
  before : List Database.Write
  ids : TradeIds
  rates : ChargeRates
  reaches : Bool

/-- What the persist loop leaves: the database, the ids of the matches that it wrote and
the matches that it gave up. -/
structure PersistedMatches where
  db : Database
  written : List Uuid
  givenUp : List MatchResult

def Job.persistMatches (job : Job) (attempt : ℕ → Attempt) :
    ℕ → Database → List MatchResult → PersistedMatches
  | _, db, [] => ⟨db, [], []⟩
  | k, db, m :: ms =>
    let db₁ := db.writeAll (attempt k).before
    match if (attempt k).reaches then job.persistMatch db₁ m (attempt k).ids (attempt k).rates
      else .failed with
    | .committed db₂ =>
      let out := job.persistMatches attempt (k + 1) db₂ ms
      { out with written := (attempt k).ids.matchId :: out.written }
    | _ =>
      let out := job.persistMatches attempt (k + 1) db₁ ms
      { out with givenUp := m :: out.givenUp }

section PersistLoop

variable {job : Job} {attempt : ℕ → Attempt} {db db' : Database} {epochId : Uuid}

/-- A match that commits is a new row under the id that was drawn for it. -/
theorem Job.exists_row_of_persistMatch {m : MatchResult} {ids : TradeIds} {rates : ChargeRates}
    (h : job.persistMatch db m ids rates = .committed db') :
    ∃ row : OrderMatch Numeric, db'.orderMatches.rows = row :: db.orderMatches.rows ∧
      row.id = ids.matchId ∧ row.buyOrderId = m.buyOrderId ∧
      Numeric.store m.matchAmount = some row.matchedAmount := by
  obtain ⟨_, row, _, hstore, hrows⟩ := Database.persistMatchedTrade_rows h
  obtain ⟨hid, hbuy, _, hamount⟩ := OrderMatch.store_eq_some hstore
  exact ⟨row, hrows.orderMatches, hid, hbuy, hamount⟩

theorem Job.persistMatch_grows {m : MatchResult} {ids : TradeIds} {rates : ChargeRates}
    (h : job.persistMatch db m ids rates = .committed db') : db.Grows db' := by
  obtain ⟨row, hrows, _⟩ := Job.exists_row_of_persistMatch h
  exact ⟨(Database.persistMatchedTrade_upkeeps h).retains, hrows ▸ List.suffix_cons row _⟩

/-- The loop adds rows, and those that it wrote were not there before. -/
theorem Job.persistMatches_grows (job : Job) (attempt : ℕ → Attempt) (ms : List MatchResult) (k : ℕ)
    (db : Database) :
    db.Grows (job.persistMatches attempt k db ms).db ∧
      ∀ id ∈ (job.persistMatches attempt k db ms).written, ∀ m ∈ db.orderMatches.rows, m.id ≠ id := by
  induction ms generalizing k db with
  | nil => exact ⟨.refl db, by simp [Job.persistMatches]⟩
  | cons m ms ih =>
    have hothers := db.grows_writeAll (attempt k).before
    simp only [Job.persistMatches]
    split
    next db₂ hcommitted =>
      split_ifs at hcommitted
      have hcommit := hothers.trans (Job.persistMatch_grows hcommitted)
      obtain ⟨row, hrows, hid, _⟩ := Job.exists_row_of_persistMatch hcommitted
      obtain ⟨hgrows, hfresh⟩ := ih (k + 1) db₂
      refine ⟨hcommit.trans hgrows, List.forall_mem_cons.mpr ⟨fun m' hm' hsame => ?_, fun id hw m' hm' =>
        hfresh id hw m' (hcommit.orderMatches.mem hm')⟩⟩
      have hkeys := db₂.orderMatches.keys_nodup
      rw [hrows, List.map_cons, List.nodup_cons] at hkeys
      exact hkeys.1 (List.mem_map.mpr ⟨m', hothers.orderMatches.mem hm', hsame.trans hid.symm⟩)
    · obtain ⟨hgrows, hfresh⟩ := ih (k + 1) (db.writeAll (attempt k).before)
      exact ⟨hothers.trans hgrows, fun id hw m' hm' => hfresh id hw m' (hothers.orderMatches.mem hm')⟩

/-- Every match is among the rows that the loop wrote, in every later state, or among
those that it gave up. -/
theorem Job.persistMatches_tally (job : Job) (attempt : ℕ → Attempt) {ms : List MatchResult} (k : ℕ)
    (db : Database) (hgrid : ∀ m ∈ ms, m.matchAmount ∈ Numeric.grid)
    (hinterval : ∀ m ∈ ms, db.IsInterval epochId m.buyOrderId)
    (hlater : (job.persistMatches attempt k db ms).db.Grows db') :
    ((db'.writtenTrades epochId (job.persistMatches attempt k db ms).written).map
          (·.matchedAmount.toDecimal) ++
        (job.persistMatches attempt k db ms).givenUp.map (·.matchAmount)).Perm
      (ms.map (·.matchAmount)) := by
  induction ms generalizing k db with
  | nil => simp [Job.persistMatches, Database.writtenTrades]
  | cons m ms ih =>
    obtain ⟨hm, hgrid⟩ := List.forall_mem_cons.mp hgrid
    have hothers := db.grows_writeAll (attempt k).before
    simp only [Job.persistMatches] at hlater ⊢
    split at hlater
    next db₂ hcommitted =>
      split_ifs at hcommitted
      have hcommit := hothers.trans (Job.persistMatch_grows hcommitted)
      obtain ⟨row, hrows, hid, hbuy, hamount⟩ := Job.exists_row_of_persistMatch hcommitted
      obtain ⟨hgrows, hfresh⟩ := job.persistMatches_grows attempt ms (k + 1) db₂
      have hrow : row ∈ db₂.orderMatches.rows := hrows ▸ List.mem_cons_self
      obtain ⟨hinterval', hinterval⟩ := List.forall_mem_cons.mp fun m hm =>
        (hinterval m hm).retains hcommit.orders
      have hlast := hgrows.trans hlater
      have hmem : row ∈ db'.intervalTrades epochId :=
        Database.mem_intervalTrades.mpr ⟨hlast.orderMatches.mem hrow, hbuy ▸ hinterval'.retains hlast.orders⟩
      have hrest := ih (k + 1) db₂ hgrid hinterval hlater
      have hcons := Database.writtenTrades_cons hmem fun hw => hfresh row.id hw row hrow rfl
      rw [List.map_cons, ← hid, ← Numeric.toDecimal_of_store hamount hm]
      exact ((hcons.map _).append_right _).trans (hrest.cons _)
    · have hrest := ih (k + 1) _ hgrid
        (fun m' hm' => (hinterval m' (List.mem_cons_of_mem _ hm')).retains hothers.orders) hlater
      exact List.perm_middle.trans (hrest.cons _)

end PersistLoop

/-- The totals of the summary are those of the matches that are to be persisted. -/
theorem clearingSummary_tally (epochId : Uuid) (buys sells : List OrderRow)
    (topology : TopologySnapshot) (nowNs : I64) :
    (clearingSummary epochId buys sells topology nowNs).totalVolume =
        ((runEpochClearing buys sells topology nowNs).pending.map (·.matchAmount)).sum ∧
      (clearingSummary epochId buys sells topology nowNs).matchCount =
        (runEpochClearing buys sells topology nowNs).pending.length := by
  unfold clearingSummary runEpochClearing
  split_ifs
  · exact ⟨rfl, rfl⟩
  · have htallied := UniformAuction.clearCycle_tallied (toFastOrders buys).1 (toFastOrders sells).1
      (toFastOrders buys).2 topology nowNs
    dsimp only
    split_ifs with hempty
    · rw [hempty]
      exact ⟨rfl, rfl⟩
    · exact htallied

/-- One epoch's turn of `clear_due_epochs`: what the auction and the persist loop meet, and
what other sessions write between the two fetches and before the epoch is closed. -/
structure EpochClearing where
  epochId : Uuid
  between : List Database.Write
  topology : TopologySnapshot
  nowNs : I64
  attempt : ℕ → Attempt
  beforeClose : List Database.Write

namespace EpochClearing

variable (c : EpochClearing) (db : Database)

def buys : List OrderRow := (JobKind.clearing c.epochId).select (db.activeOrders .buy)

def sells : List OrderRow :=
  (JobKind.clearing c.epochId).select ((db.writeAll c.between).activeOrders .sell)

def job : Job := runEpochClearing (c.buys db) (c.sells db) c.topology c.nowNs

def summary : ClearingSummary := clearingSummary c.epochId (c.buys db) (c.sells db) c.topology c.nowNs

def persisted : PersistedMatches :=
  (c.job db).persistMatches c.attempt 0 (db.writeAll c.between) (c.job db).pending

def closing : Database := (c.persisted db).db.writeAll c.beforeClose

/-- The epoch's matches at the close that this clearing did not write: those of an earlier
clearing, or of one in another process. -/
def others : List (OrderMatch Numeric) :=
  (c.closing db).othersTrades c.epochId (c.persisted db).written

/-- What the clearing gave up is as much as others had persisted when the epoch was closed. -/
def Balanced : Prop :=
  ((c.persisted db).givenUp.map (·.matchAmount)).sum =
      ((c.others db).map (·.matchedAmount.toDecimal)).sum ∧
    (c.persisted db).givenUp.length = (c.others db).length

instance : Decidable (c.Balanced db) := inferInstanceAs (Decidable (_ ∧ _))

end EpochClearing

/-- The totals of the epoch are those of its interval trades. -/
def MarketEpoch.Records (e : MarketEpoch) (db : Database) : Prop :=
  e.totalVolume.map (·.toDecimal) = some (db.intervalVolume e.id) ∧
    e.matchedOrders.map (·.val) = some ((db.intervalTrades e.id).length : ℤ)

instance (e : MarketEpoch) (db : Database) : Decidable (e.Records db) :=
  inferInstanceAs (Decidable (_ ∧ _))

namespace EpochClearing

variable {c : EpochClearing} {db : Database}

theorem summary_epochId : (c.summary db).epochId = c.epochId :=
  clearingSummary_epochId c.epochId (c.buys db) (c.sells db) c.topology c.nowNs

theorem pending_isInterval : ∀ m ∈ (c.job db).pending, db.IsInterval c.epochId m.buyOrderId := by
  intro m hm
  obtain ⟨b, hb, hid⟩ := (Job.decided_runEpochClearing c.topology c.nowNs).buy_mem m hm
  obtain ⟨hactive, hselect⟩ := List.mem_filter.mp hb
  obtain ⟨hsegment, hepoch⟩ := of_decide_eq_true hselect
  exact ⟨b, List.mem_of_mem_filter hactive, hid, hsegment, hepoch⟩

/-- The epoch's volume and matches at the close, with what was given up, are what the
auction found with what others persisted. -/
theorem closing_tally (c : EpochClearing) (db : Database) :
    (c.closing db).intervalVolume c.epochId + ((c.persisted db).givenUp.map (·.matchAmount)).sum =
        ((c.job db).pending.map (·.matchAmount)).sum +
          ((c.others db).map (·.matchedAmount.toDecimal)).sum ∧
      ((c.closing db).intervalTrades c.epochId).length + (c.persisted db).givenUp.length =
        (c.job db).pending.length + (c.others db).length := by
  have hgrid : ∀ m ∈ (c.job db).pending, m.matchAmount ∈ Numeric.grid :=
    (Job.decided_runEpochClearing c.topology c.nowNs).amount_mem
  have hbetween := (db.grows_writeAll c.between).orders
  have hours : (((c.closing db).writtenTrades c.epochId (c.persisted db).written).map
        (·.matchedAmount.toDecimal) ++ (c.persisted db).givenUp.map (·.matchAmount)).Perm
      ((c.job db).pending.map (·.matchAmount)) :=
    (c.job db).persistMatches_tally c.attempt 0 (db.writeAll c.between) hgrid
      (fun m hm => (pending_isInterval m hm).retains hbetween)
      ((c.persisted db).db.grows_writeAll c.beforeClose)
  have hall := (c.closing db).intervalTrades_perm c.epochId (c.persisted db).written
  have hvolume := hours.sum_eq
  have hvolumes := (hall.map (·.matchedAmount.toDecimal)).sum_eq
  have hcount := hours.length_eq
  have hcounts := hall.length_eq
  rw [List.sum_append] at hvolume
  rw [List.map_append, List.sum_append] at hvolumes
  simp only [List.length_append, List.length_map] at hcount hcounts
  unfold Database.intervalVolume others
  exact ⟨by linarith, by omega⟩

/-- An epoch that is closed records what was persisted exactly if its clearing gave up as
much as others persisted: where there are none, nothing at all. The matches are in a vector,
whose length is bounded. -/
theorem records_iff {epochs epochs' : Epochs} {e : MarketEpoch} (hactive : epochs.IsActive c.epochId)
    (hmark : epochs.markEpochCleared (c.summary db) = some epochs') (he : e ∈ epochs'.rows)
    (hid : e.id = c.epochId) (hlength : ((c.job db).pending.length : ℤ) ≤ 9223372036854775807) :
    e.Records (c.closing db) ↔ c.Balanced db := by
  obtain ⟨volume, hstore, hvolume, hcount⟩ := Epochs.totals_of_markEpochCleared hmark
    (summary_epochId (c := c) ▸ hactive) he (hid.trans summary_epochId.symm)
  obtain ⟨htotal, hmatches⟩ : (c.summary db).totalVolume = ((c.job db).pending.map (·.matchAmount)).sum ∧
      (c.summary db).matchCount = (c.job db).pending.length :=
    clearingSummary_tally c.epochId (c.buys db) (c.sells db) c.topology c.nowNs
  have hgrid : ∀ m ∈ (c.job db).pending, m.matchAmount ∈ Numeric.grid :=
    (Job.decided_runEpochClearing c.topology c.nowNs).amount_mem
  have hsum : ((c.job db).pending.map (·.matchAmount)).sum ∈ Numeric.grid := by
    apply AddSubgroup.list_sum_mem
    intro x hx
    obtain ⟨m, hm, rfl⟩ := List.mem_map.mp hx
    exact hgrid m hm
  have hrecorded : volume.toDecimal = ((c.job db).pending.map (·.matchAmount)).sum :=
    (Numeric.toDecimal_of_store hstore (htotal ▸ hsum)).trans htotal
  have hclamped : ((c.summary db).matchedOrders : ℤ) = (c.job db).pending.length := by
    rw [← hmatches] at hlength ⊢
    exact congrArg BoundedInt.val (BoundedInt.saturate_of_mem (by omega) hlength)
  obtain ⟨htallied, hlengths⟩ := closing_tally c db
  unfold MarketEpoch.Records Balanced
  rw [hvolume, hcount, hid, Option.map_some, Option.map_some, hrecorded, hclamped, Option.some_inj,
    Option.some_inj]
  constructor
  · rintro ⟨hv, hc⟩
    exact ⟨by linarith, by omega⟩
  · rintro ⟨hv, hc⟩
    exact ⟨by linarith, by omega⟩

def intervalPair : Database :=
  .ofRows ⟨[{ OrderRow.placed 1 .buy 5 1 with epochId := some 7, marketSegment := .interval },
    { OrderRow.placed 2 .sell 5 1 with epochId := some 7, marketSegment := .interval }], by simp [OrderRow.placed]⟩
    .empty

def ofSeven (reaches : Bool) (before : List Database.Write) : EpochClearing where
  epochId := 7
  between := []
  topology := .freeGrid fun _ _ => 100
  nowNs := BoundedInt.saturate 0
  attempt _ := ⟨before, ⟨4, 5, 6, 0⟩, ⟨0, 0, 0⟩, reaches⟩
  beforeClose := []

/-- The clearing of another process persists the match first, and this one is refused. -/
def ofSevenOvertaken : EpochClearing := ofSeven true [.trade (.oneUnit 9 1 2)]

theorem records_ofSeven :
    ∃ epochs' ∈ Epochs.halfway.markEpochCleared (ofSevenOvertaken.summary intervalPair),
      ∃ e ∈ epochs'.rows, e.Records (ofSevenOvertaken.closing intervalPair) := by
  obtain ⟨epochs', hmark⟩ : ∃ epochs', Epochs.halfway.markEpochCleared
      (ofSevenOvertaken.summary intervalPair) = some epochs' := Option.isSome_iff_exists.mp (by decide +kernel)
  obtain ⟨e, he, hid⟩ : ∃ e ∈ epochs'.rows, e.id = ofSevenOvertaken.epochId := by
    have hids : ∀ t ∈ Epochs.halfway.markEpochCleared (ofSevenOvertaken.summary intervalPair),
        ∃ e ∈ t.rows, e.id = ofSevenOvertaken.epochId := by decide +kernel
    exact hids epochs' hmark
  exact ⟨epochs', hmark, e, he, (records_iff (by decide +kernel) hmark he hid (by decide +kernel)).mpr
    (by decide +kernel)⟩

/-- The match is given up, and the epoch still records one unit. -/
theorem lost_match_is_recorded :
    ∃ epochs' ∈ Epochs.halfway.markEpochCleared ((ofSeven false []).summary intervalPair),
      ∃ e ∈ epochs'.rows, e.status = .cleared ∧ ¬e.Records ((ofSeven false []).closing intervalPair) := by
  decide +kernel

end EpochClearing

end TradingService
