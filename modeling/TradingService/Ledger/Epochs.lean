import TradingService.Ledger.Matching

/-!
# Market epochs

The table of the epochs, the three statements on it, and the summary that a clearing
writes to its epoch. The summary is made of what the auction found, before any match
of it is persisted.
-/

namespace TradingService

inductive EpochStatus
  | pending
  | active
  | cleared
  | settled
  deriving DecidableEq

structure MarketEpoch where
  id : Uuid
  epochNumber : ℤ
  startTime : ℤ
  endTime : ℤ
  status : EpochStatus
  clearingPrice : Option Numeric
  totalVolume : Option Numeric
  matchedOrders : Option I64

abbrev Epochs := KeyedTable MarketEpoch.id

namespace Epochs

variable (epochs : Epochs)

def window : ℤ := 15 * 60 * 1000000000

def nextNumber : ℤ := ((epochs.rows.map (·.epochNumber)).max?).getD 0 + 1

/-- The open epoch that ends last. -/
def findOpen (now : ℤ) : Option MarketEpoch :=
  ((epochs.rows.filter fun e => e.status = .active ∧ now < e.endTime).insertionSort
    fun e e' => e'.endTime ≤ e.endTime).head?

/-- The open epoch, or a new one under `newId`. -/
def getOrCreateActiveEpoch (now : ℤ) (newId : Uuid) : Option (Uuid × Epochs) :=
  match epochs.findOpen now with
  | some e => some (e.id, epochs)
  | none =>
    (epochs.insert? {
      id := newId
      epochNumber := epochs.nextNumber
      startTime := now
      endTime := now + window
      status := .active
      clearingPrice := none
      totalVolume := some Numeric.zero
      matchedOrders := some (BoundedInt.saturate 0) }).map fun epochs' => (newId, epochs')

/-- The epochs whose window has elapsed, oldest first. -/
def dueForClearing (now : ℤ) : List Uuid :=
  ((epochs.rows.filter fun e => e.status = .active ∧ e.endTime ≤ now).insertionSort
    fun e e' => e.endTime ≤ e'.endTime).map (·.id)

theorem mem_dueForClearing {now : ℤ} {id : Uuid} :
    id ∈ epochs.dueForClearing now ↔
      ∃ e ∈ epochs.rows, e.id = id ∧ e.status = .active ∧ e.endTime ≤ now := by
  simp only [dueForClearing, List.mem_map, List.mem_insertionSort, List.mem_filter, decide_eq_true_eq]
  constructor
  · rintro ⟨e, ⟨he, hactive, hend⟩, rfl⟩
    exact ⟨e, he, rfl, hactive, hend⟩
  · rintro ⟨e, he, rfl, hactive, hend⟩
    exact ⟨e, ⟨he, hactive, hend⟩, rfl⟩

end Epochs

def Numeric.storeNullable : Option Decimal → Option (Option Numeric)
  | none => some none
  | some d => (store d).map some

structure ClearingSummary where
  epochId : Uuid
  zonesCleared : ℕ
  matchCount : ℕ
  totalVolume : Decimal
  zonePrices : List (ZoneId × Decimal)

namespace ClearingSummary

def empty (epochId : Uuid) : ClearingSummary := ⟨epochId, 0, 0, 0, []⟩

/-- Only the price of a single zone is unambiguous. -/
def clearingPrice (summary : ClearingSummary) : Option Decimal :=
  match summary.zonePrices with
  | [(_, price)] => some price
  | _ => none

def matchedOrders (summary : ClearingSummary) : I64 := BoundedInt.saturate summary.matchCount

end ClearingSummary

def clearingSummary (epochId : Uuid) (buys sells : List OrderRow) (topology : TopologySnapshot)
    (nowNs : I64) : ClearingSummary :=
  if buys = [] ∨ sells = [] then .empty epochId
  else
    let fastBuys := toFastOrders buys
    let fastSells := toFastOrders sells
    let out := UniformAuction.clearCycle fastBuys.1 fastSells.1 fastBuys.2 topology nowNs
    if out.results = [] then .empty epochId
    else
      { epochId := epochId
        zonesCleared := out.zones.length
        matchCount := out.matchesCreated
        totalVolume := out.totalVolume
        zonePrices := out.zones.map fun z => (z.zoneId, z.clearingPrice) }

theorem clearingSummary_epochId (epochId : Uuid) (buys sells : List OrderRow)
    (topology : TopologySnapshot) (nowNs : I64) :
    (clearingSummary epochId buys sells topology nowNs).epochId = epochId := by
  unfold clearingSummary
  split_ifs
  · rfl
  · dsimp only
    split_ifs <;> rfl

namespace Epochs

variable (epochs : Epochs)

def IsActive (epochId : Uuid) : Prop := ∃ e ∈ epochs.rows, e.id = epochId ∧ e.status = .active

instance (epochId : Uuid) : Decidable (epochs.IsActive epochId) :=
  inferInstanceAs (Decidable (∃ e ∈ epochs.rows, _))

/-- Closes an epoch that is active; another one is left as it is. -/
def markEpochCleared (summary : ClearingSummary) : Option Epochs :=
  if epochs.IsActive summary.epochId then do
    let clearingPrice ← Numeric.storeNullable summary.clearingPrice
    let totalVolume ← Numeric.store summary.totalVolume
    return epochs.mapRows
      (fun e => if e.id = summary.epochId ∧ e.status = .active then
        { e with
          status := .cleared
          clearingPrice := clearingPrice
          totalVolume := some totalVolume
          matchedOrders := some summary.matchedOrders } else e)
      (fun e => by split_ifs <;> rfl)
  else some epochs

variable {epochs epochs' : Epochs}

/-- An epoch that is cleared was cleared before, or it is the one that was just
closed. -/
theorem cleared_of_markEpochCleared {summary : ClearingSummary}
    (h : epochs.markEpochCleared summary = some epochs') {e : MarketEpoch} (he : e ∈ epochs'.rows)
    (hcleared : e.status = .cleared) :
    (∃ e₀ ∈ epochs.rows, e₀.id = e.id ∧ e₀.status = .cleared) ∨
      (e.id = summary.epochId ∧ epochs.IsActive summary.epochId) := by
  unfold markEpochCleared at h
  split_ifs at h with hactive
  · obtain ⟨price, _, h⟩ := Option.bind_eq_some_iff.mp h
    obtain ⟨volume, _, h⟩ := Option.bind_eq_some_iff.mp h
    obtain rfl := Option.some.inj h
    obtain ⟨e₀, he₀, rfl⟩ := KeyedTable.mem_mapRows.mp he
    by_cases hguard : e₀.id = summary.epochId ∧ e₀.status = .active
    · rw [if_pos hguard]
      exact .inr ⟨hguard.1, hactive⟩
    · rw [if_neg hguard] at hcleared ⊢
      exact .inl ⟨e₀, he₀, rfl, hcleared⟩
  · obtain rfl := Option.some.inj h
    exact .inl ⟨e, he, rfl, hcleared⟩

theorem totals_of_markEpochCleared {summary : ClearingSummary}
    (h : epochs.markEpochCleared summary = some epochs') (hactive : epochs.IsActive summary.epochId)
    {e : MarketEpoch} (he : e ∈ epochs'.rows) (hid : e.id = summary.epochId) :
    ∃ volume, Numeric.store summary.totalVolume = some volume ∧ e.totalVolume = some volume ∧
      e.matchedOrders = some summary.matchedOrders := by
  unfold markEpochCleared at h
  rw [if_pos hactive] at h
  obtain ⟨price, _, h⟩ := Option.bind_eq_some_iff.mp h
  obtain ⟨volume, hvolume, h⟩ := Option.bind_eq_some_iff.mp h
  obtain rfl := Option.some.inj h
  obtain ⟨e₀, he₀, rfl⟩ := KeyedTable.mem_mapRows.mp he
  obtain ⟨e₁, he₁, hid₁, hstatus⟩ := hactive
  have hid₀ : e₀.id = summary.epochId := by
    rw [← hid]
    split_ifs <;> rfl
  obtain rfl := KeyedTable.row_unique he₁ he₀ (hid₁.trans hid₀.symm)
  rw [if_pos ⟨hid₁, hstatus⟩]
  exact ⟨volume, hvolume, rfl, rfl⟩

theorem cleared_of_getOrCreate {now : ℤ} {newId epochId : Uuid}
    (h : epochs.getOrCreateActiveEpoch now newId = some (epochId, epochs')) {e : MarketEpoch}
    (he : e ∈ epochs'.rows) (hcleared : e.status = .cleared) : e ∈ epochs.rows := by
  unfold getOrCreateActiveEpoch at h
  split at h
  · obtain ⟨_, rfl⟩ := Prod.mk.inj (Option.some.inj h)
    exact he
  · obtain ⟨epochs₁, hinsert, hpair⟩ := Option.map_eq_some_iff.mp h
    obtain ⟨_, rfl⟩ := Prod.mk.inj hpair
    rw [(KeyedTable.insert?_eq_some hinsert).2] at he
    rcases List.mem_cons.mp he with rfl | he
    · cases hcleared
    · exact he

def halfway : Epochs where
  rows := [{
    id := 7
    epochNumber := 1
    startTime := -600 * 1000000000
    endTime := 300 * 1000000000
    status := .active
    clearingPrice := none
    totalVolume := some Numeric.zero
    matchedOrders := some (BoundedInt.saturate 0) }]
  keys_nodup := by simp

end Epochs

end TradingService
