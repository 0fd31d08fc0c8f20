import TradingService.Ledger.Epochs
import TradingService.Lib.Runs

/-!
# The windows of the market epochs

Every call of `get_or_create_active_epoch` is a transaction, whose `NOW()` is the moment
it began. The transactions queue for the advisory lock, and the one that holds it looks
for an open epoch and inserts the next one if there is none; the row is seen by others
from the commit on. The clearers take no lock. The clock never goes back.
-/

namespace TradingService

namespace Epochs

variable (epochs : Epochs)

def opened (now : ℤ) (newId : Uuid) : MarketEpoch where
  id := newId
  epochNumber := epochs.nextNumber
  startTime := now
  endTime := now + window
  status := .active
  clearingPrice := none
  totalVolume := some Numeric.zero
  matchedOrders := some (BoundedInt.saturate 0)

theorem getOrCreateActiveEpoch_of_none {now : ℤ} {newId : Uuid} (h : epochs.findOpen now = none) :
    epochs.getOrCreateActiveEpoch now newId =
      (epochs.insert? (epochs.opened now newId)).map fun epochs' => (newId, epochs') := by
  rw [getOrCreateActiveEpoch, h]
  rfl

theorem findOpen_eq_none {now : ℤ} :
    epochs.findOpen now = none ↔ ∀ e ∈ epochs.rows, e.status = .active → e.endTime ≤ now := by
  rw [findOpen, List.head?_eq_none_iff, ← List.length_eq_zero_iff, List.length_insertionSort,
    List.length_eq_zero_iff, List.filter_eq_nil_iff]
  simp only [decide_eq_true_eq, not_and, not_lt]

theorem lt_nextNumber {e : MarketEpoch} (he : e ∈ epochs.rows) : e.epochNumber < epochs.nextNumber := by
  have hmem : e.epochNumber ∈ epochs.rows.map (·.epochNumber) := List.mem_map_of_mem he
  unfold nextNumber
  cases hmax : (epochs.rows.map (·.epochNumber)).max? with
  | none => exact absurd hmem (by simp [List.max?_eq_none_iff.mp hmax])
  | some n => exact Int.lt_add_one_of_le ((List.max?_eq_some_iff.mp hmax).2 _ hmem)

end Epochs

structure MarketEpoch.ClosesTo (e e' : MarketEpoch) : Prop where
  id : e'.id = e.id
  epochNumber : e'.epochNumber = e.epochNumber
  startTime : e'.startTime = e.startTime
  endTime : e'.endTime = e.endTime
  active : e'.status = .active → e.status = .active

theorem Epochs.rows_of_markEpochCleared {epochs epochs' : Epochs} {summary : ClearingSummary}
    (h : epochs.markEpochCleared summary = some epochs') :
    ∃ f : MarketEpoch → MarketEpoch, epochs'.rows = epochs.rows.map f ∧
      ∀ e : MarketEpoch, e.ClosesTo (f e) := by
  unfold markEpochCleared at h
  split_ifs at h
  · obtain ⟨price, _, h⟩ := Option.bind_eq_some_iff.mp h
    obtain ⟨volume, _, h⟩ := Option.bind_eq_some_iff.mp h
    obtain rfl := Option.some.inj h
    refine ⟨_, KeyedTable.rows_mapRows, fun e => ?_⟩
    split_ifs
    · exact ⟨rfl, rfl, rfl, rfl, fun h => by cases h⟩
    · exact ⟨rfl, rfl, rfl, rfl, id⟩
  · obtain rfl := Option.some.inj h
    exact ⟨id, (List.map_id _).symm, fun e => ⟨rfl, rfl, rfl, rfl, id⟩⟩

section Closing

variable {epochs epochs' : Epochs} {summary : ClearingSummary}

theorem Epochs.mem_of_markEpochCleared (h : epochs.markEpochCleared summary = some epochs')
    {e' : MarketEpoch} (he' : e' ∈ epochs'.rows) : ∃ e ∈ epochs.rows, e.ClosesTo e' := by
  obtain ⟨f, hrows, hf⟩ := rows_of_markEpochCleared h
  rw [hrows] at he'
  obtain ⟨e, he, rfl⟩ := List.mem_map.mp he'
  exact ⟨e, he, hf e⟩

theorem Epochs.numbers_of_markEpochCleared (h : epochs.markEpochCleared summary = some epochs') :
    epochs'.rows.map (·.epochNumber) = epochs.rows.map (·.epochNumber) := by
  obtain ⟨f, hrows, hf⟩ := rows_of_markEpochCleared h
  rw [hrows, List.map_map]
  exact List.map_congr_left fun e _ => (hf e).epochNumber

theorem Epochs.opened_of_markEpochCleared (h : epochs.markEpochCleared summary = some epochs')
    (now : ℤ) (newId : Uuid) : epochs'.opened now newId = epochs.opened now newId := by
  unfold opened nextNumber
  rw [numbers_of_markEpochCleared h]

theorem Epochs.findOpen_of_markEpochCleared (h : epochs.markEpochCleared summary = some epochs')
    {now : ℤ} (hnone : epochs.findOpen now = none) : epochs'.findOpen now = none := by
  rw [findOpen_eq_none] at hnone ⊢
  intro e' he' hactive
  obtain ⟨e, he, hcloses⟩ := mem_of_markEpochCleared h he'
  exact hcloses.endTime ▸ hnone e he (hcloses.active hactive)

end Closing

inductive EpochStage
  | locked
  | vacant
  | inserted (epoch : MarketEpoch)
  | resolved (epochId : Uuid)

/-- A transaction that waits is its `NOW()`, and so is the first part of the holder. `due`
are the epochs that some clearer has listed. -/
structure EpochLock where
  clock : ℤ
  epochs : Epochs
  waiting : List ℤ
  holder : Option (ℤ × EpochStage)
  due : List Uuid

inductive EpochLock.Action
  | tick (elapsed : ℕ)
  | beginTx
  | lock (now : ℤ)
  | lookup
  | insert (newId : Uuid)
  | commit
  | rollback
  | fetchDue
  | markCleared (summary : ClearingSummary)

namespace EpochLock

def start (clock : ℤ) : EpochLock := ⟨clock, .empty, [], none, []⟩

def advance (s : EpochLock) : ℤ × EpochStage → Action → Option EpochLock
  | (now, .locked), .lookup =>
    match s.epochs.findOpen now with
    | some e => some { s with holder := some (now, .resolved e.id) }
    | none => some { s with holder := some (now, .vacant) }
  | (now, .vacant), .insert newId =>
    match s.epochs.insert? (s.epochs.opened now newId) with
    | some _ => some { s with holder := some (now, .inserted (s.epochs.opened now newId)) }
    | none => some { s with holder := none }
  | (_, .inserted epoch), .commit =>
    (s.epochs.insert? epoch).map fun epochs => { s with epochs := epochs, holder := none }
  | (_, .resolved _), .commit => some { s with holder := none }
  | _, .rollback => some { s with holder := none }
  | _, _ => none

def step (s : EpochLock) : Action → Option EpochLock
  | .tick elapsed => some { s with clock := s.clock + elapsed }
  | .beginTx => some { s with waiting := s.clock :: s.waiting }
  | .lock now =>
    if s.holder.isNone ∧ now ∈ s.waiting then
      some { s with waiting := s.waiting.erase now, holder := some (now, .locked) }
    else none
  | .fetchDue => some { s with due := s.epochs.dueForClearing s.clock ++ s.due }
  | .markCleared summary =>
    if summary.epochId ∈ s.due then
      (s.epochs.markEpochCleared summary).map fun epochs => { s with epochs := epochs }
    else none
  | a => s.holder.bind fun tx => s.advance tx a

end EpochLock

namespace EpochLock

/-- A call that no one else comes between is `getOrCreateActiveEpoch`. -/
theorem exists_run_of_getOrCreate {s : EpochLock} {now : ℤ} {newId epochId : Uuid} {epochs : Epochs}
    (hfree : s.holder = none) (hnow : now ∈ s.waiting)
    (h : s.epochs.getOrCreateActiveEpoch now newId = some (epochId, epochs)) :
    ∃ as : List Action, as.foldlM step s =
      some { s with epochs := epochs, waiting := s.waiting.erase now, holder := none } := by
  cases hopen : s.epochs.findOpen now with
  | some e =>
    rw [Epochs.getOrCreateActiveEpoch, hopen] at h
    obtain ⟨_, rfl⟩ := Prod.mk.inj (Option.some.inj h)
    exact ⟨[.lock now, .lookup, .commit], by simp [step, advance, hfree, hnow, hopen]⟩
  | none =>
    rw [Epochs.getOrCreateActiveEpoch_of_none _ hopen] at h
    obtain ⟨epochs', hinsert, hpair⟩ := Option.map_eq_some_iff.mp h
    obtain ⟨_, rfl⟩ := Prod.mk.inj hpair
    exact ⟨[.lock now, .lookup, .insert newId, .commit], by
      simp [step, advance, hfree, hnow, hopen, hinsert]⟩

end EpochLock

def MarketEpoch.span (e : MarketEpoch) : Set ℤ := Set.Ico e.startTime e.endTime

def MarketEpoch.IsOpen (e : MarketEpoch) (now : ℤ) : Prop := e.status = .active ∧ now < e.endTime

theorem MarketEpoch.ClosesTo.span_eq {e e' : MarketEpoch} (h : e.ClosesTo e') : e'.span = e.span := by
  rw [span, span, h.startTime, h.endTime]

theorem MarketEpoch.ClosesTo.isOpen {e e' : MarketEpoch} (h : e.ClosesTo e') {now : ℤ}
    (hopen : e'.IsOpen now) : e.IsOpen now := ⟨h.active hopen.1, h.endTime ▸ hopen.2⟩

namespace EpochLock

def Apart (s : EpochLock) : Prop :=
  s.epochs.rows.Pairwise fun e e' => Disjoint e.span e'.span

instance (s : EpochLock) : Decidable s.Apart :=
  have : DecidableRel fun e e' : MarketEpoch => Disjoint e.span e'.span := fun _ _ =>
    decidable_of_iff _ Set.Ico_disjoint_Ico.symm
  inferInstanceAs (Decidable (s.epochs.rows.Pairwise _))

structure WindowsKept (s : EpochLock) : Prop where
  apart : s.Apart
  openUnique : ∀ e ∈ s.epochs.rows, ∀ e' ∈ s.epochs.rows, e.IsOpen s.clock → e'.IsOpen s.clock → e = e'
  numbers : (s.epochs.rows.map (·.epochNumber)).Nodup

/-- Whenever a transaction looks for an open epoch, every epoch that has some time in
common with the window from its `NOW()` is still active: none of them was closed while it
waited. -/
def LooksInTime (s : EpochLock) : Action → Prop
  | .lookup => ∀ tx ∈ s.holder, ∀ e ∈ s.epochs.rows,
      e.startTime < tx.1 + Epochs.window → tx.1 < e.endTime → e.status = .active
  | _ => True

instance (s : EpochLock) (a : Action) : Decidable (s.LooksInTime a) := by
  unfold LooksInTime
  split <;> infer_instance

end EpochLock

namespace EpochStage

def Sound (now : ℤ) (epochs : Epochs) : EpochStage → Prop
  | .vacant => epochs.findOpen now = none
  | .inserted epoch => epochs.findOpen now = none ∧ ∃ newId, epoch = epochs.opened now newId
  | _ => True

def HasRoom (now : ℤ) (epochs : Epochs) : EpochStage → Prop
  | .locked | .resolved _ => True
  | _ => ∀ e ∈ epochs.rows, Disjoint e.span (Set.Ico now (now + Epochs.window))

end EpochStage

namespace EpochLock

variable {s s' : EpochLock} {a : Action}

inductive Arrives (s : EpochLock) (a : Action) : ℤ × EpochStage → Prop
  | stays {tx} (h : tx ∈ s.holder) : Arrives s a tx
  | locked {now} (h : now ∈ s.waiting) : Arrives s a (now, .locked)
  | resolved {now} (epochId) (h : (now, .locked) ∈ s.holder) : Arrives s a (now, .resolved epochId)
  | vacant {now} (ha : a = .lookup) (h : (now, .locked) ∈ s.holder)
    (hnone : s.epochs.findOpen now = none) : Arrives s a (now, .vacant)
  | inserted {now} (newId) (h : (now, .vacant) ∈ s.holder) :
    Arrives s a (now, .inserted (s.epochs.opened now newId))

inductive Changes (s : EpochLock) (a : Action) (s' : EpochLock) : Prop
  | nothing (epochs : s'.epochs = s.epochs) (clock : s.clock ≤ s'.clock)
    (waiting : ∀ now ∈ s'.waiting, now ∈ s.waiting ∨ now = s'.clock)
    (holder : ∀ tx ∈ s'.holder, s.Arrives a tx)
  | commits {now epoch epochs} (htx : (now, .inserted epoch) ∈ s.holder)
    (hinsert : s.epochs.insert? epoch = some epochs)
    (hs' : s' = { s with epochs := epochs, holder := none })
  | closes {summary epochs} (hmark : s.epochs.markEpochCleared summary = some epochs)
    (hs' : s' = { s with epochs := epochs })

theorem changes_nothing {holder : Option (ℤ × EpochStage)} (h : ∀ tx ∈ holder, s.Arrives a tx) :
    s.Changes a { s with holder := holder } :=
  .nothing rfl le_rfl (fun _ h => .inl h) h

theorem changes_of_advance {tx : ℤ × EpochStage} (htx : tx ∈ s.holder)
    (h : s.advance tx a = some s') : s.Changes a s' := by
  unfold EpochLock.advance at h
  split at h
  · split at h
    · obtain rfl := Option.some.inj h
      exact changes_nothing (by rintro _ ⟨⟩; exact .resolved _ htx)
    · rename_i hnone
      obtain rfl := Option.some.inj h
      exact changes_nothing (by rintro _ ⟨⟩; exact .vacant rfl htx hnone)
  · split at h
    · obtain rfl := Option.some.inj h
      exact changes_nothing (by rintro _ ⟨⟩; exact .inserted _ htx)
    · obtain rfl := Option.some.inj h
      exact changes_nothing fun _ h => absurd h (Option.not_mem_none _)
  · obtain ⟨epochs, hinsert, rfl⟩ := Option.map_eq_some_iff.mp h
    exact .commits htx hinsert rfl
  · obtain rfl := Option.some.inj h
    exact changes_nothing fun _ h => absurd h (Option.not_mem_none _)
  · obtain rfl := Option.some.inj h
    exact changes_nothing fun _ h => absurd h (Option.not_mem_none _)
  · cases h

theorem changes_of_step (h : s.step a = some s') : s.Changes a s' := by
  unfold step at h
  split at h
  · obtain rfl := Option.some.inj h
    exact .nothing rfl (Int.le_add_of_nonneg_right (Int.natCast_nonneg _)) (fun _ h => .inl h)
      fun _ h => .stays h
  · obtain rfl := Option.some.inj h
    exact .nothing rfl le_rfl (fun _ h => (List.mem_cons.mp h).symm) fun _ h => .stays h
  · split_ifs at h with hfree
    obtain rfl := Option.some.inj h
    refine .nothing rfl le_rfl (fun _ h => .inl (List.mem_of_mem_erase h)) ?_
    rintro _ ⟨⟩
    exact .locked hfree.2
  · obtain rfl := Option.some.inj h
    exact .nothing rfl le_rfl (fun _ h => .inl h) fun _ h => .stays h
  · split_ifs at h
    obtain ⟨epochs, hmark, rfl⟩ := Option.map_eq_some_iff.mp h
    exact .closes hmark rfl
  · obtain ⟨tx, htx, hadvance⟩ := Option.bind_eq_some_iff.mp h
    exact changes_of_advance htx hadvance

structure Kept (s : EpochLock) : Prop where
  waiting : ∀ now ∈ s.waiting, now ≤ s.clock
  holder : ∀ tx ∈ s.holder, tx.1 ≤ s.clock ∧ tx.2.Sound tx.1 s.epochs
  openUnique : ∀ e ∈ s.epochs.rows, ∀ e' ∈ s.epochs.rows, e.IsOpen s.clock → e'.IsOpen s.clock → e = e'
  numbers : (s.epochs.rows.map (·.epochNumber)).Nodup

theorem kept_start (clock : ℤ) : (start clock).Kept where
  waiting _ h := absurd h List.not_mem_nil
  holder _ h := absurd h (Option.not_mem_none _)
  openUnique _ h := absurd h List.not_mem_nil
  numbers := List.nodup_nil

theorem Kept.of_nothing (hs : s.Kept) (hepochs : s'.epochs = s.epochs) (hclock : s.clock ≤ s'.clock)
    (hwaiting : ∀ now ∈ s'.waiting, now ∈ s.waiting ∨ now = s'.clock)
    (hholder : ∀ tx ∈ s'.holder, s.Arrives a tx) : s'.Kept where
  waiting now hnow := by
    rcases hwaiting now hnow with hnow | rfl
    · exact (hs.waiting now hnow).trans hclock
    · exact le_rfl
  holder tx htx := by
    rw [hepochs]
    cases hholder tx htx with
    | stays h => exact ⟨(hs.holder tx h).1.trans hclock, (hs.holder tx h).2⟩
    | locked h => exact ⟨(hs.waiting _ h).trans hclock, True.intro⟩
    | resolved _ h => exact ⟨(hs.holder _ h).1.trans hclock, True.intro⟩
    | vacant _ h hnone => exact ⟨(hs.holder _ h).1.trans hclock, hnone⟩
    | inserted newId h => exact ⟨(hs.holder _ h).1.trans hclock, (hs.holder _ h).2, newId, rfl⟩
  openUnique e he e' he' hopen hopen' := by
    rw [hepochs] at he he'
    exact hs.openUnique e he e' he' ⟨hopen.1, hclock.trans_lt hopen.2⟩ ⟨hopen'.1, hclock.trans_lt hopen'.2⟩
  numbers := hepochs ▸ hs.numbers

/-- The epoch of the commit is the only open one, and it has the highest number. -/
theorem Kept.of_insert (hs : s.Kept) {now : ℤ} {newId : Uuid} {epochs : Epochs} (hnow : now ≤ s.clock)
    (hnone : s.epochs.findOpen now = none)
    (h : s.epochs.insert? (s.epochs.opened now newId) = some epochs) :
    Kept { s with epochs := epochs, holder := none } where
  waiting := hs.waiting
  holder _ h := absurd h (Option.not_mem_none _)
  openUnique e he e' he' hopen hopen' := by
    have hold : ∀ e ∈ s.epochs.rows, ¬e.IsOpen s.clock := fun e he hopen =>
      hopen.2.not_ge ((s.epochs.findOpen_eq_none.mp hnone e he hopen.1).trans hnow)
    rw [(KeyedTable.insert?_eq_some h).2] at he he'
    rcases List.mem_cons.mp he with rfl | he
    · rcases List.mem_cons.mp he' with rfl | he'
      · rfl
      · exact absurd hopen' (hold e' he')
    · exact absurd hopen (hold e he)
  numbers := by
    rw [(KeyedTable.insert?_eq_some h).2, List.map_cons, List.nodup_cons]
    refine ⟨fun hmem => ?_, hs.numbers⟩
    obtain ⟨e, he, hnumber⟩ := List.mem_map.mp hmem
    exact (s.epochs.lt_nextNumber he).ne hnumber

theorem Kept.of_marked (hs : s.Kept) {summary : ClearingSummary} {epochs : Epochs}
    (h : s.epochs.markEpochCleared summary = some epochs) : Kept { s with epochs := epochs } where
  waiting := hs.waiting
  holder tx htx := by
    obtain ⟨hnow, hsound⟩ := hs.holder tx htx
    refine ⟨hnow, ?_⟩
    cases hstage : tx.2 with
    | locked => exact True.intro
    | vacant =>
      rw [hstage] at hsound
      exact Epochs.findOpen_of_markEpochCleared h hsound
    | inserted epoch =>
      rw [hstage] at hsound
      obtain ⟨hnone, newId, hepoch⟩ := hsound
      exact ⟨Epochs.findOpen_of_markEpochCleared h hnone, newId,
        hepoch.trans (Epochs.opened_of_markEpochCleared h _ _).symm⟩
    | resolved epochId => exact True.intro
  openUnique e₁' he₁' e₂' he₂' hopen₁ hopen₂ := by
    obtain ⟨e₁, he₁, hcloses₁⟩ := Epochs.mem_of_markEpochCleared h he₁'
    obtain ⟨e₂, he₂, hcloses₂⟩ := Epochs.mem_of_markEpochCleared h he₂'
    obtain rfl := hs.openUnique e₁ he₁ e₂ he₂ (hcloses₁.isOpen hopen₁) (hcloses₂.isOpen hopen₂)
    exact KeyedTable.row_unique he₁' he₂' (hcloses₁.id.trans hcloses₂.id.symm)
  numbers := by
    rw [Epochs.numbers_of_markEpochCleared h]
    exact hs.numbers

theorem kept_step (hs : s.Kept) (h : s.step a = some s') : s'.Kept := by
  cases changes_of_step h with
  | nothing hepochs hclock hwaiting hholder => exact hs.of_nothing hepochs hclock hwaiting hholder
  | commits htx hinsert hs' =>
    obtain ⟨hnow, hnone, newId, hepoch⟩ := hs.holder _ htx
    rw [hepoch] at hinsert
    exact hs' ▸ hs.of_insert hnow hnone hinsert
  | closes hmark hs' => exact hs' ▸ hs.of_marked hmark

structure Placed (s : EpochLock) : Prop where
  apart : s.Apart
  room : ∀ tx ∈ s.holder, tx.2.HasRoom tx.1 s.epochs

theorem placed_start (clock : ℤ) : (start clock).Placed where
  apart := List.Pairwise.nil
  room _ h := absurd h (Option.not_mem_none _)

theorem Placed.of_insert (hs : s.Placed) {now : ℤ} {newId : Uuid} {epochs : Epochs}
    (hroom : ∀ e ∈ s.epochs.rows, Disjoint e.span (Set.Ico now (now + Epochs.window)))
    (h : s.epochs.insert? (s.epochs.opened now newId) = some epochs) :
    Placed { s with epochs := epochs, holder := none } where
  apart := by
    rw [Apart, (KeyedTable.insert?_eq_some h).2, List.pairwise_cons]
    exact ⟨fun e he => (hroom e he).symm, hs.apart⟩
  room _ h := absurd h (Option.not_mem_none _)

theorem Placed.of_marked (hs : s.Placed) {summary : ClearingSummary} {epochs : Epochs}
    (h : s.epochs.markEpochCleared summary = some epochs) : Placed { s with epochs := epochs } where
  apart := by
    obtain ⟨f, hrows, hf⟩ := Epochs.rows_of_markEpochCleared h
    rw [Apart, hrows, List.pairwise_map]
    refine hs.apart.imp fun {e e'} hdisjoint => ?_
    rw [(hf e).span_eq, (hf e').span_eq]
    exact hdisjoint
  room tx htx := by
    have hroom := hs.room tx htx
    have hkept : (∀ e ∈ s.epochs.rows, Disjoint e.span (Set.Ico tx.1 (tx.1 + Epochs.window))) →
        ∀ e ∈ epochs.rows, Disjoint e.span (Set.Ico tx.1 (tx.1 + Epochs.window)) := by
      intro hold e' he'
      obtain ⟨e, he, hcloses⟩ := Epochs.mem_of_markEpochCleared h he'
      rw [hcloses.span_eq]
      exact hold e he
    cases hstage : tx.2 with
    | locked => exact True.intro
    | vacant => exact hkept (by rwa [hstage] at hroom)
    | inserted epoch => exact hkept (by rwa [hstage] at hroom)
    | resolved epochId => exact True.intro

/-- The window from a `NOW()` at which no epoch is open has room, unless an epoch that
shares time with it was closed. -/
theorem room_of_findOpen {epochs : Epochs} {now : ℤ} (hnone : epochs.findOpen now = none)
    (hactive : ∀ e ∈ epochs.rows, e.startTime < now + Epochs.window → now < e.endTime → e.status = .active)
    (e : MarketEpoch) (he : e ∈ epochs.rows) :
    Disjoint e.span (Set.Ico now (now + Epochs.window)) := by
  by_cases hshare : e.startTime < now + Epochs.window ∧ now < e.endTime
  · have hend := epochs.findOpen_eq_none.mp hnone e he (hactive e he hshare.1 hshare.2)
    exact absurd hshare.2 hend.not_gt
  · rw [MarketEpoch.span, Set.Ico_disjoint_Ico]
    rcases not_and_or.mp hshare with hafter | hbefore
    · exact (min_le_right _ _).trans ((not_lt.mp hafter).trans (le_max_left _ _))
    · exact (min_le_left _ _).trans ((not_lt.mp hbefore).trans (le_max_right _ _))

theorem Placed.of_nothing (hs : s.Placed) (hintime : s.LooksInTime a) (hepochs : s'.epochs = s.epochs)
    (hholder : ∀ tx ∈ s'.holder, s.Arrives a tx) : s'.Placed where
  apart := by
    rw [Apart, hepochs]
    exact hs.apart
  room tx htx := by
    rw [hepochs]
    cases hholder tx htx with
    | stays h => exact hs.room tx h
    | locked => exact True.intro
    | resolved => exact True.intro
    | vacant ha h hnone =>
      subst ha
      exact room_of_findOpen hnone (hintime (_, .locked) h)
    | inserted _ h => exact hs.room (_, .vacant) h

theorem placed_step (hs : s.Placed) (hkept : s.Kept) (hintime : s.LooksInTime a)
    (h : s.step a = some s') : s'.Placed := by
  cases changes_of_step h with
  | nothing hepochs _ _ hholder => exact hs.of_nothing hintime hepochs hholder
  | commits htx hinsert hs' =>
    obtain ⟨_, _, newId, hepoch⟩ := hkept.holder _ htx
    rw [hepoch] at hinsert
    exact hs' ▸ hs.of_insert (hs.room _ htx) hinsert
  | closes hmark hs' => exact hs' ▸ hs.of_marked hmark

/-- The windows never overlap, as long as no epoch that a waiting transaction would share
time with is closed before it looks. -/
theorem epoch_windows_disjoint (clock : ℤ) (as : List Action)
    (has : Runs.AllSteps step LooksInTime (start clock) as) :
    Runs.AllStates step WindowsKept (start clock) as := by
  have hruns : Runs.AllStates step (fun s => s.Kept ∧ s.Placed) (start clock) as :=
    Runs.AllStates.of_allSteps
      (fun s a s' hs hintime hstep => ⟨kept_step hs.1 hstep, placed_step hs.2 hs.1 hintime hstep⟩)
      ⟨kept_start clock, placed_start clock⟩ has
  exact hruns.mono fun s hs => ⟨hs.2.apart, hs.1.openUnique, hs.1.numbers⟩

/-- Epoch one is opened and listed as due, and a call that began in its last minute still
waits for the lock. -/
def waitingCall : List Action :=
  [.beginTx, .lock 0, .lookup, .insert 1, .commit, .tick (14 * 60 * 1000000000), .beginTx,
    .tick (60 * 1000000000), .fetchDue]

/-- The call looks first, and the epoch is closed and followed by the next one. -/
def lookedFirst : List Action :=
  [.lock (14 * 60 * 1000000000), .lookup, .commit, .markCleared (.empty 1), .beginTx,
    .lock (15 * 60 * 1000000000), .lookup, .insert 2, .commit]

theorem epoch_windows_disjoint_lookedFirst :
    ((waitingCall ++ lookedFirst).foldlM step (start 0)).isSome ∧
      Runs.AllStates step WindowsKept (start 0) (waitingCall ++ lookedFirst) :=
  ⟨by decide +kernel, epoch_windows_disjoint 0 _ (by decide +kernel)⟩

/-- The epoch is closed first, and the call opens another one that began a minute before
the end of it. -/
theorem epoch_windows_overlap : ¬∀ (clock : ℤ) (as : List Action),
    Runs.AllStates step WindowsKept (start clock) as := by
  intro h
  have hrun := (h 0 (waitingCall ++ [.markCleared (.empty 1), .lock (14 * 60 * 1000000000),
    .lookup, .insert 2, .commit])).mono fun _ hs => hs.apart
  revert hrun
  decide +kernel

end EpochLock

end TradingService
