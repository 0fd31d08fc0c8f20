import TradingService.Lib.Newest
import TradingService.Orders.Admission
import TradingService.ReadModel.Feed

/-!
# The meters of the sellers

The local copy of the metering service's meters, fed by its events and by the snapshots of
a boot. Of the writes to a serial number the newest stands: an event that is older than what
is stored changes nothing, and a snapshot only fills a gap. An edge opens a sell only where
the newest word on a meter of the seller says that it is verified.
-/

namespace TradingService

open OrderPolicy
open Newest (newest take newest_snoc newest_eq_some newest_eq_getLast?)

/-- A row of `meter_read_model`, without the two ratings that no source carries. -/
structure MeterRow where
  serialNumber : VarChar 100
  meterId : Uuid
  userId : Uuid
  zoneId : Option I32
  status : Option (VarChar 50)
  isVerified : Bool
  updatedAt : ℤ
  deriving DecidableEq

def MeterReadModelRecord.store (rec : MeterReadModelRecord) (now : ℤ) : Option MeterRow := do
  let serialNumber ← VarChar.store 100 rec.serialNumber
  let status ← VarChar.storeOption 50 rec.status
  return {
    serialNumber := serialNumber
    meterId := rec.meterId
    userId := rec.userId
    zoneId := rec.zoneId
    status := status
    isVerified := rec.isVerified
    updatedAt := now }

def MeterReadModelRecord.identity (rec : MeterReadModelRecord) : MeterIdentity :=
  ⟨rec.meterId, rec.userId, rec.isVerified⟩

def MeterRow.meter (r : MeterRow) : Meter where
  serial := r.serialNumber.value
  identity := ⟨r.meterId, r.userId, r.isVerified⟩

abbrev MeterTable := KeyedTable MeterRow.serialNumber

namespace MeterTable

def overwrite (new old : MeterRow) : MeterRow :=
  if old.updatedAt ≤ new.updatedAt then { new with serialNumber := old.serialNumber } else old

/-- `METER_UPSERT`. -/
def upsertRow (t : MeterTable) (row : MeterRow) : MeterTable :=
  match t.insert? row with
  | some t' => t'
  | none => t.modify row.serialNumber (overwrite row) fun r => by unfold overwrite; split_ifs <;> rfl

/-- One row of a snapshot: `ON CONFLICT (serial_number) DO NOTHING`. -/
def backfillRow (t : MeterTable) (row : MeterRow) : MeterTable := (t.insert? row).getD t

end MeterTable

inductive MeterSource
  | event (event : FeedEvent)
  | snapshot (rec : MeterReadModelRecord)

structure MeterWrite where
  now : ℤ
  source : MeterSource

namespace MeterWrite

def record (w : MeterWrite) : Option MeterReadModelRecord :=
  match w.source with
  | .event event => (classify event).meter
  | .snapshot rec => some rec

def row (w : MeterWrite) : Option MeterRow := w.record.bind (·.store w.now)

def isEvent (w : MeterWrite) : Bool :=
  match w.source with
  | .event _ => true
  | .snapshot _ => false

def Names (w : MeterWrite) (serial : VarChar 100) : Prop := ∃ r, w.row = some r ∧ r.serialNumber = serial

instance (w : MeterWrite) (serial : VarChar 100) : Decidable (w.Names serial) :=
  decidable_of_iff (w.row.any (·.serialNumber = serial)) (by simp [Names, Option.any_eq_true])

end MeterWrite

namespace MeterTable

/-- An error is logged, and the feed goes on. -/
def write (t : MeterTable) (w : MeterWrite) : MeterTable :=
  match w.row with
  | none => t
  | some row => if w.isEvent then t.upsertRow row else t.backfillRow row

def feed (t : MeterTable) (history : List MeterWrite) : MeterTable := history.foldl write t

end MeterTable

/-- The writes to a serial number that have a say in its row: the first, and then the events. -/
def MeterWrite.claims (serial : VarChar 100) (history : List MeterWrite) : List MeterWrite :=
  history.foldl (fun claims w =>
    if w.Names serial ∧ (w.isEvent ∨ claims = []) then claims ++ [w] else claims) []

def MeterWrite.lastWord (serial : VarChar 100) (history : List MeterWrite) : Option MeterWrite :=
  newest MeterWrite.now (MeterWrite.claims serial history)

namespace MeterWrite

theorem row_updatedAt {w : MeterWrite} {r : MeterRow} (h : w.row = some r) : r.updatedAt = w.now := by
  obtain ⟨rec, _, h⟩ := Option.bind_eq_some_iff.mp h
  obtain ⟨_, _, h⟩ := Option.bind_eq_some_iff.mp h
  obtain ⟨_, _, h⟩ := Option.bind_eq_some_iff.mp h
  obtain rfl := Option.some.inj h
  rfl

theorem row_record {w : MeterWrite} {r : MeterRow} (h : w.row = some r) :
    ∃ rec, w.record = some rec ∧ r.meter.identity = rec.identity := by
  obtain ⟨rec, hrec, h⟩ := Option.bind_eq_some_iff.mp h
  obtain ⟨_, _, h⟩ := Option.bind_eq_some_iff.mp h
  obtain ⟨_, _, h⟩ := Option.bind_eq_some_iff.mp h
  obtain rfl := Option.some.inj h
  exact ⟨rec, hrec, rfl⟩

variable {serial : VarChar 100} {history : List MeterWrite} {w : MeterWrite}

theorem claims_snoc : claims serial (history ++ [w]) =
    if w.Names serial ∧ (w.isEvent ∨ claims serial history = []) then
      claims serial history ++ [w] else claims serial history := by
  rw [claims, List.foldl_append]
  rfl

theorem claims_sublist : (claims serial history).Sublist history := by
  induction history using List.reverseRecOn with
  | nil => exact List.Sublist.refl _
  | append_singleton history w ih =>
    rw [claims_snoc]
    split_ifs
    · exact ih.append (List.Sublist.refl _)
    · exact ih.trans (List.sublist_append_left _ _)

theorem names_of_mem_claims (h : w ∈ claims serial history) : w.Names serial := by
  induction history using List.reverseRecOn with
  | nil => cases h
  | append_singleton history w' ih =>
    rw [claims_snoc] at h
    split_ifs at h with hnames
    · obtain h | h := List.mem_append.mp h
      · exact ih h
      · obtain rfl := List.mem_singleton.mp h
        exact hnames.1
    · exact ih h

theorem mem_claims_of_lastWord (h : lastWord serial history = some w) : w ∈ claims serial history := by
  obtain ⟨before, after, hclaims, _⟩ := newest_eq_some h
  rw [hclaims]
  exact List.mem_append_right _ List.mem_cons_self

theorem lastWord_eq_none (h : lastWord serial history = none) : claims serial history = [] :=
  Newest.eq_nil_of_newest h

/-- Under a clock that does not step back the newest word is the last one. -/
theorem lastWord_eq_getLast? (hclock : history.Pairwise fun w w' => w.now ≤ w'.now) :
    lastWord serial history = (claims serial history).getLast? :=
  newest_eq_getLast? (hclock.sublist claims_sublist)

end MeterWrite

namespace MeterTable

variable {t : MeterTable} {serial : VarChar 100} {row : MeterRow}

theorem overwrite_of_le {new old : MeterRow} (hserial : old.serialNumber = new.serialNumber)
    (h : old.updatedAt ≤ new.updatedAt) : overwrite new old = new := by
  rw [overwrite, if_pos h, hserial]

theorem overwrite_of_lt {new old : MeterRow} (h : new.updatedAt < old.updatedAt) :
    overwrite new old = old := if_neg (not_le.mpr h)

theorem find?_upsertRow : (t.upsertRow row).find? serial =
    if row.serialNumber = serial then some ((t.find? serial).elim row (overwrite row))
    else t.find? serial := by
  unfold upsertRow
  cases hins : t.insert? row with
  | some t' =>
    rw [KeyedTable.find?_of_insert? hins]
    by_cases hserial : row.serialNumber = serial
    · subst hserial
      rw [if_pos rfl, if_pos rfl, KeyedTable.find?_eq_none.mpr (KeyedTable.insert?_eq_some hins).1]
      rfl
    · rw [if_neg hserial, if_neg hserial]
  | none =>
    obtain ⟨old, hold, hkey⟩ := KeyedTable.insert?_eq_none.mp hins
    have hfind : t.find? row.serialNumber = some old := KeyedTable.find?_eq_some.mpr ⟨hold, hkey⟩
    simp only [KeyedTable.modify, KeyedTable.find?_mapRows]
    by_cases hserial : row.serialNumber = serial
    · subst hserial
      rw [if_pos rfl, hfind]
      simp [hkey]
    · rw [if_neg hserial]
      cases hother : t.find? serial with
      | none => rfl
      | some r =>
        have hr : r.serialNumber = serial := (KeyedTable.find?_eq_some.mp hother).2
        simp [hr, Ne.symm hserial]

theorem find?_backfillRow : (t.backfillRow row).find? serial =
    if row.serialNumber = serial then some ((t.find? serial).getD row) else t.find? serial := by
  unfold backfillRow
  cases hins : t.insert? row with
  | some t' =>
    rw [Option.getD_some, KeyedTable.find?_of_insert? hins]
    by_cases hserial : row.serialNumber = serial
    · subst hserial
      rw [if_pos rfl, if_pos rfl, KeyedTable.find?_eq_none.mpr (KeyedTable.insert?_eq_some hins).1]
      rfl
    · rw [if_neg hserial, if_neg hserial]
  | none =>
    obtain ⟨old, hold, hkey⟩ := KeyedTable.insert?_eq_none.mp hins
    rw [Option.getD_none]
    by_cases hserial : row.serialNumber = serial
    · subst hserial
      rw [if_pos rfl, KeyedTable.find?_eq_some.mpr ⟨hold, hkey⟩]
      rfl
    · rw [if_neg hserial]

theorem find?_write {w : MeterWrite} (hrow : w.row = some row) : (t.write w).find? serial =
    if row.serialNumber = serial then
      some (if w.isEvent then (t.find? serial).elim row (overwrite row) else (t.find? serial).getD row)
    else t.find? serial := by
  unfold write
  rw [hrow]
  by_cases hevent : w.isEvent
  · simp only [hevent, if_true]
    exact find?_upsertRow
  · simp only [hevent]
    exact find?_backfillRow

theorem find?_write_of_not_names {w : MeterWrite} (h : ¬w.Names serial) :
    (t.write w).find? serial = t.find? serial := by
  cases hrow : w.row with
  | none =>
    unfold write
    rw [hrow]
  | some row =>
    have hserial : row.serialNumber ≠ serial := fun hserial => h ⟨row, hrow, hserial⟩
    exact (find?_write hrow).trans (if_neg hserial)

/-- The row of a serial number is that of the newest word on it. -/
theorem find?_feed (serial : VarChar 100) (history : List MeterWrite) :
    (feed KeyedTable.empty history).find? serial =
      (MeterWrite.lastWord serial history).bind MeterWrite.row := by
  induction history using List.reverseRecOn with
  | nil => rfl
  | append_singleton history w ih =>
    have hfeed : feed KeyedTable.empty (history ++ [w]) =
        (feed KeyedTable.empty history).write w := by
      rw [feed, List.foldl_append]
      rfl
    rw [hfeed, MeterWrite.lastWord, MeterWrite.claims_snoc]
    by_cases hnames : w.Names serial
    · have ⟨row, hrow, hserial⟩ := hnames
      have hnow : row.updatedAt = w.now := MeterWrite.row_updatedAt hrow
      cases hlast : MeterWrite.lastWord serial history with
      | none =>
        have hnone : MeterWrite.claims serial history = [] := MeterWrite.lastWord_eq_none hlast
        rw [hlast, Option.bind_none] at ih
        rw [if_pos ⟨hnames, Or.inr hnone⟩, hnone, find?_write hrow, if_pos hserial, ih]
        simp [newest, take, hrow]
      | some v =>
        have hv : v ∈ MeterWrite.claims serial history := MeterWrite.mem_claims_of_lastWord hlast
        obtain ⟨old, hold, hkey⟩ := MeterWrite.names_of_mem_claims hv
        have hthen : old.updatedAt = v.now := MeterWrite.row_updatedAt hold
        rw [hlast, Option.bind_some, hold] at ih
        rw [find?_write hrow, if_pos hserial, ih]
        by_cases hevent : w.isEvent
        · have hclaimed : newest MeterWrite.now (MeterWrite.claims serial history) = some v := hlast
          rw [if_pos hevent, if_pos ⟨hnames, Or.inl hevent⟩, newest_snoc, hclaimed, take]
          by_cases hle : v.now ≤ w.now
          · rw [if_pos hle, Option.bind_some, hrow, Option.elim_some,
              overwrite_of_le (hkey.trans hserial.symm) (by omega)]
          · rw [if_neg hle, Option.bind_some, hold, Option.elim_some, overwrite_of_lt (by omega)]
        · have hfull : ¬(w.Names serial ∧ (w.isEvent ∨ MeterWrite.claims serial history = [])) := by
            rintro ⟨_, h | h⟩
            · exact hevent h
            · rw [h] at hv
              cases hv
          rw [if_neg hevent, if_neg hfull]
          exact (congrArg (·.bind MeterWrite.row) hlast).trans hold |>.symm
    · rw [find?_write_of_not_names hnames, if_neg fun h => hnames h.1]
      exact ih

def Backs (t : MeterTable) (moment : Moment) : Prop :=
  moment.meters.Perm (t.rows.map MeterRow.meter)

end MeterTable

namespace MeterWrite

/-- The newest word on some meter says that it is this one. -/
def IsLastWord (history : List MeterWrite) (meter : MeterIdentity) : Prop :=
  ∃ serial w rec, lastWord serial history = some w ∧ w.record = some rec ∧ rec.identity = meter

/-- The meters of the lookups are those of the newest words. -/
theorem isLastWord_iff {history : List MeterWrite} {moment : Moment}
    (hbacks : (MeterTable.feed KeyedTable.empty history).Backs moment) {meter : MeterIdentity} :
    IsLastWord history meter ↔ ∃ m ∈ moment.meters, m.identity = meter := by
  constructor
  · rintro ⟨serial, w, rec, hw, hrec, rfl⟩
    obtain ⟨row, hrow, _⟩ := names_of_mem_claims (mem_claims_of_lastWord hw)
    have hfind := MeterTable.find?_feed serial history
    rw [hw, Option.bind_some, hrow] at hfind
    obtain ⟨rec', hrec', hidentity⟩ := row_record hrow
    obtain rfl := Option.some.inj (hrec.symm.trans hrec')
    have hmem := List.mem_map_of_mem (f := MeterRow.meter) (KeyedTable.find?_eq_some.mp hfind).1
    exact ⟨row.meter, hbacks.mem_iff.mpr hmem, hidentity⟩
  · rintro ⟨m, hm, rfl⟩
    obtain ⟨row, hmem, rfl⟩ := List.mem_map.mp (hbacks.mem_iff.mp hm)
    have hfind := MeterTable.find?_feed row.serialNumber history
    rw [KeyedTable.find?_eq_some.mpr ⟨hmem, rfl⟩] at hfind
    obtain ⟨w, hw, hrow⟩ := Option.bind_eq_some_iff.mp hfind.symm
    obtain ⟨rec, hrec, hidentity⟩ := row_record hrow
    exact ⟨row.serialNumber, w, rec, hw, hrec, hidentity.symm⟩

end MeterWrite

section Gate

variable {config : ServiceConfig} {moment : Moment}

theorem meter_of_gate {userId : Uuid} {side : OrderSide} {meter : Option MeterIdentity}
    {hasVerified : Bool} (hknows : moment.Knows meter)
    (hask : moment.anyVerifiedMeter userId side meter = .ok hasVerified)
    (h : checkSellEligibility userId side meter hasVerified = .ok ())
    (hside : side = .sell) : ∃ m ∈ moment.meters, m.identity.userId = userId ∧
      m.identity.isVerified ∧ ∀ named ∈ meter, m.identity = named := by
  cases meter with
  | none =>
    obtain ⟨m, hm, huser, hverified⟩ := ownsVerifiedMeter_of_gate hknows hask h hside
    exact ⟨m, hm, huser, hverified, nofun⟩
  | some named =>
    obtain ⟨m, hm, rfl⟩ := hknows named rfl
    unfold checkSellEligibility at h
    rw [if_neg (not_not.mpr hside)] at h
    simp only at h
    split_ifs at h with howner hverified
    exact ⟨m, hm, not_not.mp howner, hverified, fun _ h => Option.some.inj h⟩

/-- An edge builds a sell only over a verified meter of the seller. -/
theorem EntryRequest.meter_of_sell {sub : EntryRequest} {order : TradingOrder}
    (hbuilt : sub.order config moment = some order) (hedge : ∀ rule, sub ≠ .recurring rule)
    (hsell : order.side = .sell) : ∃ m ∈ moment.meters, m.identity.userId = order.userId ∧
      m.identity.isVerified ∧ ∀ id ∈ order.meterId, m.identity.meterId = id := by
  cases sub with
  | recurring rule => exact absurd rfl (hedge rule)
  | rest userId req =>
    obtain ⟨⟨o, signature⟩, hsubmit, rfl⟩ := Option.map_eq_some_iff.mp hbuilt
    obtain ⟨terms, meter, signed, expiresAt, orderPda, epochId, _, hknows, hgates, _, _, _, rfl, _⟩ :=
      Rest.submitOrder_ok (Except.toOption_eq_some_iff.mp hsubmit)
    obtain ⟨hasVerified, hask, hgates⟩ := Except.bind_eq_ok_iff.mp hgates
    obtain ⟨_, hmeter, _⟩ := Except.bind_eq_ok_iff.mp hgates
    obtain ⟨m, hm, huser, hverified, hnamed⟩ := meter_of_gate hknows
      (Except.mapError_eq_ok_iff.mp hask) (Except.mapError_eq_ok_iff.mp hmeter) hsell
    refine ⟨m, hm, huser, hverified, fun id hid => ?_⟩
    obtain ⟨named, hmem, rfl⟩ := Option.map_eq_some_iff.mp hid
    rw [hnamed named hmem]
  | grpc req =>
    have h := Except.toOption_eq_some_iff.mp hbuilt
    unfold Grpc.submitOrder at h
    obtain ⟨userId, _, h⟩ := Except.bind_eq_ok_iff.mp h
    obtain ⟨terms, _, h⟩ := Except.bind_eq_ok_iff.mp h
    obtain ⟨meter, hresolved, h⟩ := Except.bind_eq_ok_iff.mp h
    obtain ⟨_, hgates, h⟩ := Except.bind_eq_ok_iff.mp h
    obtain ⟨_, _, h⟩ := Except.bind_eq_ok_iff.mp h
    obtain ⟨_, _, h⟩ := Except.bind_eq_ok_iff.mp h
    obtain ⟨_, _, h⟩ := Except.bind_eq_ok_iff.mp h
    obtain rfl := Except.ok.inj h
    obtain ⟨hasVerified, hask, hgates⟩ := Except.bind_eq_ok_iff.mp hgates
    obtain ⟨_, hmeter, _⟩ := Except.bind_eq_ok_iff.mp hgates
    obtain ⟨m, hm, huser, hverified, hnamed⟩ := meter_of_gate (Grpc.resolveMeter_ok hresolved)
      (Except.mapError_eq_ok_iff.mp hask) (Except.mapError_eq_ok_iff.mp hmeter) hsell
    refine ⟨m, hm, huser, hverified, fun id hid => ?_⟩
    obtain ⟨named, hmem, rfl⟩ := Option.map_eq_some_iff.mp hid
    rw [hnamed named hmem]

end Gate

def FeedEvent.aboutMeter (eventType : String) (isVerified : Bool) : FeedEvent where
  eventType := eventType
  data :=
    { FeedData.empty with
      serialNumber := .given "M"
      meterId := .given 1
      userId := .given 7
      isVerified := .given (some isVerified) }

def MeterWrite.verifiedLater : List MeterWrite :=
  [⟨0, .event (.aboutMeter "MeterRegistered" false)⟩, ⟨1, .event (.aboutMeter "MeterUpdated" true)⟩]

def Moment.after (history : List MeterWrite) : Moment :=
  { Moment.quiet with
    meters := (MeterTable.feed KeyedTable.empty history).rows.map MeterRow.meter }

end TradingService
