import TradingService.Ledger.Rows
import TradingService.Lib.Delimited

/-!
# The export of trades

The settlements of a user as a table of comma separated values. Texts are escaped, so that
a reader of such tables gets back the columns of every row, in the order of the query, even
where a text holds commas, quotes or line ends.
-/

namespace TradingService

open Delimited (Dialect)

/-- How the values of other libraries are written. -/
structure Formats where
  uuid : Uuid → String
  dateTime : ℤ → String
  decimal : Decimal → String

structure SettlementDb extends Settlement Numeric where
  createdAt : ℤ

def SettlementStatus.toString : SettlementStatus → String
  | .pending => "pending"
  | .processing => "processing"
  | .completed => "completed"
  | .failed => "failed"
  | .permanentlyFailed => "permanently_failed"

structure TradeRecordResponse where
  id : Uuid
  buyerId : Uuid
  sellerId : Uuid
  counterpartyId : Uuid
  role : String
  quantity : String
  energyAmount : String
  price : String
  pricePerKwh : String
  totalValue : String
  feeAmount : String
  wheelingCharge : String
  lossCost : String
  effectiveEnergy : String
  status : String
  transactionHash : Option String
  buyOrderId : Uuid
  sellOrderId : Uuid
  buyerZoneId : ZoneId
  sellerZoneId : ZoneId
  executedAt : ℤ
  createdAt : ℤ
  retryCount : ℤ
  errorMessage : Option String

def SettlementDb.involves (user : Uuid) (s : SettlementDb) : Bool :=
  s.buyerId = user || s.sellerId = user

/-- `WHERE buyer_id = $1 OR seller_id = $1 ORDER BY created_at DESC LIMIT $2 OFFSET $3`: rows of
one time may come in any order. -/
def ListSettlementsForUser (rows : List SettlementDb) (user : Uuid) (limit offset : ℕ)
    (answer : List SettlementDb) : Prop :=
  ∃ sorted : List SettlementDb, sorted.Perm (rows.filter (·.involves user)) ∧
    sorted.Pairwise (fun s s' => s'.createdAt ≤ s.createdAt) ∧
    answer = (sorted.drop offset).take limit

section Export

variable (fmt : Formats)

def decOptStr (d : Option Decimal) : String := fmt.decimal (d.getD 0)

def buildTradeRecord (s : SettlementDb) (user : Uuid) : TradeRecordResponse where
  id := s.id
  buyerId := s.buyerId
  sellerId := s.sellerId
  counterpartyId := if s.buyerId = user then s.sellerId else s.buyerId
  role := if s.buyerId = user then "buyer" else "seller"
  quantity := fmt.decimal s.energyAmount.toDecimal
  energyAmount := fmt.decimal s.energyAmount.toDecimal
  price := fmt.decimal s.price.toDecimal
  pricePerKwh := fmt.decimal s.price.toDecimal
  totalValue := fmt.decimal s.totalAmount.toDecimal
  feeAmount := fmt.decimal s.feeAmount.toDecimal
  wheelingCharge := decOptStr fmt (some s.wheelingCharge.toDecimal)
  lossCost := decOptStr fmt (some s.lossCost.toDecimal)
  effectiveEnergy := decOptStr fmt (some s.effectiveEnergy.toDecimal)
  status := s.status.toString
  transactionHash := s.transactionHash
  buyOrderId := s.buyOrderId
  sellOrderId := s.sellOrderId
  buyerZoneId := s.buyerZoneId
  sellerZoneId := s.sellerZoneId
  executedAt := s.createdAt
  createdAt := s.createdAt
  retryCount := s.retryCount
  errorMessage := s.errorMessage

def doubleQuotes (v : String) : String :=
  String.ofList (v.toList.flatMap fun c => if c = '\x22' then ['\x22', '\x22'] else [c])

def csvField (v : String) : String :=
  if v.toList.any (· ∈ [',', '\x22', '\n', '\r']) then "\x22" ++ doubleQuotes v ++ "\x22" else v

def csvHeader : String :=
  "id,executed_at,role,counterparty_id,quantity,price,total_value,fee_amount,wheeling_charge," ++
    "loss_cost,effective_energy,status,transaction_hash,buyer_zone_id,seller_zone_id\n"

def zoneText (zoneId : ZoneId) : String := zoneId.recBotCoe "" fun z => toString (z : ℤ)

def TradeRecordResponse.cols (r : TradeRecordResponse) : List String :=
  [fmt.uuid r.id, fmt.dateTime r.executedAt, r.role, fmt.uuid r.counterpartyId, r.quantity,
    r.price, r.totalValue, r.feeAmount, r.wheelingCharge, r.lossCost, r.effectiveEnergy, r.status,
    r.transactionHash.getD "", zoneText r.buyerZoneId, zoneText r.sellerZoneId]

def tradesToCsv (records : List TradeRecordResponse) : String :=
  records.foldl (fun out r => out ++ ",".intercalate ((r.cols fmt).map csvField) ++ "\n") csvHeader

inductive ExportResponse
  | json (records : List TradeRecordResponse)
  | csv (text : String)

def exportLimit (limit : Option I64) : ℕ :=
  (max 1 (min 50000 ((limit.map fun l => (l : ℤ)).getD 10000))).toNat

def exportTrades (format : Option String) (settlements : List SettlementDb) (user : Uuid) :
    ExportResponse :=
  let records := settlements.map fun s => buildTradeRecord fmt s user
  if format = some "json" then .json records else .csv (tradesToCsv fmt records)

end Export

def rfc4180 : Dialect Char where
  quote := '\x22'
  separator := ','
  terminator := '\n'
  special := [',', '\x22', '\n', '\r']
  quote_mem := by simp
  separator_mem := by simp
  terminator_mem := by simp
  separator_ne_quote := by decide
  terminator_ne_quote := by decide
  terminator_ne_separator := by decide

/-- A table as a reader of comma separated values takes it from a text. -/
def readCsv (text : String) : Option (List (List String)) :=
  (rfc4180.read text.toList).map (·.map (·.map String.ofList))

def tradeColumns : List String :=
  ["id", "executed_at", "role", "counterparty_id", "quantity", "price", "total_value",
    "fee_amount", "wheeling_charge", "loss_cost", "effective_energy", "status",
    "transaction_hash", "buyer_zone_id", "seller_zone_id"]

theorem doubleQuotes_toList (v : String) :
    (doubleQuotes v).toList = v.toList.flatMap rfc4180.double := by
  rw [doubleQuotes, String.toList_ofList]
  congr 1
  funext c
  by_cases hc : c = '\x22'
  · simp [Dialect.double, rfc4180, hc]
  · simp [Dialect.double, rfc4180, hc]

theorem csvField_toList (v : String) : (csvField v).toList = rfc4180.escape v.toList := by
  unfold csvField Dialect.escape
  by_cases hspecial : v.toList.any (· ∈ [',', '\x22', '\n', '\r'])
  · rw [if_pos hspecial, if_pos (show v.toList.any (· ∈ rfc4180.special) from hspecial),
      String.toList_append, String.toList_append, doubleQuotes_toList]
    rfl
  · rw [if_neg hspecial, if_neg (show ¬v.toList.any (· ∈ rfc4180.special) from hspecial)]

theorem csvLine_toList (cols : List String) :
    (",".intercalate (cols.map csvField) ++ "\n").toList =
      rfc4180.writeRow (cols.map String.toList) := by
  have hfields : (cols.map csvField).map String.toList =
      (cols.map String.toList).map rfc4180.escape := by
    rw [List.map_map, List.map_map]
    exact List.map_congr_left fun v _ => csvField_toList v
  rw [String.toList_append, String.toList_intercalate, hfields]
  rfl

set_option maxRecDepth 10000 in
theorem csvHeader_toList : csvHeader.toList = rfc4180.writeRow (tradeColumns.map String.toList) := by
  decide

theorem tradesToCsv_toList (fmt : Formats) (records : List TradeRecordResponse) :
    (tradesToCsv fmt records).toList =
      rfc4180.write ((tradeColumns :: records.map (·.cols fmt)).map (·.map String.toList)) := by
  suffices hfold : ∀ out : String, (records.foldl (fun out r =>
      out ++ ",".intercalate ((r.cols fmt).map csvField) ++ "\n") out).toList =
      out.toList ++ rfc4180.write ((records.map (·.cols fmt)).map (·.map String.toList)) by
    rw [tradesToCsv, hfold, csvHeader_toList]
    rfl
  induction records with
  | nil => intro out; simp [Dialect.write]
  | cons r records ih =>
    intro out
    rw [List.foldl_cons, ih, String.append_assoc, String.toList_append, csvLine_toList,
      List.append_assoc]
    rfl

/-- A reader gives back the columns of every record, whatever its texts are. -/
theorem readCsv_tradesToCsv (fmt : Formats) (records : List TradeRecordResponse) :
    readCsv (tradesToCsv fmt records) = some (tradeColumns :: records.map (·.cols fmt)) := by
  have hrows : ∀ row ∈ (tradeColumns :: records.map (·.cols fmt)).map (·.map String.toList),
      row ≠ [] := by
    intro row hrow
    obtain ⟨cols, hcols, rfl⟩ := List.mem_map.mp hrow
    obtain rfl | hcols := List.mem_cons.mp hcols
    · simp [tradeColumns]
    · obtain ⟨r, _, rfl⟩ := List.mem_map.mp hcols
      simp [TradeRecordResponse.cols]
  have htext : ∀ table : List (List String),
      (table.map (·.map String.toList)).map (·.map String.ofList) = table := by
    intro table
    simp [Function.comp_def]
  rw [readCsv, tradesToCsv_toList, Dialect.read_write _ hrows, Option.map_some, htext]

namespace ListSettlementsForUser

variable {rows answer : List SettlementDb} {user : Uuid} {limit : ℕ}

theorem mem (h : ListSettlementsForUser rows user limit 0 answer) {s : SettlementDb}
    (hs : s ∈ answer) : s ∈ rows ∧ s.involves user := by
  obtain ⟨sorted, hperm, _, rfl⟩ := h
  rw [List.drop_zero] at hs
  exact List.mem_filter.mp (hperm.mem_iff.mp (List.mem_of_mem_take hs))

theorem newest_first (h : ListSettlementsForUser rows user limit 0 answer) :
    answer.Pairwise fun s s' => s'.createdAt ≤ s.createdAt := by
  obtain ⟨sorted, _, hsorted, rfl⟩ := h
  exact hsorted.sublist (List.take_sublist _ _)

theorem newest (h : ListSettlementsForUser rows user limit 0 answer) {s kept : SettlementDb}
    (hs : s ∈ rows) (hinvolves : s.involves user) (hleft : s ∉ answer) (hkept : kept ∈ answer) :
    s.createdAt ≤ kept.createdAt := by
  obtain ⟨sorted, hperm, hsorted, rfl⟩ := h
  rw [List.drop_zero] at hleft hkept
  have hmem : s ∈ sorted := hperm.mem_iff.mpr (List.mem_filter.mpr ⟨hs, hinvolves⟩)
  rw [← List.take_append_drop limit sorted] at hmem hsorted
  have hdrop : s ∈ sorted.drop limit := (List.mem_append.mp hmem).resolve_left hleft
  exact (List.pairwise_append.mp hsorted).2.2 kept hkept s hdrop

theorem complete (h : ListSettlementsForUser rows user limit 0 answer)
    (hlimit : (rows.filter (·.involves user)).length ≤ limit) :
    answer.Perm (rows.filter (·.involves user)) := by
  obtain ⟨sorted, hperm, _, rfl⟩ := h
  rw [List.drop_zero, List.take_of_length_le (hperm.length_eq.trans_le hlimit)]
  exact hperm

end ListSettlementsForUser

/-- The file of a user's trades read back: a header, and for each settlement that the query
lists, newest first, the columns of its record. These are settlements of the user, nothing newer
is left out, and all are there if they are no more than the limit. -/
theorem exportTrades_read (fmt : Formats) {rows answer : List SettlementDb} {user : Uuid}
    {limit : Option I64} {format : Option String} (hformat : format ≠ some "json")
    (h : ListSettlementsForUser rows user (exportLimit limit) 0 answer) :
    ∃ text, exportTrades fmt format answer user = .csv text ∧
      readCsv text = some (tradeColumns ::
        answer.map fun s => (buildTradeRecord fmt s user).cols fmt) ∧
      (∀ s ∈ answer, s ∈ rows ∧ s.involves user) ∧
      answer.Pairwise (fun s s' => s'.createdAt ≤ s.createdAt) ∧
      (∀ s ∈ rows, s.involves user → s ∉ answer → ∀ kept ∈ answer, s.createdAt ≤ kept.createdAt) ∧
      ((rows.filter (·.involves user)).length ≤ exportLimit limit →
        answer.Perm (rows.filter (·.involves user))) := by
  have hcsv : exportTrades fmt format answer user =
      .csv (tradesToCsv fmt (answer.map fun s => buildTradeRecord fmt s user)) := if_neg hformat
  have hread := readCsv_tradesToCsv fmt (answer.map fun s => buildTradeRecord fmt s user)
  rw [List.map_map] at hread
  exact ⟨_, hcsv, hread, fun s hs => h.mem hs, h.newest_first,
    fun s hs hinvolves hleft kept hkept => h.newest hs hinvolves hleft hkept, h.complete⟩

def Formats.numbers : Formats where
  uuid id := toString id.val
  dateTime := toString
  decimal d := toString d.num

def SettlementDb.quoted : SettlementDb where
  toSettlement := { Settlement.between 1 7 8 with transactionHash := some "5x,\x22" }
  createdAt := 0

theorem exportTrades_read_quoted : ∃ text,
    exportTrades .numbers none [SettlementDb.quoted] 7 = .csv text ∧
      readCsv text = some [tradeColumns,
        (buildTradeRecord .numbers SettlementDb.quoted 7).cols .numbers] := by
  have hlist : ListSettlementsForUser [SettlementDb.quoted] 7 (exportLimit none) 0
      [SettlementDb.quoted] :=
    ⟨[SettlementDb.quoted], List.Perm.refl _, List.pairwise_singleton _ _, rfl⟩
  obtain ⟨text, hcsv, hread, _⟩ := exportTrades_read .numbers (Option.some_ne_none _).symm hlist
  exact ⟨text, hcsv, hread⟩

end TradingService
