import TradingService.Settlement.Tasks

/-!
# One settlement batch

`settle_claimed` from the claim to the last write, for any answers of the two queries and
of the gateway. A run is kept as its log: the writes in their order, what the queries
named, and the gateway calls with their replies. Every settlement of the batch has one
fate, and with all writes done the fate is in its row.
-/

namespace TradingService

/-- What one call of `settle_claimed` meets: the answers of its two queries, and what the
gateway returns for the batch that it is sent. A transaction is of a settlement that was
sent. -/
structure Replies where
  unplaced : Except String (List Uuid)
  lapsed : Except String (List Uuid)
  gateway : List (Settlement Numeric) → Except String (List SettlementTransaction)
  names_sent : ∀ batch txs, gateway batch = .ok txs →
    ∀ tx ∈ txs, tx.settlementId ∈ batch.map (·.id)

structure BatchLog where
  writes : List Task
  named : List Uuid
  calls : List (List (Settlement Numeric) × Except String (List SettlementTransaction))

namespace BatchLog

def empty : BatchLog := ⟨[], [], []⟩

def append (log log' : BatchLog) : BatchLog :=
  ⟨log.writes ++ log'.writes, log.named ++ log'.named, log.calls ++ log'.calls⟩

instance : Append BatchLog := ⟨append⟩

variable (log log' : BatchLog)

@[simp] theorem writes_append : (log ++ log').writes = log.writes ++ log'.writes := rfl
@[simp] theorem named_append : (log ++ log').named = log.named ++ log'.named := rfl
@[simp] theorem calls_append : (log ++ log').calls = log.calls ++ log'.calls := rfl

def Returned (id : Uuid) : Prop :=
  ∃ call ∈ log.calls, ∃ txs, call.2 = .ok txs ∧ id ∈ txs.map (·.settlementId)

def RejectedAlone (id : Uuid) : Prop :=
  ∃ s reason, s.id = id ∧ ([s], Except.error reason) ∈ log.calls ∧
    isDeterministicChainRejection reason = true

def touching (id : Uuid) : List Task := log.writes.filter (id ∈ ·.ids)

end BatchLog

/-- A pre-flight: what its query names is parked, and nothing if the query fails. -/
def parkNamed (answer : Except String (List Uuid)) (reason : Settlement Numeric → String)
    (claimed : List (Settlement Numeric)) : BatchLog × List (Settlement Numeric) :=
  match answer with
  | .error _ => (.empty, claimed)
  | .ok named =>
    (⟨(claimed.filter (·.id ∈ named)).map fun s => .park s.id (reason s), named, []⟩,
      claimed.filter (·.id ∉ named))

/-- The gateway call and what follows it. `isolate` settles the entries of a rejected batch
one at a time. -/
def sendBatch (replies : Replies)
    (isolate : List (Settlement Numeric) → BatchLog × List SettlementTransaction)
    (claimed : List (Settlement Numeric)) : BatchLog × Except String (List SettlementTransaction) :=
  match replies.gateway claimed with
  | .ok txs => (⟨afterResults claimed txs, [], [(claimed, .ok txs)]⟩, .ok txs)
  | .error reason =>
    let call := [(claimed, Except.error reason)]
    if isDeterministicChainRejection reason then
      match claimed with
      | [single] => (⟨[.park single.id (rejectedReason reason)], [], call⟩, .error reason)
      | _ =>
        let isolated := isolate claimed
        (⟨[], [], call⟩ ++ isolated.1, .ok isolated.2)
    else (⟨[.release (claimed.map (·.id)) reason], [], call⟩, .error reason)

def settleBatch (replies : Replies)
    (isolate : List (Settlement Numeric) → BatchLog × List SettlementTransaction)
    (claimed : List (Settlement Numeric)) : BatchLog × Except String (List SettlementTransaction) :=
  let placed := parkNamed replies.unplaced unplacedReason claimed
  if placed.2.isEmpty then (placed.1, .ok [])
  else
    let current := parkNamed replies.lapsed lapsedReason placed.2
    if current.2.isEmpty then (placed.1 ++ current.1, .ok [])
    else
      let sent := sendBatch replies isolate current.2
      (placed.1 ++ current.1 ++ sent.1, sent.2)

/-- The recursive call, for one settlement: there is nothing left to isolate. -/
def settleAlone (replies : Replies) (s : Settlement Numeric) :
    BatchLog × Except String (List SettlementTransaction) :=
  settleBatch replies (fun _ => (.empty, [])) [s]

/-- The entries of a rejected batch, each with replies of its own. A failure does not abort
the others. -/
def settleEach : (ℕ → Replies) → List (Settlement Numeric) → BatchLog × List SettlementTransaction
  | _, [] => (.empty, [])
  | alone, s :: rest =>
    let one := settleAlone (alone 0) s
    let others := settleEach (fun k => alone (k + 1)) rest
    (one.1 ++ others.1, one.2.toOption.getD [] ++ others.2)

def settleClaimed (replies : Replies) (alone : ℕ → Replies) (claimed : List (Settlement Numeric)) :
    BatchLog × Except String (List SettlementTransaction) :=
  settleBatch replies (settleEach alone) claimed

theorem parkNamed_sublist (answer : Except String (List Uuid)) (reason : Settlement Numeric → String)
    (claimed : List (Settlement Numeric)) : (parkNamed answer reason claimed).2.Sublist claimed := by
  cases answer with
  | error _ => exact .refl _
  | ok named => exact List.filter_sublist

/-- The recursion is one deep: alone, a settlement is settled by the function itself. -/
theorem settleAlone_eq (replies : Replies) (alone : ℕ → Replies) (s : Settlement Numeric) :
    settleAlone replies s = settleClaimed replies alone [s] := by
  have hsend : ∀ batch : List (Settlement Numeric), batch.Sublist [s] → batch ≠ [] →
      sendBatch replies (fun _ => (.empty, [])) batch = sendBatch replies (settleEach alone) batch := by
    intro batch hsub hne
    rcases List.sublist_singleton.mp hsub with rfl | rfl
    · exact absurd rfl hne
    · rfl
  unfold settleAlone settleClaimed settleBatch
  dsimp only
  split_ifs with hplaced hcurrent
  · rfl
  · rfl
  · rw [hsend _ ((parkNamed_sublist _ _ _).trans (parkNamed_sublist _ _ _))
      fun hnil => hcurrent (by rw [hnil]; rfl)]

/-- What happens to one settlement of a batch. -/
inductive Fate (log : BatchLog) (id : Uuid) : Prop
  | parked (reason : String) (hwrites : log.touching id = [.park id reason])
      (hwhy : id ∈ log.named ∨ log.RejectedAlone id) (hnot : ¬log.Returned id)
  | completed (hwrites : ∀ t ∈ log.touching id, ∃ signature, t = .complete id signature)
      (hsome : log.touching id ≠ []) (hreturned : log.Returned id)
  | released (ids : List Uuid) (reason : String) (hmem : id ∈ ids)
      (hwrites : log.touching id = [.release ids reason]) (hnot : ¬log.Returned id)

structure Silent (log : BatchLog) (id : Uuid) : Prop where
  writes : log.touching id = []
  calls : ¬log.Returned id

/-- The log settles the fate of the batch and leaves all others alone. -/
structure Accounts (batch : List (Settlement Numeric)) (log : BatchLog) : Prop where
  fate : ∀ s ∈ batch, Fate log s.id
  silent : ∀ id, id ∉ batch.map (·.id) → Silent log id

section Append

variable {log log' : BatchLog} {id : Uuid}

theorem touching_append : (log ++ log').touching id = log.touching id ++ log'.touching id :=
  List.filter_append _ _

theorem returned_append : (log ++ log').Returned id ↔ log.Returned id ∨ log'.Returned id := by
  simp only [BatchLog.Returned, BatchLog.calls_append, List.mem_append, or_and_right, exists_or]

theorem rejectedAlone_append :
    (log ++ log').RejectedAlone id ↔ log.RejectedAlone id ∨ log'.RejectedAlone id := by
  simp only [BatchLog.RejectedAlone, BatchLog.calls_append, List.mem_append, or_and_right,
    and_or_left, exists_or]

theorem Silent.append (h : Silent log id) (h' : Silent log' id) : Silent (log ++ log') id where
  writes := by rw [touching_append, h.writes, h'.writes]; rfl
  calls := fun hret => (returned_append.mp hret).elim h.calls h'.calls

theorem Fate.mono {long : BatchLog} (h : Fate log id) (hwrites : long.touching id = log.touching id)
    (hnamed : id ∈ log.named → id ∈ long.named)
    (hrejected : log.RejectedAlone id → long.RejectedAlone id)
    (hreturned : long.Returned id ↔ log.Returned id) : Fate long id := by
  cases h with
  | parked reason hpark hwhy hnot =>
    exact .parked reason (hwrites.trans hpark) (hwhy.imp hnamed hrejected) (mt hreturned.mp hnot)
  | completed hcomplete hsome hret =>
    refine .completed ?_ ?_ (hreturned.mpr hret)
    · rwa [hwrites]
    · rwa [hwrites]
  | released ids reason hmem hrelease hnot =>
    exact .released ids reason hmem (hwrites.trans hrelease) (mt hreturned.mp hnot)

theorem Fate.append_right (h : Fate log id) (h' : Silent log' id) : Fate (log ++ log') id := by
  apply h.mono
  · rw [touching_append, h'.writes, List.append_nil]
  · exact fun hid => List.mem_append_left _ hid
  · exact fun hrej => rejectedAlone_append.mpr (.inl hrej)
  · exact returned_append.trans (or_iff_left h'.calls)

theorem Fate.append_left (h : Silent log id) (h' : Fate log' id) : Fate (log ++ log') id := by
  apply h'.mono
  · rw [touching_append, h.writes, List.nil_append]
  · exact fun hid => List.mem_append_right _ hid
  · exact fun hrej => rejectedAlone_append.mpr (.inr hrej)
  · exact returned_append.trans (or_iff_right h.calls)

theorem Accounts.append {batch batch' : List (Settlement Numeric)} (h : Accounts batch log)
    (h' : Accounts batch' log') (hdis : ((batch ++ batch').map (·.id)).Nodup) :
    Accounts (batch ++ batch') (log ++ log') := by
  rw [List.map_append, List.nodup_append] at hdis
  obtain ⟨_, _, hdis⟩ := hdis
  refine ⟨fun s hs => ?_, fun id hid => ?_⟩
  · rcases List.mem_append.mp hs with hs | hs
    · exact (h.fate s hs).append_right (h'.silent s.id fun hid =>
        hdis _ (List.mem_map_of_mem hs) _ hid rfl)
    · exact (h'.fate s hs).append_left (h.silent s.id fun hid =>
        hdis _ hid _ (List.mem_map_of_mem hs) rfl)
  · rw [List.map_append, List.mem_append, not_or] at hid
    exact (h.silent id hid.1).append (h'.silent id hid.2)

theorem Accounts.of_perm {batch batch' : List (Settlement Numeric)} (h : Accounts batch log)
    (hperm : batch.Perm batch') : Accounts batch' log where
  fate s hs := h.fate s (hperm.symm.subset hs)
  silent id hid := h.silent id fun hmem => hid ((hperm.map _).subset hmem)

end Append

section Parts

variable {claimed : List (Settlement Numeric)}

theorem filter_id_eq {batch : List (Settlement Numeric)} (hids : (batch.map (·.id)).Nodup)
    {s : Settlement Numeric} (hs : s ∈ batch) : batch.filter (fun t => t.id = s.id) = [s] := by
  induction batch with
  | nil => cases hs
  | cons head rest ih =>
    obtain ⟨hfresh, hrest⟩ := List.nodup_cons.mp hids
    rcases List.mem_cons.mp hs with rfl | hs
    · rw [List.filter_cons, if_pos (decide_eq_true rfl), List.filter_eq_nil_iff.mpr]
      intro t ht
      simp only [decide_eq_true_eq]
      exact fun he => hfresh (List.mem_map.mpr ⟨t, ht, he⟩)
    · have hne : head.id ≠ s.id := fun he => hfresh (List.mem_map.mpr ⟨s, hs, he.symm⟩)
      rw [List.filter_cons, if_neg (by simpa using hne), ih hrest hs]

theorem filter_id_eq_nil {batch : List (Settlement Numeric)} {id : Uuid}
    (hid : id ∉ batch.map (·.id)) : batch.filter (fun t => t.id = id) = [] := by
  rw [List.filter_eq_nil_iff]
  intro t ht
  simp only [decide_eq_true_eq]
  exact fun he => hid (List.mem_map.mpr ⟨t, ht, he⟩)

theorem touching_parks (batch : List (Settlement Numeric)) (reason : Settlement Numeric → String)
    (named : List Uuid) (id : Uuid) :
    BatchLog.touching ⟨batch.map fun s => .park s.id (reason s), named, []⟩ id =
      (batch.filter (fun t => t.id = id)).map fun s => .park s.id (reason s) := by
  unfold BatchLog.touching
  rw [List.filter_map]
  congr 1
  refine List.filter_congr fun t _ => ?_
  simp only [Function.comp_apply, Task.ids, List.mem_singleton, eq_comm]

theorem not_returned_of_no_calls {log : BatchLog} (h : log.calls = []) (id : Uuid) :
    ¬log.Returned id := by
  rintro ⟨call, hcall, _⟩
  rw [h] at hcall
  cases hcall

theorem accounts_empty : Accounts [] .empty where
  fate := by simp
  silent id _ := ⟨rfl, not_returned_of_no_calls rfl id⟩

/-- A pre-flight accounts for what it parks, and lets the rest pass. -/
theorem accounts_parkNamed (answer : Except String (List Uuid)) (reason : Settlement Numeric → String)
    (hids : (claimed.map (·.id)).Nodup) :
    ∃ parked, Accounts parked (parkNamed answer reason claimed).1 ∧
      (parked ++ (parkNamed answer reason claimed).2).Perm claimed := by
  cases answer with
  | error _ => exact ⟨[], accounts_empty, .refl _⟩
  | ok named =>
    have hparked : ((claimed.filter (·.id ∈ named)).map (·.id)).Nodup :=
      (List.filter_sublist.map _).nodup hids
    refine ⟨claimed.filter (·.id ∈ named), ⟨fun s hs => ?_, fun id hid => ⟨?_, ?_⟩⟩, ?_⟩
    · refine .parked (reason s) ?_ (.inl (of_decide_eq_true (List.mem_filter.mp hs).2))
        (not_returned_of_no_calls rfl _)
      rw [parkNamed, touching_parks, filter_id_eq hparked hs, List.map_singleton]
    · rw [parkNamed, touching_parks, filter_id_eq_nil hid, List.map_nil]
    · exact not_returned_of_no_calls rfl _
    · simpa [parkNamed] using
        List.filter_append_perm (fun s : Settlement Numeric => decide (s.id ∈ named)) claimed

theorem returned_single {call : List (Settlement Numeric) × Except String (List SettlementTransaction)}
    {writes : List Task} {named : List Uuid} {id : Uuid} :
    BatchLog.Returned ⟨writes, named, [call]⟩ id ↔
      ∃ txs, call.2 = .ok txs ∧ id ∈ txs.map (·.settlementId) := by
  simp only [BatchLog.Returned, List.mem_singleton, exists_eq_left]

def unmintedOf (claimed : List (Settlement Numeric)) (txs : List SettlementTransaction) : List Uuid :=
  (claimed.map (·.id)).filter (· ∉ txs.map (·.settlementId))

theorem mem_unmintedOf {txs : List SettlementTransaction} {id : Uuid} :
    id ∈ unmintedOf claimed txs ↔ id ∈ claimed.map (·.id) ∧ id ∉ txs.map (·.settlementId) := by
  simp [unmintedOf]

/-- The writes that follow a result, about one settlement: a completion for each of its
transactions, or the release. -/
theorem touching_results (claimed : List (Settlement Numeric)) (txs : List SettlementTransaction)
    (calls : List (List (Settlement Numeric) × Except String (List SettlementTransaction))) (id : Uuid) :
    BatchLog.touching ⟨afterResults claimed txs, [], calls⟩ id =
      ((txs.filter fun tx => tx.settlementId = id).map fun tx =>
          .complete tx.settlementId tx.signature) ++
        if id ∈ unmintedOf claimed txs then
          [.release (unmintedOf claimed txs) "not included in on-chain batch result"] else [] := by
  have hwrites : afterResults claimed txs = txs.map (fun tx => .complete tx.settlementId tx.signature) ++
      if (unmintedOf claimed txs).isEmpty then [] else
        [.release (unmintedOf claimed txs) "not included in on-chain batch result"] := rfl
  unfold BatchLog.touching
  rw [hwrites, List.filter_append, List.filter_map]
  congr 1
  · congr 1
    refine List.filter_congr fun tx _ => ?_
    simp only [Function.comp_apply, Task.ids, List.mem_singleton, eq_comm]
  · by_cases hid : id ∈ unmintedOf claimed txs
    · have hne : (unmintedOf claimed txs).isEmpty = false :=
        List.isEmpty_eq_false_iff.mpr (List.ne_nil_of_mem hid)
      rw [hne, if_neg Bool.false_ne_true, if_pos hid]
      simp [Task.ids, hid]
    · rw [if_neg hid]
      split_ifs
      · rfl
      · simp [Task.ids, hid]

theorem accounts_results {txs : List SettlementTransaction}
    (hnames : ∀ tx ∈ txs, tx.settlementId ∈ claimed.map (·.id)) :
    Accounts claimed ⟨afterResults claimed txs, [], [(claimed, .ok txs)]⟩ := by
  have hreturned : ∀ id, BatchLog.Returned ⟨afterResults claimed txs, [], [(claimed, .ok txs)]⟩ id ↔
      id ∈ txs.map (·.settlementId) := fun id => by
    rw [returned_single]
    exact ⟨fun ⟨_, he, hid⟩ => by cases he; exact hid, fun hid => ⟨txs, rfl, hid⟩⟩
  have hnone : ∀ id, id ∉ txs.map (·.settlementId) →
      txs.filter (fun tx => tx.settlementId = id) = [] := by
    intro id hid
    rw [List.filter_eq_nil_iff]
    intro tx htx
    simp only [decide_eq_true_eq]
    rintro rfl
    exact hid (List.mem_map_of_mem htx)
  have hsent : ∀ id ∈ txs.map (·.settlementId), id ∈ claimed.map (·.id) := by
    intro id hid
    obtain ⟨tx, htx, rfl⟩ := List.mem_map.mp hid
    exact hnames tx htx
  refine ⟨fun s hs => ?_, fun id hid => ⟨?_, fun hret => hid (hsent id ((hreturned id).mp hret))⟩⟩
  · by_cases htx : s.id ∈ txs.map (·.settlementId)
    · have hnot : s.id ∉ unmintedOf claimed txs := fun h => (mem_unmintedOf.mp h).2 htx
      have htouching := touching_results claimed txs [(claimed, .ok txs)] s.id
      rw [if_neg hnot, List.append_nil] at htouching
      obtain ⟨tx, hmem, hid⟩ := List.mem_map.mp htx
      refine .completed (fun t ht => ?_) ?_ ((hreturned _).mpr htx)
      · rw [htouching] at ht
        obtain ⟨tx', htx', rfl⟩ := List.mem_map.mp ht
        exact ⟨tx'.signature, by rw [of_decide_eq_true (List.mem_filter.mp htx').2]⟩
      · rw [htouching]
        exact List.ne_nil_of_mem (List.mem_map_of_mem
          (List.mem_filter.mpr ⟨hmem, decide_eq_true hid⟩))
    · have hin : s.id ∈ unmintedOf claimed txs := mem_unmintedOf.mpr ⟨List.mem_map_of_mem hs, htx⟩
      refine .released _ "not included in on-chain batch result" hin ?_ fun h => htx ((hreturned _).mp h)
      rw [touching_results, hnone _ htx, if_pos hin]
      rfl
  · have htx : id ∉ txs.map (·.settlementId) := fun h => hid (hsent id h)
    rw [touching_results, hnone id htx, if_neg fun h => hid (mem_unmintedOf.mp h).1]
    rfl

theorem silent_error_call (claimed : List (Settlement Numeric)) (reason : String) (id : Uuid) :
    Silent ⟨[], [], [(claimed, .error reason)]⟩ id where
  writes := rfl
  calls h := by
    obtain ⟨txs, he, _⟩ := returned_single.mp h
    cases he

theorem touching_single (t : Task) (named : List Uuid)
    (calls : List (List (Settlement Numeric) × Except String (List SettlementTransaction))) (id : Uuid) :
    BatchLog.touching ⟨[t], named, calls⟩ id = if id ∈ t.ids then [t] else [] := by
  unfold BatchLog.touching
  by_cases h : id ∈ t.ids <;> simp [h]

theorem accounts_release (claimed : List (Settlement Numeric)) (reason : String) :
    Accounts claimed ⟨[.release (claimed.map (·.id)) reason], [], [(claimed, .error reason)]⟩ := by
  have hnot : ∀ id, ¬BatchLog.Returned ⟨[.release (claimed.map (·.id)) reason], [],
      [(claimed, .error reason)]⟩ id := fun id => (silent_error_call claimed reason id).calls
  refine ⟨fun s hs => ?_, fun id hid => ⟨?_, hnot id⟩⟩
  · have hmem : s.id ∈ claimed.map (·.id) := List.mem_map_of_mem hs
    exact .released _ reason hmem ((touching_single _ _ _ _).trans (if_pos hmem)) (hnot s.id)
  · exact (touching_single _ _ _ _).trans (if_neg hid)

theorem accounts_rejected (s : Settlement Numeric) {reason : String}
    (hreason : isDeterministicChainRejection reason = true) :
    Accounts [s] ⟨[.park s.id (rejectedReason reason)], [], [([s], .error reason)]⟩ := by
  have hnot : ∀ id, ¬BatchLog.Returned ⟨[.park s.id (rejectedReason reason)], [],
      [([s], .error reason)]⟩ id := fun id => (silent_error_call [s] reason id).calls
  refine ⟨fun t ht => ?_, fun id hid => ⟨?_, hnot id⟩⟩
  · obtain rfl := List.mem_singleton.mp ht
    exact .parked (rejectedReason reason)
      ((touching_single _ _ _ _).trans (if_pos (List.mem_singleton_self _)))
      (.inr ⟨t, reason, rfl, List.mem_singleton_self _, hreason⟩) (hnot t.id)
  · exact (touching_single _ _ _ _).trans (if_neg hid)

end Parts

section Run

variable {isolate : List (Settlement Numeric) → BatchLog × List SettlementTransaction}

theorem accounts_sendBatch (replies : Replies) {claimed : List (Settlement Numeric)}
    (hisolate : claimed.length ≠ 1 → Accounts claimed (isolate claimed).1) :
    Accounts claimed (sendBatch replies isolate claimed).1 := by
  unfold sendBatch
  cases hreply : replies.gateway claimed with
  | ok txs => exact accounts_results (replies.names_sent _ _ hreply)
  | error reason =>
    dsimp only
    by_cases hreason : isDeterministicChainRejection reason = true
    · rw [if_pos hreason]
      split
      · exact accounts_rejected _ hreason
      next hmany =>
        have hlength : claimed.length ≠ 1 := by
          intro hone
          obtain ⟨s, hs⟩ := List.length_eq_one_iff.mp hone
          exact hmany s hs
        have hrest := hisolate hlength
        exact ⟨fun s hs => (hrest.fate s hs).append_left (silent_error_call _ _ _),
          fun id hid => (silent_error_call _ _ _).append (hrest.silent id hid)⟩
    · rw [if_neg hreason]
      exact accounts_release claimed reason

theorem accounts_settleBatch (replies : Replies) {claimed : List (Settlement Numeric)}
    (hids : (claimed.map (·.id)).Nodup)
    (hisolate : ∀ batch : List (Settlement Numeric), batch.Sublist claimed → batch.length ≠ 1 →
      Accounts batch (isolate batch).1) :
    Accounts claimed (settleBatch replies isolate claimed).1 := by
  unfold settleBatch
  dsimp only
  have hsub := parkNamed_sublist replies.unplaced unplacedReason claimed
  obtain ⟨unplaced, hunplaced, hperm⟩ := accounts_parkNamed replies.unplaced unplacedReason hids
  generalize parkNamed replies.unplaced unplacedReason claimed = placed at hsub hunplaced hperm ⊢
  have hsub' := parkNamed_sublist replies.lapsed lapsedReason placed.2
  obtain ⟨lapsed, hlapsed, hperm'⟩ := accounts_parkNamed replies.lapsed lapsedReason
    ((hsub.map _).nodup hids)
  generalize parkNamed replies.lapsed lapsedReason placed.2 = current at hsub' hlapsed hperm' ⊢
  have hall : (unplaced ++ lapsed ++ current.2).Perm claimed := by
    rw [List.append_assoc]
    exact (hperm'.append_left unplaced).trans hperm
  have hallIds : ((unplaced ++ lapsed ++ current.2).map (·.id)).Nodup := (hall.map _).nodup_iff.mpr hids
  have hfirstIds : ((unplaced ++ lapsed).map (·.id)).Nodup :=
    ((List.sublist_append_left _ current.2).map _).nodup hallIds
  split_ifs with hplaced hcurrent
  · rw [List.isEmpty_iff.mp hplaced, List.append_nil] at hperm
    exact hunplaced.of_perm hperm
  · rw [List.isEmpty_iff.mp hcurrent, List.append_nil] at hall
    exact (hunplaced.append hlapsed hfirstIds).of_perm hall
  · have hsent := accounts_sendBatch replies (hisolate current.2 (hsub'.trans hsub))
    exact ((hunplaced.append hlapsed hfirstIds).append hsent hallIds).of_perm hall

theorem accounts_settleEach (alone : ℕ → Replies) {claimed : List (Settlement Numeric)}
    (hids : (claimed.map (·.id)).Nodup) : Accounts claimed (settleEach alone claimed).1 := by
  induction claimed generalizing alone with
  | nil => exact accounts_empty
  | cons s rest ih =>
    have hone : Accounts [s] (settleAlone (alone 0) s).1 := by
      refine accounts_settleBatch (alone 0) (List.nodup_singleton _) fun batch hsub hlength => ?_
      rcases List.sublist_singleton.mp hsub with rfl | rfl
      · exact accounts_empty
      · exact absurd rfl hlength
    exact hone.append (ih _ (List.nodup_cons.mp hids).2) hids

theorem accounts_settleClaimed (replies : Replies) (alone : ℕ → Replies)
    {claimed : List (Settlement Numeric)} (hids : (claimed.map (·.id)).Nodup) :
    Accounts claimed (settleClaimed replies alone claimed).1 :=
  accounts_settleBatch replies hids fun _ hsub _ =>
    accounts_settleEach alone ((hsub.map _).nodup hids)

end Run

def Task.write (db : Database) (now : ℤ) (t : Task) : Database :=
  ((t.run db now .done).map (·.db)).getD db

def applyWrites : List Task → (ℕ → ℤ) → Database → Database
  | [], _, db => db
  | t :: ts, clock, db => applyWrites ts (fun k => clock (k + 1)) (t.write db (clock 0))

def Task.onRow (now : ℤ) : Task → Settlement Numeric → Settlement Numeric
  | .park id reason, s => if s.id = id then
      { s with
        status := .permanentlyFailed, transactionHash := none, errorMessage := some reason,
        updatedAt := now }
      else s
  | .complete id signature, s => if s.id = id then
      { s with
        status := .completed, transactionHash := some signature, errorMessage := none,
        updatedAt := now }
      else s
  | .completePlain id signature, s => if s.id = id then
      { s with
        status := .completed, transactionHash := some signature, errorMessage := none,
        updatedAt := now }
      else s
  | .release ids reason, s => if s.id ∈ ids ∧ s.status = .processing then
      { Database.retried s maxSettlementRetries now with errorMessage := some reason } else s
  | .checkPlacement _, s => s
  | .checkExpiry _, s => s
  | .send _, s => s

section Rows

variable {db : Database} {now : ℤ}

theorem Task.rows_write (t : Task) :
    (t.write db now).settlements.rows = db.settlements.rows.map (t.onRow now) := by
  cases t with
  | park id reason => rfl
  | complete id signature => rfl
  | completePlain id signature => rfl
  | release ids reason => rfl
  | checkPlacement claimed => exact (List.map_id _).symm
  | checkExpiry claimed => exact (List.map_id _).symm
  | send claimed => exact (List.map_id _).symm

theorem Task.onRow_id (t : Task) (s : Settlement Numeric) : (t.onRow now s).id = s.id := by
  cases t with
  | park id reason => simp only [Task.onRow]; split_ifs <;> rfl
  | complete id signature => simp only [Task.onRow]; split_ifs <;> rfl
  | completePlain id signature => simp only [Task.onRow]; split_ifs <;> rfl
  | release ids reason => simp only [Task.onRow]; split_ifs <;> rfl
  | checkPlacement claimed => rfl
  | checkExpiry claimed => rfl
  | send claimed => rfl

theorem Task.onRow_of_not_mem {t : Task} {s : Settlement Numeric} (h : s.id ∉ t.ids) :
    t.onRow now s = s := by
  cases t with
  | park id reason => exact if_neg fun he => h (List.mem_singleton.mpr he)
  | complete id signature => exact if_neg fun he => h (List.mem_singleton.mpr he)
  | completePlain id signature => exact if_neg fun he => h (List.mem_singleton.mpr he)
  | release ids reason => exact if_neg fun he => h he.1
  | checkPlacement claimed => rfl
  | checkExpiry claimed => rfl
  | send claimed => rfl

def runRow : List Task → (ℕ → ℤ) → Settlement Numeric → Settlement Numeric
  | [], _, s => s
  | t :: ts, clock, s => runRow ts (fun k => clock (k + 1)) (t.onRow (clock 0) s)

theorem rows_applyWrites (ts : List Task) (clock : ℕ → ℤ) (db : Database) :
    (applyWrites ts clock db).settlements.rows = db.settlements.rows.map (runRow ts clock) := by
  induction ts generalizing clock db with
  | nil => exact (List.map_id _).symm
  | cons t ts ih =>
    rw [applyWrites, ih, t.rows_write, List.map_map]
    rfl

theorem runRow_id (ts : List Task) (clock : ℕ → ℤ) (s : Settlement Numeric) :
    (runRow ts clock s).id = s.id := by
  induction ts generalizing clock s with
  | nil => rfl
  | cons t ts ih => rw [runRow, ih, t.onRow_id]

theorem runRow_of_untouched {ts : List Task} {s : Settlement Numeric}
    (h : ts.filter (s.id ∈ ·.ids) = []) (clock : ℕ → ℤ) : runRow ts clock s = s := by
  induction ts generalizing clock with
  | nil => rfl
  | cons t ts ih =>
    obtain ⟨hhead, htail⟩ := List.forall_mem_cons.mp (List.filter_eq_nil_iff.mp h)
    rw [runRow, Task.onRow_of_not_mem (by simpa using hhead)]
    exact ih (List.filter_eq_nil_iff.mpr htail) _

/-- A row that one write is about is what this write makes of it. -/
theorem runRow_of_single {ts : List Task} {t : Task} {s : Settlement Numeric}
    (h : ts.filter (s.id ∈ ·.ids) = [t]) (clock : ℕ → ℤ) : ∃ now, runRow ts clock s = t.onRow now s := by
  induction ts generalizing clock with
  | nil => cases h
  | cons head ts ih =>
    by_cases hmem : s.id ∈ head.ids
    · rw [List.filter_cons, if_pos (decide_eq_true hmem)] at h
      obtain ⟨rfl, htail⟩ := List.cons.inj h
      refine ⟨clock 0, ?_⟩
      rw [runRow]
      apply runRow_of_untouched
      rwa [Task.onRow_id]
    · rw [List.filter_cons, if_neg (by simpa using hmem)] at h
      rw [runRow, Task.onRow_of_not_mem hmem]
      exact ih h _

/-- Completions complete a row, and it stays so. -/
theorem runRow_of_completed {ts : List Task} {s : Settlement Numeric}
    (h : ∀ t ∈ ts.filter (s.id ∈ ·.ids), ∃ signature, t = .complete s.id signature)
    (hsome : ts.filter (s.id ∈ ·.ids) ≠ [] ∨ s.status = .completed) (clock : ℕ → ℤ) :
    (runRow ts clock s).status = .completed := by
  induction ts generalizing clock s with
  | nil => exact hsome.resolve_left (by simp)
  | cons head ts ih =>
    by_cases hmem : s.id ∈ head.ids
    · rw [List.filter_cons, if_pos (decide_eq_true hmem)] at h
      obtain ⟨⟨signature, rfl⟩, htail⟩ := List.forall_mem_cons.mp h
      refine ih ?_ (.inr ?_) _
      · rw [Task.onRow_id]
        exact htail
      · simp only [Task.onRow, if_true]
    · rw [List.filter_cons, if_neg (by simpa using hmem)] at h hsome
      rw [runRow, Task.onRow_of_not_mem hmem]
      exact ih h hsome _

end Rows

structure Settled (log : BatchLog) (s row : Settlement Numeric) : Prop where
  id : row.id = s.id
  moved : row.status ≠ .processing
  completed : row.status = .completed ↔ log.Returned s.id
  failed : row.status = .permanentlyFailed →
    s.id ∈ log.named ∨ log.RejectedAlone s.id ∨ maxSettlementRetries ≤ s.retryCount + 1
  pending : row.status ≠ .completed → row.status ≠ .permanentlyFailed →
    row.status = .pending ∧ row.retryCount = s.retryCount + 1

theorem Fate.settled {log : BatchLog} {s : Settlement Numeric} (h : Fate log s.id)
    (hstatus : s.status = .processing) (clock : ℕ → ℤ) :
    Settled log s (runRow log.writes clock s) := by
  have hid := runRow_id log.writes clock s
  cases h with
  | parked reason hwrites hwhy hnot =>
    obtain ⟨now, hrow⟩ := runRow_of_single hwrites clock
    have hfailed : (runRow log.writes clock s).status = .permanentlyFailed := by
      rw [hrow]
      simp only [Task.onRow, if_true]
    exact
      { id := hid
        moved := by rw [hfailed]; decide
        completed := iff_of_false (by rw [hfailed]; decide) hnot
        failed := fun _ => hwhy.imp_right .inl
        pending := fun _ hne => absurd hfailed hne }
  | completed hwrites hsome hreturned =>
    have hcompleted := runRow_of_completed hwrites (.inl hsome) clock
    exact
      { id := hid
        moved := by rw [hcompleted]; decide
        completed := iff_of_true hcompleted hreturned
        failed := fun hf => by rw [hcompleted] at hf; cases hf
        pending := fun hne _ => absurd hcompleted hne }
  | released ids reason hmem hwrites hnot =>
    obtain ⟨now, hrow⟩ := runRow_of_single hwrites clock
    have hretried : runRow log.writes clock s =
        { Database.retried s maxSettlementRetries now with errorMessage := some reason } := by
      rw [hrow]
      exact if_pos ⟨hmem, hstatus⟩
    by_cases hexhausted : maxSettlementRetries ≤ s.retryCount + 1
    · have hfailed : (runRow log.writes clock s).status = .permanentlyFailed := by
        rw [hretried]
        exact if_pos hexhausted
      exact
        { id := hid
          moved := by rw [hfailed]; decide
          completed := iff_of_false (by rw [hfailed]; decide) hnot
          failed := fun _ => .inr (.inr hexhausted)
          pending := fun _ hne => absurd hfailed hne }
    · have hpending : (runRow log.writes clock s).status = .pending := by
        rw [hretried]
        exact if_neg hexhausted
      exact
        { id := hid
          moved := by rw [hpending]; decide
          completed := iff_of_false (by rw [hpending]; decide) hnot
          failed := fun hf => by rw [hpending] at hf; cases hf
          pending := fun _ _ => ⟨hpending, by rw [hretried]; rfl⟩ }

def rejecting (sound : List Uuid) : Replies where
  unplaced := .ok []
  lapsed := .ok []
  gateway batch :=
    if batch.all (·.id ∈ sound) then .ok (batch.map fun s => ⟨s.id, "landed"⟩)
    else .error "InstructionError(0, Custom(6003))"
  names_sent batch txs h tx htx := by
    split_ifs at h
    obtain rfl := Except.ok.inj h
    obtain ⟨s, hs, rfl⟩ := List.mem_map.mp htx
    exact List.mem_map_of_mem hs

end TradingService
