import TradingService.Settlement.Gateway

/-!
# What the gateway reports

The result of a call is compared with what the call landed. The chunks of the pooled
path stand and fall together in the result and not on the chain, so the two differ as
soon as an error follows a swap.
-/

namespace TradingService

theorem exists_of_isOk {ε α : Type} {x : Except ε α} (h : x.isOk) : ∃ a, x = .ok a := by
  cases x with
  | error e => cases h
  | ok a => exact ⟨a, rfl⟩

theorem waitForConfirmation_eq_true (signature : String) (polls : List (Except String SignatureState)) :
    waitForConfirmation signature polls = .ok true ↔ verdict polls = some .confirmed := by
  induction polls with
  | nil => simp [waitForConfirmation, verdict]
  | cons poll polls ih =>
    match poll with
    | .ok .confirmed => simp [waitForConfirmation, verdict]
    | .ok (.failed err) => simp [waitForConfirmation, verdict]
    | .ok .pending => simpa [waitForConfirmation, verdict] using ih
    | .error _ => simpa [waitForConfirmation, verdict] using ih

theorem mem_of_verdict_confirmed {polls : List (Except String SignatureState)}
    (h : verdict polls = some .confirmed) : .ok .confirmed ∈ polls := by
  obtain ⟨poll, hpoll, hverdict⟩ := List.exists_of_findSome?_eq_some h
  match poll with
  | .ok .confirmed => exact hpoll
  | .ok (.failed err) => cases hverdict
  | .ok .pending => cases hverdict
  | .error _ => cases hverdict

theorem Submission.Confirmed.landed {sub : Submission} (h : sub.Confirmed) : sub.landed = true :=
  sub.confirmed_landed (mem_of_verdict_confirmed h.2)

theorem executeOffchainSettlement_eq_ok {a : OffchainAttempt} {id : Uuid} :
    (∃ tx, executeOffchainSettlement a id = .ok tx) ↔ a.Accepted := by
  unfold executeOffchainSettlement OffchainAttempt.Accepted
  cases a.prepared <;> cases a.reply <;> cases a.slot <;>
    simp [bind, Except.bind, pure, Except.pure, Except.isOk, Except.toBool]

theorem executeOffchainSettlement_id {a : OffchainAttempt} {id : Uuid} {tx : SettlementTransaction}
    (h : executeOffchainSettlement a id = .ok tx) : tx.settlementId = id := by
  unfold executeOffchainSettlement at h
  cases hp : a.prepared <;> cases hr : a.reply <;> cases hs : a.slot <;>
    simp [hp, hr, hs, bind, Except.bind, pure, Except.pure] at h
  rw [← h]

namespace Surroundings

variable {env : Surroundings} {db : Database} {settlements : List (Settlement Numeric)}

section Chunks

variable (env) in
theorem settleChunk_of_confirmed {sub : Submission} (h : sub.Confirmed) (ids : List Uuid) :
    ∃ txs, env.settleChunk sub ids = .ok txs ∧ txs.map (·.settlementId) = ids := by
  obtain ⟨hok, hverdict⟩ := h
  obtain ⟨signature, hreply⟩ := exists_of_isOk hok
  refine ⟨ids.map fun id => { settlementId := id, signature := signature }, ?_, by simp [Function.comp_def]⟩
  simp only [settleChunk, hreply, (waitForConfirmation_eq_true signature sub.polls).mpr hverdict]

variable (env) in
theorem settleChunk_of_not_confirmed {sub : Submission} (h : ¬sub.Confirmed) (ids : List Uuid) :
    ∃ e, env.settleChunk sub ids = .error e := by
  unfold settleChunk
  cases hreply : sub.reply with
  | error e => exact ⟨_, rfl⟩
  | ok signature =>
    have hwait : waitForConfirmation signature sub.polls ≠ .ok true := fun hw =>
      h ⟨by rw [hreply]; rfl, (waitForConfirmation_eq_true signature sub.polls).mp hw⟩
    cases hresult : waitForConfirmation signature sub.polls with
    | error e =>
      simp only [hresult]
      exact ⟨_, rfl⟩
    | ok confirmed =>
      cases confirmed with
      | false =>
        simp only [hresult]
        exact ⟨_, rfl⟩
      | true => exact absurd hresult hwait

variable (env) in
theorem settleChunks_of_confirmed (k : ℕ) (chunks : List (List Uuid))
    (h : ∀ i < chunks.length, (env.chunk (k + i)).Confirmed) :
    (∃ txs, env.settleChunks k chunks = .ok txs ∧ txs.map (·.settlementId) = chunks.flatten) ∧
      env.landedChunks k chunks = chunks.flatten := by
  induction chunks generalizing k with
  | nil => exact ⟨⟨[], rfl, rfl⟩, rfl⟩
  | cons ids chunks ih =>
    have hhead : (env.chunk k).Confirmed := h 0 (by simp)
    obtain ⟨txs, htxs, hids⟩ := settleChunk_of_confirmed env hhead ids
    obtain ⟨⟨rest, hrest, hflat⟩, hlanded⟩ := ih (k + 1) fun i hi => by
      rw [show k + 1 + i = k + (i + 1) by omega]
      exact h (i + 1) (by simpa using hi)
    constructor
    · refine ⟨txs ++ rest, by simp [settleChunks, htxs, hrest, bind, Except.bind, pure, Except.pure], ?_⟩
      rw [List.map_append, hids, hflat, List.flatten_cons]
    · rw [landedChunks, if_pos hhead.landed, htxs, hlanded, List.flatten_cons]

theorem settleChunks_of_not_confirmed (k : ℕ) (chunks : List (List Uuid))
    (h : ∃ i < chunks.length, ¬(env.chunk (k + i)).Confirmed) :
    ∃ e, env.settleChunks k chunks = .error e := by
  induction chunks generalizing k with
  | nil => simp at h
  | cons ids chunks ih =>
    by_cases hhead : (env.chunk k).Confirmed
    · obtain ⟨txs, htxs, _⟩ := settleChunk_of_confirmed env hhead ids
      obtain ⟨i, hi, hnot⟩ := h
      cases i with
      | zero => exact absurd hhead hnot
      | succ i =>
        obtain ⟨e, he⟩ := ih (k + 1) ⟨i, by simpa using hi, by
          rwa [show k + 1 + i = k + (i + 1) by omega]⟩
        exact ⟨e, by simp [settleChunks, htxs, he, bind, Except.bind]⟩
    · obtain ⟨e, he⟩ := settleChunk_of_not_confirmed env hhead ids
      exact ⟨e, by simp [settleChunks, he, bind, Except.bind]⟩

theorem landedChunks_subset (k : ℕ) (chunks : List (List Uuid)) :
    env.landedChunks k chunks ⊆ chunks.flatten := by
  induction chunks generalizing k with
  | nil => exact List.Subset.refl _
  | cons ids chunks ih =>
    intro id hid
    rw [landedChunks] at hid
    rw [List.flatten_cons]
    rcases List.mem_append.mp hid with hid | hid
    · split_ifs at hid
      · exact List.mem_append_left _ hid
      · cases hid
    · cases hchunk : env.settleChunk (env.chunk k) ids with
      | error e => simp [hchunk] at hid
      | ok txs =>
        rw [hchunk] at hid
        exact List.mem_append_right _ (ih (k + 1) hid)

/-- Nothing landed before an error only if the first chunk is the one that failed, and
it really failed. -/
theorem landedChunks_eq_nil (k : ℕ) (ids : List Uuid) (chunks : List (List Uuid)) (hids : ids ≠ []) :
    env.landedChunks k (ids :: chunks) = [] ↔
      ¬(env.chunk k).Confirmed ∧ (env.chunk k).landed = false := by
  by_cases hhead : (env.chunk k).Confirmed
  · refine iff_of_false (fun hnil => hids ?_) fun h => h.1 hhead
    rw [landedChunks, if_pos hhead.landed] at hnil
    exact (List.append_eq_nil_iff.mp hnil).1
  · obtain ⟨e, he⟩ := settleChunk_of_not_confirmed env hhead ids
    rw [landedChunks, he, List.append_nil, and_iff_right hhead]
    cases (env.chunk k).landed <;> simp [hids]

end Chunks

/-- There is nothing on the pooled path, or it is ready and each of its transactions
is confirmed. -/
def PooledThrough (env : Surroundings) (db : Database) (settlements : List (Settlement Numeric)) :
    Prop :=
  env.pooledChunks db settlements = [] ∨
    env.setup = .ok () ∧ ∀ i < (env.pooledChunks db settlements).length, (env.chunk i).Confirmed

instance (env : Surroundings) (db : Database) (settlements : List (Settlement Numeric)) :
    Decidable (env.PooledThrough db settlements) :=
  inferInstanceAs (Decidable (_ ∨ _ ∧ ∀ i < _, _))

def NothingPooled (env : Surroundings) : Prop :=
  env.setup = .ok () → ¬(env.chunk 0).Confirmed ∧ (env.chunk 0).landed = false

/-- The result of a call is what it landed: nothing after an error, and otherwise the
settlements it names. -/
def ReportsExactly (env : Surroundings) (db : Database) (settlements : List (Settlement Numeric)) :
    Prop :=
  match env.executeBatchedSettlements db settlements with
  | .error _ => ∀ s ∈ settlements, s.id ∉ env.landed db settlements
  | .ok txs => ∀ s ∈ settlements,
      (s.id ∈ env.landed db settlements ↔ s.id ∈ txs.map (·.settlementId))

instance (env : Surroundings) (db : Database) (settlements : List (Settlement Numeric)) :
    Decidable (env.ReportsExactly db settlements) := by
  unfold ReportsExactly
  split <;> infer_instance

section Paths

theorem mem_landedOffchain {id : Uuid} :
    id ∈ ((settlements.filter (env.isOffchain db)).filter
        fun s => (env.offchain s.id).Swapped).map (·.id) ↔
      ∃ s ∈ settlements, env.isOffchain db s ∧ s.id = id ∧ (env.offchain id).Swapped := by
  simp only [List.mem_map, List.mem_filter, decide_eq_true_eq]
  constructor
  · rintro ⟨s, ⟨⟨hs, hroute⟩, hswapped⟩, rfl⟩
    exact ⟨s, hs, hroute, rfl, hswapped⟩
  · rintro ⟨s, hs, hroute, rfl, hswapped⟩
    exact ⟨s, ⟨⟨hs, hroute⟩, hswapped⟩, rfl⟩

theorem mem_settleOffchain {id : Uuid} :
    id ∈ (env.settleOffchain db settlements).map (·.settlementId) ↔
      ∃ s ∈ settlements, env.isOffchain db s ∧ s.id = id ∧ (env.offchain id).Accepted := by
  simp only [settleOffchain, List.mem_map, List.mem_filterMap, List.mem_filter]
  constructor
  · rintro ⟨tx, ⟨s, ⟨hs, hroute⟩, htx⟩, rfl⟩
    have hok : executeOffchainSettlement (env.offchain s.id) s.id = .ok tx := by
      cases hres : executeOffchainSettlement (env.offchain s.id) s.id with
      | error e => simp [hres, Except.toOption] at htx
      | ok tx' =>
        rw [hres] at htx
        rw [Option.some.inj htx]
    have hid := executeOffchainSettlement_id hok
    exact ⟨s, hs, hroute, hid.symm, hid ▸ executeOffchainSettlement_eq_ok.mp ⟨tx, hok⟩⟩
  · rintro ⟨s, hs, hroute, rfl, haccepted⟩
    obtain ⟨tx, htx⟩ := executeOffchainSettlement_eq_ok.mpr haccepted
    exact ⟨tx, ⟨s, ⟨hs, hroute⟩, by rw [htx]; rfl⟩, executeOffchainSettlement_id htx⟩

theorem settleOffchain_ids :
    ((env.settleOffchain db settlements).map (·.settlementId)).Sublist
      ((settlements.filter (env.isOffchain db)).map (·.id)) := by
  unfold settleOffchain
  induction settlements.filter (env.isOffchain db) with
  | nil => exact List.Sublist.slnil
  | cons s rest ih =>
    cases hres : executeOffchainSettlement (env.offchain s.id) s.id with
    | error e => simpa [List.filterMap_cons, hres, Except.toOption] using ih.cons s.id
    | ok tx =>
      simpa [List.filterMap_cons, hres, Except.toOption, executeOffchainSettlement_id hres] using ih

theorem flatten_pooledChunks :
    (env.pooledChunks db settlements).flatten = (settlements.filter (env.isPooled db)).map (·.id) :=
  List.flatten_chunks env.config.one_le_chunk _

theorem not_pooled_of_offchain (hids : (settlements.map (·.id)).Nodup) {s : Settlement Numeric}
    (hs : s ∈ settlements) (h : env.isOffchain db s) :
    s.id ∉ (env.pooledChunks db settlements).flatten := by
  rw [flatten_pooledChunks]
  intro hmem
  obtain ⟨s', hs', hid⟩ := List.mem_map.mp hmem
  obtain ⟨hs', hpooled⟩ := List.mem_filter.mp hs'
  obtain rfl := List.inj_on_of_nodup_map hids hs' hs hid
  unfold isOffchain at h
  unfold isPooled at hpooled
  cases hroute : env.route db s' <;> simp [hroute] at h hpooled

end Paths

section Calls

theorem settlePooled_of_through (h : env.PooledThrough db settlements) :
    ∃ txs, env.settlePooled db settlements = .ok txs ∧
      txs.map (·.settlementId) = (env.pooledChunks db settlements).flatten := by
  by_cases hnil : env.pooledChunks db settlements = []
  · exact ⟨[], by simp [settlePooled, hnil], by simp [hnil]⟩
  · obtain ⟨hsetup, hconfirmed⟩ := h.resolve_left hnil
    obtain ⟨⟨txs, htxs, hflat⟩, _⟩ := settleChunks_of_confirmed env 0 _
      (by simpa using hconfirmed)
    exact ⟨txs, by simp only [settlePooled, hnil, if_false, hsetup, htxs, bind, Except.bind], hflat⟩

theorem settlePooled_of_not_through (h : ¬env.PooledThrough db settlements) :
    ∃ e, env.settlePooled db settlements = .error e := by
  obtain ⟨hnonempty, hfail⟩ := not_or.mp h
  cases hsetup : env.setup with
  | error e => exact ⟨e, by simp only [settlePooled, hnonempty, if_false, hsetup, bind, Except.bind]⟩
  | ok _ =>
    have hnot : ∃ i < (env.pooledChunks db settlements).length, ¬(env.chunk (0 + i)).Confirmed := by
      by_contra hall
      push Not at hall
      exact hfail ⟨hsetup, by simpa using hall⟩
    obtain ⟨e, he⟩ := settleChunks_of_not_confirmed 0 _ hnot
    exact ⟨e, by simp only [settlePooled, hnonempty, if_false, hsetup, he, bind, Except.bind]⟩

theorem executeBatchedSettlements_eq_ok {txs : List SettlementTransaction}
    (h : env.executeBatchedSettlements db settlements = .ok txs) :
    txs = [] ∨ ∃ pooled, txs = env.settleOffchain db settlements ++ pooled ∧
      pooled.map (·.settlementId) = (env.pooledChunks db settlements).flatten := by
  unfold executeBatchedSettlements at h
  split_ifs at h
  · by_cases hthrough : env.PooledThrough db settlements
    · obtain ⟨pooled, hpooled, hflat⟩ := settlePooled_of_through hthrough
      simp only [hpooled, bind, Except.bind, pure, Except.pure, Except.ok.injEq] at h
      exact .inr ⟨pooled, h.symm, hflat⟩
    · obtain ⟨e, he⟩ := settlePooled_of_not_through hthrough
      simp [he, bind, Except.bind] at h
  · exact .inl (Except.ok.inj h).symm

/-- Each settlement of the call is named at most once by its results, and no other one. -/
theorem executeBatchedSettlements_ids (hids : (settlements.map (·.id)).Nodup)
    {txs : List SettlementTransaction} (h : env.executeBatchedSettlements db settlements = .ok txs) :
    (txs.map (·.settlementId)).Nodup ∧
      ∀ id ∈ txs.map (·.settlementId), id ∈ settlements.map (·.id) := by
  rcases executeBatchedSettlements_eq_ok h with rfl | ⟨pooled, rfl, hpooled⟩
  · simp
  have hoff : ((env.settleOffchain db settlements).map (·.settlementId)).Sublist
      ((settlements.filter (env.isOffchain db)).map (·.id)) := settleOffchain_ids
  rw [List.map_append, hpooled, flatten_pooledChunks]
  constructor
  · rw [List.nodup_append]
    refine ⟨(hoff.trans (List.filter_sublist.map _)).nodup hids,
      (List.filter_sublist.map _).nodup hids, fun x hx y hy hxy => ?_⟩
    obtain ⟨s, hs, hroute, rfl, _⟩ := mem_settleOffchain.mp hx
    refine not_pooled_of_offchain hids hs hroute ?_
    rw [flatten_pooledChunks, hxy]
    exact hy
  · intro id hid
    rcases List.mem_append.mp hid with hid | hid
    · exact (List.filter_sublist.map _).subset (hoff.subset hid)
    · exact (List.filter_sublist.map _).subset hid

variable (henabled : env.config.tradeSettlementEnabled = true)
include henabled

theorem landed_of_through (h : env.PooledThrough db settlements) :
    env.landed db settlements = ((settlements.filter (env.isOffchain db)).filter
      fun s => (env.offchain s.id).Swapped).map (·.id) ++
        (env.pooledChunks db settlements).flatten := by
  rcases h with hnil | ⟨hsetup, hconfirmed⟩
  · simp only [landed, henabled, if_true, hnil, landedChunks, List.flatten_nil]
    cases env.setup <;> rfl
  · obtain ⟨_, hland⟩ := settleChunks_of_confirmed env 0 _ (by simpa using hconfirmed)
    simp only [landed, henabled, if_true, hsetup, hland]

/-- The pooled path goes through: it lands and reports all that is on it. -/
theorem reportsExactly_of_through (hids : (settlements.map (·.id)).Nodup)
    (h : env.PooledThrough db settlements) :
    env.ReportsExactly db settlements ↔ ∀ s ∈ settlements, env.isOffchain db s →
      ((env.offchain s.id).Swapped ↔ (env.offchain s.id).Accepted) := by
  obtain ⟨txs, htxs, hflat⟩ := settlePooled_of_through h
  have hresult : env.executeBatchedSettlements db settlements =
      .ok (env.settleOffchain db settlements ++ txs) := by
    simp only [executeBatchedSettlements, henabled, if_true, htxs, bind, Except.bind, pure,
      Except.pure]
  have hlanded := landed_of_through henabled h
  simp only [ReportsExactly, hresult, hlanded, List.map_append, List.mem_append, hflat]
  constructor
  · intro hexact s hs hroute
    have hiff := hexact s hs
    have hnot := not_pooled_of_offchain hids hs hroute
    simp only [hnot, or_false, mem_landedOffchain, mem_settleOffchain] at hiff
    constructor
    · intro hswapped
      obtain ⟨_, _, _, _, haccepted⟩ := hiff.mp ⟨s, hs, hroute, rfl, hswapped⟩
      exact haccepted
    · intro haccepted
      obtain ⟨_, _, _, _, hswapped⟩ := hiff.mpr ⟨s, hs, hroute, rfl, haccepted⟩
      exact hswapped
  · intro hexact s _
    apply or_congr_left
    rw [mem_landedOffchain, mem_settleOffchain]
    constructor
    · rintro ⟨s', hs', hroute, hid, hswapped⟩
      exact ⟨s', hs', hroute, hid, hid ▸ (hexact s' hs' hroute).mp (hid ▸ hswapped)⟩
    · rintro ⟨s', hs', hroute, hid, haccepted⟩
      exact ⟨s', hs', hroute, hid, hid ▸ (hexact s' hs' hroute).mpr (hid ▸ haccepted)⟩

/-- The pooled path fails: the call is an error, whatever has landed before. -/
theorem reportsExactly_of_not_through (h : ¬env.PooledThrough db settlements) :
    env.ReportsExactly db settlements ↔ env.NothingPooled ∧
      ∀ s ∈ settlements, env.isOffchain db s → ¬(env.offchain s.id).Swapped := by
  obtain ⟨hnonempty, _⟩ := not_or.mp h
  obtain ⟨ids, chunks, hchunks⟩ := List.exists_cons_of_ne_nil hnonempty
  obtain ⟨e, herror⟩ := settlePooled_of_not_through h
  have hresult : env.executeBatchedSettlements db settlements = .error e := by
    simp only [executeBatchedSettlements, henabled, if_true, herror, bind, Except.bind]
  have hids : ids ≠ [] :=
    List.ne_nil_of_mem_chunks env.config.one_le_chunk
      (show ids ∈ env.pooledChunks db settlements from hchunks ▸ List.mem_cons_self)
  simp only [ReportsExactly, hresult]
  constructor
  · intro hnone
    refine ⟨fun hsetup => ?_, fun s hs hroute hswapped => hnone s hs ?_⟩
    · rw [← landedChunks_eq_nil 0 ids chunks hids, ← hchunks]
      by_contra hlanded
      obtain ⟨id, hid⟩ := List.exists_mem_of_ne_nil _ hlanded
      have hflat := landedChunks_subset 0 _ hid
      rw [flatten_pooledChunks] at hflat
      obtain ⟨s, hs, rfl⟩ := List.mem_map.mp hflat
      refine hnone s (List.mem_of_mem_filter hs) ?_
      simp only [landed, henabled, if_true, hsetup]
      exact List.mem_append_right _ hid
    · simp only [landed, henabled, if_true]
      exact List.mem_append_left _ (mem_landedOffchain.mpr ⟨s, hs, hroute, rfl, hswapped⟩)
  · rintro ⟨hnothing, hoff⟩ s hs hmem
    simp only [landed, henabled, if_true] at hmem
    rcases List.mem_append.mp hmem with hmem | hmem
    · obtain ⟨s', hs', hroute, hid, hswapped⟩ := mem_landedOffchain.mp hmem
      exact hoff s' hs' hroute (hid ▸ hswapped)
    · cases hsetup : env.setup with
      | error e => simp [hsetup] at hmem
      | ok _ =>
        rw [hsetup, hchunks, (landedChunks_eq_nil 0 ids chunks hids).mpr (hnothing hsetup)] at hmem
        cases hmem

end Calls

/-- A call reports what it landed exactly if the pooled path goes through and each signed
settlement landed just if its calls returned, or the pooled path fails with nothing
landed on either path. -/
theorem reportsExactly_iff (env : Surroundings) (db : Database)
    (settlements : List (Settlement Numeric)) (hids : (settlements.map (·.id)).Nodup) :
    env.ReportsExactly db settlements ↔
      env.config.tradeSettlementEnabled = false ∨
      (env.PooledThrough db settlements ∧ ∀ s ∈ settlements, env.isOffchain db s →
        ((env.offchain s.id).Swapped ↔ (env.offchain s.id).Accepted)) ∨
      (¬env.PooledThrough db settlements ∧ env.NothingPooled ∧
        ∀ s ∈ settlements, env.isOffchain db s → ¬(env.offchain s.id).Swapped) := by
  cases henabled : env.config.tradeSettlementEnabled with
  | false =>
    refine iff_of_true ?_ (.inl rfl)
    simp [ReportsExactly, executeBatchedSettlements, landed, henabled]
  | true =>
    rw [or_iff_right (by decide)]
    by_cases hthrough : env.PooledThrough db settlements
    · rw [reportsExactly_of_through henabled hids hthrough, and_iff_right hthrough]
      exact ⟨.inl, fun h => h.elim id fun h => absurd hthrough h.1⟩
    · rw [reportsExactly_of_not_through henabled hthrough, and_iff_right hthrough]
      exact ⟨.inr, fun h => h.elim (fun h => absurd h.1 hthrough) id⟩

/-- A call that lands nothing, or one that goes through and returns for each signed
settlement that it lands. -/
def ReportsLanded (env : Surroundings) (db : Database) (settlements : List (Settlement Numeric)) :
    Prop :=
  env.landed db settlements = [] ∨ (env.PooledThrough db settlements ∧
    ∀ s ∈ settlements, env.isOffchain db s →
      (env.offchain s.id).Swapped → (env.offchain s.id).Accepted)

instance (env : Surroundings) (db : Database) (settlements : List (Settlement Numeric)) :
    Decidable (env.ReportsLanded db settlements) :=
  inferInstanceAs (Decidable (_ ∨ _ ∧ ∀ s ∈ settlements, _))

theorem ReportsLanded.reported (h : env.ReportsLanded db settlements) {id : Uuid}
    (hid : id ∈ env.landed db settlements) :
    ∃ txs, env.executeBatchedSettlements db settlements = .ok txs ∧
      id ∈ txs.map (·.settlementId) := by
  obtain ⟨hthrough, hoff⟩ := h.resolve_left (List.ne_nil_of_mem hid)
  have henabled : env.config.tradeSettlementEnabled = true := by
    by_contra hdisabled
    simp [landed, hdisabled] at hid
  obtain ⟨txs, htxs, hflat⟩ := settlePooled_of_through hthrough
  refine ⟨env.settleOffchain db settlements ++ txs, ?_, ?_⟩
  · simp only [executeBatchedSettlements, henabled, if_true, htxs, bind, Except.bind, pure,
      Except.pure]
  · rw [landed_of_through henabled hthrough] at hid
    rw [List.map_append, hflat]
    rcases List.mem_append.mp hid with hid | hid
    · obtain ⟨s, hs, hroute, rfl, hswapped⟩ := mem_landedOffchain.mp hid
      exact List.mem_append_left _
        (mem_settleOffchain.mpr ⟨s, hs, hroute, rfl, hoff s hs hroute hswapped⟩)
    · exact List.mem_append_right _ hid

theorem landed_subset : ∀ id ∈ env.landed db settlements, id ∈ settlements.map (·.id) := by
  intro id hid
  unfold landed at hid
  split_ifs at hid
  · rcases List.mem_append.mp hid with hid | hid
    · obtain ⟨s, hs, _, rfl, _⟩ := mem_landedOffchain.mp hid
      exact List.mem_map_of_mem hs
    · cases hsetup : env.setup with
      | error e => simp [hsetup] at hid
      | ok _ =>
        rw [hsetup] at hid
        have hflat := landedChunks_subset 0 _ hid
        rw [flatten_pooledChunks] at hflat
        exact (List.filter_sublist.map _).subset hflat
  · cases hid

def placedPair : Database :=
  .ofRows ⟨[{ OrderRow.placed 1 .buy 10 10 with orderPda := some "buy" },
    { OrderRow.placed 2 .sell 5 10 with orderPda := some "sell" }], by decide⟩
    ⟨[.between 10 1 2, .between 11 1 2], by decide⟩

theorem reportsExactly_calm :
    (Surroundings.calm false).ReportsExactly placedPair [.between 10 1 2, .between 11 1 2] :=
  (reportsExactly_iff (.calm false) placedPair [.between 10 1 2, .between 11 1 2] (by decide)).mpr
    (.inr (.inl ⟨.inr ⟨rfl, fun _ _ => ⟨rfl, rfl⟩⟩,
      fun _ _ _ => iff_of_true ⟨rfl, rfl⟩ ⟨rfl, rfl, rfl⟩⟩))

/-- The second chunk is refused after the first has landed. -/
def secondChunkRefused : Surroundings :=
  { Surroundings.calm false with
    chunk := fun k => if k = 0 then .accepted else .refused "InstructionError" }

/-- The call is an error, and the first settlement is on the chain. -/
theorem not_reportsExactly_secondChunkRefused :
    ¬secondChunkRefused.ReportsExactly placedPair [.between 10 1 2, .between 11 1 2] := by
  decide +kernel

end Surroundings

end TradingService
