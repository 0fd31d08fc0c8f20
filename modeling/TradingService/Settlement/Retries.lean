import TradingService.Settlement.Once

/-!
# Retries

Every way back from processing to pending counts the attempt, and parks a settlement that
has used up its budget. So a settlement was claimed no more often than its count says, and
once more while it is processing. A claim leads to two calls of the gateway at most, one
in the batch and one alone.
-/

namespace TradingService

/-- The claims that a settlement has left are covered by its budget, after `n` of them. -/
structure Settlement.Within (n : ℕ) (s : Settlement Numeric) : Prop where
  pending : s.status = .pending → (n : ℤ) ≤ s.retryCount ∧ s.retryCount < maxSettlementRetries
  processing : s.status = .processing → (n : ℤ) ≤ s.retryCount + 1 ∧ s.retryCount < maxSettlementRetries

theorem Settlement.Within.of_status {n : ℕ} {s : Settlement Numeric} (hpending : s.status ≠ .pending)
    (hprocessing : s.status ≠ .processing) : s.Within n :=
  ⟨fun h => absurd h hpending, fun h => absurd h hprocessing⟩

theorem Settlement.Within.new {s : Settlement Numeric} (h : s.retryCount = 0) : s.Within 0 := by
  constructor
  · simp [h, maxSettlementRetries]
  · simp [h, maxSettlementRetries]

namespace Database

structure Attempts (claims : List Uuid) (db : Database) : Prop where
  within : ∀ s ∈ db.settlements.rows, s.Within (claims.count s.id)
  stored : ∀ id ∈ claims, ∃ s ∈ db.settlements.rows, s.id = id
  bounded : ∀ id, (claims.count id : ℤ) ≤ maxSettlementRetries

section Attempts

variable {db db' : Database} {claims : List Uuid}

theorem Attempts.update (h : Attempts claims db) {f : Settlement Numeric → Settlement Numeric}
    {hf : ∀ s, (f s).id = s.id} {events : List Event}
    (hwithin : ∀ s n, s.Within n → (f s).Within n) :
    Attempts claims (db.updateSettlements f hf events) where
  within s' hs' := by
    obtain ⟨s, hs, rfl⟩ := List.mem_map.mp hs'
    rw [hf s]
    exact hwithin s _ (h.within s hs)
  stored id hid := by
    obtain ⟨s, hs, rfl⟩ := h.stored id hid
    exact ⟨f s, List.mem_map_of_mem hs, hf s⟩
  bounded := h.bounded

theorem Attempts.of_settlements (h : Attempts claims db) (heq : db'.settlements = db.settlements) :
    Attempts claims db' := by
  constructor
  · rw [heq]
    exact h.within
  · rw [heq]
    exact h.stored
  · exact h.bounded

theorem within_retried {s : Settlement Numeric} {n : ℕ} (h : s.Within n) (hprocessing : s.status = .processing)
    (now : ℤ) : (retried s maxSettlementRetries now).Within n := by
  obtain ⟨hn, _⟩ := h.processing hprocessing
  unfold retried
  constructor
  · intro hpending
    dsimp only at hpending ⊢
    split_ifs at hpending with hlast
    exact ⟨hn, not_le.mp hlast⟩
  · intro hagain
    dsimp only at hagain
    split_ifs at hagain

theorem Attempts.reset (h : Attempts claims db) (ids : List Uuid) (error : Option String) (now : ℤ) :
    Attempts claims (db.resetSettlementsForRetry ids maxSettlementRetries error now) := by
  apply h.update
  intro s n hs
  split_ifs with hreset
  · obtain ⟨hpending, hprocessing⟩ := within_retried hs hreset.2 now
    exact ⟨hpending, hprocessing⟩
  · exact hs

theorem Attempts.reclaim (h : Attempts claims db) (now : ℤ) :
    Attempts claims (db.reclaimStaleProcessing staleProcessingSecs maxSettlementRetries now) := by
  apply h.update
  intro s n hs
  split_ifs with hstale
  · exact within_retried hs (of_decide_eq_true hstale).1 now
  · exact hs

theorem Attempts.updateStatus (h : Attempts claims db) (id : Uuid) {status : SettlementStatus}
    (hpending : status ≠ .pending) (hprocessing : status ≠ .processing) (txHash error : Option String)
    (now : ℤ) (events : List Event) :
    Attempts claims (db.updateSettlementStatus id status txHash error now events) := by
  apply h.update
  intro s n hs
  split_ifs
  · exact .of_status hpending hprocessing
  · exact hs

theorem Attempts.run (h : Attempts claims db) {t : Task} {now : ℤ} {answer : Answer} {out : Outcome}
    (hrun : t.run db now answer = some out) : Attempts claims out.db := by
  unfold Task.run at hrun
  split at hrun
  case h_5 claimed env =>
    dsimp only at hrun
    split at hrun
    · obtain rfl := Option.some.inj hrun
      exact h
    · obtain rfl := Option.some.inj hrun
      exact h
  case h_14 => cases hrun
  all_goals obtain rfl := Option.some.inj hrun
  case h_6 => exact h.updateStatus _ (by decide) (by decide) _ _ _ _
  case h_7 => exact h.updateStatus _ (by decide) (by decide) _ _ _ _
  case h_9 => exact h.updateStatus _ (by decide) (by decide) _ _ _ _
  case h_10 => exact h.reset _ _ _
  all_goals exact h

theorem Attempts.trade (h : Attempts claims db) {t : Trade}
    (hcommitted : db.persistMatchedTrade t.settlement t.orderMatch t.event t.buyer t.seller =
      .committed db') : Attempts claims db' := by
  obtain ⟨row, hstore, hfresh, hrows⟩ := settlements_of_trade hcommitted
  constructor
  · intro s hs
    rw [hrows] at hs
    rcases List.mem_cons.mp hs with rfl | hs
    · have hnone : claims.count s.id = 0 := List.count_eq_zero_of_not_mem fun hid => by
        obtain ⟨s', hs', hid'⟩ := h.stored _ hid
        exact hfresh s' hs' hid'
      rw [hnone]
      exact .new (Settlement.retryCount_of_store hstore)
    · exact h.within s hs
  · intro id hid
    obtain ⟨s, hs, rfl⟩ := h.stored id hid
    exact ⟨s, hrows ▸ List.mem_cons_of_mem _ hs, rfl⟩
  · exact h.bounded

theorem count_claimed (ids : List Uuid) (now : ℤ) {s : Settlement Numeric}
    (hs : s ∈ db.settlements.rows) :
    ((db.claimSettlementsForProcessing ids now).2.map (·.id)).count s.id =
      if claimable ids s then 1 else 0 := by
  split_ifs with hclaim
  · refine List.count_eq_one_of_mem (db.claim_spec ids now).1 ?_
    simp only [claimSettlementsForProcessing, List.map_map]
    exact List.mem_map.mpr ⟨s, List.mem_filter.mpr ⟨hs, hclaim⟩, rfl⟩
  · refine List.count_eq_zero_of_not_mem fun hid => hclaim ?_
    simp only [claimSettlementsForProcessing, List.map_map] at hid
    obtain ⟨s', hs', hid'⟩ := List.mem_map.mp hid
    obtain ⟨hmem, hclaim'⟩ := List.mem_filter.mp hs'
    rwa [KeyedTable.row_unique hs hmem hid'.symm]

/-- A claim is one of those that the budget covers. -/
theorem Attempts.claim (h : Attempts claims db) (ids : List Uuid) (now : ℤ) :
    Attempts ((db.claimSettlementsForProcessing ids now).2.map (·.id) ++ claims)
      (db.claimSettlementsForProcessing ids now).1 := by
  obtain ⟨_, hclaimed⟩ := db.claim_spec ids now
  have hafter : ∀ s ∈ db.settlements.rows,
      ((((db.claimSettlementsForProcessing ids now).2.map (·.id) ++ claims).count s.id : ℕ) : ℤ) ≤
        maxSettlementRetries := by
    intro s hs
    rw [List.count_append, count_claimed ids now hs]
    split_ifs with hclaim
    · obtain ⟨hle, hlt⟩ := (h.within s hs).pending (of_decide_eq_true hclaim).2
      omega
    · rw [Nat.zero_add]
      exact h.bounded s.id
  constructor
  · intro s' hs'
    obtain ⟨s, hs, rfl⟩ := List.mem_map.mp hs'
    have hbudget := h.within s hs
    have hclaims := count_claimed ids now hs
    split_ifs at hclaims ⊢ with hclaim
    · obtain ⟨hle, hlt⟩ := hbudget.pending (of_decide_eq_true hclaim).2
      constructor
      · intro hpending
        cases hpending
      · intro _
        refine ⟨?_, hlt⟩
        rw [List.count_append, hclaims]
        push_cast
        omega
    · rwa [List.count_append, hclaims, Nat.zero_add]
  · intro id hid
    rcases List.mem_append.mp hid with hid | hid
    · obtain ⟨s, hs, rfl⟩ := List.mem_map.mp hid
      obtain ⟨row, hrow, hid', _⟩ := (hclaimed s hs).2
      exact ⟨row, hrow, hid'⟩
    · obtain ⟨s, hs, hid'⟩ := h.stored id hid
      refine ⟨_, List.mem_map_of_mem hs, ?_⟩
      split_ifs
      · exact hid'
      · exact hid'
  · intro id
    by_cases hid : id ∈ (db.claimSettlementsForProcessing ids now).2.map (·.id)
    · obtain ⟨s, hs, rfl⟩ := List.mem_map.mp hid
      obtain ⟨row, hrow, hid', _⟩ := (hclaimed s hs).1
      exact hid' ▸ hafter row hrow
    · rw [List.count_append, List.count_eq_zero_of_not_mem hid, Nat.zero_add]
      exact h.bounded id

end Attempts

end Database

namespace Task

/-- How often a task can still hand the settlement `id` to the gateway. A settlement that is
alone in its batch is not isolated again. -/
def handsLeft (id : Uuid) : Task → ℕ
  | .checkPlacement claimed => (claimed.map (·.id)).count id * min 2 claimed.length
  | .checkExpiry claimed => (claimed.map (·.id)).count id * min 2 claimed.length
  | .send claimed => (claimed.map (·.id)).count id * min 2 claimed.length
  | _ => 0

def sent : Task → List Uuid
  | .send claimed => claimed.map (·.id)
  | _ => []

end Task

def handsLeft (id : Uuid) (tasks : List Task) : ℕ := (tasks.map (Task.handsLeft id)).sum

section HandsLeft

variable {id : Uuid}

@[simp] theorem handsLeft_nil : handsLeft id [] = 0 := rfl

@[simp] theorem handsLeft_cons (t : Task) (ts : List Task) :
    handsLeft id (t :: ts) = t.handsLeft id + handsLeft id ts := by simp [handsLeft]

@[simp] theorem handsLeft_append (ts ts' : List Task) :
    handsLeft id (ts ++ ts') = handsLeft id ts + handsLeft id ts' := by simp [handsLeft]

theorem handsLeft_map_of_zero {α : Type} {task : α → Task} (h : ∀ a, (task a).handsLeft id = 0)
    (as : List α) : handsLeft id (as.map task) = 0 := by
  induction as with
  | nil => rfl
  | cons a as ih => rw [List.map_cons, handsLeft_cons, h, ih]

/-- Settled one by one, each settlement is handed over once more. -/
theorem handsLeft_isolated (claimed : List (Settlement Numeric)) :
    handsLeft id (claimed.map fun s => .checkPlacement [s]) = (claimed.map (·.id)).count id := by
  induction claimed with
  | nil => rfl
  | cons s claimed ih =>
    rw [List.map_cons, handsLeft_cons, ih, List.map_cons, List.count_cons, add_comm]
    simp [Task.handsLeft, List.count_singleton]

theorem handsLeft_preflight (named : List Uuid) (reason : Settlement Numeric → String)
    {next : List (Settlement Numeric) → Task}
    (hnext : ∀ c, (next c).handsLeft id = (c.map (·.id)).count id * min 2 c.length)
    (claimed : List (Settlement Numeric)) :
    handsLeft id (preflight named reason next claimed) ≤
      (claimed.map (·.id)).count id * min 2 claimed.length := by
  have hsub : (claimed.filter (·.id ∉ named)).Sublist claimed := List.filter_sublist
  have hleft : handsLeft id (unlessEmpty next (claimed.filter (·.id ∉ named))) ≤
      (claimed.map (·.id)).count id * min 2 claimed.length := by
    unfold unlessEmpty
    split_ifs
    · exact Nat.zero_le _
    · rw [handsLeft_cons, handsLeft_nil, hnext]
      have hcount := (hsub.map (·.id)).count_le id
      have hlength := hsub.length_le
      exact Nat.mul_le_mul hcount (by omega)
  rw [preflight, handsLeft_append, handsLeft_map_of_zero fun _ => rfl, Nat.zero_add]
  exact hleft

variable (id) in
theorem handsLeft_afterError (claimed : List (Settlement Numeric)) (reason : String) :
    (claimed.map (·.id)).count id + handsLeft id (afterError claimed reason) ≤
      (claimed.map (·.id)).count id * min 2 claimed.length := by
  have hone : claimed ≠ [] →
      (claimed.map (·.id)).count id ≤ (claimed.map (·.id)).count id * min 2 claimed.length :=
    fun hne => Nat.le_mul_of_pos_right _ (by
      have hpos := List.length_pos_iff.mpr hne
      omega)
  match claimed with
  | [] =>
    unfold afterError
    split_ifs
    · exact le_rfl
    · exact le_rfl
  | [single] =>
    unfold afterError
    split_ifs
    · exact hone (by simp)
    · exact hone (by simp)
  | s₁ :: s₂ :: rest =>
    unfold afterError
    split_ifs
    · rw [handsLeft_isolated]
      have htwo : min 2 (s₁ :: s₂ :: rest).length = 2 := by simp
      rw [htwo]
      omega
    · exact hone (by simp)

theorem handsLeft_afterResults (claimed : List (Settlement Numeric)) (txs : List SettlementTransaction) :
    handsLeft id (afterResults claimed txs) = 0 := by
  rw [afterResults, handsLeft_append, handsLeft_map_of_zero fun _ => rfl]
  split_ifs
  · rfl
  · rfl

variable (id) in
theorem handsLeft_run {db : Database} {t : Task} {now : ℤ} {answer : Answer} {out : Outcome}
    (hrun : t.run db now answer = some out) :
    t.sent.count id + handsLeft id out.tasks ≤ t.handsLeft id := by
  unfold Task.run at hrun
  split at hrun
  case h_5 claimed env =>
    dsimp only at hrun
    split at hrun
    · obtain rfl := Option.some.inj hrun
      exact handsLeft_afterError _ _ _
    · obtain rfl := Option.some.inj hrun
      rw [handsLeft_afterResults]
      refine le_trans ?_ (handsLeft_afterError id claimed "")
      exact Nat.add_le_add_left (Nat.zero_le _) _
  case h_14 => cases hrun
  all_goals obtain rfl := Option.some.inj hrun
  case h_1 => simpa [Task.sent, Task.handsLeft] using handsLeft_preflight _ _ (fun _ => rfl) _
  case h_3 => simpa [Task.sent, Task.handsLeft] using handsLeft_preflight _ _ (fun _ => rfl) _
  all_goals simp [Task.sent, Task.handsLeft]

end HandsLeft

/-- The system with a record of its claims: all that were ever made, and for every worker
the settlements of its last claim and those that it has handed to the gateway since. -/
structure Recorded (W : Type) where
  state : SettlementState W
  claims : List Uuid
  batch : W → List Uuid
  handed : W → List Uuid

namespace Recorded

variable {W : Type}

def start (s : SettlementState W) : Recorded W := ⟨s, [], fun _ => [], fun _ => []⟩

/-- Every settlement was claimed at most as often as it may be tried, and since its last
claim a worker has handed each settlement of the claim to the gateway at most twice, and no
other. -/
structure Bounded (r : Recorded W) : Prop where
  claims : ∀ id, (r.claims.count id : ℤ) ≤ maxSettlementRetries
  handed : ∀ w id, (r.handed w).count id ≤ if id ∈ r.batch w then 2 else 0

structure Budgeted (r : Recorded W) : Prop where
  attempts : r.state.db.Attempts r.claims
  batch_nodup : ∀ w, (r.batch w).Nodup
  hands : ∀ w id, (r.handed w).count id + handsLeft id (r.state.tasks w) ≤ 2 * (r.batch w).count id

theorem Budgeted.bounded {r : Recorded W} (h : r.Budgeted) : r.Bounded where
  claims := h.attempts.bounded
  handed w id := by
    have hle := h.hands w id
    split_ifs with hid
    · rw [List.count_eq_one_of_mem (h.batch_nodup w) hid] at hle
      omega
    · rw [List.count_eq_zero_of_not_mem hid] at hle
      omega

theorem Budgeted.start {s : SettlementState W} (hidle : ∀ w, s.tasks w = [])
    (hnew : ∀ row ∈ s.db.settlements.rows, row.retryCount = 0) : (start s).Budgeted where
  attempts := ⟨fun row hrow => .new (hnew row hrow), nofun, fun _ => by simp [Recorded.start, maxSettlementRetries]⟩
  batch_nodup _ := List.nodup_nil
  hands w id := by simp [Recorded.start, hidle w]

theorem Budgeted.db {r : Recorded W} (h : r.Budgeted) {db : Database} (hdb : db.Attempts r.claims) :
    Budgeted { r with state := { r.state with db := db } } := ⟨hdb, h.batch_nodup, h.hands⟩

/-- What a worker sends next it sends on account of its first task. -/
theorem sending_le (s : SettlementState W) (w : W) (id : Uuid) :
    ((s.sending w).map (·.id)).count id ≤ handsLeft id (s.tasks w) := by
  unfold SettlementState.sending
  split
  next claimed rest htasks =>
    have hone := handsLeft_afterError id claimed ""
    rw [htasks, handsLeft_cons, Task.handsLeft]
    omega
  · exact Nat.zero_le _

variable [DecidableEq W]

def record (r : Recorded W) (s' : SettlementState W) : SettlementAction W → Recorded W
  | .claim w ids now =>
    let claimed := (r.state.db.claimSettlementsForProcessing ids now).2.map (·.id)
    { state := s'
      claims := claimed ++ r.claims
      batch := Function.update r.batch w claimed
      handed := Function.update r.handed w [] }
  | .run w _ _ => { r with
      state := s'
      handed := Function.update r.handed w ((r.state.sending w).map (·.id) ++ r.handed w) }
  | .restart w _ => { r with
      state := s'
      handed := Function.update r.handed w ((r.state.sending w).map (·.id) ++ r.handed w) }
  | _ => { r with state := s' }

def step (r : Recorded W) (a : SettlementAction W) : Option (Recorded W) :=
  (r.state.step a).map fun s' => r.record s' a

/-- A worker goes on with other tasks, after it may have handed something over. -/
theorem Budgeted.tasks {r : Recorded W} (h : r.Budgeted) {s' : SettlementState W} {w : W}
    {tasks : List Task} {sent : List Uuid} (hattempts : s'.db.Attempts r.claims)
    (htasks : s'.tasks = Function.update r.state.tasks w tasks)
    (hleft : ∀ id, sent.count id + handsLeft id tasks ≤ handsLeft id (r.state.tasks w)) :
    Budgeted { r with state := s', handed := Function.update r.handed w (sent ++ r.handed w) } where
  attempts := hattempts
  batch_nodup := h.batch_nodup
  hands v id := by
    dsimp only
    rw [htasks]
    by_cases hv : v = w
    · subst hv
      have hbefore := h.hands v id
      have hmine := hleft id
      rw [Function.update_self, Function.update_self, List.count_append]
      omega
    · rw [Function.update_of_ne hv, Function.update_of_ne hv]
      exact h.hands v id

theorem Budgeted.claim {r : Recorded W} (h : r.Budgeted) (w : W) (ids : List Uuid) (now : ℤ)
    {s' : SettlementState W} (hstep : r.state.step (.claim w ids now) = some s') :
    Budgeted (r.record s' (.claim w ids now)) := by
  obtain ⟨_, rfl⟩ := SettlementState.claimed_of_step hstep
  have hnodup := (r.state.db.claim_spec ids now).1
  refine ⟨h.attempts.claim ids now, fun v => ?_, fun v id => ?_⟩
  · by_cases hv : v = w
    · subst hv
      simpa only [record, Function.update_self] using hnodup
    · simpa only [record, Function.update_of_ne hv] using h.batch_nodup v
  · by_cases hv : v = w
    · subst hv
      simp only [record, Function.update_self, List.count_nil, Nat.zero_add]
      unfold unlessEmpty
      split_ifs
      · exact Nat.zero_le _
      · rw [handsLeft_cons, handsLeft_nil, Nat.add_zero, Task.handsLeft, mul_comm]
        exact Nat.mul_le_mul_right _ (min_le_left _ _)
    · simpa only [record, Function.update_of_ne hv] using h.hands v id

theorem Budgeted.step {r r' : Recorded W} {a : SettlementAction W} (h : r.Budgeted)
    (hstep : r.step a = some r') : r'.Budgeted := by
  obtain ⟨s', hs', rfl⟩ := Option.map_eq_some_iff.mp hstep
  cases a with
  | order st =>
    obtain ⟨db, hexec, rfl⟩ := Option.map_eq_some_iff.mp hs'
    exact h.db (h.attempts.of_settlements (Database.exec_settlements hexec))
  | trade t =>
    obtain ⟨db, hcommitted, rfl⟩ := SettlementState.committed_of_step hs'
    exact h.db (h.attempts.trade hcommitted)
  | claim w ids now => exact h.claim w ids now hs'
  | reclaim now =>
    obtain rfl := Option.some.inj hs'
    exact h.db (h.attempts.reclaim now)
  | run w now answer =>
    obtain ⟨task, rest, out, htasks, hrun, rfl⟩ := SettlementState.run_of_step hs'
    refine h.tasks (h.attempts.run hrun) rfl fun id => ?_
    have hsent : (r.state.sending w).map (·.id) = task.sent := by
      unfold SettlementState.sending Task.sent
      rw [htasks]
      cases task <;> rfl
    have hleft := handsLeft_run id hrun
    rw [hsent, htasks, handsLeft_append, handsLeft_cons]
    omega
  | restart w landed =>
    obtain ⟨_, rfl⟩ := SettlementState.restarted_of_step hs'
    refine h.tasks h.attempts rfl fun id => ?_
    rw [handsLeft_nil, Nat.add_zero]
    exact sending_le r.state w id

/-- In every run that starts before the first claim, retries are bounded. -/
theorem retries_bounded (s₀ : SettlementState W) (hidle : ∀ w, s₀.tasks w = [])
    (hnew : ∀ row ∈ s₀.db.settlements.rows, row.retryCount = 0) (as : List (SettlementAction W)) :
    Runs.AllStates step Bounded (start s₀) as := by
  have hinv : Runs.AllStates step Budgeted (start s₀) as := by
    apply Runs.AllStates.of_invariant (I := Budgeted) _ (.start hidle hnew)
    exact fun r a r' h hstep => h.step hstep
  exact hinv.mono fun _ h => h.bounded

theorem retries_bounded_isolation :
    Runs.AllStates step Bounded (start SettlementState.twoPending) SettlementState.isolationRun :=
  retries_bounded SettlementState.twoPending (fun _ => rfl) (by decide +kernel)
    SettlementState.isolationRun

end Recorded

end TradingService
