import TradingService.Lib.KeyedTable
import TradingService.Lib.Runs
import TradingService.Orders.Admission

/-!
# Recurring rules

Any number of evaluators place the orders of the rules that are due. The order of a rule and
the advance of its schedule are two writes, the second of which counts the executions from
what was read before the first. Between the two the order is there and not yet counted, and
nothing keeps another evaluator from placing the next one.
-/

namespace TradingService.Recurring

inductive IntervalType
  | hourly
  | daily
  | weekly
  | monthly
  deriving DecidableEq, Repr

inductive RecurringStatus
  | active
  | paused
  | completed
  | cancelled
  deriving DecidableEq, Repr

deriving instance DecidableEq for RecurringOrder

structure RecurringRule where
  id : Uuid
  terms : RecurringOrder
  intervalType : IntervalType
  intervalValue : ℤ
  nextExecutionAt : ℤ
  lastExecutedAt : Option ℤ
  status : RecurringStatus
  totalExecutions : ℤ
  maxExecutions : Option ℤ
  deriving DecidableEq

abbrev RuleTable := KeyedTable RecurringRule.id

def hours (n : ℤ) : ℤ := n * 3600 * 1000000000

/-- `addMonths` is `checked_add_months`. -/
def nextExecutionAt (addMonths : ℤ → ℤ → Option ℤ) (start : ℤ) (intervalType : IntervalType)
    (intervalValue : ℤ) : ℤ :=
  let n := max intervalValue 1
  match intervalType with
  | .hourly => start + hours n
  | .daily => start + hours (24 * n)
  | .weekly => start + hours (7 * 24 * n)
  | .monthly => (addMonths start n).getD (start + hours (24 * (30 * n)))

def successor (n : ℤ) : ℤ := Int.bmod (n + 1) (2 ^ 32)

namespace RuleTable

variable (t : RuleTable)

def due (now : ℤ) : List RecurringRule :=
  t.rows.filter fun r => r.status = .active ∧ r.nextExecutionAt ≤ now

def updateAfterExecution (id : Uuid) (nextExecution totalExecutions now : ℤ) : RuleTable :=
  t.modify id
    (fun r => { r with
      nextExecutionAt := nextExecution
      totalExecutions := totalExecutions
      lastExecutedAt := some now
      status := if r.maxExecutions.any (· ≤ totalExecutions) then .completed else r.status })
    fun _ => rfl

def setRecurringStatus (id userId : Uuid) (status : RecurringStatus) : RuleTable :=
  t.mapRows (fun r => if r.id = id ∧ r.terms.userId = userId then { r with status := status } else r)
    fun r => by split_ifs <;> rfl

def deleteRecurringOrder (id userId : Uuid) : RuleTable :=
  t.delete fun r => r.id = id ∧ r.terms.userId = userId

end RuleTable

inductive CyclePhase
  | idle
  | checking (now : ℤ) (epochId : Uuid) (due : List RecurringRule)
  /-- The order of the rule is committed, and its schedule not yet advanced. -/
  | placed (now : ℤ) (epochId : Uuid) (rule : RecurringRule) (due : List RecurringRule)

namespace CyclePhase

def processing : CyclePhase → Option RecurringRule
  | .placed _ _ rule _ => some rule
  | _ => none

def due : CyclePhase → List RecurringRule
  | .idle => []
  | .checking _ _ due => due
  | .placed _ _ _ due => due

def next : CyclePhase → Option RecurringRule
  | .checking _ _ (rule :: _) => if rule.terms.price.isSome then some rule else none
  | _ => none

end CyclePhase

inductive RuleAction (W : Type)
  | create (rule : RecurringRule)
  | setStatus (id userId : Uuid) (status : RecurringStatus)
  | delete (id userId : Uuid)
  | read (w : W) (now : ℤ) (due : List RecurringRule) (epoch : Except String Uuid)
  /-- The next rule; its order may be refused. -/
  | place (w : W) (moment : Moment) (committed : Bool)
  | advance (w : W) (now : ℤ) (committed : Bool)
  /-- The cycle is over, or the process ends. -/
  | stop (w : W)

/-- The rules, the evaluators, and, which the service does not record, the orders that were
inserted, each with the id of its rule, and the ids that have been drawn. -/
structure RuleState (W : Type) where
  rules : RuleTable
  phase : W → CyclePhase
  orders : List (Uuid × TradingOrder)
  created : List Uuid

namespace RuleState

variable {W : Type}

def start : RuleState W := ⟨KeyedTable.empty, fun _ => .idle, [], []⟩

def placedFor (s : RuleState W) (id : Uuid) : ℕ := s.orders.countP (·.1 = id)

variable [DecidableEq W]

def setPhase (s : RuleState W) (w : W) (phase : CyclePhase) : RuleState W :=
  { s with phase := Function.update s.phase w phase }

def step (addMonths : ℤ → ℤ → Option ℤ) (s : RuleState W) : RuleAction W → Option (RuleState W)
  -- A new rule has its defaults, and an id that is drawn once.
  | .create rule =>
    if rule.id ∈ s.created ∨ rule.status ≠ .active ∨ rule.totalExecutions ≠ 0 then none
    else (s.rules.insert? rule).map fun rules =>
      { s with rules := rules, created := rule.id :: s.created }
  | .setStatus id userId status => some { s with rules := s.rules.setRecurringStatus id userId status }
  | .delete id userId => some { s with rules := s.rules.deleteRecurringOrder id userId }
  | .read w now due epoch =>
    match s.phase w with
    | .idle =>
      if due.Perm (s.rules.due now) then
        match due, epoch with
        | [], _ => some s
        | _, .error _ => some s
        | due, .ok epochId => some (s.setPhase w (.checking now epochId due))
      else none
    | _ => none
  | .place w moment committed =>
    match s.phase w with
    | .checking now epochId (rule :: due) =>
      match rule.terms.price, committed with
      | some price, true => some
        { s.setPhase w (.placed now epochId rule due) with
          orders := s.orders ++ [(rule.id, placeOrder moment rule.terms price epochId)] }
      | _, _ => some (s.setPhase w (.checking now epochId due))
    | _ => none
  | .advance w now committed =>
    match s.phase w with
    | .placed started epochId rule due =>
      let nextExecution := nextExecutionAt addMonths started rule.intervalType rule.intervalValue
      let rest := s.setPhase w (.checking started epochId due)
      if committed then some { rest with
        rules := s.rules.updateAfterExecution rule.id nextExecution (successor rule.totalExecutions) now }
      else some rest
    | _ => none
  | .stop w => some (s.setPhase w .idle)

/-- The executions of every rule are counted, unless it is being processed, and there are
not more than there may be. -/
structure CountsExecutions (s : RuleState W) : Prop where
  counted : ∀ rule ∈ s.rules.rows,
    (∀ w, ∀ current ∈ (s.phase w).processing, current.id ≠ rule.id) →
      (s.placedFor rule.id : ℤ) = rule.totalExecutions
  bounded : ∀ rule ∈ s.rules.rows, ∀ max ∈ rule.maxExecutions, (s.placedFor rule.id : ℤ) ≤ max

/-- Orders are placed for a rule whose count is as it was read, which no other evaluator is
in the middle of and which has an execution left; and an order that was placed is counted,
unless its rule is gone. -/
def PlacesCounted (s : RuleState W) : RuleAction W → Prop
  | .create rule => ∀ max ∈ rule.maxExecutions, 0 ≤ max
  | .place w _ true => ∀ rule ∈ (s.phase w).next, ∀ row ∈ s.rules.rows, row.id = rule.id →
      row.totalExecutions = rule.totalExecutions ∧ row.totalExecutions + 1 < 2 ^ 31 ∧
        (∀ max ∈ row.maxExecutions, row.totalExecutions < max) ∧
          ∀ v, ∀ current ∈ (s.phase v).processing, current.id ≠ rule.id
  | .advance w _ false => ∀ rule ∈ (s.phase w).processing, ∀ row ∈ s.rules.rows, row.id ≠ rule.id
  | .stop w => ∀ rule ∈ (s.phase w).processing, ∀ row ∈ s.rules.rows, row.id ≠ rule.id
  | _ => True

section Steps

variable {addMonths : ℤ → ℤ → Option ℤ} {s s' : RuleState W}

structure InProcess (s : RuleState W) (row : RecurringRule) (w : W) (rule : RecurringRule) : Prop where
  current : rule ∈ (s.phase w).processing
  id : rule.id = row.id
  only : ∀ v, ∀ other ∈ (s.phase v).processing, other.id = row.id → v = w
  read : row.totalExecutions = rule.totalExecutions
  placed : (s.placedFor row.id : ℤ) = row.totalExecutions + 1
  fits : row.totalExecutions + 1 < 2 ^ 31
  left : ∀ max ∈ row.maxExecutions, row.totalExecutions < max

structure AtRest (s : RuleState W) (row : RecurringRule) : Prop where
  idle : ∀ w, ∀ rule ∈ (s.phase w).processing, rule.id ≠ row.id
  counted : (s.placedFor row.id : ℤ) = row.totalExecutions

structure Inv (s : RuleState W) : Prop where
  created : ∀ row ∈ s.rules.rows, row.id ∈ s.created
  ordered : ∀ o ∈ s.orders, o.1 ∈ s.created
  processed : ∀ w, ∀ rule ∈ (s.phase w).processing, rule.id ∈ s.created
  due : ∀ w, ∀ rule ∈ (s.phase w).due, rule.id ∈ s.created
  nonneg : ∀ row ∈ s.rules.rows, 0 ≤ row.totalExecutions
  within : ∀ row ∈ s.rules.rows, ∀ max ∈ row.maxExecutions, row.totalExecutions ≤ max
  accounted : ∀ row ∈ s.rules.rows, s.AtRest row ∨ ∃ w rule, s.InProcess row w rule

omit [DecidableEq W] in
theorem Inv.countsExecutions (h : s.Inv) : s.CountsExecutions := by
  refine ⟨fun row hrow hidle => ?_, fun row hrow max hmax => ?_⟩
  · rcases h.accounted row hrow with hrest | ⟨w, rule, hprocess⟩
    · exact hrest.counted
    · exact absurd hprocess.id (hidle w rule hprocess.current)
  · rcases h.accounted row hrow with hrest | ⟨w, rule, hprocess⟩
    · rw [hrest.counted]
      exact h.within row hrow max hmax
    · have hleft := hprocess.left max hmax
      rw [hprocess.placed]
      omega

omit [DecidableEq W] in
/-- A row stays accounted for, if the step touches neither its counts nor its orders nor the
processing of its rule. -/
theorem accounted_of_same {row row' : RecurringRule}
    (h : s.AtRest row ∨ ∃ w rule, s.InProcess row w rule) (hid : row'.id = row.id)
    (htotal : row'.totalExecutions = row.totalExecutions)
    (hmaximum : row'.maxExecutions = row.maxExecutions) (hplaced : s'.placedFor row.id = s.placedFor row.id)
    (hprocessing : ∀ w, ∀ rule, rule.id = row.id →
      (rule ∈ (s'.phase w).processing ↔ rule ∈ (s.phase w).processing)) :
    s'.AtRest row' ∨ ∃ w rule, s'.InProcess row' w rule := by
  rcases h with hrest | ⟨w, rule, hprocess⟩
  · refine .inl ⟨fun w rule hrule hsame => ?_, ?_⟩
    · rw [hid] at hsame
      exact hrest.idle w rule ((hprocessing w rule hsame).mp hrule) hsame
    · rw [hid, hplaced, htotal]
      exact hrest.counted
  · have honly : ∀ v, ∀ other ∈ (s'.phase v).processing, other.id = row'.id → v = w := by
      intro v other hother hsame
      rw [hid] at hsame
      exact hprocess.only v other ((hprocessing v other hsame).mp hother) hsame
    refine .inr ⟨w, rule, (hprocessing w rule hprocess.id).mpr hprocess.current,
      hprocess.id.trans hid.symm, honly, htotal.trans hprocess.read, ?_, ?_, ?_⟩
    · rw [hid, hplaced, htotal]
      exact hprocess.placed
    · rw [htotal]
      exact hprocess.fits
    · rw [htotal, hmaximum]
      exact hprocess.left

omit [DecidableEq W] in
/-- A step after which no row counts other executions, and the rules that are there are
processed as before. -/
theorem Inv.of_same (h : s.Inv) (hcreated : s'.created = s.created) (horders : s'.orders = s.orders)
    (hrows : ∀ row' ∈ s'.rules.rows, ∃ row ∈ s.rules.rows, row'.id = row.id ∧
      row'.totalExecutions = row.totalExecutions ∧ row'.maxExecutions = row.maxExecutions)
    (hdue : ∀ w, ∀ rule ∈ (s'.phase w).due, rule.id ∈ s.created)
    (hsame : ∀ w, ∀ rule ∈ (s'.phase w).processing, rule ∈ (s.phase w).processing)
    (hstays : ∀ row' ∈ s'.rules.rows, ∀ w, ∀ rule ∈ (s.phase w).processing, rule.id = row'.id →
      rule ∈ (s'.phase w).processing) : s'.Inv := by
  have hplaced : ∀ id, s'.placedFor id = s.placedFor id := fun id => by
    unfold placedFor
    rw [horders]
  refine ⟨fun row' hrow' => ?_, ?_, fun w rule hrule => ?_, fun w rule hrule => ?_,
    fun row' hrow' => ?_, fun row' hrow' max hmax => ?_, fun row' hrow' => ?_⟩
  · obtain ⟨row, hrow, hid, _⟩ := hrows row' hrow'
    rw [hcreated, hid]
    exact h.created row hrow
  · rw [hcreated, horders]
    exact h.ordered
  · rw [hcreated]
    exact h.processed w rule (hsame w rule hrule)
  · rw [hcreated]
    exact hdue w rule hrule
  · obtain ⟨row, hrow, _, htotal, _⟩ := hrows row' hrow'
    rw [htotal]
    exact h.nonneg row hrow
  · obtain ⟨row, hrow, _, htotal, hmaximum⟩ := hrows row' hrow'
    rw [htotal]
    exact h.within row hrow max (hmaximum ▸ hmax)
  · obtain ⟨row, hrow, hid, htotal, hmaximum⟩ := hrows row' hrow'
    refine accounted_of_same (h.accounted row hrow) hid htotal hmaximum (hplaced row.id)
      fun w rule hrule => ?_
    exact ⟨hsame w rule, fun hmem => hstays row' hrow' w rule hmem (hrule.trans hid.symm)⟩

theorem successor_eq {n : ℤ} (hnonneg : 0 ≤ n) (hfits : n + 1 < 2 ^ 31) : successor n = n + 1 :=
  Int.bmod_eq_of_le (by omega) (by omega)

theorem processing_setPhase (w : W) (phase : CyclePhase) (v : W) :
    ((s.setPhase w phase).phase v).processing =
      if v = w then phase.processing else (s.phase v).processing := by
  simp only [setPhase, Function.update_apply]
  split_ifs <;> rfl

theorem due_setPhase (w : W) (phase : CyclePhase) (v : W) :
    ((s.setPhase w phase).phase v).due = if v = w then phase.due else (s.phase v).due := by
  simp only [setPhase, Function.update_apply]
  split_ifs <;> rfl

theorem Inv.due_setPhase (h : s.Inv) {w : W} {phase : CyclePhase}
    (hdue : ∀ rule ∈ phase.due, rule.id ∈ s.created) (v : W) :
    ∀ rule ∈ ((s.setPhase w phase).phase v).due, rule.id ∈ s.created := by
  rw [RuleState.due_setPhase]
  split_ifs
  · exact hdue
  · exact h.due v

theorem Inv.setPhase (h : s.Inv) {w : W} {phase : CyclePhase}
    (hdue : ∀ rule ∈ phase.due, rule.id ∈ s.created) (hnone : phase.processing = none)
    (hgone : ∀ rule ∈ (s.phase w).processing, ∀ row ∈ s.rules.rows, row.id ≠ rule.id) :
    (s.setPhase w phase).Inv := by
  refine h.of_same rfl rfl (fun row hrow => ⟨row, hrow, rfl, rfl, rfl⟩) (h.due_setPhase hdue)
    (fun v rule hrule => ?_) fun row hrow v rule hrule hid => ?_
  · rw [processing_setPhase] at hrule
    split_ifs at hrule with hv
    · rw [hnone] at hrule
      cases hrule
    · exact hrule
  · rw [processing_setPhase]
    split_ifs with hv
    · exact absurd hid.symm (hgone rule (hv ▸ hrule) row hrow)
    · exact hrule

omit [DecidableEq W] in
theorem Inv.create (h : s.Inv) {rule : RecurringRule} {rules : RuleTable} (hnew : rule.id ∉ s.created)
    (hzero : rule.totalExecutions = 0) (hmaximum : ∀ max ∈ rule.maxExecutions, 0 ≤ max)
    (hinsert : s.rules.insert? rule = some rules) :
    Inv { s with rules := rules, created := rule.id :: s.created } := by
  have hrows := (KeyedTable.insert?_eq_some hinsert).2
  have hcases : ∀ row ∈ rules.rows, row = rule ∨ row ∈ s.rules.rows := fun row hrow =>
    List.mem_cons.mp (hrows ▸ hrow)
  refine ⟨fun row hrow => ?_, fun o ho => List.mem_cons_of_mem _ (h.ordered o ho),
    fun w r hr => List.mem_cons_of_mem _ (h.processed w r hr),
    fun w r hr => List.mem_cons_of_mem _ (h.due w r hr), fun row hrow => ?_,
    fun row hrow max hmax => ?_, fun row hrow => ?_⟩
  · rcases hcases row hrow with rfl | hrow
    · exact List.mem_cons_self
    · exact List.mem_cons_of_mem _ (h.created row hrow)
  · rcases hcases row hrow with rfl | hrow
    · exact hzero.ge
    · exact h.nonneg row hrow
  · rcases hcases row hrow with rfl | hrow
    · rw [hzero]
      exact hmaximum max hmax
    · exact h.within row hrow max hmax
  · rcases hcases row hrow with rfl | hrow
    · refine .inl ⟨fun w r hr he => hnew (he ▸ h.processed w r hr), ?_⟩
      rw [hzero, Nat.cast_eq_zero]
      refine List.countP_eq_zero.mpr fun o ho => ?_
      simp only [decide_eq_true_eq]
      exact fun he => hnew (he ▸ h.ordered o ho)
    · exact accounted_of_same (h.accounted row hrow) rfl rfl rfl rfl fun _ _ _ => .rfl

omit [DecidableEq W] in
theorem placedFor_append (id : Uuid) (o : Uuid × TradingOrder) (t : RuleState W) (orders : t.orders = s.orders ++ [o]) :
    t.placedFor id = s.placedFor id + if o.1 = id then 1 else 0 := by
  unfold placedFor
  rw [orders, List.countP_append, List.countP_singleton]
  simp only [decide_eq_true_eq]

theorem Inv.place (h : s.Inv) {w : W} {now : ℤ} {epochId : Uuid} {rule : RecurringRule}
    {due : List RecurringRule} (hphase : s.phase w = .checking now epochId (rule :: due))
    (hfree : ∀ row ∈ s.rules.rows, row.id = rule.id → row.totalExecutions = rule.totalExecutions ∧
      row.totalExecutions + 1 < 2 ^ 31 ∧ (∀ max ∈ row.maxExecutions, row.totalExecutions < max) ∧
        ∀ v, ∀ current ∈ (s.phase v).processing, current.id ≠ rule.id) (order : TradingOrder) :
    Inv { s.setPhase w (.placed now epochId rule due) with orders := s.orders ++ [(rule.id, order)] } := by
  have hread : ∀ r ∈ rule :: due, r.id ∈ s.created := fun r hr => h.due w r (by rw [hphase]; exact hr)
  have hprocessing := fun v => processing_setPhase (s := s) w (.placed now epochId rule due) v
  have hidle : (s.phase w).processing = none := by rw [hphase]; rfl
  refine ⟨h.created, fun o ho => ?_, fun v r hr => ?_,
    h.due_setPhase fun r hr => hread r (List.mem_cons_of_mem _ hr), h.nonneg, h.within, fun row hrow => ?_⟩
  · rcases List.mem_append.mp ho with ho | ho
    · exact h.ordered o ho
    · obtain rfl := List.mem_singleton.mp ho
      exact hread rule List.mem_cons_self
  · dsimp only at hr
    rw [hprocessing] at hr
    split_ifs at hr
    · obtain rfl := Option.some.inj hr
      exact hread rule List.mem_cons_self
    · exact h.processed v r hr
  · have hplaced := placedFor_append row.id (rule.id, order)
      { s.setPhase w (.placed now epochId rule due) with orders := s.orders ++ [(rule.id, order)] } rfl
    by_cases hid : row.id = rule.id
    · obtain ⟨htotal, hfits, hleft, hnone⟩ := hfree row hrow hid
      have hrest : s.AtRest row := by
        rcases h.accounted row hrow with hrest | ⟨v, r, hprocess⟩
        · exact hrest
        · exact absurd (hprocess.id.trans hid) (hnone v r hprocess.current)
      refine .inr ⟨w, rule, ?_, hid.symm, fun v other hother hsame => ?_, htotal, ?_, hfits, hleft⟩
      · dsimp only
        rw [hprocessing, if_pos rfl]
        rfl
      · by_contra hv
        dsimp only at hother
        rw [hprocessing, if_neg hv] at hother
        exact hnone v other hother (hsame.trans hid)
      · rw [hplaced, if_pos hid.symm, Nat.cast_add, hrest.counted]
        rfl
    · rw [if_neg fun he => hid he.symm, Nat.add_zero] at hplaced
      refine accounted_of_same (h.accounted row hrow) rfl rfl rfl hplaced fun v r hr => ?_
      dsimp only
      rw [hprocessing]
      split_ifs with hv
      · refine iff_of_false (fun hcurrent => ?_) fun hcurrent => ?_
        · obtain rfl := Option.some.inj hcurrent
          exact hid hr.symm
        · rw [hv, hidle] at hcurrent
          cases hcurrent
      · rfl

omit [DecidableEq W] in
theorem Inv.inProcess (h : s.Inv) {w : W} {rule : RecurringRule} (hcurrent : rule ∈ (s.phase w).processing)
    {row : RecurringRule} (hrow : row ∈ s.rules.rows) (hid : row.id = rule.id) : s.InProcess row w rule := by
  rcases h.accounted row hrow with hrest | ⟨v, r, hprocess⟩
  · exact absurd hid.symm (hrest.idle w rule hcurrent)
  · obtain rfl := hprocess.only w rule hcurrent hid.symm
    obtain rfl := Option.some.inj (hcurrent.symm.trans hprocess.current)
    exact hprocess

omit [DecidableEq W] in
theorem Inv.rows_of_advance (h : s.Inv) {w : W} {rule : RecurringRule}
    (hcurrent : rule ∈ (s.phase w).processing) {nextExecution now : ℤ} {row' : RecurringRule}
    (hrow' : row' ∈ (s.rules.updateAfterExecution rule.id nextExecution
      (successor rule.totalExecutions) now).rows) :
    ∃ row ∈ s.rules.rows, row'.id = row.id ∧ row'.maxExecutions = row.maxExecutions ∧
      row'.totalExecutions = if row.id = rule.id then row.totalExecutions + 1 else row.totalExecutions := by
  obtain ⟨row, hrow, rfl⟩ := List.mem_map.mp hrow'
  refine ⟨row, hrow, ?_⟩
  split_ifs with hid
  · have hprocess := h.inProcess hcurrent hrow hid
    have hcount : successor rule.totalExecutions = row.totalExecutions + 1 := by
      rw [← hprocess.read]
      exact successor_eq (h.nonneg row hrow) hprocess.fits
    exact ⟨rfl, rfl, hcount⟩
  · exact ⟨rfl, rfl, rfl⟩

theorem Inv.advance (h : s.Inv) {w : W} {started now : ℤ} {epochId : Uuid} {rule : RecurringRule}
    {due : List RecurringRule} (hphase : s.phase w = .placed started epochId rule due)
    (nextExecution : ℤ) :
    Inv { s.setPhase w (.checking started epochId due) with
      rules := s.rules.updateAfterExecution rule.id nextExecution (successor rule.totalExecutions) now } := by
  have hcurrent : rule ∈ (s.phase w).processing := by rw [hphase]; rfl
  have hprocessing := fun v => processing_setPhase (s := s) w (.checking started epochId due) v
  refine ⟨fun row' hrow' => ?_, h.ordered, fun v r hr => ?_, h.due_setPhase fun r hr => ?_,
    fun row' hrow' => ?_, fun row' hrow' max hmax => ?_, fun row' hrow' => ?_⟩
  · obtain ⟨row, hrow, hid, _⟩ := h.rows_of_advance hcurrent hrow'
    exact hid ▸ h.created row hrow
  · dsimp only at hr
    rw [hprocessing] at hr
    split_ifs at hr
    · cases hr
    · exact h.processed v r hr
  · exact h.due w r (by rw [hphase]; exact hr)
  · obtain ⟨row, hrow, _, _, htotal⟩ := h.rows_of_advance hcurrent hrow'
    have hnonneg := h.nonneg row hrow
    rw [htotal]
    split_ifs <;> omega
  · obtain ⟨row, hrow, _, hmaximum, htotal⟩ := h.rows_of_advance hcurrent hrow'
    rw [hmaximum] at hmax
    rw [htotal]
    split_ifs with hown'
    · exact (h.inProcess hcurrent hrow hown').left max hmax
    · exact h.within row hrow max hmax
  · obtain ⟨row, hrow, hid, hmaximum, htotal⟩ := h.rows_of_advance hcurrent hrow'
    by_cases hrule : row.id = rule.id
    · have hprocess := h.inProcess hcurrent hrow hrule
      refine .inl ⟨fun v r hr => ?_, ?_⟩
      · dsimp only at hr
        rw [hprocessing] at hr
        split_ifs at hr with hv
        · cases hr
        · exact fun he => hv (hprocess.only v r hr (he.trans hid))
      · rw [htotal, if_pos hrule, hid]
        exact hprocess.placed
    · rw [if_neg hrule] at htotal
      refine accounted_of_same (h.accounted row hrow) hid htotal hmaximum rfl fun v r hr => ?_
      dsimp only
      rw [hprocessing]
      split_ifs with hv
      · refine iff_of_false (fun hgone => by cases hgone) fun hold => ?_
        obtain rfl := Option.some.inj (hcurrent.symm.trans (hv ▸ hold))
        exact hrule hr.symm
      · rfl

theorem inv_step {a : RuleAction W} (h : s.Inv) (hcounted : s.PlacesCounted a)
    (hstep : s.step addMonths a = some s') : s'.Inv := by
  cases a with
  | create rule =>
    simp only [step] at hstep
    split_ifs at hstep with hnew
    obtain ⟨rules, hinsert, rfl⟩ := Option.map_eq_some_iff.mp hstep
    simp only [not_or, not_not] at hnew
    exact h.create hnew.1 hnew.2.2 hcounted hinsert
  | setStatus id userId status =>
    obtain rfl := Option.some.inj hstep
    refine h.of_same rfl rfl (fun row' hrow' => ?_) h.due (fun _ _ hr => hr) fun _ _ _ _ hr _ => hr
    obtain ⟨row, hrow, rfl⟩ := List.mem_map.mp hrow'
    refine ⟨row, hrow, ?_⟩
    split_ifs <;> exact ⟨rfl, rfl, rfl⟩
  | delete id userId =>
    obtain rfl := Option.some.inj hstep
    exact h.of_same rfl rfl (fun row hrow => ⟨row, List.mem_of_mem_filter hrow, rfl, rfl, rfl⟩) h.due
      (fun _ _ hr => hr) fun _ _ _ _ hr _ => hr
  | read w now due epoch =>
    simp only [step] at hstep
    split at hstep
    next hphase =>
      split_ifs at hstep with hdue
      split at hstep
      · obtain rfl := Option.some.inj hstep
        exact h
      · obtain rfl := Option.some.inj hstep
        exact h
      next epochId _ =>
        obtain rfl := Option.some.inj hstep
        refine h.setPhase (fun rule hrule => ?_) rfl fun rule hrule => ?_
        · exact h.created rule (List.mem_of_mem_filter (hdue.subset hrule))
        · rw [hphase] at hrule
          cases hrule
    · cases hstep
  | place w moment committed =>
    simp only [step] at hstep
    split at hstep
    next now epochId rule due hphase =>
      split at hstep
      next price hprice =>
        obtain rfl := Option.some.inj hstep
        refine h.place hphase (fun row hrow hid => hcounted rule ?_ row hrow hid) _
        rw [hphase]
        exact if_pos (by rw [hprice]; rfl)
      · obtain rfl := Option.some.inj hstep
        refine h.setPhase (fun r hr => h.due w r ?_) rfl fun r hr => ?_
        · rw [hphase]
          exact List.mem_cons_of_mem _ hr
        · rw [hphase] at hr
          cases hr
    · cases hstep
  | advance w now committed =>
    simp only [step] at hstep
    split at hstep
    next started epochId rule due hphase =>
      split_ifs at hstep with hcommitted
      · obtain rfl := Option.some.inj hstep
        exact h.advance hphase _
      · obtain rfl := Option.some.inj hstep
        obtain rfl := eq_false_of_ne_true hcommitted
        exact h.setPhase (fun r hr => h.due w r (by rw [hphase]; exact hr)) rfl hcounted
    · cases hstep
  | stop w =>
    obtain rfl := Option.some.inj hstep
    exact h.setPhase (by simp [CyclePhase.due]) rfl hcounted

omit [DecidableEq W] in
theorem inv_start : (start : RuleState W).Inv where
  created _ hrow := by cases hrow
  ordered _ ho := by cases ho
  processed _ _ hr := by cases hr
  due _ _ hr := by cases hr
  nonneg _ hrow := by cases hrow
  within _ hrow := by cases hrow
  accounted _ hrow := by cases hrow

end Steps

instance [Fintype W] (s : RuleState W) : Decidable s.CountsExecutions :=
  decidable_of_iff
    ((∀ rule ∈ s.rules.rows, (∀ w, ∀ current ∈ (s.phase w).processing, current.id ≠ rule.id) →
        (s.placedFor rule.id : ℤ) = rule.totalExecutions) ∧
      ∀ rule ∈ s.rules.rows, ∀ max ∈ rule.maxExecutions, (s.placedFor rule.id : ℤ) ≤ max)
    ⟨fun h => ⟨h.1, h.2⟩, fun h => ⟨h.counted, h.bounded⟩⟩

instance decidablePlacesCounted [Fintype W] (s : RuleState W) : ∀ a, Decidable (s.PlacesCounted a)
  | .create rule => inferInstanceAs (Decidable (∀ max ∈ rule.maxExecutions, 0 ≤ max))
  | .setStatus _ _ _ => isTrue trivial
  | .delete _ _ => isTrue trivial
  | .read _ _ _ _ => isTrue trivial
  | .place w _ true => inferInstanceAs (Decidable (∀ rule ∈ (s.phase w).next, ∀ row ∈ s.rules.rows,
      row.id = rule.id → row.totalExecutions = rule.totalExecutions ∧ row.totalExecutions + 1 < 2 ^ 31 ∧
        (∀ max ∈ row.maxExecutions, row.totalExecutions < max) ∧
          ∀ v, ∀ current ∈ (s.phase v).processing, current.id ≠ rule.id))
  | .place _ _ false => isTrue trivial
  | .advance _ _ true => isTrue trivial
  | .advance w _ false => inferInstanceAs (Decidable (∀ rule ∈ (s.phase w).processing,
      ∀ row ∈ s.rules.rows, row.id ≠ rule.id))
  | .stop w => inferInstanceAs (Decidable (∀ rule ∈ (s.phase w).processing,
      ∀ row ∈ s.rules.rows, row.id ≠ rule.id))

def buyOnce : RecurringRule where
  id := 1
  terms := .buyOne
  intervalType := .hourly
  intervalValue := 1
  nextExecutionAt := 0
  lastExecutedAt := none
  status := .active
  totalExecutions := 0
  maxExecutions := some 1

def onceRun : List (RuleAction Bool) :=
  [.create buyOnce, .read true 0 [buyOnce] (.ok 9), .place true .quiet true, .advance true 5 true,
    .stop true]

/-- In every run of such steps the executions are counted, and there are never too many. -/
theorem recurring_executions_counted (addMonths : ℤ → ℤ → Option ℤ) (as : List (RuleAction W))
    (h : Runs.AllSteps (step addMonths) PlacesCounted (start : RuleState W) as) :
    Runs.AllStates (step addMonths) CountsExecutions (start : RuleState W) as := by
  have hinv : Runs.AllStates (step addMonths) Inv (start : RuleState W) as :=
    Runs.AllStates.of_allSteps (fun _ _ _ hinv hcounted hstep => inv_step hinv hcounted hstep) inv_start h
  exact hinv.mono fun _ hinv => hinv.countsExecutions

theorem recurring_executions_counted_once :
    Runs.AllStates (step fun _ _ => none) CountsExecutions start onceRun :=
  recurring_executions_counted _ onceRun (by decide +kernel)

/-- An advance that fails, two evaluators at once, and a rule resumed after its last
execution. -/
theorem recurring_executions_miscounted :
    ¬Runs.AllStates (step fun _ _ => none) CountsExecutions (start : RuleState Bool)
        [.create buyOnce, .read true 0 [buyOnce] (.ok 9), .place true .quiet true,
          .advance true 5 false] ∧
      ¬Runs.AllStates (step fun _ _ => none) CountsExecutions (start : RuleState Bool)
        [.create buyOnce, .read true 0 [buyOnce] (.ok 9), .read false 0 [buyOnce] (.ok 9),
          .place true .quiet true, .place false .quiet true] ∧
      ¬Runs.AllStates (step fun _ _ => none) CountsExecutions (start : RuleState Bool)
        (onceRun ++ [.setStatus 1 1 .active,
          .read true (hours 1)
            [{ buyOnce with
              nextExecutionAt := hours 1, totalExecutions := 1, lastExecutedAt := some 5 }] (.ok 9),
          .place true .quiet true]) := by
  refine ⟨?_, ?_, ?_⟩ <;> decide +kernel

end RuleState

end TradingService.Recurring
