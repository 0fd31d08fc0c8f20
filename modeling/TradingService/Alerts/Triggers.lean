import TradingService.Lib.KeyedTable
import TradingService.Lib.Runs
import TradingService.Settlement.Expiry

/-!
# Price alerts

Any number of evaluators, each of which takes the price from the order book, reads the
active alerts and fires one after the other those that the price meets. Users create and
delete alerts meanwhile. What an evaluator has read is overtaken by a deletion, and for a
one-shot alert by the firing of another evaluator; the transaction that fires does not
look, and commits its event all the same.
-/

namespace TradingService

inductive AlertCondition
  | above
  | below
  | crosses
  deriving DecidableEq, Repr

inductive AlertStatus
  | active
  | triggered
  | cancelled
  deriving DecidableEq, Repr

structure PriceAlert where
  id : Uuid
  userId : Uuid
  targetPrice : Numeric
  condition : AlertCondition
  status : AlertStatus
  triggeredAt : Option ℤ
  triggeredPrice : Option Numeric
  repeats : Bool
  createdAt : ℤ
  updatedAt : Option ℤ
  deriving DecidableEq

abbrev AlertTable := KeyedTable PriceAlert.id

/-- Half the width of the band around the target, as a fraction of it. -/
def crossBand : Decimal := 1 / 1000

def conditionMet (condition : AlertCondition) (price target : Decimal) : Bool :=
  match condition with
  | .above => target ≤ price
  | .below => price ≤ target
  | .crosses => |price - target| ≤ |target| * crossBand

/-- The midpoint of the best bid and the best ask, or the one that there is. -/
def currentPrice (book : List OrderBookEntry) : Option Decimal :=
  let best := book.foldl (fun (best : Option Decimal × Option Decimal) e =>
    match e.side with
    | .buy => (some (best.1.elim e.pricePerKwh (max · e.pricePerKwh)), best.2)
    | .sell => (best.1, some (best.2.elim e.pricePerKwh (min · e.pricePerKwh)))) (none, none)
  match best with
  | (some bid, some ask) => some ((bid + ask) / 2)
  | (some bid, none) => some bid
  | (none, some ask) => some ask
  | (none, none) => none

namespace AlertTable

variable (t : AlertTable)

def active : List PriceAlert := t.rows.filter (·.status = .active)

/-- `WHERE status = 'active' ORDER BY created_at`, which leaves the order of equal times to the
database. -/
structure Lists (listed : List PriceAlert) : Prop where
  perm : listed.Perm t.active
  sorted : listed.Pairwise fun a b => a.createdAt ≤ b.createdAt

instance (listed : List PriceAlert) : Decidable (t.Lists listed) :=
  decidable_of_iff (listed.Perm t.active ∧ listed.Pairwise fun a b => a.createdAt ≤ b.createdAt)
    ⟨fun h => ⟨h.1, h.2⟩, fun h => ⟨h.1, h.2⟩⟩

/-- `MARK_TRIGGERED_SQL`. An alert that is not there is not an error. -/
def markTriggered (id : Uuid) (triggeredPrice : Numeric) (now : ℤ) : AlertTable :=
  t.modify id
    (fun a => { a with
      triggeredAt := some now
      triggeredPrice := some triggeredPrice
      status := if a.repeats then a.status else .triggered
      updatedAt := some now })
    fun _ => rfl

def deletePriceAlert (id userId : Uuid) : AlertTable :=
  t.delete fun a => a.id = id ∧ a.userId = userId

def Fades (t' : AlertTable) : Prop :=
  ∀ row' ∈ t'.rows, ∃ row ∈ t.rows, row'.id = row.id ∧ row'.repeats = row.repeats ∧
    (row'.status = .active → row.status = .active)

variable {t}

theorem fades_refl : t.Fades t := fun row hrow => ⟨row, hrow, rfl, rfl, id⟩

theorem fades_deletePriceAlert (id userId : Uuid) : t.Fades (t.deletePriceAlert id userId) :=
  fun row hrow => ⟨row, List.mem_of_mem_filter hrow, rfl, rfl, fun h => h⟩

theorem fades_markTriggered (id : Uuid) (triggeredPrice : Numeric) (now : ℤ) :
    t.Fades (t.markTriggered id triggeredPrice now) := by
  intro row' hrow'
  obtain ⟨row, hrow, rfl⟩ := List.mem_map.mp hrow'
  refine ⟨row, hrow, ?_⟩
  split_ifs
  · refine ⟨rfl, rfl, fun hactive => ?_⟩
    dsimp only at hactive
    split_ifs at hactive
    exact hactive
  · exact ⟨rfl, rfl, fun h => h⟩

theorem not_active_markTriggered {id : Uuid} {triggeredPrice : Numeric} {now : ℤ} {row' : PriceAlert}
    (hrow' : row' ∈ (t.markTriggered id triggeredPrice now).rows) (hid : row'.id = id)
    (hrepeats : row'.repeats = false) : row'.status ≠ .active := by
  obtain ⟨row, _, rfl⟩ := List.mem_map.mp hrow'
  split_ifs at hid hrepeats ⊢ with hrow
  · dsimp only at hrepeats ⊢
    rw [hrepeats, if_neg Bool.false_ne_true]
    exact AlertStatus.noConfusion
  · exact absurd hid hrow

theorem active_markTriggered {row : PriceAlert} (hrow : row ∈ t.rows) (hactive : row.status = .active)
    {id : Uuid} (hother : row.id ≠ id ∨ row.repeats = true) (triggeredPrice : Numeric) (now : ℤ) :
    ∃ row' ∈ (t.markTriggered id triggeredPrice now).rows, row'.id = row.id ∧ row'.status = .active := by
  refine ⟨_, List.mem_map_of_mem hrow, ?_⟩
  split_ifs with hid
  · refine ⟨rfl, ?_⟩
    dsimp only
    rw [if_pos (hother.resolve_left (not_not_intro hid))]
    exact hactive
  · exact ⟨rfl, hactive⟩

end AlertTable

inductive EvaluatorPhase
  | idle
  | priced (price : Decimal)
  | firing (price : Decimal) (alerts : List PriceAlert)

def EvaluatorPhase.alerts : EvaluatorPhase → List PriceAlert
  | .firing _ alerts => alerts
  | _ => []

def EvaluatorPhase.due : EvaluatorPhase → Option PriceAlert
  | .firing price (alert :: _) =>
    if conditionMet alert.condition price alert.targetPrice.toDecimal ∧ (Numeric.store price).isSome
    then some alert else none
  | _ => none

inductive AlertAction (W : Type)
  | create (alert : PriceAlert)
  | delete (id userId : Uuid)
  | price (w : W) (book : List OrderBookEntry)
  | read (w : W) (listed : List PriceAlert)
  /-- The next alert; its transaction may fail. -/
  | next (w : W) (now : ℤ) (committed : Bool)
  /-- The cycle is over, or the process ends. -/
  | stop (w : W)

structure Firing where
  alert : PriceAlert
  event : Event
  found : Option PriceAlert

/-- The table, the evaluators, and, which the service does not record, the committed events,
the ids that have been drawn, and for each evaluator the alerts that were deleted, or fired
for good by another one, since it read. -/
structure AlertState (W : Type) where
  table : AlertTable
  phase : W → EvaluatorPhase
  fired : List Firing
  created : List Uuid
  overtaken : W → List Uuid

namespace AlertState

variable {W : Type} [DecidableEq W]

def start (t : AlertTable) : AlertState W := ⟨t, fun _ => .idle, [], t.rows.map (·.id), fun _ => []⟩

def setPhase (s : AlertState W) (w : W) (phase : EvaluatorPhase) : AlertState W :=
  { s with phase := Function.update s.phase w phase }

/-- `mark_triggered_with_event`: the firing and its event in one transaction. -/
def markTriggeredWithEvent (s : AlertState W) (w : W) (alert : PriceAlert) (price : Numeric) (now : ℤ) :
    AlertState W :=
  { s with
    table := s.table.markTriggered alert.id price now
    fired := s.fired ++ [⟨alert, .priceAlertTriggered alert.id, s.table.find? alert.id⟩]
    overtaken := fun v =>
      if v = w ∨ alert.repeats then s.overtaken v else alert.id :: s.overtaken v }

def step (s : AlertState W) : AlertAction W → Option (AlertState W)
  -- An id is drawn once.
  | .create alert =>
    if alert.id ∈ s.created ∨ alert.status ≠ .active then none
    else (s.table.insert? alert).map fun table =>
      { s with table := table, created := alert.id :: s.created }
  | .delete id userId =>
    let deleted := (s.table.find? id).any (·.userId = userId)
    some { s with
      table := s.table.deletePriceAlert id userId
      overtaken := fun v => if deleted then id :: s.overtaken v else s.overtaken v }
  | .price w book =>
    match s.phase w, currentPrice book with
    | .idle, some price => some (s.setPhase w (.priced price))
    | .idle, none => some s
    | _, _ => none
  | .read w listed =>
    match s.phase w with
    | .priced price =>
      if s.table.Lists listed then
        some { s.setPhase w (.firing price listed) with overtaken := Function.update s.overtaken w [] }
      else none
    | _ => none
  | .next w now committed =>
    match s.phase w with
    | .firing price (alert :: alerts) =>
      let rest := s.setPhase w (.firing price alerts)
      if ¬conditionMet alert.condition price alert.targetPrice.toDecimal then some rest
      else
        match Numeric.store price, committed with
        | some price, true => some (rest.markTriggeredWithEvent w alert price now)
        | _, _ => some rest
    | _ => none
  | .stop w => some (s.setPhase w .idle)

/-- A price alert fires only while it exists and is active, and a one-shot alert once. -/
structure FiresInTime (s : AlertState W) : Prop where
  active : ∀ f ∈ s.fired, ∃ row, f.found = some row ∧ row.status = .active
  once : ((s.fired.filter (!·.alert.repeats)).map (·.alert.id)).Nodup

instance (s : AlertState W) : Decidable s.FiresInTime :=
  decidable_of_iff ((∀ f ∈ s.fired, f.found.any (·.status = .active) = true) ∧
      ((s.fired.filter (!·.alert.repeats)).map (·.alert.id)).Nodup)
    ⟨fun h => ⟨fun f hf => by simpa [Option.any_eq_true] using h.1 f hf, h.2⟩,
      fun h => ⟨fun f hf => by simpa [Option.any_eq_true] using h.active f hf, h.once⟩⟩

/-- No alert is fired by an evaluator that has been overtaken since it read. -/
def FiresUpToDate (s : AlertState W) : AlertAction W → Prop
  | .next w _ true => ∀ alert ∈ (s.phase w).due, alert.id ∉ s.overtaken w
  | _ => True

inductive Move (s : AlertState W) : AlertAction W → AlertState W → Prop
  | create {alert : PriceAlert} {table : AlertTable} (hnew : alert.id ∉ s.created)
      (hinsert : s.table.insert? alert = some table) :
      Move s (.create alert) { s with table := table, created := alert.id :: s.created }
  | delete (id userId : Uuid) :
      Move s (.delete id userId) { s with
        table := s.table.deletePriceAlert id userId
        overtaken := fun v => if (s.table.find? id).any (·.userId = userId) then id :: s.overtaken v
          else s.overtaken v }
  | read {w : W} {listed : List PriceAlert} (price : Decimal) (hlists : s.table.Lists listed) :
      Move s (.read w listed) { s.setPhase w (.firing price listed) with
        overtaken := Function.update s.overtaken w [] }
  /-- The evaluator goes on, and nothing is committed. -/
  | quiet {a : AlertAction W} (w : W) {phase : EvaluatorPhase}
      (hsub : phase.alerts.Sublist (s.phase w).alerts)
      (hdue : ∀ v now, a = .next v now true → (s.phase v).due = none) :
      Move s a (s.setPhase w phase)
  | fire {w : W} {now : ℤ} {price : Decimal} {alert : PriceAlert} {alerts : List PriceAlert}
      (stored : Numeric) (hphase : s.phase w = .firing price (alert :: alerts))
      (hdue : (s.phase w).due = some alert) :
      Move s (.next w now true)
        ((s.setPhase w (.firing price alerts)).markTriggeredWithEvent w alert stored now)

theorem move_of_step {s s' : AlertState W} {a : AlertAction W} (h : s.step a = some s') :
    s.Move a s' := by
  cases a with
  | create alert =>
    simp only [step] at h
    split_ifs at h with hnew
    obtain ⟨table, hinsert, rfl⟩ := Option.map_eq_some_iff.mp h
    exact .create (fun hmem => hnew (.inl hmem)) hinsert
  | delete id userId =>
    obtain rfl := Option.some.inj h
    exact .delete id userId
  | price w book =>
    simp only [step] at h
    split at h
    · obtain rfl := Option.some.inj h
      exact .quiet w (List.nil_sublist _) (by simp)
    next hphase _ =>
      obtain rfl := Option.some.inj h
      have hsame : s.setPhase w (s.phase w) = s := by simp [setPhase]
      have hquiet : Move s (.price w book) (s.setPhase w (s.phase w)) :=
        .quiet w (List.Sublist.refl _) (by simp)
      rwa [hsame] at hquiet
    · cases h
  | read w listed =>
    simp only [step] at h
    split at h
    next price hphase =>
      split_ifs at h with hlists
      obtain rfl := Option.some.inj h
      exact .read price hlists
    · cases h
  | next w now committed =>
    simp only [step] at h
    split at h
    next price alert alerts hphase =>
      have hsub : (EvaluatorPhase.firing price alerts).alerts.Sublist (s.phase w).alerts := by
        rw [hphase]
        exact List.sublist_cons_self _ _
      split_ifs at h with hmet
      · split at h
        next stored hstore =>
          obtain rfl := Option.some.inj h
          refine .fire stored hphase ?_
          rw [hphase]
          exact if_pos ⟨hmet, by rw [hstore]; rfl⟩
        next hnot =>
          obtain rfl := Option.some.inj h
          refine .quiet w hsub fun v now' heq => ?_
          cases heq
          rw [hphase]
          refine if_neg fun hboth => ?_
          obtain ⟨stored, hstore⟩ := Option.isSome_iff_exists.mp hboth.2
          exact hnot stored hstore rfl
      · obtain rfl := Option.some.inj h
        refine .quiet w hsub fun v now' heq => ?_
        cases heq
        rw [hphase]
        exact if_neg fun hboth => hmet hboth.1
    · cases h
  | stop w =>
    obtain rfl := Option.some.inj h
    exact .quiet w (List.nil_sublist _) (by simp)

/-- What the evaluators have read and committed, compared with the table. -/
structure Inv (s : AlertState W) : Prop where
  created : ∀ row ∈ s.table.rows, row.id ∈ s.created
  known : ∀ w, ∀ alert ∈ (s.phase w).alerts, alert.id ∈ s.created
  nodup : ∀ w, ((s.phase w).alerts.map (·.id)).Nodup
  repeats : ∀ w, ∀ alert ∈ (s.phase w).alerts, ∀ row ∈ s.table.rows, row.id = alert.id →
    row.repeats = alert.repeats
  fresh : ∀ w, ∀ alert ∈ (s.phase w).alerts, alert.id ∉ s.overtaken w →
    ∃ row ∈ s.table.rows, row.id = alert.id ∧ row.status = .active
  stale : ∀ w, ∀ id ∈ s.overtaken w, id ∈ s.created ∧
    ∀ row ∈ s.table.rows, row.id = id → row.status ≠ .active
  spent : ∀ f ∈ s.fired, f.alert.repeats = false → f.alert.id ∈ s.created ∧
    ∀ row ∈ s.table.rows, row.id = f.alert.id → row.status ≠ .active

omit [DecidableEq W] in
theorem inv_start (t : AlertTable) : (start t : AlertState W).Inv where
  created _ hrow := List.mem_map_of_mem hrow
  known _ _ halert := by cases halert
  nodup _ := List.nodup_nil
  repeats _ _ halert := by cases halert
  fresh _ _ halert := by cases halert
  stale _ _ hid := by cases hid
  spent _ hf := by cases hf

variable {s s' : AlertState W}

theorem alerts_setPhase (w : W) (phase : EvaluatorPhase) (v : W) :
    ((s.setPhase w phase).phase v).alerts = if v = w then phase.alerts else (s.phase v).alerts := by
  simp only [setPhase, Function.update_apply]
  split_ifs <;> rfl

theorem alerts_setPhase_sublist {w : W} {phase : EvaluatorPhase}
    (hsub : phase.alerts.Sublist (s.phase w).alerts) :
    ∀ v, ((s.setPhase w phase).phase v).alerts.Sublist (s.phase v).alerts :=
  (Function.forall_update_iff s.phase fun v phase => phase.alerts.Sublist (s.phase v).alerts).mpr
    ⟨hsub, fun _ _ => List.Sublist.refl _⟩

omit [DecidableEq W] in
/-- Where the table fades, only what becomes stale, spent or no longer fresh is to be
checked. -/
theorem Inv.of_fades (h : s.Inv) (hfades : s.table.Fades s'.table) (hcreated : s'.created = s.created)
    (halerts : ∀ w, (s'.phase w).alerts.Sublist (s.phase w).alerts)
    (hfresh : ∀ w, ∀ alert ∈ (s'.phase w).alerts, alert.id ∉ s'.overtaken w →
      ∃ row ∈ s'.table.rows, row.id = alert.id ∧ row.status = .active)
    (hstale : ∀ w, ∀ id ∈ s'.overtaken w, id ∈ s.overtaken w ∨ (id ∈ s.created ∧
      ∀ row ∈ s'.table.rows, row.id = id → row.status ≠ .active))
    (hspent : ∀ f ∈ s'.fired, f ∈ s.fired ∨ (f.alert.repeats = false → f.alert.id ∈ s.created ∧
      ∀ row ∈ s'.table.rows, row.id = f.alert.id → row.status ≠ .active)) : s'.Inv := by
  have hinactive : ∀ id, (∀ row ∈ s.table.rows, row.id = id → row.status ≠ .active) →
      ∀ row ∈ s'.table.rows, row.id = id → row.status ≠ .active := by
    intro id hnot row' hrow' hid hactive
    obtain ⟨row, hrow, hid', _, hstatus⟩ := hfades row' hrow'
    exact hnot row hrow (hid'.symm.trans hid) (hstatus hactive)
  refine ⟨fun row' hrow' => ?_, fun w alert hmem => ?_, fun w => ?_, fun w alert hmem row' hrow' hid => ?_,
    hfresh, fun w id hid => ?_, fun f hf hrepeats => ?_⟩
  · obtain ⟨row, hrow, hid, _⟩ := hfades row' hrow'
    rw [hcreated, hid]
    exact h.created row hrow
  · rw [hcreated]
    exact h.known w alert ((halerts w).subset hmem)
  · exact ((halerts w).map _).nodup (h.nodup w)
  · obtain ⟨row, hrow, hid', hrepeats, _⟩ := hfades row' hrow'
    rw [hrepeats]
    exact h.repeats w alert ((halerts w).subset hmem) row hrow (hid'.symm.trans hid)
  · rw [hcreated]
    rcases hstale w id hid with hold | hnew
    · obtain ⟨hmem, hnot⟩ := h.stale w id hold
      exact ⟨hmem, hinactive id hnot⟩
    · exact hnew
  · rw [hcreated]
    rcases hspent f hf with hold | hnew
    · obtain ⟨hmem, hnot⟩ := h.spent f hold hrepeats
      exact ⟨hmem, hinactive _ hnot⟩
    · exact hnew hrepeats

theorem Inv.fire (h : s.Inv) {w : W} {price : Decimal} {alert : PriceAlert} {alerts : List PriceAlert}
    (hphase : s.phase w = .firing price (alert :: alerts)) (stored : Numeric) (now : ℤ) :
    ((s.setPhase w (.firing price alerts)).markTriggeredWithEvent w alert stored now).Inv := by
  have hhead : alert ∈ (s.phase w).alerts := by
    rw [hphase]
    exact List.mem_cons_self
  have halerts : ∀ v, ((s.setPhase w (.firing price alerts)).phase v).alerts.Sublist (s.phase v).alerts :=
    alerts_setPhase_sublist (by rw [hphase]; exact List.sublist_cons_self _ _)
  have hover : alert.repeats = false → alert.id ∈ s.created ∧
      ∀ row ∈ (s.table.markTriggered alert.id stored now).rows, row.id = alert.id → row.status ≠ .active := by
    refine fun hrepeats => ⟨h.known w alert hhead, fun row' hrow' hid => ?_⟩
    obtain ⟨row, hrow, hid', hsame, _⟩ := AlertTable.fades_markTriggered _ _ _ row' hrow'
    have hrow := h.repeats w alert hhead row hrow (hid'.symm.trans hid)
    exact AlertTable.not_active_markTriggered hrow' hid (hsame.trans (hrow.trans hrepeats))
  refine h.of_fades (AlertTable.fades_markTriggered _ _ _) rfl halerts ?_ ?_ ?_
  · intro v other hother hnot
    have hovertaken : other.id ∉ s.overtaken v ∧ (v = w ∨ alert.repeats = true ∨ other.id ≠ alert.id) := by
      simp only [markTriggeredWithEvent, setPhase] at hnot
      split_ifs at hnot with hcase
      · exact ⟨hnot, by tauto⟩
      · rw [List.mem_cons, not_or] at hnot
        exact ⟨hnot.2, .inr (.inr hnot.1)⟩
    obtain ⟨row, hrow, hid, hactive⟩ := h.fresh v other ((halerts v).subset hother) hovertaken.1
    have hkeeps : row.id ≠ alert.id ∨ row.repeats = true := by
      rcases hovertaken.2 with rfl | hrepeats | hne
      · have hnodup := h.nodup v
        rw [hphase] at hnodup
        change other ∈ ((s.setPhase v (.firing price alerts)).phase v).alerts at hother
        rw [alerts_setPhase, if_pos rfl] at hother
        exact .inl fun he =>
          (List.nodup_cons.mp hnodup).1 (List.mem_map.mpr ⟨other, hother, hid.symm.trans he⟩)
      · by_cases he : row.id = alert.id
        · exact .inr ((h.repeats w alert hhead row hrow he).trans hrepeats)
        · exact .inl he
      · exact .inl (hid ▸ hne)
    obtain ⟨row', hrow', hid', hactive'⟩ := AlertTable.active_markTriggered hrow hactive hkeeps stored now
    exact ⟨row', hrow', hid'.trans hid, hactive'⟩
  · intro v id hid
    simp only [markTriggeredWithEvent, setPhase] at hid
    split_ifs at hid with hcase
    · exact .inl hid
    · rcases List.mem_cons.mp hid with rfl | hid
      · exact .inr (hover (by simpa using fun hr => hcase (.inr hr)))
      · exact .inl hid
  · intro f hf
    rcases List.mem_append.mp hf with hf | hf
    · exact .inl hf
    · obtain rfl := List.mem_singleton.mp hf
      exact .inr hover

omit [DecidableEq W] in
theorem Inv.create (h : s.Inv) {alert : PriceAlert} {table : AlertTable} (hnew : alert.id ∉ s.created)
    (hinsert : s.table.insert? alert = some table) :
    Inv { s with table := table, created := alert.id :: s.created } := by
  obtain ⟨_, hrows⟩ := KeyedTable.insert?_eq_some hinsert
  have hold : ∀ id ∈ s.created, ∀ row ∈ table.rows, row.id = id → row ∈ s.table.rows := by
    intro id hid row hrow he
    rw [hrows] at hrow
    rcases List.mem_cons.mp hrow with rfl | hrow
    · exact absurd (he ▸ hid) hnew
    · exact hrow
  refine ⟨fun row hrow => ?_, fun w other hother => List.mem_cons_of_mem _ (h.known w other hother),
    h.nodup, fun w other hother row hrow hid => ?_, fun w other hother hnot => ?_,
    fun w id hid => ?_, fun f hf hrepeats => ?_⟩
  · rw [hrows] at hrow
    rcases List.mem_cons.mp hrow with rfl | hrow
    · exact List.mem_cons_self
    · exact List.mem_cons_of_mem _ (h.created row hrow)
  · exact h.repeats w other hother row (hold _ (h.known w other hother) row hrow hid) hid
  · obtain ⟨row, hrow, hboth⟩ := h.fresh w other hother hnot
    exact ⟨row, by rw [hrows]; exact List.mem_cons_of_mem _ hrow, hboth⟩
  · obtain ⟨hmem, hnot⟩ := h.stale w id hid
    exact ⟨List.mem_cons_of_mem _ hmem, fun row hrow he => hnot row (hold id hmem row hrow he) he⟩
  · obtain ⟨hmem, hnot⟩ := h.spent f hf hrepeats
    exact ⟨List.mem_cons_of_mem _ hmem, fun row hrow he => hnot row (hold _ hmem row hrow he) he⟩

omit [DecidableEq W] in
theorem Inv.delete (h : s.Inv) (id userId : Uuid) : Inv { s with
    table := s.table.deletePriceAlert id userId
    overtaken := fun v => if (s.table.find? id).any (·.userId = userId) then id :: s.overtaken v
      else s.overtaken v } := by
  refine h.of_fades (AlertTable.fades_deletePriceAlert id userId) rfl (fun _ => List.Sublist.refl _)
    (fun w alert halert hnot => ?_) (fun w other hother => ?_) fun _ hf => .inl hf
  · dsimp only at hnot
    have hnot' : alert.id ∉ s.overtaken w := by
      split_ifs at hnot
      · exact fun hmem => hnot (List.mem_cons_of_mem _ hmem)
      · exact hnot
    obtain ⟨row, hrow, hid, hactive⟩ := h.fresh w alert halert hnot'
    refine ⟨row, List.mem_filter.mpr ⟨hrow, ?_⟩, hid, hactive⟩
    by_contra hgone
    simp only [Bool.not_eq_true', Bool.not_eq_false, decide_eq_true_eq] at hgone
    have hdeleted : (s.table.find? id).any (·.userId = userId) = true := by
      rw [KeyedTable.find?_eq_some.mpr ⟨hrow, hgone.1⟩]
      exact decide_eq_true hgone.2
    rw [if_pos hdeleted] at hnot
    exact hnot (by rw [← hid, hgone.1]; exact List.mem_cons_self)
  · dsimp only at hother
    split_ifs at hother with hdeleted
    · rcases List.mem_cons.mp hother with rfl | hother
      · obtain ⟨row, hfind, huser⟩ := (Option.any_eq_true _ _).mp hdeleted
        obtain ⟨hrow, hid⟩ := KeyedTable.find?_eq_some.mp hfind
        refine .inr ⟨hid ▸ h.created row hrow, fun row' hrow' hid' => ?_⟩
        obtain ⟨hmem, hkept⟩ := List.mem_filter.mp hrow'
        rw [KeyedTable.row_unique hmem hrow (hid'.trans hid.symm)] at hkept
        simp [hid, of_decide_eq_true huser] at hkept
      · exact .inl hother
    · exact .inl hother

theorem Inv.read (h : s.Inv) {w : W} {listed : List PriceAlert} (price : Decimal)
    (hlists : s.table.Lists listed) : Inv { s.setPhase w (.firing price listed) with
      overtaken := Function.update s.overtaken w [] } := by
  have hlisted : ∀ alert ∈ listed, alert ∈ s.table.rows ∧ alert.status = .active := fun alert halert => by
    simpa [AlertTable.active] using hlists.perm.subset halert
  have hphase : ∀ v, ((s.setPhase w (.firing price listed)).phase v).alerts =
      if v = w then listed else (s.phase v).alerts := alerts_setPhase w _
  have hovertaken : ∀ v, Function.update s.overtaken w [] v = if v = w then [] else s.overtaken v :=
    fun v => Function.update_apply s.overtaken w [] v
  refine ⟨h.created, fun v alert halert => ?_, fun v => ?_, fun v alert halert row hrow hid => ?_,
    fun v alert halert hnot => ?_, fun v id hid => ?_, h.spent⟩
  · dsimp only at halert
    rw [hphase] at halert
    split_ifs at halert
    · exact h.created alert (hlisted alert halert).1
    · exact h.known v alert halert
  · dsimp only
    rw [hphase]
    split_ifs
    · exact (hlists.perm.map _).nodup_iff.mpr ((List.filter_sublist.map _).nodup s.table.keys_nodup)
    · exact h.nodup v
  · dsimp only at halert
    rw [hphase] at halert
    split_ifs at halert
    · rw [KeyedTable.row_unique hrow (hlisted alert halert).1 hid]
    · exact h.repeats v alert halert row hrow hid
  · dsimp only at halert hnot
    rw [hphase] at halert
    rw [hovertaken] at hnot
    split_ifs at halert hnot
    · exact ⟨alert, (hlisted alert halert).1, rfl, (hlisted alert halert).2⟩
    · exact h.fresh v alert halert hnot
  · dsimp only at hid
    rw [hovertaken] at hid
    split_ifs at hid
    · cases hid
    · exact h.stale v id hid

theorem inv_step {a : AlertAction W} (h : s.Inv) (hstep : s.step a = some s') : s'.Inv := by
  cases move_of_step hstep with
  | create hnew hinsert => exact h.create hnew hinsert
  | delete id userId => exact h.delete id userId
  | read price hlists => exact h.read price hlists
  | quiet w hsub hdue =>
    rename_i phase
    have halerts := alerts_setPhase_sublist hsub
    exact h.of_fades AlertTable.fades_refl rfl halerts
      (fun v alert halert hnot => h.fresh v alert ((halerts v).subset halert) hnot)
      (fun _ _ hid => .inl hid) fun _ hf => .inl hf
  | fire stored hphase hdue => exact h.fire hphase stored _

theorem FiresInTime.step {a : AlertAction W} (hinv : s.Inv) (h : s.FiresInTime) (hup : s.FiresUpToDate a)
    (hstep : s.step a = some s') : s'.FiresInTime := by
  cases move_of_step hstep with
  | create hnew hinsert => exact ⟨h.active, h.once⟩
  | delete id userId => exact ⟨h.active, h.once⟩
  | read price hlists => exact ⟨h.active, h.once⟩
  | quiet w hsub hdue => exact ⟨h.active, h.once⟩
  | @fire w now price alert alerts stored hphase hdue =>
    have hhead : alert ∈ (s.phase w).alerts := by
      rw [hphase]
      exact List.mem_cons_self
    obtain ⟨row, hrow, hid, hactive⟩ := hinv.fresh w alert hhead (hup alert hdue)
    have hfound : s.table.find? alert.id = some row := KeyedTable.find?_eq_some.mpr ⟨hrow, hid⟩
    refine ⟨fun f hf => ?_, ?_⟩
    · rcases List.mem_append.mp hf with hf | hf
      · exact h.active f hf
      · obtain rfl := List.mem_singleton.mp hf
        exact ⟨row, hfound, hactive⟩
    · simp only [markTriggeredWithEvent, setPhase]
      rw [List.filter_append, List.map_append, List.nodup_append]
      refine ⟨h.once, ?_, fun id hmem id' hmem' hsame => ?_⟩
      · cases hrepeats : alert.repeats <;> simp [hrepeats]
      · -- Had the one-shot alert been fired before, it would not be active.
        obtain ⟨f, hf, rfl⟩ := List.mem_map.mp hmem
        obtain ⟨f', hf', rfl⟩ := List.mem_map.mp hmem'
        obtain ⟨hfired, hshot⟩ := List.mem_filter.mp hf
        obtain rfl := List.mem_singleton.mp (List.mem_of_mem_filter hf')
        exact (hinv.spent f hfired (by simpa using hshot)).2 row hrow (hid.trans hsame.symm) hactive

/-- An evaluator that was overtaken does not. -/
theorem firesUpToDate_of_step {a : AlertAction W} (hinv : s.Inv) (hstep : s.step a = some s')
    (h : s'.FiresInTime) : s.FiresUpToDate a := by
  cases move_of_step hstep with
  | create hnew hinsert => trivial
  | delete id userId => trivial
  | read price hlists => trivial
  | quiet w hsub hdue =>
    unfold FiresUpToDate
    split
    next v now =>
      rw [hdue v now rfl]
      exact fun _ hnone => by cases hnone
    · trivial
  | @fire w now price alert alerts stored hphase hdue =>
    intro other hother hovertaken
    obtain rfl : alert = other := Option.some.inj (hdue.symm.trans hother)
    obtain ⟨row, hfound, hactive⟩ := h.active _ (List.mem_append_right _ (List.mem_singleton_self _))
    obtain ⟨hrow, hid⟩ := KeyedTable.find?_eq_some.mp hfound
    exact (hinv.stale w alert.id hovertaken).2 row hrow hid hactive

/-- In a run the alerts fire in time exactly if no evaluator fires one after it was
overtaken. -/
theorem alerts_fire_in_time_iff (t : AlertTable) (as : List (AlertAction W)) :
    Runs.AllStates step FiresInTime (start t) as ↔ Runs.AllSteps step FiresUpToDate (start t) as := by
  constructor
  · refine Runs.AllSteps.of_allStates (I := Inv) (fun s a s' hinv hstep hP => ?_) (inv_start t)
    exact ⟨firesUpToDate_of_step hinv hstep hP, inv_step hinv hstep⟩
  · intro hrun
    have hstart : (start t : AlertState W).FiresInTime := ⟨by simp [start], List.nodup_nil⟩
    have hboth : Runs.AllStates step (fun s => s.Inv ∧ s.FiresInTime) (start t : AlertState W) as :=
      Runs.AllStates.of_allSteps (fun s a s' h hup hstep =>
        ⟨inv_step h.1 hstep, h.2.step h.1 hup hstep⟩) ⟨inv_start t, hstart⟩ hrun
    exact hboth.mono fun _ h => h.2

def aboveFive : PriceAlert where
  id := 1
  userId := 7
  targetPrice := .whole 5
  condition := .above
  status := .active
  triggeredAt := none
  triggeredPrice := none
  repeats := false
  createdAt := 10
  updatedAt := none

def bidOfSix : OrderBookEntry :=
  ⟨3, 9, .buy, 1, 1, 6, 12, ⊥, none, none, none, .gtc⟩

/-- An alert that was deleted after it was read, and one that two evaluators have read. -/
theorem overtaken_alerts_fire :
    ¬Runs.AllStates step FiresInTime (start ⟨[aboveFive], by decide⟩ : AlertState Bool)
        [.price true [bidOfSix], .read true [aboveFive], .delete 1 7, .next true 30 true] ∧
      ¬Runs.AllStates step FiresInTime (start ⟨[aboveFive], by decide⟩ : AlertState Bool)
        [.price true [bidOfSix], .read true [aboveFive], .price false [bidOfSix],
          .read false [aboveFive], .next true 30 true, .next false 31 true] := by
  constructor <;> decide +kernel

end AlertState

end TradingService
