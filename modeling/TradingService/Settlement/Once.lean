import TradingService.Settlement.Tasks

/-!
# Settling once

A settlement whose swap is done must stay with its worker until it is completed. The
invariant `Secured` says so of a set of settlements, be it those that have landed or
those that a gateway call has returned: such a settlement is processing or completed,
and the only tasks about it are its completions. The reclaim by age is what can break
it, since it looks neither at the workers nor at the chain.
-/

namespace TradingService

open Database (HasStatus KeepsOutside)

namespace SettlementState

variable {W : Type}

def stale (s : SettlementState W) (now : ℤ) : List Uuid :=
  (s.db.settlements.rows.filter (Database.staleProcessing staleProcessingSecs now)).map (·.id)

structure Secured (done : List Uuid) (s : SettlementState W) : Prop where
  processing : ∀ w, ∀ id ∈ idsOf (s.tasks w), s.db.HasStatus id .processing
  nodup : ∀ w, (idsOf (s.tasks w)).Nodup
  disjoint : ∀ v w, v ≠ w → ∀ id ∈ idsOf (s.tasks v), id ∉ idsOf (s.tasks w)
  safe : ∀ id ∈ done, s.db.HasStatus id .processing ∨ s.db.HasStatus id .completed
  completing : ∀ w, ∀ t ∈ s.tasks w, ∀ id ∈ t.ids, id ∈ done → t.IsCompletion

section Steps

variable {s : SettlementState W} {done : List Uuid}

/-- A worker's settlements are not completed, and not pending. -/
theorem Secured.not_status (h : s.Secured done) {w : W} {id : Uuid} (hid : id ∈ idsOf (s.tasks w))
    {x : SettlementStatus} (hx : x ≠ .processing) : ¬s.db.HasStatus id x :=
  fun hstatus => hx (hstatus.unique (h.processing w id hid))

theorem Secured.db {db' : Database} {touched : List Uuid} (h : s.Secured done)
    (hdb : KeepsOutside touched s.db db') (hheld : ∀ w, ∀ id ∈ idsOf (s.tasks w), id ∉ touched)
    (hdone : ∀ id ∈ done, id ∉ touched) : Secured done { s with db := db' } where
  processing w id hid := hdb id (hheld w id hid) _ (h.processing w id hid)
  nodup := h.nodup
  disjoint := h.disjoint
  safe id hid := (h.safe id hid).imp (hdb id (hdone id hid) _) (hdb id (hdone id hid) _)
  completing := h.completing

theorem mem_stale {now : ℤ} {id : Uuid} (h : id ∈ s.stale now) : s.db.HasStatus id .processing := by
  obtain ⟨row, hrow, rfl⟩ := List.mem_map.mp h
  obtain ⟨hmem, hstale⟩ := List.mem_filter.mp hrow
  exact ⟨row, hmem, rfl, (of_decide_eq_true hstale).1⟩

theorem mem_idsOf_of_sending {w : W} {id : Uuid} (h : id ∈ (s.sending w).map (·.id)) :
    id ∈ idsOf (s.tasks w) ∧ ∃ t ∈ s.tasks w, id ∈ t.ids ∧ ¬t.IsCompletion := by
  unfold sending at h
  split at h
  next claimed rest htasks =>
    rw [htasks, idsOf_cons]
    exact ⟨List.mem_append_left _ h, .send claimed, List.mem_cons_self, h, fun hcomp => hcomp⟩
  · cases h

theorem Secured.start (hidle : ∀ w, s.tasks w = [])
    (hdone : ∀ id ∈ done, s.db.HasStatus id .processing ∨ s.db.HasStatus id .completed) :
    s.Secured done where
  processing w id hid := by simp [hidle w] at hid
  nodup w := by simp [hidle w]
  disjoint v w _ id hid := by simp [hidle v] at hid
  safe := hdone
  completing w t ht := by simp [hidle w] at ht

variable [DecidableEq W]

theorem Secured.restart (h : s.Secured done) (w : W) {fresh : List Uuid}
    (hfresh : ∀ id ∈ fresh, id ∈ idsOf (s.tasks w)) (landed reported : List Uuid) :
    Secured (fresh ++ done) ⟨s.db, Function.update s.tasks w [], landed, reported⟩ := by
  have hsub : ∀ v, (Function.update s.tasks w [] v).Sublist (s.tasks v) :=
    (Function.forall_update_iff s.tasks fun v tasks => tasks.Sublist (s.tasks v)).mpr
      ⟨List.nil_sublist _, fun _ _ => .refl _⟩
  have hids : ∀ v, (idsOf (Function.update s.tasks w [] v)).Sublist (idsOf (s.tasks v)) :=
    fun v => (hsub v).flatMap _
  constructor
  · exact fun v id hid => h.processing v id ((hids v).subset hid)
  · exact fun v => (hids v).nodup (h.nodup v)
  · exact fun v u hne id hid hid' =>
      h.disjoint v u hne id ((hids v).subset hid) ((hids u).subset hid')
  · intro id hid
    rcases List.mem_append.mp hid with hid | hid
    · exact .inl (h.processing w id (hfresh id hid))
    · exact h.safe id hid
  · intro v t ht id hid hmem
    rcases List.mem_append.mp hmem with hmem | hmem
    · by_cases hv : v = w
      · subst hv
        simp at ht
      · exact absurd (hfresh id hmem)
          (h.disjoint v w hv id ((hids v).subset (mem_idsOf ht hid)))
    · exact h.completing v t ((hsub v).subset ht) id hid hmem

theorem idsOf_update (tasks : W → List Task) (w v : W) (new : List Task) :
    idsOf (Function.update tasks w new v) = if v = w then idsOf new else idsOf (tasks v) := by
  by_cases hv : v = w
  · subst hv
    simp
  · rw [Function.update_of_ne hv, if_neg hv]

theorem Secured.claim (h : s.Secured done) (w : W) (ids : List Uuid) (now : ℤ) :
    let claim := s.db.claimSettlementsForProcessing ids now
    Secured done { s with
      db := claim.1, tasks := Function.update s.tasks w (unlessEmpty .checkPlacement claim.2) } := by
  intro claim
  obtain ⟨hnodup, hclaimed⟩ := s.db.claim_spec ids now
  have hkeeps : KeepsOutside (claim.2.map (·.id)) s.db claim.1 := Database.claim_keepsOutside ids now
  have hpending : ∀ id ∈ claim.2.map (·.id), s.db.HasStatus id .pending := by
    intro id hid
    obtain ⟨row, hrow, rfl⟩ := List.mem_map.mp hid
    exact (hclaimed row hrow).1
  have hnew : idsOf (unlessEmpty .checkPlacement claim.2) = claim.2.map (·.id) :=
    idsOf_unlessEmpty _ fun _ => rfl
  have hheld : ∀ v, ∀ id ∈ idsOf (s.tasks v), id ∉ claim.2.map (·.id) := fun v id hid hmem =>
    h.not_status hid (by decide) (hpending id hmem)
  have hdone : ∀ id ∈ done, id ∉ claim.2.map (·.id) := by
    intro id hid hmem
    rcases h.safe id hid with hx | hx
    · cases hx.unique (hpending id hmem)
    · cases hx.unique (hpending id hmem)
  constructor
  · intro v id hid
    rw [idsOf_update, hnew] at hid
    split_ifs at hid
    · obtain ⟨row, hrow, rfl⟩ := List.mem_map.mp hid
      exact (hclaimed row hrow).2
    · exact hkeeps id (hheld v id hid) _ (h.processing v id hid)
  · intro v
    rw [idsOf_update, hnew]
    split_ifs
    · exact hnodup
    · exact h.nodup v
  · intro v u hne id hid hid'
    rw [idsOf_update, hnew] at hid hid'
    split_ifs at hid hid' with hv hu hu
    · exact hne (hv.trans hu.symm)
    · exact hheld u id hid' hid
    · exact hheld v id hid hid'
    · exact h.disjoint v u hne id hid hid'
  · exact fun id hid => (h.safe id hid).imp (hkeeps id (hdone id hid) _) (hkeeps id (hdone id hid) _)
  · intro v t ht id hid hmem
    have hids := mem_idsOf ht hid
    rw [idsOf_update, hnew] at hids
    split_ifs at hids with hv
    · exact absurd hids (hdone id hmem)
    · dsimp only at ht
      rw [Function.update_of_ne hv] at ht
      exact h.completing v t ht id hid hmem

/-- The settlements of a worker's next task are its own: no other task of the worker and no
other worker has one of them. -/
structure Owns (s : SettlementState W) (w : W) (t : Task) (rest : List Task) : Prop where
  ids : t.ids.Nodup
  others : (idsOf rest).Nodup
  disjoint : ∀ x ∈ t.ids, ∀ y ∈ idsOf rest, x ≠ y
  mine : ∀ id ∈ t.ids, id ∈ idsOf (s.tasks w)
  theirs : ∀ v, v ≠ w → ∀ id ∈ idsOf (s.tasks v), id ∉ t.ids

omit [DecidableEq W] in
theorem Secured.owns (h : s.Secured done) {w : W} {t : Task} {rest : List Task}
    (htasks : s.tasks w = t :: rest) : s.Owns w t rest := by
  have hheld : idsOf (s.tasks w) = t.ids ++ idsOf rest := by rw [htasks, idsOf_cons]
  have hmine : ∀ id ∈ t.ids, id ∈ idsOf (s.tasks w) := fun id hid =>
    hheld ▸ List.mem_append_left _ hid
  have hnodup := h.nodup w
  rw [hheld, List.nodup_append] at hnodup
  obtain ⟨hids, hrest, hdisjoint⟩ := hnodup
  exact ⟨hids, hrest, hdisjoint, hmine, fun v hv id hid hid' => h.disjoint v w hv id hid (hmine id hid')⟩

section Run

variable {w : W} {t : Task} {rest : List Task} {out : Outcome} {fresh : List Uuid}

omit [DecidableEq W] in
/-- A task writes to what is done only to complete it. -/
theorem Secured.run_safe (h : s.Secured done) (htasks : s.tasks w = t :: rest)
    (heffect : t.Effect s.db out) (hfresh : fresh ⊆ out.reported) :
    ∀ id ∈ fresh ++ done, out.db.HasStatus id .processing ∨ out.db.HasStatus id .completed := by
  have howns := h.owns htasks
  intro id hid
  rcases List.mem_append.mp hid with hid | hid
  · obtain ⟨hmine, t', ht', _⟩ := heffect.returned (hfresh hid)
    rcases heffect.quiet_or_last with hdb | ⟨hnil, _⟩
    · rw [hdb]
      exact .inl (h.processing w id (howns.mine id hmine))
    · rw [hnil] at ht'
      cases ht'
  · rcases heffect.quiet_or_last with hdb | ⟨_, _, hkeeps, hcompletes⟩
    · rw [hdb]
      exact h.safe id hid
    · by_cases hmem : id ∈ t.ids
      · have hcomp := h.completing w t (htasks ▸ List.mem_cons_self) id hmem hid
        exact .inr (hcompletes hcomp id hmem (h.processing w id (howns.mine id hmem)))
      · exact (h.safe id hid).imp (hkeeps id hmem _) (hkeeps id hmem _)

/-- The tasks about what is done are completions, those that the task leaves among them. -/
theorem Secured.run_completing (h : s.Secured done) (htasks : s.tasks w = t :: rest)
    (heffect : t.Effect s.db out) (hfresh : fresh ⊆ out.reported) :
    ∀ v, ∀ t' ∈ Function.update s.tasks w (out.tasks ++ rest) v, ∀ id ∈ t'.ids,
      id ∈ fresh ++ done → t'.IsCompletion := by
  have howns := h.owns htasks
  refine (Function.forall_update_iff s.tasks fun _ tasks => ∀ t' ∈ tasks, ∀ id ∈ t'.ids,
    id ∈ fresh ++ done → t'.IsCompletion).mpr ⟨fun t' ht' id hid hmem => ?_, fun v hv t' ht' id hid hmem => ?_⟩
  · rcases List.mem_append.mp ht' with hout | hrest
    · rcases List.mem_append.mp hmem with hmem | hmem
      · obtain ⟨_, t'', ht'', hcomp, hid''⟩ := heffect.returned (hfresh hmem)
        rwa [eq_of_mem_ids (heffect.handsOn.nodup howns.ids) hout ht'' hid hid'']
      · have hmine : id ∈ t.ids := heffect.handsOn.subset (mem_idsOf hout hid)
        exact heffect.completing
          (h.completing w t (htasks ▸ List.mem_cons_self) id hmine hmem) t' hout
    · rcases List.mem_append.mp hmem with hmem | hmem
      · exact absurd rfl (howns.disjoint id (heffect.returned (hfresh hmem)).1 id (mem_idsOf hrest hid))
      · exact h.completing w t' (htasks ▸ List.mem_cons_of_mem _ hrest) id hid hmem
  · rcases List.mem_append.mp hmem with hmem | hmem
    · exact absurd (heffect.returned (hfresh hmem)).1 (howns.theirs v hv id (mem_idsOf ht' hid))
    · exact h.completing v t' ht' id hid hmem

/-- A worker does its first task. What the task returned is from then on done. -/
theorem Secured.run (h : s.Secured done) (htasks : s.tasks w = t :: rest) (heffect : t.Effect s.db out)
    (hfresh : fresh ⊆ out.reported) (landed reported : List Uuid) :
    Secured (fresh ++ done)
      ⟨out.db, Function.update s.tasks w (out.tasks ++ rest), landed, reported⟩ := by
  have howns := h.owns htasks
  have hheld : idsOf (s.tasks w) = t.ids ++ idsOf rest := by rw [htasks, idsOf_cons]
  have hnew : ∀ v, idsOf (Function.update s.tasks w (out.tasks ++ rest) v) =
      if v = w then idsOf out.tasks ++ idsOf rest else idsOf (s.tasks v) := fun v => by
    rw [idsOf_update, idsOf_append]
  have hsub : ∀ v, idsOf (Function.update s.tasks w (out.tasks ++ rest) v) ⊆ idsOf (s.tasks v) := by
    intro v id hid
    rw [hnew] at hid
    split_ifs at hid with hv
    · rw [hv, hheld]
      exact (List.append_subset.mpr ⟨List.subset_append_of_subset_left _ heffect.handsOn.subset,
        List.subset_append_right _ _⟩) hid
    · exact hid
  refine ⟨fun v id hid => ?_, fun v => ?_,
    fun v u hne id hid hid' => h.disjoint v u hne id (hsub v hid) (hsub u hid'),
    h.run_safe htasks heffect hfresh, h.run_completing htasks heffect hfresh⟩
  · have hbefore := h.processing v id (hsub v hid)
    rcases heffect.quiet_or_last with hdb | ⟨hnil, _, hkeeps, _⟩
    · rw [hdb]
      exact hbefore
    · refine hkeeps id ?_ _ hbefore
      rw [hnew, hnil, idsOf_nil, List.nil_append] at hid
      split_ifs at hid with hv
      · exact fun hid' => howns.disjoint id hid' id hid rfl
      · exact howns.theirs v hv id hid
  · rw [hnew]
    split_ifs
    · rw [List.nodup_append]
      exact ⟨heffect.handsOn.nodup howns.ids, howns.others,
        fun x hx y hy => howns.disjoint x (heffect.handsOn.subset hx) y hy⟩
    · exact h.nodup v

omit [DecidableEq W] in
theorem Secured.effect (h : s.Secured done) (htasks : s.tasks w = t :: rest) {now : ℤ} {answer : Answer}
    (hrun : t.run s.db now answer = some out) : t.Effect s.db out :=
  Task.effect_of_run (h.owns htasks).ids hrun

end Run

/-- No step of a secured system takes back a completion. -/
theorem Secured.completed (h : s.Secured done) {a : SettlementAction W} {s' : SettlementState W}
    (hmove : s.Move a s') {id : Uuid} (hid : s.db.HasStatus id .completed) :
    s'.db.HasStatus id .completed := by
  cases hmove with
  | other _ hrows => exact Database.keepsOutside_of_rows [] hrows id List.not_mem_nil _ hid
  | claim w ids now hidle =>
    refine Database.claim_keepsOutside ids now id (fun hmem => ?_) _ hid
    obtain ⟨row, hrow, rfl⟩ := List.mem_map.mp hmem
    cases hid.unique ((s.db.claim_spec ids now).2 row hrow).1
  | reclaim now =>
    refine Database.reclaim_keepsOutside _ _ now id (fun hmem => ?_) _ hid
    cases hid.unique (mem_stale hmem)
  | @run w now answer task rest out htasks hrun =>
    rcases (h.effect htasks hrun).quiet_or_last with hdb | ⟨_, _, hkeeps, _⟩
    · exact hdb ▸ hid
    · refine hkeeps id (fun hmem => ?_) _ hid
      exact h.not_status ((h.owns htasks).mine id hmem) (by decide) hid
  | restart w hlanded => exact hid

end Steps

section Reported

variable [DecidableEq W] {s : SettlementState W}

/-- A reclaim takes only settlements that no worker holds and for which no gateway call
has returned a transaction. -/
def ReclaimsUnreported (s : SettlementState W) : SettlementAction W → Prop
  | .reclaim now => ∀ id ∈ s.stale now, id ∉ s.reported ∧ ∀ w, id ∉ s.held w
  | _ => True

/-- No settlement for which a transaction was returned is handed to the gateway. -/
def SendsUnreported (s : SettlementState W) : SettlementAction W → Prop
  | .run w _ _ => ∀ row ∈ s.sending w, row.id ∉ s.reported
  | _ => True

instance [Fintype W] (s : SettlementState W) (a : SettlementAction W) :
    Decidable (s.ReclaimsUnreported a) := by
  unfold ReclaimsUnreported
  split <;> infer_instance

instance (s : SettlementState W) (a : SettlementAction W) : Decidable (s.SendsUnreported a) := by
  unfold SendsUnreported
  split <;> infer_instance

theorem Secured.reported {a : SettlementAction W} {s' : SettlementState W}
    (h : s.Secured s.reported) (hreclaim : s.ReclaimsUnreported a) (hmove : s.Move a s') :
    s'.Secured s'.reported := by
  cases hmove with
  | other _ hrows =>
    exact h.db (Database.keepsOutside_of_rows [] hrows) (by simp) (by simp)
  | claim w ids now hidle => exact h.claim w ids now
  | reclaim now =>
    exact h.db (Database.reclaim_keepsOutside _ _ now)
      (fun w id hid hmem => (hreclaim id hmem).2 w hid) fun id hid hmem => (hreclaim id hmem).1 hid
  | run htasks hrun => exact h.run htasks (h.effect htasks hrun) (List.Subset.refl _) _ _
  | restart w hlanded => exact h.restart w (List.forall_mem_nil _) _ _

/-- In every run whose reclaims keep away from reported settlements, a settlement is
not sent again once a transaction was returned for it. -/
theorem reported_never_resent (s₀ : SettlementState W) (hidle : ∀ w, s₀.tasks w = [])
    (hreported : ∀ id ∈ s₀.reported, s₀.db.HasStatus id .completed)
    (as : List (SettlementAction W)) (has : Runs.AllSteps step ReclaimsUnreported s₀ as) :
    Runs.AllSteps step SendsUnreported s₀ as := by
  apply Runs.AllSteps.of_invariant (I := fun s => s.Secured s.reported) _
    (.start hidle fun id hid => .inr (hreported id hid)) has
  intro s a s' h hreclaim hstep
  refine ⟨?_, h.reported hreclaim (move_of_step hstep)⟩
  cases a with
  | run w now answer =>
    intro row hrow hmem
    obtain ⟨_, t, ht, hid, hcomp⟩ := mem_idsOf_of_sending (List.mem_map_of_mem hrow)
    exact hcomp (h.completing w t ht row.id hid hmem)
  | _ => trivial

def twoPending : SettlementState Unit := ⟨Surroundings.placedPair, fun _ => [], [], []⟩

def replayRefused : Surroundings :=
  { Surroundings.calm false with chunk := fun _ => .refused "InstructionError" }

/-- A settlement lands and is returned, the writes after it are answered as given, and a
long time later stale settlements are reclaimed. -/
def settledRun (writes : List Answer) : List (SettlementAction Unit) :=
  [.claim () [10] 0, .run () 0 .done, .run () 0 .done, .run () 0 (.called (.calm false))] ++
    writes.map (.run () 0 ·) ++ [.reclaim 1000000000000]

theorem reported_never_resent_completed :
    Runs.AllSteps step SendsUnreported twoPending (settledRun [.done]) :=
  reported_never_resent twoPending (fun _ => rfl) (by simp [twoPending]) (settledRun [.done])
    (by decide +kernel)

/-- Both writes fail, and the reclaimed settlement is sent again. -/
theorem lost_writes_resend :
    ¬Runs.AllSteps step SendsUnreported twoPending (settledRun [.failed, .failed] ++
      [.claim () [10] 1000000000000, .run () 1000000000000 .done, .run () 1000000000000 .done,
        .run () 1000000000000 (.called replayRefused)]) := by
  decide +kernel

end Reported

section Landed

variable [DecidableEq W] {s : SettlementState W}

/-- A reclaim takes only settlements that no worker holds and whose swap has not taken
place, and a gateway call returns a transaction for whatever it lands. -/
def LandsInSight (s : SettlementState W) : SettlementAction W → Prop
  | .reclaim now => ∀ id ∈ s.stale now, id ∉ s.landed ∧ ∀ w, id ∉ s.held w
  | .run w _ (.called env) => env.ReportsLanded s.db (s.sending w)
  | _ => True

def NotWrittenOff (s : SettlementState W) : Prop :=
  ∀ row ∈ s.db.settlements.rows, row.id ∈ s.landed → row.status ≠ .permanentlyFailed

def KeepsCompleted (s : SettlementState W) (a : SettlementAction W) : Prop :=
  ∀ s' ∈ s.step a, ∀ row ∈ s.db.settlements.rows, row.status = .completed →
    s'.db.HasStatus row.id .completed

instance [Fintype W] (s : SettlementState W) (a : SettlementAction W) :
    Decidable (s.LandsInSight a) := by
  unfold LandsInSight
  split <;> infer_instance

instance (s : SettlementState W) : Decidable s.NotWrittenOff :=
  inferInstanceAs (Decidable (∀ row ∈ s.db.settlements.rows, _))

omit [DecidableEq W] in
theorem Secured.notWrittenOff (h : s.Secured s.landed) : s.NotWrittenOff := by
  intro row hrow hlanded hfailed
  have hstatus : s.db.HasStatus row.id .permanentlyFailed := ⟨row, hrow, rfl, hfailed⟩
  rcases h.safe row.id hlanded with hx | hx
  · cases hx.unique hstatus
  · cases hx.unique hstatus

omit [DecidableEq W] in
theorem landed_subset_reported {w : W} {now : ℤ} {answer : Answer} {task : Task} {rest : List Task}
    {out : Outcome} (hsight : s.LandsInSight (.run w now answer)) (htasks : s.tasks w = task :: rest)
    (hrun : task.run s.db now answer = some out) : out.landed ⊆ out.reported := by
  unfold Task.run at hrun
  split at hrun
  case h_5 claimed env =>
    have hreports : env.ReportsLanded s.db claimed := by
      simpa [LandsInSight, sending, htasks] using hsight
    intro id hid
    cases hresult : env.executeBatchedSettlements s.db claimed with
    | error reason =>
      simp only [hresult, Option.some.injEq] at hrun
      subst hrun
      obtain ⟨txs, htxs, _⟩ := hreports.reported hid
      rw [hresult] at htxs
      cases htxs
    | ok txs =>
      simp only [hresult, Option.some.injEq] at hrun
      subst hrun
      obtain ⟨txs', htxs, hmem⟩ := hreports.reported hid
      rw [hresult] at htxs
      obtain rfl := Except.ok.inj htxs
      exact hmem
  all_goals
    first
    | obtain rfl := Option.some.inj hrun
      exact List.nil_subset _
    | cases hrun

theorem Secured.landed {a : SettlementAction W} {s' : SettlementState W} (h : s.Secured s.landed)
    (hsight : s.LandsInSight a) (hmove : s.Move a s') : s'.Secured s'.landed := by
  cases hmove with
  | other _ hrows =>
    exact h.db (Database.keepsOutside_of_rows [] hrows) (by simp) (by simp)
  | claim w ids now hidle => exact h.claim w ids now
  | reclaim now =>
    exact h.db (Database.reclaim_keepsOutside _ _ now)
      (fun w id hid hmem => (hsight id hmem).2 w hid) fun id hid hmem => (hsight id hmem).1 hid
  | run htasks hrun =>
    exact h.run htasks (h.effect htasks hrun) (landed_subset_reported hsight htasks hrun) _ _
  | restart w hlanded =>
    exact h.restart w (fun id hid => (mem_idsOf_of_sending (hlanded id hid)).1) _ _

/-- In every run whose gateway calls return what they land and whose reclaims keep away
from landed settlements, no landed settlement is written off and no completed one
changes its status. -/
theorem landed_never_written_off (s₀ : SettlementState W) (hidle : ∀ w, s₀.tasks w = [])
    (hlanded : ∀ id ∈ s₀.landed, s₀.db.HasStatus id .completed)
    (as : List (SettlementAction W)) (has : Runs.AllSteps step LandsInSight s₀ as) :
    Runs.AllStates step NotWrittenOff s₀ as ∧ Runs.AllSteps step KeepsCompleted s₀ as := by
  have hstart : s₀.Secured s₀.landed := .start hidle fun id hid => .inr (hlanded id hid)
  constructor
  · have hinv : Runs.AllStates step (fun s : SettlementState W => s.Secured s.landed) s₀ as := by
      apply Runs.AllStates.of_allSteps (I := fun s => s.Secured s.landed) (C := LandsInSight) _
        hstart has
      exact fun s a s' h hsight hstep => h.landed hsight (move_of_step hstep)
    exact hinv.mono fun _ h => h.notWrittenOff
  · apply Runs.AllSteps.of_invariant (I := fun s => s.Secured s.landed) _ hstart has
    intro s a s' h hsight hstep
    refine ⟨fun s'' hs'' row hrow hstatus => ?_, h.landed hsight (move_of_step hstep)⟩
    exact h.completed (move_of_step hs'') ⟨row, hrow, rfl, hstatus⟩

theorem landed_never_written_off_completed :
    Runs.AllStates step NotWrittenOff twoPending (settledRun [.done]) ∧
      Runs.AllSteps step KeepsCompleted twoPending (settledRun [.done]) :=
  landed_never_written_off twoPending (fun _ => rfl) (by simp [twoPending]) (settledRun [.done])
    (by decide +kernel)

/-- The first chunk lands and the second is refused. The settlement of the first is then
sent alone, refused as a replay and parked. -/
def isolationRun : List (SettlementAction Unit) :=
  [.claim () [10, 11] 0, .run () 0 .done, .run () 0 .done,
    .run () 0 (.called Surroundings.secondChunkRefused),
    .run () 0 .done, .run () 0 .done, .run () 0 (.called replayRefused), .run () 0 .done]

theorem isolation_writes_off_landed :
    ¬(Runs.AllStates step NotWrittenOff twoPending isolationRun ∧
      Runs.AllSteps step KeepsCompleted twoPending isolationRun) := by
  refine fun h => absurd h.1 ?_
  decide +kernel

end Landed

end SettlementState

end TradingService
