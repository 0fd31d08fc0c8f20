import TradingService.Settlement.Reports
import TradingService.Settlement.Worker

/-!
# What a task does

A task either leaves the database alone and hands its settlements on, or writes their
status and is the last that its worker does with them. What a gateway call returns goes
to a completion each.
-/

namespace TradingService

open Database (HasStatus KeepsOutside)

variable {db : Database} {now : ℤ}

@[simp] theorem idsOf_nil : idsOf [] = [] := rfl

@[simp] theorem idsOf_cons (t : Task) (ts : List Task) : idsOf (t :: ts) = t.ids ++ idsOf ts := rfl

@[simp] theorem idsOf_append (ts ts' : List Task) : idsOf (ts ++ ts') = idsOf ts ++ idsOf ts' :=
  List.flatMap_append

theorem idsOf_map {α : Type} (task : α → Task) (id : α → Uuid) (h : ∀ a, (task a).ids = [id a])
    (as : List α) : idsOf (as.map task) = as.map id := by
  induction as with
  | nil => rfl
  | cons a as ih => rw [List.map_cons, idsOf_cons, h, ih, List.map_cons, List.singleton_append]

theorem mem_idsOf {tasks : List Task} {t : Task} {id : Uuid} (ht : t ∈ tasks) (hid : id ∈ t.ids) :
    id ∈ idsOf tasks := List.mem_flatMap.mpr ⟨t, ht, hid⟩

theorem eq_of_mem_ids {tasks : List Task} (h : (idsOf tasks).Nodup) {t t' : Task} (ht : t ∈ tasks)
    (ht' : t' ∈ tasks) {id : Uuid} (hid : id ∈ t.ids) (hid' : id ∈ t'.ids) : t = t' := by
  induction tasks with
  | nil => cases ht
  | cons t₀ tasks ih =>
    rw [idsOf_cons, List.nodup_append] at h
    obtain ⟨_, htail, hdisjoint⟩ := h
    rcases List.mem_cons.mp ht with rfl | htmem <;> rcases List.mem_cons.mp ht' with rfl | htmem'
    · rfl
    · exact absurd rfl (hdisjoint id hid id (mem_idsOf htmem' hid'))
    · exact absurd rfl (hdisjoint id hid' id (mem_idsOf htmem hid))
    · exact ih htail htmem htmem'

/-- The tasks `new` go on with settlements of `ids`, each with at most one of them. -/
structure HandsOn (ids : List Uuid) (new : List Task) : Prop where
  nodup : ids.Nodup → (idsOf new).Nodup
  subset : idsOf new ⊆ ids

theorem HandsOn.of_perm {ids : List Uuid} {new : List Task} (h : (idsOf new).Perm ids) :
    HandsOn ids new := ⟨fun hids => h.nodup_iff.mpr hids, h.subset⟩

theorem HandsOn.nil (ids : List Uuid) : HandsOn ids [] := ⟨fun _ => List.nodup_nil, by simp⟩

section Batches

variable {claimed : List (Settlement Numeric)}

theorem idsOf_unlessEmpty (task : List (Settlement Numeric) → Task)
    (htask : ∀ c, (task c).ids = c.map (·.id)) : idsOf (unlessEmpty task claimed) = claimed.map (·.id) := by
  unfold unlessEmpty
  cases claimed with
  | nil => rfl
  | cons s rest => simp [htask]

theorem handsOn_preflight (named : List Uuid) (reason : Settlement Numeric → String)
    (next : List (Settlement Numeric) → Task) (hnext : ∀ c, (next c).ids = c.map (·.id)) :
    HandsOn (claimed.map (·.id)) (preflight named reason next claimed) := by
  apply HandsOn.of_perm
  rw [preflight, idsOf_append, idsOf_map _ (·.id) fun _ => rfl, idsOf_unlessEmpty next hnext,
    ← List.map_append]
  simpa using (List.filter_append_perm (fun s : Settlement Numeric => decide (s.id ∈ named)) claimed).map
    Settlement.id

theorem handsOn_afterError (reason : String) :
    HandsOn (claimed.map (·.id)) (afterError claimed reason) := by
  unfold afterError
  split_ifs
  · split
    · exact .of_perm (List.Perm.refl _)
    · apply HandsOn.of_perm
      rw [idsOf_map (fun s => Task.checkPlacement [s]) (·.id) fun _ => rfl]
  · exact .of_perm (by simp [Task.ids])

theorem idsOf_afterResults (claimed : List (Settlement Numeric)) (txs : List SettlementTransaction) :
    idsOf (afterResults claimed txs) = txs.map (·.settlementId) ++
      (claimed.map (·.id)).filter (· ∉ txs.map (·.settlementId)) := by
  rw [afterResults, idsOf_append, idsOf_map _ (·.settlementId) fun _ => rfl]
  congr 1
  split_ifs with hempty
  · exact (List.isEmpty_iff.mp hempty).symm
  · simp [Task.ids]

theorem handsOn_afterResults {txs : List SettlementTransaction}
    (hnodup : (txs.map (·.settlementId)).Nodup)
    (hsub : ∀ id ∈ txs.map (·.settlementId), id ∈ claimed.map (·.id)) :
    HandsOn (claimed.map (·.id)) (afterResults claimed txs) := by
  constructor
  · intro hids
    rw [idsOf_afterResults, List.nodup_append]
    refine ⟨hnodup, hids.filter _, fun x hx y hy hxy => ?_⟩
    have hnot := of_decide_eq_true (List.mem_filter.mp hy).2
    exact hnot (hxy ▸ hx)
  · rw [idsOf_afterResults]
    exact List.append_subset.mpr ⟨hsub, List.filter_subset_self _⟩

end Batches

structure Task.Effect (db : Database) (t : Task) (out : Outcome) : Prop where
  handsOn : HandsOn t.ids out.tasks
  /-- A write is the last task, and a completion completes. -/
  quiet_or_last : out.db = db ∨ (out.tasks = [] ∧ out.reported = [] ∧
    KeepsOutside t.ids db out.db ∧
      (t.IsCompletion → ∀ id ∈ t.ids, db.HasStatus id .processing → out.db.HasStatus id .completed))
  completing : t.IsCompletion → ∀ t' ∈ out.tasks, t'.IsCompletion
  reported : ∀ id ∈ out.reported, ∃ t' ∈ out.tasks, t'.IsCompletion ∧ id ∈ t'.ids
  landed : ∀ id ∈ out.landed, id ∈ t.ids

/-- What is returned is in a completion of its own. -/
theorem Task.Effect.returned {t : Task} {out : Outcome} (h : t.Effect db out) {id : Uuid}
    (hid : id ∈ out.reported) : id ∈ t.ids ∧ ∃ t' ∈ out.tasks, t'.IsCompletion ∧ id ∈ t'.ids := by
  obtain ⟨t', ht', hcomp, hid'⟩ := h.reported id hid
  exact ⟨h.handsOn.subset (mem_idsOf ht' hid'), t', ht', hcomp, hid'⟩

theorem Task.Effect.quiet {t : Task} {new : List Task} (h : HandsOn t.ids new)
    (hcompleting : t.IsCompletion → ∀ t' ∈ new, t'.IsCompletion) : t.Effect db ⟨db, new, [], []⟩ where
  handsOn := h
  quiet_or_last := .inl rfl
  completing := hcompleting
  reported := by simp
  landed := by simp

theorem Task.Effect.write {t : Task} {db' : Database} (h : KeepsOutside t.ids db db')
    (hcompletes : t.IsCompletion → ∀ id ∈ t.ids, db.HasStatus id .processing → db'.HasStatus id .completed) :
    t.Effect db ⟨db', [], [], []⟩ where
  handsOn := .nil _
  quiet_or_last := .inr ⟨rfl, rfl, h, hcompletes⟩
  completing := by simp
  reported := by simp
  landed := by simp

variable (now) in
theorem Task.effect_send {claimed : List (Settlement Numeric)} {env : Surroundings} {out : Outcome}
    (hids : (claimed.map (·.id)).Nodup) (h : (Task.send claimed).run db now (.called env) = some out) :
    (Task.send claimed).Effect db out := by
  have hlanded : ∀ id ∈ env.landed db claimed, id ∈ (Task.send claimed).ids :=
    Surroundings.landed_subset
  simp only [Task.run] at h
  cases hresult : env.executeBatchedSettlements db claimed with
  | error reason =>
    rw [hresult] at h
    obtain rfl := Option.some.inj h
    exact ⟨handsOn_afterError reason, .inl rfl, fun hfalse => hfalse.elim, by simp, hlanded⟩
  | ok txs =>
    rw [hresult] at h
    obtain rfl := Option.some.inj h
    obtain ⟨hnodup, hsub⟩ := Surroundings.executeBatchedSettlements_ids hids hresult
    refine ⟨handsOn_afterResults hnodup hsub, .inl rfl, fun hfalse => hfalse.elim, ?_, hlanded⟩
    intro id hid
    obtain ⟨tx, htx, rfl⟩ := List.mem_map.mp hid
    exact ⟨.complete tx.settlementId tx.signature,
      List.mem_append_left _ (List.mem_map_of_mem htx), trivial, List.mem_singleton_self _⟩

theorem Task.effect_of_run {t : Task} {a : Answer} {out : Outcome} (hids : t.ids.Nodup)
    (h : t.run db now a = some out) : t.Effect db out := by
  unfold Task.run at h
  split at h
  · obtain rfl := Option.some.inj h
    exact .quiet (handsOn_preflight _ _ _ fun _ => rfl) fun hfalse => hfalse.elim
  · obtain rfl := Option.some.inj h
    exact .quiet (.of_perm (by simp [Task.ids])) fun hfalse => hfalse.elim
  · obtain rfl := Option.some.inj h
    exact .quiet (handsOn_preflight _ _ _ fun _ => rfl) fun hfalse => hfalse.elim
  · obtain rfl := Option.some.inj h
    exact .quiet (.of_perm (by simp [Task.ids])) fun hfalse => hfalse.elim
  · exact Task.effect_send now hids h
  · obtain rfl := Option.some.inj h
    exact .write (Database.updateStatus_keepsOutside _ _ _ _ _ _) fun hfalse => hfalse.elim
  · obtain rfl := Option.some.inj h
    refine .write (Database.updateStatus_keepsOutside _ _ _ _ _ _) fun _ id hid hstatus => ?_
    obtain rfl := List.mem_singleton.mp hid
    exact Database.updateStatus_hasStatus hstatus _ _ _ _ _
  · obtain rfl := Option.some.inj h
    exact .quiet (.of_perm (by simp [Task.ids])) fun _ t' ht' => by
      obtain rfl := List.mem_singleton.mp ht'
      trivial
  · obtain rfl := Option.some.inj h
    refine .write (Database.updateStatus_keepsOutside _ _ _ _ _ _) fun _ id hid hstatus => ?_
    obtain rfl := List.mem_singleton.mp hid
    exact Database.updateStatus_hasStatus hstatus _ _ _ _ _
  · obtain rfl := Option.some.inj h
    exact .write (Database.reset_keepsOutside _ _ _ _) fun hfalse => hfalse.elim
  · obtain rfl := Option.some.inj h
    exact .quiet (.nil _) fun _ t' ht' => by cases ht'
  · obtain rfl := Option.some.inj h
    exact .quiet (.nil _) fun _ t' ht' => by cases ht'
  · obtain rfl := Option.some.inj h
    exact .quiet (.nil _) fun _ t' ht' => by cases ht'
  · cases h

end TradingService
