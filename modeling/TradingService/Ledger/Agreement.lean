import TradingService.Ledger.Replicas

/-!
# Agreement of fills and matches

A fill is written by the transaction of a trade, which adds the traded amount, and by
the sweep, which writes the engine's own figure. The figure counts every match that
the engine made, so the two agree as long as each of them was written: for an order
of a job under way, the engine's fill is the stored fill and what is pending or was
refused.
-/

namespace TradingService

open Database (Keeps Rewrites Trades)

variable {db db' : Database}

def Phase.nextSweep : Phase → Option FastOrder
  | .writing job => if job.pending = [] then job.sweep.head? else none
  | _ => none

def Phase.refusals : Phase → List MatchResult
  | .writing job => job.refused
  | _ => []

/-- Every fill is the sum of the order's matches. -/
def Database.Agrees (db : Database) : Prop :=
  ∀ o ∈ db.orders.rows, o.filled = db.matchedTotal o.id

namespace State

def LedgerAgrees (s : State Unit) : Prop := s.db.Agrees

/-- An order that is swept while it is live had each match of the cycle written. -/
def SweepsWhole (s : State Unit) : Action Unit → Prop
  | .worker r .sweep => ∀ o ∈ (s.phase r).nextSweep, s.db.Live o.id →
      ∀ m ∈ (s.phase r).refusals, ¬m.names o.id
  | _ => True

instance (db : Database) : Decidable db.Agrees :=
  inferInstanceAs (Decidable (∀ o ∈ db.orders.rows, _))

instance (s : State Unit) : Decidable s.LedgerAgrees := inferInstanceAs (Decidable s.db.Agrees)

instance (s : State Unit) (a : Action Unit) : Decidable (s.SweepsWhole a) := by
  unfold SweepsWhole
  split <;> infer_instance

end State

structure Job.Tracks (db : Database) (job : Job) : Prop where
  amount_mem : ∀ m ∈ job.refused ++ job.pending, m.matchAmount ∈ Numeric.grid
  ne : ∀ m ∈ job.pending, m.buyOrderId ≠ m.sellOrderId
  sweep_ids : (job.sweep.map (·.id)).Nodup
  sweep_mem : ∀ o ∈ job.sweep, ∃ row ∈ db.orders.rows, row.id = o.id ∧
    o.filledAmount = row.filled + tradedAmount (job.refused ++ job.pending) o.id

def Phase.Tracks (db : Database) : Phase → Prop
  | .idle => True
  | .reading _ buys => BuySnapshot db buys ∧
      ∀ b ∈ buys, ∃ o ∈ db.orders.rows, o.id = b.id ∧ o.filled = b.filled
  | .writing job => job.Tracks db

section Statements

theorem Database.Keeps.agrees (h : Keeps db db') (hdb : db.Agrees) : db'.Agrees := by
  intro o' ho'
  rw [Database.matchedTotal_congr h.orderMatches]
  rcases h.exists_of_mem o' ho' with ⟨o, ho, hterms, hfilled⟩ | ⟨hfilled, _, hfresh⟩
  · rw [hfilled, hterms.id]
    exact hdb o ho
  · rw [hfilled, Database.matchedTotal_of_fresh hfresh]

theorem Phase.Tracks.keeps {phase : Phase} (h : phase.Tracks db) (hkeeps : Keeps db db') :
    phase.Tracks db' := by
  cases phase with
  | idle => trivial
  | reading kind buys =>
    refine ⟨h.1.mono hkeeps.extends, fun b hb => ?_⟩
    obtain ⟨o, ho, hid, hfilled⟩ := h.2 b hb
    obtain ⟨o', ho', hterms, hfilled'⟩ := hkeeps.mem o ho
    exact ⟨o', ho', hterms.id.trans hid, hfilled'.trans hfilled⟩
  | writing job =>
    have hjob : job.Tracks db := h
    have hsweep : ∀ o ∈ job.sweep, ∃ row ∈ db'.orders.rows, row.id = o.id ∧
        o.filledAmount = row.filled + tradedAmount (job.refused ++ job.pending) o.id := by
      intro o ho
      obtain ⟨row, hrow, hid, hfilled⟩ := hjob.sweep_mem o ho
      obtain ⟨row', hrow', hterms, hfilled'⟩ := hkeeps.mem row hrow
      exact ⟨row', hrow', hterms.id.trans hid, by rw [hfilled', hfilled]⟩
    exact { hjob with sweep_mem := hsweep }

end Statements

section Steps

variable {job : Job} {m : MatchResult} {rest : List MatchResult}

theorem Job.Decided.tracks {buys sells : List OrderRow} (h : job.Decided buys sells)
    (hids : ((buys ++ sells).map (·.id)).Nodup)
    (hknown : ∀ row ∈ buys ++ sells, ∃ o ∈ db.orders.rows, o.id = row.id ∧ o.filled = row.filled) :
    job.Tracks db where
  amount_mem := by
    rw [h.refused]
    exact h.amount_mem
  ne := h.ne hids
  sweep_ids := h.sweep_ids
  sweep_mem o ho := by
    obtain ⟨row, hrow, hid, _, hfilled⟩ := h.sweep_mem o ho
    obtain ⟨row', hrow', hid', hfilled'⟩ := hknown row hrow
    refine ⟨row', hrow', hid'.trans hid, ?_⟩
    rw [h.refused, List.nil_append, hfilled', hfilled]

theorem Job.Tracks.persisted (h : job.Tracks db) (hpending : job.pending = m :: rest)
    (htrades : Trades db db' m.buyOrderId m.sellOrderId m.matchAmount) :
    Job.Tracks db' { job with pending := rest } := by
  have hne := h.ne m (hpending ▸ List.mem_cons_self)
  have hsub : ∀ m' ∈ job.refused ++ rest, m' ∈ job.refused ++ job.pending := by
    intro m' hm'
    rw [hpending]
    exact (List.sublist_cons_self m rest).append_left job.refused |>.subset hm'
  refine ⟨fun m' hm' => h.amount_mem m' (hsub m' hm'),
    fun m' hm' => h.ne m' (hpending ▸ List.mem_cons_of_mem _ hm'), h.sweep_ids, fun o ho => ?_⟩
  obtain ⟨row, hrow, hid, hfilled⟩ := h.sweep_mem o ho
  obtain ⟨row', hrow', hterms, hfilled'⟩ := (htrades.fills_of_ne hne).mem hrow
  refine ⟨row', hrow', hterms.id.trans hid, ?_⟩
  rw [hid] at hfilled'
  rw [hpending, tradedAmount_append, tradedAmount_cons] at hfilled
  rw [hfilled, hfilled', tradedAmount_append]
  by_cases hnamed : m.names o.id
  · rw [if_pos hnamed, if_pos (show m.buyOrderId = o.id ∨ m.sellOrderId = o.id from hnamed)]
    ring
  · rw [if_neg hnamed, if_neg (show ¬(m.buyOrderId = o.id ∨ m.sellOrderId = o.id) from hnamed)]
    ring

theorem Job.Tracks.givenUp (h : job.Tracks db) (hpending : job.pending = m :: rest) :
    Job.Tracks db (job.giveUp m rest) := by
  have hperm : ((job.giveUp m rest).refused ++ (job.giveUp m rest).pending).Perm
      (job.refused ++ job.pending) := by
    rw [hpending]
    exact List.perm_middle.symm
  refine ⟨fun m' hm' => h.amount_mem m' (hperm.subset hm'),
    fun m' hm' => h.ne m' (hpending ▸ List.mem_cons_of_mem _ hm'), h.sweep_ids, fun o ho => ?_⟩
  obtain ⟨row, hrow, hid, hfilled⟩ := h.sweep_mem o ho
  exact ⟨row, hrow, hid, by rw [hfilled, tradedAmount_perm hperm]⟩

/-- The sweep writes the fill that the order has, if none of its matches was refused. -/
theorem Job.Tracks.swept {o : FastOrder} {others : List FastOrder} (h : job.Tracks db)
    (hpending : job.pending = []) (hsweep : job.sweep = o :: others)
    (hwhole : db.Live o.id → ∀ m ∈ job.refused, ¬m.names o.id)
    (hwritten : cancelIocRemainder db o = some db') (hdb : db.Agrees) :
    db'.Agrees ∧ Job.Tracks db' { job with sweep := others } := by
  have ho : o ∈ job.sweep := hsweep ▸ List.mem_cons_self
  have hothers : ∀ o' ∈ others, o' ∈ job.sweep := fun o' h' => hsweep ▸ List.mem_cons_of_mem _ h'
  have hids : (∀ o' ∈ others, o.id ≠ o'.id) ∧ (others.map (·.id)).Nodup := by
    simpa [hsweep, eq_comm] using h.sweep_ids
  obtain ⟨row, hrow, hid, hfilled⟩ := h.sweep_mem o ho
  have hgrid : o.filledAmount ∈ Numeric.grid := by
    rw [hfilled]
    exact Numeric.grid.add_mem row.filled_mem_grid (tradedAmount_mem h.amount_mem o.id)
  rcases Database.updateFilledAmountWithEvent_eq_some hgrid hwritten with
    ⟨rfl, _⟩ | ⟨hlive, hrw, hmatches⟩
  · exact ⟨hdb, h.amount_mem, h.ne, hids.2, fun o' h' => h.sweep_mem o' (hothers o' h')⟩
  have hsame : o.filledAmount = row.filled := by
    rw [hfilled, hpending, List.append_nil, tradedAmount_of_not_named (hwhole hlive), add_zero]
  refine ⟨fun row' hrow' => ?_, h.amount_mem, h.ne, hids.2, fun o' h' => ?_⟩
  · obtain ⟨row₀, hrow₀, hterms, hfilled₀⟩ := hrw.exists_of_mem hrow'
    rw [hfilled₀, hterms.id, Database.matchedTotal_congr hmatches, ← hdb row₀ hrow₀]
    by_cases hid₀ : row₀.id = o.id
    · obtain rfl := KeyedTable.row_unique hrow₀ hrow (hid₀.trans hid.symm)
      rw [if_pos hid₀, hsame]
    · rw [if_neg hid₀]
  · obtain ⟨row₀, hrow₀, hid₀, hfilled₀⟩ := h.sweep_mem o' (hothers o' h')
    obtain ⟨row', hrow', hterms, hfilled'⟩ := hrw.mem hrow₀
    rw [if_neg (hid₀ ▸ (hids.1 o' h').symm)] at hfilled'
    exact ⟨row', hrow', hterms.id.trans hid₀, by rw [hfilled', hfilled₀]⟩

end Steps

/-- A step of the worker keeps the agreement, if an order that it sweeps had each of
its matches written. -/
theorem Move.agrees {phase phase' : Phase} {a : JobStep} (h : Move db phase a db' phase')
    (hphase : phase.Tracks db) (hdb : db.Agrees)
    (hwhole : a = .sweep → ∀ o ∈ phase.nextSweep, db.Live o.id →
      ∀ m ∈ phase.refusals, ¬m.names o.id) : db'.Agrees ∧ phase'.Tracks db' := by
  cases h with
  | readBuys kind =>
    exact ⟨hdb, .select kind, fun b hb => ⟨b, (select_sublist kind .buy).subset hb, rfl, rfl⟩⟩
  | readSells kind buys topology nowNs =>
    have hids := hphase.1.ids_append kind
    refine ⟨hdb, (kind.decided_run topology nowNs hids).tracks hids ?_⟩
    exact List.forall_mem_append.mpr
      ⟨hphase.2, fun s hs => ⟨s, (select_sublist kind .sell).subset hs, rfl, rfl⟩⟩
  | @persisted job m rest ids rates _ hpending hcommit =>
    have hjob : job.Tracks db := hphase
    have hm : m ∈ job.pending := hpending ▸ List.mem_cons_self
    have htrades := Job.persistMatch_committed
      (hjob.amount_mem m (List.mem_append_right _ hm)) hcommit
    refine ⟨fun o' ho' => ?_, hjob.persisted hpending htrades⟩
    obtain ⟨o, ho, hterms, hfilled⟩ := (htrades.fills_of_ne (hjob.ne m hm)).exists_of_mem ho'
    rw [hfilled, htrades.matchedTotal, hterms.id, hdb o ho]
  | givenUp _ hpending => exact ⟨hdb, Job.Tracks.givenUp hphase hpending⟩
  | @swept job o others _ hpending hsweep hwritten =>
    apply Job.Tracks.swept hphase hpending hsweep _ hwritten hdb
    exact hwhole rfl o (by simp [Phase.nextSweep, hpending, hsweep])
  | stopped => exact ⟨hdb, trivial⟩

theorem State.agrees_step {s s' : State Unit} {a : Action Unit} (hwhole : s.SweepsWhole a)
    (hdb : s.LedgerAgrees) (hphase : (s.phase ()).Tracks s.db) (h : s.step a = some s') :
    s'.LedgerAgrees ∧ (s'.phase ()).Tracks s'.db := by
  cases a with
  | statement st =>
    obtain ⟨db', hexec, rfl⟩ := Option.map_eq_some_iff.mp h
    have hkeeps := Database.exec_keeps hexec
    exact ⟨hkeeps.agrees hdb, hphase.keeps hkeeps⟩
  | worker r b =>
    obtain ⟨⟨db', phase'⟩, hstep, rfl⟩ := Option.map_eq_some_iff.mp h
    obtain ⟨hdb', hphase'⟩ := (Phase.move_of_step hstep).agrees hphase hdb
      fun hb => by subst hb; exact hwhole
    exact ⟨hdb', by simpa using hphase'⟩

/-- Every run of cycles and clearings, one after the other, from a database that
agrees, in which each order that is swept had all its matches written. -/
theorem State.ledger_agrees (db : Database) (hdb : db.Agrees) (as : List (Action Unit))
    (has : Runs.AllSteps State.step State.SweepsWhole (State.start db) as) :
    Runs.AllStates State.step State.LedgerAgrees (State.start db) as := by
  have hinv : Runs.AllStates State.step
      (fun s : State Unit => s.LedgerAgrees ∧ (s.phase ()).Tracks s.db) (State.start db) as := by
    apply Runs.AllStates.of_allSteps (C := State.SweepsWhole) _ ⟨hdb, trivial⟩ has
    rintro s a s' ⟨hagrees, hphase⟩ hwhole hstep
    exact State.agrees_step hwhole hagrees hphase hstep
  exact hinv.mono fun _ h => h.1

/-- An immediate buy of 10 is matched with a sell of 6. The sell is cancelled before
the match is written, and the remainder of the buy is swept. -/
def cancelledCounterpartyRun : List (Action Unit) :=
  [.statement (.insertOrder { OrderRow.placed 1 .buy 10 10 with timeInForce := .ioc }),
    .statement (.insertOrder (.placed 2 .sell 5 6)),
    .worker () (.readBuys .matching),
    .worker () (.readSells (.freeGrid fun _ _ => 100) (BoundedInt.saturate 0)),
    .statement (.cancelOrder 2 2),
    .worker () (.persist ⟨4, 5, 6, 0⟩ ⟨0, 0, 0⟩),
    .worker () .sweep]

/-- Without the cancellation the match is written, and the sweep keeps its fill. -/
theorem State.ledger_agrees_uncancelled :
    Runs.AllStates State.step State.LedgerAgrees (State.start .empty)
      (cancelledCounterpartyRun.eraseIdx 4) :=
  State.ledger_agrees .empty (by decide) (cancelledCounterpartyRun.eraseIdx 4) (by decide +kernel)

/-- The sweep records a fill of 6, and the order has no match. -/
theorem State.swept_refusal_disagrees :
    ¬Runs.AllStates State.step State.LedgerAgrees (State.start .empty) cancelledCounterpartyRun := by
  decide +kernel

end TradingService
