import TradingService.Outbox.Relay

/-!
# Rows that cannot be read

`process_batch` over the table as it is stored, where a payload is a JSON value. The loop
ends at the first payload that is not an event of this version, and this row stays
pending. A call gets past such rows only if they come last, so what they block is decided
by `created_at`.
-/

namespace TradingService

variable {Value : Type}

def OutboxTable.Processed (t : OutboxTable Value) (id : Uuid) : Prop :=
  ∃ row ∈ t.rows, row.id = id ∧ row.status = .processed

namespace OutboxTable

variable {t : OutboxTable Value}

theorem processed_markProcessed {row : OutboxEvent Value} (hrow : row ∈ t.rows) (now : ℤ) :
    (t.markProcessed row.id now).Processed row.id := by
  refine ⟨_, List.mem_map_of_mem hrow, ?_⟩
  rw [if_pos rfl]
  exact ⟨rfl, rfl⟩

theorem Processed.markProcessed {id : Uuid} (h : t.Processed id) (other : Uuid) (now : ℤ) :
    (t.markProcessed other now).Processed id := by
  obtain ⟨row, hrow, hid, hstatus⟩ := h
  refine ⟨_, List.mem_map_of_mem hrow, ?_⟩
  split_ifs
  · exact ⟨hid, rfl⟩
  · exact ⟨hid, hstatus⟩

end OutboxTable

structure Publication where
  reply : Except String Unit
  now : ℤ

structure RelayState (Value : Type) where
  table : OutboxTable Value
  bus : List (Uuid × Event)

namespace RelayState

def record (s : RelayState Value) (id : Uuid) (event : Event) (p : Publication) : RelayState Value :=
  match p.reply with
  | .ok () => ⟨s.table.markProcessed id p.now, s.bus ++ [(id, event)]⟩
  | .error _ => { s with table := s.table.markFailed id p.now }

variable (fromValue : Value → Except String Event)

/-- The loop of `process_batch`. A payload that cannot be read ends the call. -/
def relay : (ℕ → Publication) → List (OutboxEvent Value) → RelayState Value →
    RelayState Value × Except String Unit
  | _, [], s => (s, .ok ())
  | answers, row :: rows, s =>
    match fromValue row.payload with
    | .error e => (s, .error e)
    | .ok event => relay (fun k => answers (k + 1)) rows (s.record row.id event (answers 0))

/-- The rows come in the order `listed`, which is the database's choice among equal times. -/
def processBatch (s : RelayState Value) (listed : List (OutboxEvent Value))
    (answers : ℕ → Publication) : RelayState Value × Except String ℕ :=
  let events := listed.take OutboxWorker.batchSize
  let out := relay fromValue answers events s
  (out.1, out.2.map fun _ => events.length)

structure Call (Value : Type) where
  listed : List (OutboxEvent Value)
  answers : ℕ → Publication

def Call.Accepted (call : Call Value) : Prop := ∀ k, (call.answers k).reply = .ok ()

def Repeats : RelayState Value → List (Call Value) → RelayState Value → Prop
  | s, [], s' => s' = s
  | s, call :: calls, s' => s.table.Lists call.listed ∧
      Repeats (s.processBatch fromValue call.listed call.answers).1 calls s'

def Readable (row : OutboxEvent Value) : Prop := ∃ event, fromValue row.payload = .ok event

instance (row : OutboxEvent Value) : Decidable (Readable fromValue row) :=
  decidable_of_iff ((fromValue row.payload).isOk = true) <| by
    unfold Readable
    cases fromValue row.payload <;> simp [Except.isOk, Except.toBool]

def deliveries : List (OutboxEvent Value) → List (Uuid × Event)
  | [] => []
  | row :: rows =>
    match fromValue row.payload with
    | .error _ => []
    | .ok event => (row.id, event) :: deliveries rows

section Deliveries

variable {fromValue} {rows : List (OutboxEvent Value)}

/-- Where no unreadable row is before a readable one, every readable row is delivered. -/
theorem mem_deliveries (h : rows.Pairwise fun a b => Readable fromValue b → Readable fromValue a)
    {row : OutboxEvent Value} (hrow : row ∈ rows) {event : Event}
    (hevent : fromValue row.payload = .ok event) : (row.id, event) ∈ deliveries fromValue rows := by
  induction rows with
  | nil => cases hrow
  | cons first rows ih =>
    obtain ⟨hfirst, hrest⟩ := List.pairwise_cons.mp h
    unfold deliveries
    rcases List.mem_cons.mp hrow with rfl | hrow
    · rw [hevent]
      exact List.mem_cons_self
    · obtain ⟨event₀, hevent₀⟩ := hfirst row hrow ⟨event, hevent⟩
      rw [hevent₀]
      exact List.mem_cons_of_mem _ (ih hrest hrow)

/-- What is delivered comes before the first unreadable row. -/
theorem deliveries_blocked {bad : OutboxEvent Value} (hbad : ¬Readable fromValue bad)
    (before after : List (OutboxEvent Value)) :
    (deliveries fromValue (before ++ bad :: after)).map Prod.fst ⊆ before.map (·.id) := by
  induction before with
  | nil =>
    rw [List.nil_append, deliveries]
    cases hevent : fromValue bad.payload with
    | error e => exact List.nil_subset _
    | ok event => exact absurd ⟨event, hevent⟩ hbad
  | cons row before ih =>
    rw [List.cons_append]
    unfold deliveries
    split
    · exact List.nil_subset _
    · exact List.cons_subset_cons _ ih

theorem deliveries_append (rows more : List (OutboxEvent Value)) :
    deliveries fromValue rows ⊆ deliveries fromValue (rows ++ more) := by
  induction rows with
  | nil => exact List.nil_subset _
  | cons row rows ih =>
    rw [List.cons_append]
    unfold deliveries
    split
    · exact List.nil_subset _
    · exact List.cons_subset_cons _ ih

theorem deliveries_subset (rows : List (OutboxEvent Value)) :
    (deliveries fromValue rows).map Prod.fst ⊆ rows.map (·.id) := by
  induction rows with
  | nil => exact List.nil_subset _
  | cons row rows ih =>
    unfold deliveries
    split
    · exact List.nil_subset _
    · exact List.cons_subset_cons _ ih

end Deliveries

section Relay

variable {fromValue} {answers : ℕ → Publication} {s : RelayState Value}

theorem record_accepted {p : Publication} (h : p.reply = .ok ()) (id : Uuid) (event : Event) :
    s.record id event p = ⟨s.table.markProcessed id p.now, s.bus ++ [(id, event)]⟩ := by
  unfold record
  rw [h]

theorem relay_accepted (hacc : ∀ k, (answers k).reply = .ok ()) (rows : List (OutboxEvent Value)) :
    (relay fromValue answers rows s).1.bus = s.bus ++ deliveries fromValue rows ∧
      (relay fromValue answers rows s).1.table.pending =
        s.table.pending.filter (·.id ∉ (deliveries fromValue rows).map Prod.fst) := by
  induction rows generalizing answers s with
  | nil => simp [relay, deliveries]
  | cons row rows ih =>
    unfold relay deliveries
    cases hevent : fromValue row.payload with
    | error e => simp
    | ok event =>
      dsimp only
      rw [record_accepted (hacc 0)]
      obtain ⟨hbus, hpending⟩ := @ih (fun k => answers (k + 1))
        ⟨s.table.markProcessed row.id (answers 0).now, s.bus ++ [(row.id, event)]⟩
        fun k => hacc (k + 1)
      refine ⟨by rw [hbus, List.append_assoc]; rfl, ?_⟩
      rw [hpending, OutboxTable.pending_markProcessed, List.filter_filter]
      refine List.filter_congr fun r _ => ?_
      rw [← Bool.decide_and, decide_eq_decide, List.map_cons, List.mem_cons, not_or]
      exact and_comm

theorem processed_relay (hacc : ∀ k, (answers k).reply = .ok ()) {rows : List (OutboxEvent Value)}
    (hrows : ∀ r ∈ rows, s.table.Processed r.id ∨ r ∈ s.table.pending) {id : Uuid}
    (h : s.table.Processed id ∨ id ∈ (deliveries fromValue rows).map Prod.fst) :
    (relay fromValue answers rows s).1.table.Processed id := by
  induction rows generalizing answers s with
  | nil => exact h.resolve_right (List.not_mem_nil)
  | cons row rows ih =>
    unfold relay
    unfold deliveries at h
    cases hevent : fromValue row.payload with
    | error e =>
      rw [hevent] at h
      exact h.resolve_right List.not_mem_nil
    | ok event =>
      rw [hevent] at h
      dsimp only
      rw [record_accepted (hacc 0)]
      have hrow : (s.table.markProcessed row.id (answers 0).now).Processed row.id := by
        rcases hrows row List.mem_cons_self with hprocessed | hpending
        · exact hprocessed.markProcessed _ _
        · exact OutboxTable.processed_markProcessed (List.mem_of_mem_filter hpending) _
      refine ih (fun k => hacc (k + 1)) (fun r hr => ?_) ?_
      · by_cases hid : r.id = row.id
        · rw [hid]
          exact .inl hrow
        · refine (hrows r (List.mem_cons_of_mem _ hr)).imp (fun hr => hr.markProcessed _ _) fun hr => ?_
          rw [OutboxTable.pending_markProcessed]
          exact List.mem_filter.mpr ⟨hr, decide_eq_true hid⟩
      · rcases h with hprocessed | hid
        · exact .inl (hprocessed.markProcessed _ _)
        · rcases List.mem_cons.mp hid with rfl | hid
          · exact .inl hrow
          · exact .inr hid

end Relay

/-- One bad event does not stop the stream: a call publishes and marks each readable row
that it selects, and enough calls publish each readable row that is pending. -/
structure StreamGoesOn (s : RelayState Value) : Prop where
  batch : ∀ call : Call Value, call.Accepted → s.table.Lists call.listed →
    ∀ row ∈ call.listed.take OutboxWorker.batchSize, ∀ event, fromValue row.payload = .ok event →
      (row.id, event) ∈ (s.processBatch fromValue call.listed call.answers).1.bus ∧
        (s.processBatch fromValue call.listed call.answers).1.table.Processed row.id
  eventually : ∃ n, ∀ calls : List (Call Value), n ≤ calls.length → (∀ call ∈ calls, call.Accepted) →
    ∀ s', s.Repeats fromValue calls s' →
      ∀ row ∈ s.table.pending, ∀ event, fromValue row.payload = .ok event → (row.id, event) ∈ s'.bus

/-- Every unreadable row is younger than every readable one. -/
def ReadableFirst (t : OutboxTable Value) : Prop :=
  ∀ bad ∈ t.pending, ¬Readable fromValue bad → ∀ row ∈ t.pending, Readable fromValue row →
    row.createdAt < bad.createdAt

section Onward

variable {fromValue} {s s' : RelayState Value}

theorem ReadableFirst.pairwise {t : OutboxTable Value} (h : ReadableFirst fromValue t)
    {listed : List (OutboxEvent Value)} (hlists : t.Lists listed) :
    listed.Pairwise fun a b => Readable fromValue b → Readable fromValue a := by
  refine hlists.sorted.imp_of_mem fun {a b} ha hb hle hreadable => ?_
  by_contra hbad
  have hlt := h a (hlists.perm.subset ha) hbad b (hlists.perm.subset hb) hreadable
  omega

theorem pending_processBatch {call : Call Value} (hacc : call.Accepted) :
    (s.processBatch fromValue call.listed call.answers).1.table.pending = s.table.pending.filter
      (·.id ∉ (deliveries fromValue (call.listed.take OutboxWorker.batchSize)).map Prod.fst) :=
  (relay_accepted hacc _).2

theorem bus_processBatch {call : Call Value} (hacc : call.Accepted) :
    (s.processBatch fromValue call.listed call.answers).1.bus =
      s.bus ++ deliveries fromValue (call.listed.take OutboxWorker.batchSize) :=
  (relay_accepted hacc _).1

theorem ReadableFirst.mem_deliveries (h : ReadableFirst fromValue s.table) {call : Call Value}
    (hlists : s.table.Lists call.listed) {row : OutboxEvent Value}
    (hrow : row ∈ call.listed.take OutboxWorker.batchSize) {event : Event}
    (hevent : fromValue row.payload = .ok event) :
    (row.id, event) ∈ deliveries fromValue (call.listed.take OutboxWorker.batchSize) :=
  RelayState.mem_deliveries ((h.pairwise hlists).sublist (List.take_sublist _ _)) hrow hevent

theorem bus_repeats {calls : List (Call Value)} (hacc : ∀ call ∈ calls, call.Accepted)
    (hrun : s.Repeats fromValue calls s') : s.bus ⊆ s'.bus := by
  induction calls generalizing s with
  | nil =>
    obtain rfl := hrun
    exact List.Subset.refl _
  | cons call calls ih =>
    obtain ⟨hcall, hcalls⟩ := List.forall_mem_cons.mp hacc
    have hrest := ih hcalls hrun.2
    rw [bus_processBatch hcall] at hrest
    exact fun sent hsent => hrest (List.mem_append_left _ hsent)

variable (fromValue) in
def waiting (s : RelayState Value) : List (OutboxEvent Value) :=
  s.table.pending.filter (Readable fromValue ·)

theorem mem_waiting {row : OutboxEvent Value} :
    row ∈ s.waiting fromValue ↔ row ∈ s.table.pending ∧ Readable fromValue row := by
  simp [waiting]

theorem waiting_processBatch (h : ReadableFirst fromValue s.table) {call : Call Value}
    (hacc : call.Accepted) (hlists : s.table.Lists call.listed) {row : OutboxEvent Value}
    (hrow : row ∈ s.waiting fromValue) :
    ((s.processBatch fromValue call.listed call.answers).1.waiting fromValue).length <
      (s.waiting fromValue).length := by
  obtain ⟨hpending, hreadable⟩ := mem_waiting.mp hrow
  have hlisted : row ∈ call.listed := hlists.perm.symm.subset hpending
  cases hfirst : call.listed with
  | nil =>
    rw [hfirst] at hlisted
    cases hlisted
  | cons first listed =>
    have hmem : first ∈ call.listed.take OutboxWorker.batchSize := by
      rw [hfirst]
      exact List.mem_cons_self
    obtain ⟨event, hevent⟩ : Readable fromValue first := by
      have hpairwise := h.pairwise hlists
      rw [hfirst] at hlisted hpairwise
      rcases List.mem_cons.mp hlisted with rfl | hlater
      · exact hreadable
      · exact (List.pairwise_cons.mp hpairwise).1 row hlater hreadable
    have hdelivered := h.mem_deliveries hlists hmem hevent
    have hwaiting : (s.processBatch fromValue call.listed call.answers).1.waiting fromValue =
        (s.waiting fromValue).filter
          (·.id ∉ (deliveries fromValue (call.listed.take OutboxWorker.batchSize)).map Prod.fst) := by
      unfold waiting
      rw [pending_processBatch hacc, List.filter_filter, List.filter_filter]
      exact List.filter_congr fun r _ => Bool.and_comm _ _
    rw [← hfirst, hwaiting, List.length_filter_lt_length_iff_exists]
    refine ⟨first, mem_waiting.mpr ⟨hlists.perm.subset (List.mem_of_mem_take hmem), event, hevent⟩, ?_⟩
    simpa using ⟨event, hdelivered⟩

theorem ReadableFirst.processBatch (h : ReadableFirst fromValue s.table) {call : Call Value}
    (hacc : call.Accepted) :
    ReadableFirst fromValue (s.processBatch fromValue call.listed call.answers).1.table := by
  intro bad hbad hunreadable row hrow hreadable
  rw [pending_processBatch hacc] at hbad hrow
  exact h bad (List.mem_of_mem_filter hbad) hunreadable row (List.mem_of_mem_filter hrow) hreadable

theorem published_repeats {calls : List (Call Value)} (h : ReadableFirst fromValue s.table)
    (hlength : (s.waiting fromValue).length ≤ calls.length) (hacc : ∀ call ∈ calls, call.Accepted)
    (hrun : s.Repeats fromValue calls s') {row : OutboxEvent Value} (hrow : row ∈ s.table.pending)
    {event : Event} (hevent : fromValue row.payload = .ok event) : (row.id, event) ∈ s'.bus := by
  induction calls generalizing s with
  | nil =>
    have hwaiting : row ∈ s.waiting fromValue := mem_waiting.mpr ⟨hrow, event, hevent⟩
    rw [List.eq_nil_of_length_eq_zero (Nat.le_zero.mp hlength)] at hwaiting
    cases hwaiting
  | cons call calls ih =>
    obtain ⟨hcall, hcalls⟩ := List.forall_mem_cons.mp hacc
    obtain ⟨hlists, hrest⟩ := hrun
    by_cases hselected : row ∈ call.listed.take OutboxWorker.batchSize
    · apply bus_repeats hcalls hrest
      rw [bus_processBatch hcall]
      exact List.mem_append_right _ (h.mem_deliveries hlists hselected hevent)
    · refine ih (h.processBatch hcall) ?_ hcalls hrest ?_
      · have hless := waiting_processBatch h hcall hlists (mem_waiting.mpr ⟨hrow, event, hevent⟩)
        rw [List.length_cons] at hlength
        omega
      · rw [pending_processBatch hcall]
        refine List.mem_filter.mpr ⟨hrow, decide_eq_true fun hdelivered => hselected ?_⟩
        obtain ⟨other, hother, hid⟩ := List.mem_map.mp (deliveries_subset _ hdelivered)
        have hpending := hlists.perm.subset (List.mem_of_mem_take hother)
        rwa [← KeyedTable.row_unique (List.mem_of_mem_filter hpending) (List.mem_of_mem_filter hrow) hid]

theorem streamGoesOn_of_readableFirst (h : ReadableFirst fromValue s.table) :
    StreamGoesOn fromValue s where
  batch call hacc hlists row hrow event hevent := by
    have hdelivered := h.mem_deliveries hlists hrow hevent
    refine ⟨?_, ?_⟩
    · rw [bus_processBatch hacc]
      exact List.mem_append_right _ hdelivered
    · exact processed_relay hacc
        (fun r hr => .inr (hlists.perm.subset (List.mem_of_mem_take hr)))
        (.inr (List.mem_map_of_mem hdelivered))
  eventually := ⟨(s.waiting fromValue).length, fun _ hlength hacc _ hrun _ hrow _ hevent =>
    published_repeats h hlength hacc hrun hrow hevent⟩

end Onward

section Blocked

variable {fromValue}

def unreadableFirst (fromValue : Value → Except String Event) (a b : OutboxEvent Value) : Bool :=
  a.createdAt < b.createdAt ∨
    (a.createdAt = b.createdAt ∧ (Readable fromValue a → Readable fromValue b))

/-- The query can list an unreadable row before a readable one that is not older. -/
theorem lists_unreadableFirst (t : OutboxTable Value) :
    t.Lists (t.pending.mergeSort (unreadableFirst fromValue)) ∧
      (t.pending.mergeSort (unreadableFirst fromValue)).Pairwise fun a b =>
        unreadableFirst fromValue a b = true := by
  have htrans : ∀ a b c, unreadableFirst fromValue a b → unreadableFirst fromValue b c →
      unreadableFirst fromValue a c := by
    intro a b c hab hbc
    simp only [unreadableFirst, decide_eq_true_eq] at hab hbc ⊢
    rcases hab with hab | ⟨hab, hab'⟩ <;> rcases hbc with hbc | ⟨hbc, hbc'⟩
    · exact .inl (hab.trans hbc)
    · exact .inl (hbc ▸ hab)
    · exact .inl (hab ▸ hbc)
    · exact .inr ⟨hab.trans hbc, hbc' ∘ hab'⟩
  have htotal : ∀ a b, unreadableFirst fromValue a b || unreadableFirst fromValue b a := by
    intro a b
    simp only [unreadableFirst, Bool.or_eq_true, decide_eq_true_eq]
    rcases lt_trichotomy a.createdAt b.createdAt with hlt | heq | hgt
    · exact .inl (.inl hlt)
    · by_cases ha : Readable fromValue a
      · exact .inr (.inr ⟨heq.symm, fun _ => ha⟩)
      · exact .inl (.inr ⟨heq, fun h => absurd h ha⟩)
    · exact .inr (.inl hgt)
  have hsorted := List.pairwise_mergeSort htrans htotal t.pending
  refine ⟨⟨List.mergeSort_perm _ _, hsorted.imp fun {a b} hab => ?_⟩, hsorted⟩
  simp only [unreadableFirst, decide_eq_true_eq] at hab
  omega

/-- A readable row behind an unreadable one. -/
structure Blocks (bad row : OutboxEvent Value) (s : RelayState Value) : Prop where
  bad_pending : bad ∈ s.table.pending
  row_pending : row ∈ s.table.pending
  unpublished : row.id ∉ s.bus.map Prod.fst

theorem blocks_processBatch {bad row : OutboxEvent Value} (hbad : ¬Readable fromValue bad)
    (hrow : Readable fromValue row) (hle : bad.createdAt ≤ row.createdAt) {s : RelayState Value}
    (h : Blocks bad row s) : ∃ call : Call Value, call.Accepted ∧ s.table.Lists call.listed ∧
      Blocks bad row (s.processBatch fromValue call.listed call.answers).1 := by
  let call : Call Value := ⟨s.table.pending.mergeSort (unreadableFirst fromValue), fun _ => ⟨.ok (), 0⟩⟩
  have hacc : call.Accepted := fun _ => rfl
  have hlists : s.table.Lists call.listed := (lists_unreadableFirst s.table).1
  have hsorted : call.listed.Pairwise fun a b => unreadableFirst fromValue a b = true :=
    (lists_unreadableFirst s.table).2
  have hnodup : (call.listed.map (·.id)).Nodup :=
    (hlists.perm.map _).nodup_iff.mpr ((List.filter_sublist.map _).nodup s.table.keys_nodup)
  obtain ⟨before, after, hsplit⟩ := List.append_of_mem (hlists.perm.symm.subset h.bad_pending)
  rw [hsplit] at hnodup hsorted
  have hbadId : bad.id ∉ before.map (·.id) := by
    rw [List.map_append, List.map_cons, List.nodup_append] at hnodup
    exact fun hmem => hnodup.2.2 _ hmem _ List.mem_cons_self rfl
  have hrowId : row.id ∉ before.map (·.id) := by
    intro hmem
    obtain ⟨other, hother, hid⟩ := List.mem_map.mp hmem
    have hpending : other ∈ s.table.pending :=
      hlists.perm.subset (by rw [hsplit]; exact List.mem_append_left _ hother)
    obtain rfl := KeyedTable.row_unique (List.mem_of_mem_filter hpending)
      (List.mem_of_mem_filter h.row_pending) hid
    have hfirst := (List.pairwise_append.mp hsorted).2.2 other hother bad List.mem_cons_self
    rcases of_decide_eq_true hfirst with hlt | ⟨_, himp⟩
    · omega
    · exact hbad (himp hrow)
  have hdelivered : ∀ id ∈ (deliveries fromValue (call.listed.take OutboxWorker.batchSize)).map Prod.fst,
      id ∈ before.map (·.id) := by
    intro id hid
    apply deliveries_blocked hbad before after
    rw [← hsplit, ← List.take_append_drop OutboxWorker.batchSize call.listed]
    exact List.map_subset _ (deliveries_append _ _) hid
  refine ⟨call, hacc, hlists, ?_, ?_, ?_⟩
  · rw [pending_processBatch hacc]
    exact List.mem_filter.mpr ⟨h.bad_pending, decide_eq_true fun hid => hbadId (hdelivered _ hid)⟩
  · rw [pending_processBatch hacc]
    exact List.mem_filter.mpr ⟨h.row_pending, decide_eq_true fun hid => hrowId (hdelivered _ hid)⟩
  · rw [bus_processBatch hacc, List.map_append, List.mem_append, not_or]
    exact ⟨h.unpublished, fun hid => hrowId (hdelivered _ hid)⟩

/-- However often `process_batch` is called, the row can be left behind. -/
theorem blocks_repeats {bad row : OutboxEvent Value} (hbad : ¬Readable fromValue bad)
    (hrow : Readable fromValue row) (hle : bad.createdAt ≤ row.createdAt) (n : ℕ) {s : RelayState Value}
    (h : Blocks bad row s) : ∃ calls : List (Call Value), calls.length = n ∧
      (∀ call ∈ calls, call.Accepted) ∧ ∃ s', s.Repeats fromValue calls s' ∧ Blocks bad row s' := by
  induction n generalizing s with
  | zero => exact ⟨[], rfl, by simp, s, rfl, h⟩
  | succ n ih =>
    obtain ⟨call, hacc, hlists, hblocks⟩ := blocks_processBatch hbad hrow hle h
    obtain ⟨calls, hlength, haccs, s', hrun, hblocks'⟩ := ih hblocks
    exact ⟨call :: calls, by rw [List.length_cons, hlength], List.forall_mem_cons.mpr ⟨hacc, haccs⟩,
      s', ⟨hlists, hrun⟩, hblocks'⟩

end Blocked

/-- The stream goes on exactly if what cannot be read is younger than all that can. -/
theorem streamGoesOn_iff (fromValue : Value → Except String Event) (t : OutboxTable Value) :
    StreamGoesOn fromValue ⟨t, []⟩ ↔ ReadableFirst fromValue t := by
  refine ⟨fun h bad hbad hunreadable row hrow hreadable => ?_, fun h => streamGoesOn_of_readableFirst h⟩
  by_contra hle
  obtain ⟨n, hn⟩ := h.eventually
  have hblocks : Blocks bad row ⟨t, []⟩ := ⟨hbad, hrow, List.not_mem_nil⟩
  obtain ⟨calls, hlength, hacc, s', hrun, hblocks'⟩ :=
    blocks_repeats hunreadable hreadable (not_lt.mp hle) n hblocks
  obtain ⟨event, hevent⟩ := hreadable
  exact hblocks'.unpublished
    (List.mem_map_of_mem (hn calls hlength.ge hacc s' hrun row hrow event hevent))

inductive TaggedValue
  | current (event : Event)
  | other (tag : String)

def TaggedValue.read : TaggedValue → Except String Event
  | .current event => .ok event
  | .other tag => .error s!"unknown variant {tag}"

def unknownVariant : OutboxTable TaggedValue where
  rows :=
    [⟨1, .other "OrderExpired", .pending, 0, none, 10⟩,
      ⟨2, .current (.settlementProcessed 7 "sig"), .pending, 0, none, 20⟩]
  keys_nodup := by decide

theorem stream_stops_unknownVariant : ¬StreamGoesOn TaggedValue.read ⟨unknownVariant, []⟩ := by
  intro h
  have hdelivered := (h.batch ⟨unknownVariant.rows, fun _ => ⟨.ok (), 0⟩⟩ (fun _ => rfl)
    ⟨.refl _, by simp [unknownVariant]⟩ _ (List.mem_cons_of_mem _ List.mem_cons_self)
    (.settlementProcessed 7 "sig") rfl).1
  cases hdelivered

end RelayState

def OutboxEvent.store (toValue : Event → Value) (row : OutboxEvent Event) : OutboxEvent Value :=
  ⟨row.id, toValue row.payload, row.status, row.attempts, row.lastAttemptAt, row.createdAt⟩

def OutboxTable.store (toValue : Event → Value) (t : OutboxTable Event) : OutboxTable Value where
  rows := t.rows.map (·.store toValue)
  keys_nodup := by
    rw [List.map_map]
    exact t.keys_nodup

/-- A table that holds only what this version has written never stops the stream. -/
theorem OutboxTable.streamGoesOn_store {toValue : Event → Value}
    {fromValue : Value → Except String Event} (hread : ∀ event, fromValue (toValue event) = .ok event)
    (t : OutboxTable Event) : RelayState.StreamGoesOn fromValue ⟨t.store toValue, []⟩ := by
  refine RelayState.streamGoesOn_of_readableFirst fun bad hbad hunreadable => ?_
  obtain ⟨row, _, rfl⟩ := List.mem_map.mp (List.mem_of_mem_filter hbad)
  exact absurd ⟨row.payload, hread row.payload⟩ hunreadable

end TradingService
