import TradingService.Lib.Precedence

/-!
# Partitioned logs

A log is split into partitions. A consumer reads every partition from its start and in its
order, one message at a time; which partition it turns to next is open. So it keeps the
order of two messages of one partition, and of a message that it had read before the other
came.
-/

/-- How far a consumer has come in each partition, and what it has read. -/
structure LogConsumer (α κ : Type*) where
  position : κ → ℕ
  polled : List α

namespace LogConsumer

variable {α κ : Type*} [DecidableEq κ] (part : α → κ)

def start : LogConsumer α κ := ⟨fun _ => 0, []⟩

def partition (log : List α) (k : κ) : List α := log.filter (part · = k)

def unread (log : List α) (c : LogConsumer α κ) (k : κ) : List α := (partition part log k).drop (c.position k)

def poll (log : List α) (c : LogConsumer α κ) (k : κ) : Option (α × LogConsumer α κ) :=
  (unread part log c k).head?.map fun a =>
    (a, { position := Function.update c.position k (c.position k + 1), polled := c.polled ++ [a] })

structure Consistent (log : List α) (c : LogConsumer α κ) : Prop where
  polled : ∀ k, partition part c.polled k = (partition part log k).take (c.position k)
  position_le : ∀ k, c.position k ≤ (partition part log k).length

/-- The message is in the log, and wherever it stands it has been read. -/
def HasRead (log : List α) (c : LogConsumer α κ) (a : α) : Prop := a ∈ log ∧ a ∉ unread part log c (part a)

instance [DecidableEq α] (log : List α) (c : LogConsumer α κ) (a : α) : Decidable (HasRead part log c a) :=
  inferInstanceAs (Decidable (a ∈ log ∧ a ∉ unread part log c (part a)))

variable {part} {log : List α} {c c' : LogConsumer α κ} {a b : α} {k : κ}

theorem mem_partition : a ∈ partition part log k ↔ a ∈ log ∧ part a = k := by simp [partition]

theorem partition_concat (log : List α) (a : α) (k : κ) :
    partition part (log ++ [a]) k = partition part log k ++ if part a = k then [a] else [] := by
  unfold partition
  rw [List.filter_append]
  by_cases h : part a = k <;> simp [h]

theorem consistent_start (part : α → κ) : Consistent part [] (start : LogConsumer α κ) :=
  ⟨fun _ => rfl, fun _ => le_rfl⟩

theorem Consistent.append (h : Consistent part log c) (a : α) : Consistent part (log ++ [a]) c where
  polled k := by rw [partition_concat, List.take_append_of_le_length (h.position_le k), h.polled k]
  position_le k := by
    rw [partition_concat, List.length_append]
    exact (h.position_le k).trans (Nat.le_add_right _ _)

theorem poll_eq_some (hpoll : poll part log c k = some (a, c')) :
    part a = k ∧ a ∈ unread part log c k ∧ (partition part log k)[c.position k]? = some a ∧
      c' = { position := Function.update c.position k (c.position k + 1), polled := c.polled ++ [a] } := by
  obtain ⟨a', ha, heq⟩ := Option.map_eq_some_iff.mp hpoll
  obtain ⟨rfl, rfl⟩ := Prod.mk.inj heq
  have hmem : a' ∈ unread part log c k := List.mem_of_mem_head? ha
  have hget : (partition part log k)[c.position k]? = some a' := by
    rwa [unread, List.head?_drop] at ha
  exact ⟨(mem_partition.mp (List.mem_of_mem_drop hmem)).2, hmem, hget, rfl⟩

theorem Consistent.poll (h : Consistent part log c) (hpoll : poll part log c k = some (a, c')) :
    Consistent part log c' := by
  obtain ⟨rfl, _, hget, rfl⟩ := poll_eq_some hpoll
  constructor
  · intro k'
    rw [partition_concat, h.polled k']
    by_cases hk : part a = k'
    · subst hk
      simp [List.take_add_one, hget]
    · simp [hk, Function.update_of_ne (Ne.symm hk)]
  · exact (Function.forall_update_iff c.position fun k n => n ≤ (partition part log k).length).mpr
      ⟨(List.getElem?_eq_some_iff.mp hget).1, fun k' _ => h.position_le k'⟩

theorem Consistent.mem_log (h : Consistent part log c) (ha : a ∈ c.polled) : a ∈ log := by
  have hmem : a ∈ partition part c.polled (part a) := mem_partition.mpr ⟨ha, rfl⟩
  rw [h.polled] at hmem
  exact (mem_partition.mp (List.mem_of_mem_take hmem)).1

/-- Two messages of one partition are read in an order in which they stand in the log. -/
theorem Consistent.precedes_log (h : Consistent part log c) (hpart : part a = part b)
    (hab : c.polled.Precedes a b) : log.Precedes a b := by
  have hpolled : (partition part c.polled (part b)).Precedes a b :=
    hab.filter (by simpa using hpart) (by simp)
  rw [h.polled] at hpolled
  exact (hpolled.sublist (List.take_sublist _ _)).sublist List.filter_sublist

/-- What stands only before a message of its partition is read before it. -/
theorem Consistent.mem_polled (h : Consistent part log c) (hpart : part a = part b) (ha : a ∈ log)
    (hb : b ∈ c.polled) (hab : ¬ log.Precedes b a) : a ∈ c.polled := by
  have hb' : b ∈ partition part c.polled (part b) := mem_partition.mpr ⟨hb, rfl⟩
  rw [h.polled] at hb'
  have ha' : a ∈ partition part log (part b) := mem_partition.mpr ⟨ha, hpart⟩
  have htake := List.mem_take_of_not_precedes ha' hb' fun hba => hab (hba.sublist List.filter_sublist)
  rw [← h.polled] at htake
  exact (mem_partition.mp htake).1

theorem Consistent.mem_polled_of_hasRead (h : Consistent part log c) (ha : HasRead part log c a) :
    a ∈ c.polled := by
  have hmem : a ∈ partition part log (part a) := mem_partition.mpr ⟨ha.1, rfl⟩
  rw [← List.take_append_drop (c.position (part a)) (partition part log (part a)), ← h.polled] at hmem
  exact (mem_partition.mp ((List.mem_append.mp hmem).resolve_right ha.2)).1

theorem HasRead.append (h : HasRead part log c a) (hc : Consistent part log c) (hab : b ≠ a) :
    HasRead part (log ++ [b]) c a := by
  refine ⟨List.mem_append_left _ h.1, ?_⟩
  unfold unread
  rw [partition_concat, List.drop_append_of_le_length (hc.position_le _)]
  rintro hmem
  rcases List.mem_append.mp hmem with hmem | hmem
  · exact h.2 hmem
  · split_ifs at hmem
    · exact hab (List.mem_singleton.mp hmem).symm
    · cases hmem

theorem HasRead.poll (h : HasRead part log c a) (hpoll : LogConsumer.poll part log c k = some (b, c')) :
    HasRead part log c' a := by
  obtain ⟨rfl, _, _, rfl⟩ := poll_eq_some hpoll
  refine ⟨h.1, fun hmem => h.2 ?_⟩
  by_cases hk : part a = part b
  · rw [hk] at hmem ⊢
    simp only [unread, Function.update_self, ← List.drop_drop] at hmem
    exact List.mem_of_mem_drop hmem
  · simpa [unread, Function.update_of_ne hk] using hmem

/-- What has been read everywhere is not polled again. -/
theorem HasRead.ne_of_poll (h : HasRead part log c a) (hpoll : LogConsumer.poll part log c k = some (b, c')) :
    b ≠ a := by
  obtain ⟨rfl, hmem, _, _⟩ := poll_eq_some hpoll
  rintro rfl
  exact h.2 hmem

end LogConsumer
