import Mathlib

/-!
# Broadcast rings

The sender of a broadcast ring numbers what it sends by position, and the ring holds the
last `capacity` of it. Each receiver has a position of its own, and starts at the tail. A
receiver whose position is overwritten is told how much it missed, once, and goes on with
the oldest value that is held. `Holds` compares the ring with the log of all that was
sent: a receiver reads the log from its position on, but for what it was told it missed.
-/

structure BroadcastRing (α : Type*) (capacity : ℕ) where
  /-- Oldest first. -/
  held : List α
  tail : ℕ
  length_held : held.length = min tail capacity

namespace BroadcastRing

variable {α : Type*} {capacity : ℕ}

inductive Received (α : Type*)
  | empty
  | value (a : α)
  | lagged (missed : ℕ)

def new : BroadcastRing α capacity := ⟨[], 0, rfl⟩

variable (r : BroadcastRing α capacity)

def oldest : ℕ := r.tail - capacity

def send (a : α) : BroadcastRing α capacity where
  held := (r.held ++ [a]).drop (if r.tail < capacity then 0 else 1)
  tail := r.tail + 1
  length_held := by
    have hlength := r.length_held
    rw [List.length_drop, List.length_append, List.length_singleton]
    split_ifs <;> omega

def recv (position : ℕ) : Received α × ℕ :=
  if position < r.oldest then (.lagged (r.oldest - position), r.oldest)
  else
    match r.held[position - r.oldest]? with
    | some a => (.value a, position + 1)
    | none => (.empty, position)

structure Holds (log : List α) : Prop where
  tail : r.tail = log.length
  held : r.held = log.drop r.oldest

variable {r} {log : List α} {position position' : ℕ} {a : α}

theorem holds_new : (new : BroadcastRing α capacity).Holds [] := ⟨rfl, List.drop_nil.symm⟩

theorem oldest_le_tail : r.oldest ≤ r.tail := Nat.sub_le _ _

theorem Holds.send (h : r.Holds log) (a : α) : (r.send a).Holds (log ++ [a]) where
  tail := by simp [BroadcastRing.send, h.tail]
  held := by
    have holdest : (r.send a).oldest = r.oldest + if r.tail < capacity then 0 else 1 := by
      simp only [oldest, BroadcastRing.send]
      split_ifs <;> omega
    have hle : r.oldest ≤ log.length := h.tail ▸ oldest_le_tail
    rw [holdest, ← List.drop_drop, List.drop_append_of_le_length hle, ← h.held]
    rfl

theorem Holds.getElem?_held (h : r.Holds log) (hle : r.oldest ≤ position) :
    r.held[position - r.oldest]? = log[position]? := by
  conv_lhs => rw [h.held]
  rw [List.getElem?_drop, Nat.add_sub_cancel' hle]

/-- A value that is received is the next one of the log. -/
theorem Holds.drop_of_value (h : r.Holds log) (hrecv : r.recv position = (.value a, position')) :
    position' = position + 1 ∧ log.drop position = a :: log.drop position' := by
  unfold recv at hrecv
  split_ifs at hrecv with hlag
  · cases (Prod.mk.inj hrecv).1
  · rw [h.getElem?_held (not_lt.mp hlag)] at hrecv
    split at hrecv
    · rename_i b hb
      obtain ⟨hvalue, rfl⟩ := Prod.mk.inj hrecv
      obtain rfl := Received.value.inj hvalue
      obtain ⟨hlt, rfl⟩ := List.getElem?_eq_some_iff.mp hb
      exact ⟨rfl, List.drop_eq_getElem_cons hlt⟩
    · cases (Prod.mk.inj hrecv).1

/-- A receiver that lags skips a part of the log. -/
theorem Holds.le_of_lagged (h : r.Holds log) {missed : ℕ}
    (hrecv : r.recv position = (.lagged missed, position')) :
    position < position' ∧ position' ≤ log.length := by
  unfold recv at hrecv
  split_ifs at hrecv with hlag
  · obtain ⟨_, rfl⟩ := Prod.mk.inj hrecv
    exact ⟨hlag, h.tail ▸ oldest_le_tail⟩
  · split at hrecv <;> cases (Prod.mk.inj hrecv).1

end BroadcastRing
