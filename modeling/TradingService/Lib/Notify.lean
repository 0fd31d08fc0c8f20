import Mathlib

/-!
# Wake-ups with one permit

A notification goes to the future that is registered as waiting. Where none waits, it is
stored as a permit, and at most one permit is stored: notifications are merged, and not
lost. A waiting future that is dropped after it was notified passes the notification on.
-/

structure Notify where
  permits : ℕ
  /-- The future that is registered, and whether it has been notified. -/
  waiter : Option Bool
  deriving DecidableEq

namespace Notify

def new : Notify := ⟨0, none⟩

def notifyOne (n : Notify) : Notify :=
  match n.waiter with
  | some false => { n with waiter := some true }
  | _ => { n with permits := max n.permits 1 }

def poll (n : Notify) : Bool × Notify :=
  match n.waiter with
  | some true => (true, { n with waiter := none })
  | some false => (false, n)
  | none =>
    if 0 < n.permits then (true, { n with permits := n.permits - 1 })
    else (false, { n with waiter := some false })

def drop (n : Notify) : Notify :=
  match n.waiter with
  | some true => notifyOne { n with waiter := none }
  | _ => { n with waiter := none }

/-- There is a notification that has not been consumed. -/
def Signalled (n : Notify) : Prop := 0 < n.permits ∨ n.waiter = some true

instance (n : Notify) : Decidable n.Signalled := inferInstanceAs (Decidable (_ ∨ _))

structure Sound (n : Notify) : Prop where
  permits_le : n.permits ≤ 1
  waiting : n.waiter = some false → n.permits = 0

variable {n : Notify}

theorem sound_new : new.Sound := ⟨Nat.zero_le 1, fun _ => rfl⟩

theorem signalled_notifyOne (n : Notify) : n.notifyOne.Signalled := by
  unfold notifyOne Signalled
  split
  · exact .inr rfl
  · exact .inl (lt_max_of_lt_right Nat.one_pos)

theorem Signalled.drop (h : n.Signalled) : n.drop.Signalled := by
  unfold Notify.drop
  split
  · exact signalled_notifyOne _
  next hnot => exact .inl (h.resolve_right fun htrue => hnot htrue)

theorem waiter_drop (n : Notify) : n.drop.waiter = none := by
  unfold drop notifyOne
  split <;> rfl

theorem waiter_notifyOne (h : n.waiter = none) : n.notifyOne.waiter = none := by
  unfold notifyOne
  rw [h]

theorem poll_ready (h : n.poll.1 = true) : n.poll.2.waiter = none := by
  unfold poll at h ⊢
  split at h
  · rfl
  · cases h
  next hwaiter =>
    split_ifs at h ⊢
    exact hwaiter

theorem Sound.not_signalled (hn : n.Sound) (h : n.waiter = some false) : ¬n.Signalled := by
  rintro (hpermit | htrue)
  · exact absurd (hn.waiting h) hpermit.ne'
  · rw [h] at htrue
    cases htrue

/-- A poll completes exactly if there is a notification for it. -/
theorem Sound.poll_iff (hn : n.Sound) : n.poll.1 = true ↔ n.Signalled := by
  unfold poll
  split
  next hwaiter => exact iff_of_true rfl (.inr hwaiter)
  next hwaiter => exact iff_of_false Bool.false_ne_true (hn.not_signalled hwaiter)
  next hwaiter =>
    unfold Signalled
    rw [hwaiter]
    split_ifs with hpermit <;> simp [hpermit]

theorem Sound.notifyOne (hn : n.Sound) : n.notifyOne.Sound := by
  unfold Notify.notifyOne
  split
  · exact ⟨hn.permits_le, fun h => absurd h (by simp)⟩
  next hnot => exact ⟨max_le hn.permits_le le_rfl, fun h => absurd h fun hfalse => hnot hfalse⟩

theorem Sound.poll (hn : n.Sound) : n.poll.2.Sound := by
  unfold Notify.poll
  split
  · exact ⟨hn.permits_le, fun h => by cases h⟩
  · exact hn
  next hwaiter =>
    split_ifs with hpermit
    · exact ⟨(Nat.sub_le _ _).trans hn.permits_le, fun h => by rw [hwaiter] at h; cases h⟩
    · exact ⟨hn.permits_le, fun _ => Nat.eq_zero_of_not_pos hpermit⟩

theorem Sound.drop (hn : n.Sound) : n.drop.Sound := by
  have hnone : Sound { n with waiter := none } := ⟨hn.permits_le, fun h => by cases h⟩
  unfold Notify.drop
  split
  · exact hnone.notifyOne
  · exact hnone

end Notify
