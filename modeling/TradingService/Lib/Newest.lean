import Mathlib.Data.List.Induction
import Mathlib.Order.Lattice

/-!
# The newest of a list

A register that takes a write unless it is older than the one that it holds. After a list
of writes it holds the newest, and of writes with one stamp the last.
-/

namespace Newest

variable {α S : Type*} [LinearOrder S] (stamp : α → S)

def take (held : Option α) (a : α) : Option α :=
  match held with
  | none => some a
  | some b => if stamp b ≤ stamp a then some a else some b

def newest (l : List α) : Option α := l.foldl (take stamp) none

variable {stamp}

theorem newest_snoc (l : List α) (a : α) :
    newest stamp (l ++ [a]) = take stamp (newest stamp l) a := by
  rw [newest, List.foldl_append]
  rfl

theorem take_of_le {held : Option α} {a : α} (h : ∀ b ∈ held, stamp b ≤ stamp a) :
    take stamp held a = some a := by
  cases held with
  | none => rfl
  | some b => exact if_pos (h b rfl)

theorem take_of_lt {a b : α} (h : stamp a < stamp b) : take stamp (some b) a = some b :=
  if_neg (not_le.mpr h)

theorem eq_nil_of_newest {l : List α} (h : newest stamp l = none) : l = [] := by
  cases l using List.reverseRecOn with
  | nil => rfl
  | append_singleton l a =>
    rw [newest_snoc] at h
    unfold take at h
    split at h
    · cases h
    · split_ifs at h

/-- The newest write, with the older ones before and behind it. -/
theorem newest_eq_some {l : List α} {a : α} (h : newest stamp l = some a) :
    ∃ before after, l = before ++ a :: after ∧ (∀ b ∈ before, stamp b ≤ stamp a) ∧
      ∀ b ∈ after, stamp b < stamp a := by
  induction l using List.reverseRecOn generalizing a with
  | nil => cases h
  | append_singleton l c ih =>
    rw [newest_snoc] at h
    cases hheld : newest stamp l with
    | none =>
      rw [hheld] at h
      obtain rfl := Option.some.inj h
      obtain rfl := eq_nil_of_newest hheld
      exact ⟨[], [], rfl, nofun, nofun⟩
    | some b =>
      obtain ⟨before, after, rfl, hbefore, hafter⟩ := ih hheld
      rw [hheld] at h
      by_cases hle : stamp b ≤ stamp c
      · rw [take, if_pos hle] at h
        obtain rfl := Option.some.inj h
        have hall : ∀ d ∈ before ++ b :: after, stamp d ≤ stamp c := by
          intro d hd
          obtain hd | hd := List.mem_append.mp hd
          · exact (hbefore d hd).trans hle
          · obtain rfl | hd := List.mem_cons.mp hd
            · exact hle
            · exact (hafter d hd).le.trans hle
        exact ⟨before ++ b :: after, [], rfl, hall, nofun⟩
      · rw [take_of_lt (not_le.mp hle)] at h
        obtain rfl := Option.some.inj h
        have hall : ∀ d ∈ after ++ [c], stamp d < stamp b := by
          intro d hd
          obtain hd | hd := List.mem_append.mp hd
          · exact hafter d hd
          · obtain rfl := List.mem_singleton.mp hd
            exact not_le.mp hle
        exact ⟨before, after ++ [c], by simp, hbefore, hall⟩

/-- Writes in the order of their stamps: the last one. -/
theorem newest_eq_getLast? {l : List α} (h : l.Pairwise fun a b => stamp a ≤ stamp b) :
    newest stamp l = l.getLast? := by
  induction l using List.reverseRecOn with
  | nil => rfl
  | append_singleton l a ih =>
    obtain ⟨hl, _, hla⟩ := List.pairwise_append.mp h
    have hheld : ∀ b ∈ newest stamp l, stamp b ≤ stamp a := by
      intro b hb
      rw [ih hl] at hb
      exact hla b (List.mem_of_getLast? hb) a List.mem_cons_self
    rw [newest_snoc, take_of_le hheld, List.getLast?_concat]

end Newest
