import Mathlib

/-!
# What comes before what in a list

`Precedes l a b` says that `a` stands somewhere before `b` in `l`. An entry may stand in a
list several times; that no `b` precedes an `a` puts all of the one before all of the other.
-/

namespace List

variable {α β : Type*} {l l' : List α} {a b c : α}

def Precedes (l : List α) (a b : α) : Prop := [a, b] <+ l

instance [DecidableEq α] (l : List α) (a b : α) : Decidable (l.Precedes a b) :=
  inferInstanceAs (Decidable ([a, b] <+ l))

theorem Precedes.mem_left (h : l.Precedes a b) : a ∈ l := h.subset (by simp)

theorem Precedes.mem_right (h : l.Precedes a b) : b ∈ l := h.subset (by simp)

theorem Precedes.sublist (h : l.Precedes a b) (hl : l <+ l') : l'.Precedes a b := Sublist.trans h hl

theorem Precedes.filter (h : l.Precedes a b) {p : α → Bool} (ha : p a) (hb : p b) :
    (l.filter p).Precedes a b := by
  have hpair := Sublist.filter p h
  rwa [filter_cons_of_pos ha, filter_cons_of_pos hb, filter_nil] at hpair

theorem Precedes.map (h : l.Precedes a b) (f : α → β) : (l.map f).Precedes (f a) (f b) := Sublist.map f h

theorem precedes_cons : (c :: l).Precedes a b ↔ c = a ∧ b ∈ l ∨ l.Precedes a b := by
  unfold Precedes
  rw [sublist_cons_iff]
  constructor
  · rintro (h | ⟨r, hr, h⟩)
    · exact .inr h
    · obtain ⟨rfl, rfl⟩ := cons.inj hr
      exact .inl ⟨rfl, singleton_sublist.mp h⟩
  · rintro (⟨rfl, h⟩ | h)
    · exact .inr ⟨[b], rfl, singleton_sublist.mpr h⟩
    · exact .inl h

theorem precedes_append_of_mem (ha : a ∈ l) (hb : b ∈ l') : (l ++ l').Precedes a b :=
  (singleton_sublist.mpr ha).append (singleton_sublist.mpr hb)

theorem precedes_concat : (l ++ [c]).Precedes a b ↔ l.Precedes a b ∨ a ∈ l ∧ b = c := by
  induction l with
  | nil => simp [Precedes]
  | cons d l ih =>
    rw [cons_append, precedes_cons, precedes_cons, ih]
    simp only [mem_append, mem_cons, not_mem_nil, or_false]
    tauto

/-- What is in an earlier part comes before what is in a later one. -/
theorem Precedes.flatten {ls : List (List α)} (h : ls.Precedes l l') (ha : a ∈ l) (hb : b ∈ l') :
    ls.flatten.Precedes a b := by
  have hpair : [l, l'].flatten <+ ls.flatten := Sublist.flatten h
  rw [flatten_cons, flatten_cons, flatten_nil, append_nil] at hpair
  exact (precedes_append_of_mem ha hb).sublist hpair

theorem precedes_or_precedes (ha : a ∈ l) (hb : b ∈ l) (hab : a ≠ b) :
    l.Precedes a b ∨ l.Precedes b a := by
  induction l with
  | nil => cases ha
  | cons c l ih =>
    rw [precedes_cons, precedes_cons]
    rcases mem_cons.mp ha with rfl | ha'
    · exact .inl (.inl ⟨rfl, (mem_cons.mp hb).resolve_left hab.symm⟩)
    · rcases mem_cons.mp hb with rfl | hb'
      · exact .inr (.inl ⟨rfl, ha'⟩)
      · exact (ih ha' hb').imp .inr .inr

theorem Pairwise.of_precedes {R : α → α → Prop} (h : l.Pairwise R) (hab : l.Precedes a b) : R a b :=
  pairwise_iff_forall_sublist.mp h hab

theorem Nodup.not_precedes_self (h : l.Nodup) : ¬ l.Precedes a a := fun ha => h.of_precedes ha rfl

/-- An entry that stands before nothing read so far has been read itself. -/
theorem mem_take_of_not_precedes {n : ℕ} (ha : a ∈ l) (hb : b ∈ l.take n) (hab : ¬ l.Precedes b a) :
    a ∈ l.take n := by
  rw [← take_append_drop n l] at ha
  refine (mem_append.mp ha).resolve_right fun hdrop => hab ?_
  rw [← take_append_drop n l]
  exact precedes_append_of_mem hb hdrop

end List
