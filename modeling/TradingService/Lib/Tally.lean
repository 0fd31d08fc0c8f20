import TradingService.Lib.OrderedMap

/-!
# Sums filed by key

The entries of a list added up under their keys, in an ordered map: a key is present
exactly if some entry has it, and its value is the sum of the entries that have it.
-/

namespace OrderedMap

variable {α K V : Type*} [LinearOrder K] [AddCommMonoid V]

def level (m : OrderedMap K V) (k : K) : V := (m.get? k).getD 0

/-- `*m.entry(k).or_insert(0) += v`. -/
def addAt (m : OrderedMap K V) (k : K) (v : V) : OrderedMap K V := m.insert k (m.level k + v)

def tally (key : α → K) (amount : α → V) (l : List α) : OrderedMap K V :=
  l.foldl (fun m a => m.addAt (key a) (amount a)) ∅

@[simp] theorem level_empty (k : K) : (∅ : OrderedMap K V).level k = 0 := rfl

theorem level_of_mem {m : OrderedMap K V} {k : K} {v : V} (h : (k, v) ∈ m.toList) : m.level k = v := by
  rw [level, get?_eq_some.mpr h, Option.getD_some]

theorem level_addAt (m : OrderedMap K V) (k k' : K) (v : V) :
    (m.addAt k v).level k' = m.level k' + if k = k' then v else 0 := by
  unfold level addAt
  rw [get?_insert]
  by_cases h : k' = k
  · rw [if_pos h, if_pos h.symm, h]
    rfl
  · rw [if_neg h, if_neg (Ne.symm h), add_zero]

theorem mem_keys_addAt (m : OrderedMap K V) (k k' : K) (v : V) :
    k' ∈ (m.addAt k v).toList.map Prod.fst ↔ k = k' ∨ k' ∈ m.toList.map Prod.fst := by
  rw [mem_keys, mem_keys, addAt, get?_insert]
  by_cases h : k' = k
  · simp [h]
  · simp [h, Ne.symm h]

variable {key : α → K} {amount : α → V}

theorem level_tally (l : List α) (k : K) :
    (tally key amount l).level k = ((l.filter fun a => key a = k).map amount).sum := by
  suffices hfold : ∀ m : OrderedMap K V, (l.foldl (fun m a => m.addAt (key a) (amount a)) m).level k =
      m.level k + ((l.filter fun a => key a = k).map amount).sum by
    exact (hfold ∅).trans (zero_add _)
  induction l with
  | nil => intro m; simp
  | cons a l ih =>
    intro m
    rw [List.foldl_cons, ih, level_addAt, add_assoc]
    by_cases h : key a = k
    · rw [if_pos h, List.filter_cons_of_pos (by simpa using h), List.map_cons, List.sum_cons]
    · rw [if_neg h, zero_add, List.filter_cons_of_neg (by simpa using h)]

theorem mem_keys_tally (l : List α) (k : K) :
    k ∈ (tally key amount l).toList.map Prod.fst ↔ ∃ a ∈ l, key a = k := by
  suffices hfold : ∀ m : OrderedMap K V,
      k ∈ (l.foldl (fun m a => m.addAt (key a) (amount a)) m).toList.map Prod.fst ↔
        (∃ a ∈ l, key a = k) ∨ k ∈ m.toList.map Prod.fst by
    exact (hfold ∅).trans (or_iff_left (by simp))
  induction l with
  | nil => intro m; simp
  | cons a l ih =>
    intro m
    rw [List.foldl_cons, ih, mem_keys_addAt, List.exists_mem_cons_iff, or_left_comm, or_assoc]

theorem mem_tally {l : List α} {k : K} {v : V} :
    (k, v) ∈ (tally key amount l).toList ↔
      (∃ a ∈ l, key a = k) ∧ v = ((l.filter fun a => key a = k).map amount).sum := by
  have hkeys : k ∈ (tally key amount l).toList.map Prod.fst ↔ ∃ a ∈ l, key a = k := mem_keys_tally l k
  rw [← hkeys, ← level_tally]
  constructor
  · intro h
    exact ⟨List.mem_map_of_mem h, (level_of_mem h).symm⟩
  · rintro ⟨hk, rfl⟩
    obtain ⟨⟨_, v⟩, hv, rfl⟩ := List.mem_map.mp hk
    rw [level_of_mem hv]
    exact hv

theorem tally_perm {l l' : List α} (h : l.Perm l') : tally key amount l = tally key amount l' := by
  apply ext_of_mem
  rintro ⟨k, v⟩
  have hsum : ((l.filter fun a => key a = k).map amount).sum =
      ((l'.filter fun a => key a = k).map amount).sum := ((h.filter _).map _).sum_eq
  rw [mem_tally, mem_tally, hsum]
  simp only [h.mem_iff]

end OrderedMap
