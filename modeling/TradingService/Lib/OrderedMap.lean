import Mathlib

/-!
# Ordered maps as sorted association lists

A finite map kept as a list of entries with strictly increasing keys, which is
the observable content of a B-tree map: iteration is in key order, a key occurs
at most once, and a range query returns the entries up to a bound. The order is
a field of the structure, so no operation can build an unsorted map.

A `GroupedIndex` is a map of such maps: members of a type are filed under a
group and, inside the group, under a key.
-/

structure OrderedMap (K V : Type*) [LinearOrder K] where
  toList : List (K × V)
  sorted : toList.Pairwise (fun a b => a.1 < b.1)

namespace OrderedMap

variable {K V : Type*} [LinearOrder K]

def empty : OrderedMap K V := ⟨[], List.Pairwise.nil⟩

instance : EmptyCollection (OrderedMap K V) := ⟨empty⟩

@[simp] theorem toList_empty : (∅ : OrderedMap K V).toList = [] := rfl

def insert (m : OrderedMap K V) (k : K) (v : V) : OrderedMap K V where
  toList := m.toList.filter (·.1 < k) ++ (k, v) :: m.toList.filter (k < ·.1)
  sorted := by
    refine List.pairwise_append.mpr ⟨m.sorted.filter _, List.pairwise_cons.mpr ⟨?_, m.sorted.filter _⟩, ?_⟩
    · intro b hb
      simpa using (List.mem_filter.mp hb).2
    · intro a ha b hb
      have hak : a.1 < k := by simpa using (List.mem_filter.mp ha).2
      rcases List.mem_cons.mp hb with rfl | hb
      · exact hak
      · exact hak.trans (by simpa using (List.mem_filter.mp hb).2)

def erase (m : OrderedMap K V) (k : K) : OrderedMap K V where
  toList := m.toList.filter (·.1 ≠ k)
  sorted := m.sorted.filter _

def get? (m : OrderedMap K V) (k : K) : Option V :=
  (m.toList.find? (·.1 = k)).map (·.2)

/-- The entries whose key is at most `k`, in key order. -/
def rangeTo (m : OrderedMap K V) (k : K) : List (K × V) := m.toList.filter (·.1 ≤ k)

def adjust (m : OrderedMap K V) (k : K) (f : V → V) : OrderedMap K V where
  toList := m.toList.map fun e => (e.1, if e.1 = k then f e.2 else e.2)
  sorted := List.pairwise_map.mpr m.sorted

theorem keys_nodup (m : OrderedMap K V) : (m.toList.map Prod.fst).Nodup :=
  List.pairwise_map.mpr (m.sorted.imp fun h => h.ne)

theorem value_unique {m : OrderedMap K V} {k : K} {v w : V}
    (hv : (k, v) ∈ m.toList) (hw : (k, w) ∈ m.toList) : v = w :=
  congrArg Prod.snd (List.inj_on_of_nodup_map m.keys_nodup hv hw rfl)

theorem mem_insert {m : OrderedMap K V} {k k' : K} {v v' : V} :
    (k', v') ∈ (m.insert k v).toList ↔ (k' = k ∧ v' = v) ∨ (k' ≠ k ∧ (k', v') ∈ m.toList) := by
  simp only [insert, List.mem_append, List.mem_filter, List.mem_cons, Prod.mk.injEq,
    decide_eq_true_eq]
  constructor
  · rintro (⟨hm, hlt⟩ | ⟨rfl, rfl⟩ | ⟨hm, hlt⟩)
    · exact .inr ⟨hlt.ne, hm⟩
    · exact .inl ⟨rfl, rfl⟩
    · exact .inr ⟨hlt.ne', hm⟩
  · rintro (⟨rfl, rfl⟩ | ⟨hne, hm⟩)
    · exact .inr (.inl ⟨rfl, rfl⟩)
    · rcases lt_or_gt_of_ne hne with hlt | hlt
      · exact .inl ⟨hm, hlt⟩
      · exact .inr (.inr ⟨hm, hlt⟩)

theorem mem_erase {m : OrderedMap K V} {k : K} {e : K × V} :
    e ∈ (m.erase k).toList ↔ e ∈ m.toList ∧ e.1 ≠ k := by
  simp [erase]

theorem mem_rangeTo {m : OrderedMap K V} {k : K} {e : K × V} :
    e ∈ m.rangeTo k ↔ e ∈ m.toList ∧ e.1 ≤ k := by
  simp [rangeTo]

theorem rangeTo_sorted (m : OrderedMap K V) (k : K) :
    (m.rangeTo k).Pairwise (fun a b => a.1 < b.1) := m.sorted.filter _

theorem mem_adjust {m : OrderedMap K V} {k k' : K} {f : V → V} {w : V} :
    (k', w) ∈ (m.adjust k f).toList ↔
      ∃ v, (k', v) ∈ m.toList ∧ w = if k' = k then f v else v := by
  simp only [adjust, List.mem_map, Prod.mk.injEq, Prod.exists]
  constructor
  · rintro ⟨a, v, hm, rfl, rfl⟩
    exact ⟨v, hm, rfl⟩
  · rintro ⟨v, hm, rfl⟩
    exact ⟨k', v, hm, rfl, rfl⟩

theorem get?_eq_some {m : OrderedMap K V} {k : K} {v : V} :
    m.get? k = some v ↔ (k, v) ∈ m.toList := by
  simp only [get?, Option.map_eq_some_iff]
  constructor
  · rintro ⟨⟨k', v'⟩, hf, rfl⟩
    have hk : k' = k := by simpa using List.find?_some hf
    exact hk ▸ List.mem_of_find?_eq_some hf
  · intro hm
    cases hf : m.toList.find? (·.1 = k) with
    | none => simpa using List.find?_eq_none.mp hf _ hm
    | some e =>
      have hk : e.1 = k := by simpa using List.find?_some hf
      have he : (k, e.2) ∈ m.toList := hk ▸ List.mem_of_find?_eq_some hf
      exact ⟨e, rfl, value_unique he hm⟩

theorem get?_eq_none {m : OrderedMap K V} {k : K} :
    m.get? k = none ↔ ∀ v, (k, v) ∉ m.toList := by
  constructor
  · intro h v hv
    rw [get?_eq_some.mpr hv] at h
    cases h
  · intro h
    cases hg : m.get? k with
    | none => rfl
    | some v => exact absurd (get?_eq_some.mp hg) (h v)

theorem get?_insert (m : OrderedMap K V) (k k' : K) (v : V) :
    (m.insert k v).get? k' = if k' = k then some v else m.get? k' := by
  split_ifs with hk
  · exact get?_eq_some.mpr (mem_insert.mpr (.inl ⟨hk, rfl⟩))
  · cases hget : m.get? k' with
    | some w => exact get?_eq_some.mpr (mem_insert.mpr (.inr ⟨hk, get?_eq_some.mp hget⟩))
    | none =>
      refine get?_eq_none.mpr fun w hw => ?_
      rcases mem_insert.mp hw with ⟨he, _⟩ | ⟨_, hw⟩
      · exact hk he
      · exact get?_eq_none.mp hget w hw

theorem mem_keys {m : OrderedMap K V} {k : K} : k ∈ m.toList.map Prod.fst ↔ (m.get? k).isSome := by
  rw [Option.isSome_iff_exists]
  constructor
  · intro hk
    obtain ⟨⟨_, v⟩, hv, rfl⟩ := List.mem_map.mp hk
    exact ⟨v, get?_eq_some.mpr hv⟩
  · rintro ⟨v, hv⟩
    exact List.mem_map_of_mem (get?_eq_some.mp hv)

/-- Maps whose values are related key by key list their entries in the same order. -/
theorem forall₂_of_get? {W : Type*} {m : OrderedMap K V} {m' : OrderedMap K W} {R : V → W → Prop}
    (h : ∀ k, Option.Rel R (m.get? k) (m'.get? k)) :
    List.Forall₂ (fun e e' => e'.1 = e.1 ∧ R e.2 e'.2) m.toList m'.toList := by
  have hsome : ∀ k, (m.get? k).isSome = (m'.get? k).isSome := by
    intro k
    have hk := h k
    generalize m.get? k = v at hk ⊢
    generalize m'.get? k = w at hk ⊢
    cases hk <;> rfl
  have hkeys : m.toList.map Prod.fst = m'.toList.map Prod.fst := by
    have hperm : (m.toList.map Prod.fst).Perm (m'.toList.map Prod.fst) :=
      (List.perm_ext_iff_of_nodup m.keys_nodup m'.keys_nodup).mpr fun k => by
        rw [mem_keys, mem_keys, hsome]
    exact hperm.eq_of_pairwise (fun a b _ _ hab hba => absurd hba hab.asymm)
      (List.pairwise_map.mpr m.sorted) (List.pairwise_map.mpr m'.sorted)
  have hfst : List.Forall₂ (fun (e : K × V) (e' : K × W) => e.1 = e'.1) m.toList m'.toList := by
    rw [← List.forall₂_eq_eq_eq, List.forall₂_map_left_iff, List.forall₂_map_right_iff] at hkeys
    exact hkeys
  rw [List.forall₂_iff_zip] at hfst ⊢
  refine ⟨hfst.1, fun {e e'} hmem => ?_⟩
  have hkey := hfst.2 hmem
  obtain ⟨he, he'⟩ := List.of_mem_zip hmem
  have hrel := h e.1
  rw [get?_eq_some.mpr he, hkey, get?_eq_some.mpr he'] at hrel
  cases hrel with
  | some hR => exact ⟨hkey.symm, hR⟩

variable {W : Type*}

def mapValues (g : V → W) (m : OrderedMap K V) : OrderedMap K W where
  toList := m.toList.map fun e => (e.1, g e.2)
  sorted := List.pairwise_map.mpr m.sorted

theorem mem_mapValues {g : V → W} {m : OrderedMap K V} {e : K × W} :
    e ∈ (m.mapValues g).toList ↔ ∃ v, (e.1, v) ∈ m.toList ∧ g v = e.2 := by
  simp only [mapValues, List.mem_map, Prod.exists]
  constructor
  · rintro ⟨k, v, hv, rfl⟩
    exact ⟨v, hv, rfl⟩
  · rintro ⟨v, hv, hw⟩
    exact ⟨e.1, v, hv, by rw [hw]⟩

theorem ext_of_mem {m m' : OrderedMap K V} (h : ∀ e, e ∈ m.toList ↔ e ∈ m'.toList) : m = m' := by
  have hperm : m.toList.Perm m'.toList :=
    (List.perm_ext_iff_of_nodup (m.sorted.imp fun hlt => fun he => absurd (he ▸ hlt) (lt_irrefl _))
      (m'.sorted.imp fun hlt => fun he => absurd (he ▸ hlt) (lt_irrefl _))).mpr h
  have hlist : m.toList = m'.toList :=
    hperm.eq_of_pairwise (fun a b _ _ hab hba => absurd hba hab.asymm) m.sorted m'.sorted
  cases m
  cases m'
  cases hlist
  rfl

theorem rangeTo_mapValues (g : V → W) (m : OrderedMap K V) (k : K) :
    (m.mapValues g).rangeTo k = (m.rangeTo k).map fun e => (e.1, g e.2) := by
  unfold rangeTo mapValues
  rw [List.filter_map]
  rfl

theorem erase_mapValues (g : V → W) (m : OrderedMap K V) (k : K) :
    (m.mapValues g).erase k = (m.erase k).mapValues g := by
  unfold erase mapValues
  congr 1
  rw [List.filter_map]
  rfl

theorem adjust_mapValues {g : V → W} {h : V → V} {h' : W → W} (hcomm : ∀ v, h' (g v) = g (h v))
    (m : OrderedMap K V) (k : K) : (m.mapValues g).adjust k h' = (m.adjust k h).mapValues g := by
  unfold adjust mapValues
  congr 1
  rw [List.map_map, List.map_map]
  apply List.map_congr_left
  intro e _
  simp only [Function.comp_apply, hcomm, Prod.mk.injEq, true_and]
  split_ifs <;> rfl

end OrderedMap
