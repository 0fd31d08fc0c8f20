import Mathlib

/-!
# Tables with a primary key

Rows in some order, no two of them with one key. A row is found by its key, added
if its key is free, and rewritten by functions that keep the key.
-/

structure KeyedTable {K V : Type*} (key : V → K) where
  rows : List V
  keys_nodup : (rows.map key).Nodup

namespace KeyedTable

variable {K V : Type*} [DecidableEq K] {key : V → K}

def empty : KeyedTable key := ⟨[], List.nodup_nil⟩

def find? (t : KeyedTable key) (k : K) : Option V := t.rows.find? (key · = k)

def insert? (t : KeyedTable key) (v : V) : Option (KeyedTable key) :=
  if h : key v ∈ t.rows.map key then none
  else some ⟨v :: t.rows, List.nodup_cons.mpr ⟨h, t.keys_nodup⟩⟩

def mapRows (t : KeyedTable key) (f : V → V) (hf : ∀ v, key (f v) = key v) : KeyedTable key where
  rows := t.rows.map f
  keys_nodup := by
    rw [List.map_map, show key ∘ f = key from funext hf]
    exact t.keys_nodup

def modify (t : KeyedTable key) (k : K) (f : V → V) (hf : ∀ v, key (f v) = key v) :
    KeyedTable key :=
  t.mapRows (fun v => if key v = k then f v else v) fun v => by split_ifs; exacts [hf v, rfl]

def reorder (t : KeyedTable key) (rows : List V) (h : rows.Perm t.rows) : KeyedTable key where
  rows := rows
  keys_nodup := (h.map key).nodup_iff.mpr t.keys_nodup

def delete (t : KeyedTable key) (p : V → Bool) : KeyedTable key where
  rows := t.rows.filter fun v => !p v
  keys_nodup := (List.filter_sublist.map key).nodup t.keys_nodup

variable {t : KeyedTable key}

omit [DecidableEq K] in
theorem row_unique {v w : V} (hv : v ∈ t.rows) (hw : w ∈ t.rows) (h : key v = key w) : v = w :=
  List.inj_on_of_nodup_map t.keys_nodup hv hw h

theorem find?_eq_some {k : K} {v : V} : t.find? k = some v ↔ v ∈ t.rows ∧ key v = k := by
  constructor
  · intro h
    exact ⟨List.mem_of_find?_eq_some h, by simpa using List.find?_some h⟩
  · rintro ⟨hv, rfl⟩
    cases hf : t.find? (key v) with
    | none => simpa using List.find?_eq_none.mp hf v hv
    | some w =>
      have hw : key w = key v := by simpa using List.find?_some hf
      rw [row_unique (List.mem_of_find?_eq_some hf) hv hw]

theorem find?_eq_none {k : K} : t.find? k = none ↔ ∀ v ∈ t.rows, key v ≠ k := by
  simp [find?, List.find?_eq_none]

theorem insert?_eq_some {v : V} {t' : KeyedTable key} (h : t.insert? v = some t') :
    (∀ w ∈ t.rows, key w ≠ key v) ∧ t'.rows = v :: t.rows := by
  unfold insert? at h
  split_ifs at h with hk
  obtain rfl := Option.some.inj h
  exact ⟨fun w hw he => hk (he ▸ List.mem_map_of_mem hw), rfl⟩

theorem insert?_eq_none {v : V} : t.insert? v = none ↔ ∃ w ∈ t.rows, key w = key v := by
  unfold insert?
  split_ifs with hk
  · exact iff_of_true rfl (List.mem_map.mp hk)
  · exact iff_of_false nofun fun ⟨w, hw, he⟩ => hk (List.mem_map.mpr ⟨w, hw, he⟩)

omit [DecidableEq K] in
@[simp] theorem rows_mapRows {f : V → V} {hf : ∀ v, key (f v) = key v} :
    (t.mapRows f hf).rows = t.rows.map f := rfl

omit [DecidableEq K] in
theorem mem_mapRows {f : V → V} {hf : ∀ v, key (f v) = key v} {w : V} :
    w ∈ (t.mapRows f hf).rows ↔ ∃ v ∈ t.rows, f v = w := by simp

/-- A selection that no rewritten row meets loses the row filed under `k` and no other. -/
theorem filter_modify {p : V → Bool} {k : K} {f : V → V} {hf : ∀ v, key (f v) = key v}
    (hp : ∀ v, p (f v) = false) :
    (t.modify k f hf).rows.filter p = (t.rows.filter p).filter fun v => key v ≠ k := by
  unfold modify
  rw [rows_mapRows]
  induction t.rows with
  | nil => rfl
  | cons v rows ih =>
    by_cases hv : key v = k
    · by_cases hpv : p v <;> simp [hv, hp, hpv, ih]
    · by_cases hpv : p v <;> simp [hv, hpv, ih]

theorem find?_mapRows {f : V → V} {hf : ∀ v, key (f v) = key v} (k : K) :
    (t.mapRows f hf).find? k = (t.find? k).map f := by
  simp [find?, mapRows, List.find?_map, hf]

theorem find?_of_insert? {v : V} {t' : KeyedTable key} (h : t.insert? v = some t') (k : K) :
    t'.find? k = if key v = k then some v else t.find? k := by
  rw [find?, (insert?_eq_some h).2, List.find?_cons]
  by_cases hk : key v = k
  · simp [hk]
  · simp [hk, find?]

theorem find?_delete {p : V → Bool} (k : K) : (t.delete p).find? k = (t.find? k).filter (!p ·) := by
  cases hrow : t.find? k with
  | none =>
    exact find?_eq_none.mpr fun v hv => find?_eq_none.mp hrow v (List.mem_of_mem_filter hv)
  | some v =>
    obtain ⟨hv, rfl⟩ := find?_eq_some.mp hrow
    by_cases hp : p v
    · have hnone : (some v).filter (!p ·) = none := by simp [hp]
      rw [hnone]
      refine find?_eq_none.mpr fun w hw hkey => ?_
      obtain ⟨hmem, hkept⟩ := List.mem_filter.mp hw
      rw [row_unique hmem hv hkey, hp] at hkept
      cases hkept
    · have hsome : (some v).filter (!p ·) = some v := by simp [hp]
      rw [hsome]
      exact find?_eq_some.mpr ⟨List.mem_filter.mpr ⟨hv, by simpa using hp⟩, rfl⟩

end KeyedTable
