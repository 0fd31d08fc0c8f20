import TradingService.Lib.OrderedMap

/-!
# Members filed by group and key

An ordered map of ordered maps: a member is filed under its group and, inside
the group, under its key. `Files` says that the members of a predicate, and only
those, are filed, each in its own place.
-/

abbrev GroupedIndex (G K ι : Type*) [LinearOrder G] [LinearOrder K] :=
  OrderedMap G (OrderedMap K ι)

namespace GroupedIndex

variable {G K ι : Type*} [LinearOrder G] [LinearOrder K] (group : ι → G) (key : ι → K)

def file (m : GroupedIndex G K ι) (i : ι) : GroupedIndex G K ι :=
  m.insert (group i) (((m.get? (group i)).getD ∅).insert (key i) i)

def remove (m : GroupedIndex G K ι) (i : ι) : GroupedIndex G K ι :=
  m.adjust (group i) (·.erase (key i))

structure Files (m : GroupedIndex G K ι) (P : ι → Prop) : Prop where
  sound : ∀ g b, (g, b) ∈ m.toList → ∀ k i, (k, i) ∈ b.toList → P i ∧ group i = g ∧ key i = k
  complete : ∀ i, P i → ∃ b, (group i, b) ∈ m.toList ∧ (key i, i) ∈ b.toList

variable {group key} {m : GroupedIndex G K ι} {P Q : ι → Prop}

theorem files_empty : Files group key (∅ : GroupedIndex G K ι) fun _ => False where
  sound g b hb := by simp at hb
  complete i hi := hi.elim

theorem Files.congr (h : Files group key m P) (hPQ : ∀ i, P i ↔ Q i) : Files group key m Q where
  sound g b hb k i hi := by
    have hs := h.sound g b hb k i hi
    exact ⟨(hPQ i).mp hs.1, hs.2⟩
  complete i hi := h.complete i ((hPQ i).mpr hi)

theorem Files.mem_iff (h : Files group key m P) {g : G} {b : OrderedMap K ι}
    (hb : (g, b) ∈ m.toList) {k : K} {i : ι} :
    (k, i) ∈ b.toList ↔ P i ∧ group i = g ∧ key i = k := by
  refine ⟨h.sound g b hb k i, ?_⟩
  rintro ⟨hi, rfl, rfl⟩
  obtain ⟨b', hb', hk⟩ := h.complete i hi
  rwa [OrderedMap.value_unique hb hb']

/-- The book of a group holds what the index files under it, whether or not the
group has been opened. -/
theorem Files.mem_getD (h : Files group key m P) {g : G} {k : K} {i : ι} :
    (k, i) ∈ ((m.get? g).getD ∅).toList ↔ P i ∧ group i = g ∧ key i = k := by
  cases hg : m.get? g with
  | some b => exact h.mem_iff (OrderedMap.get?_eq_some.mp hg)
  | none =>
    simp only [Option.getD_none, OrderedMap.toList_empty, List.not_mem_nil, false_iff]
    rintro ⟨hi, rfl, rfl⟩
    obtain ⟨b, hb, _⟩ := h.complete i hi
    exact OrderedMap.get?_eq_none.mp hg b hb

theorem Files.file (h : Files group key m P) {i : ι}
    (hinj : ∀ j, P j → group j = group i → key j = key i → j = i) :
    Files group key (file group key m i) fun j => j = i ∨ P j where
  sound g b hb k j hj := by
    rcases OrderedMap.mem_insert.mp hb with ⟨rfl, rfl⟩ | ⟨_, hm⟩
    · rcases OrderedMap.mem_insert.mp hj with ⟨rfl, rfl⟩ | ⟨_, hj⟩
      · exact ⟨.inl rfl, rfl, rfl⟩
      · have hs := h.mem_getD.mp hj
        exact ⟨.inr hs.1, hs.2⟩
    · have hs := h.sound g b hm k j hj
      exact ⟨.inr hs.1, hs.2⟩
  complete j hj := by
    by_cases hg : group j = group i
    · refine ⟨_, OrderedMap.mem_insert.mpr (.inl ⟨hg, rfl⟩), OrderedMap.mem_insert.mpr ?_⟩
      by_cases hji : j = i
      · exact .inl ⟨congrArg key hji, hji⟩
      · have hP : P j := hj.resolve_left hji
        refine .inr ⟨fun hk => hji (hinj j hP hg hk), h.mem_getD.mpr ⟨hP, hg, rfl⟩⟩
    · have hP : P j := hj.resolve_left fun hji => hg (congrArg group hji)
      obtain ⟨b, hb, hk⟩ := h.complete j hP
      exact ⟨b, OrderedMap.mem_insert.mpr (.inr ⟨hg, hb⟩), hk⟩

theorem Files.remove (h : Files group key m P) {i : ι}
    (hinj : ∀ j, P j → group j = group i → key j = key i → j = i) :
    Files group key (remove group key m i) fun j => P j ∧ j ≠ i where
  sound g b hb k j hj := by
    obtain ⟨b', hb', rfl⟩ := OrderedMap.mem_adjust.mp hb
    by_cases hg : g = group i
    · rw [if_pos hg] at hj
      obtain ⟨hj, hk⟩ := OrderedMap.mem_erase.mp hj
      obtain ⟨hP, hgj, rfl⟩ := h.sound g b' hb' k j hj
      exact ⟨⟨hP, fun hji => hk (congrArg key hji)⟩, hgj, rfl⟩
    · rw [if_neg hg] at hj
      obtain ⟨hP, hgj, rfl⟩ := h.sound g b' hb' k j hj
      exact ⟨⟨hP, fun hji => hg (hgj ▸ congrArg group hji)⟩, hgj, rfl⟩
  complete j hj := by
    obtain ⟨b, hb, hk⟩ := h.complete j hj.1
    refine ⟨_, OrderedMap.mem_adjust.mpr ⟨b, hb, rfl⟩, ?_⟩
    by_cases hg : group j = group i
    · rw [if_pos hg]
      exact OrderedMap.mem_erase.mpr ⟨hk, fun hkey => hj.2 (hinj j hj.1 hg hkey)⟩
    · rwa [if_neg hg]

end GroupedIndex
