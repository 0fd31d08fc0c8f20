import Mathlib

/-!
# Merging sorted streams through their heads

`popMin` takes a least element out of a bag, as the pop of a priority queue
does. `mergeHeads` keeps the head of every stream in such a bag and replaces a
head that was popped by the next element of its stream. For sorted streams the
result is the sorted union; `takeCovering` is the lazy consumer that stops as
soon as the sizes it has collected cover a need.
-/

namespace KWayMerge

variable {α K : Type*} [LinearOrder K]

def popMin (key : α → K) : List α → Option (α × List α)
  | [] => none
  | a :: l =>
    match popMin key l with
    | none => some (a, [])
    | some (b, l') => if key b < key a then some (b, a :: l') else some (a, b :: l')

theorem popMin_eq_none {key : α → K} {l : List α} : popMin key l = none ↔ l = [] := by
  cases l with
  | nil => simp [popMin]
  | cons a l =>
    simp only [popMin, reduceCtorEq, iff_false]
    cases popMin key l with
    | none => simp
    | some p => by_cases h : key p.1 < key a <;> simp [h]

theorem popMin_perm {key : α → K} {l l' : List α} {a : α} (h : popMin key l = some (a, l')) :
    l.Perm (a :: l') := by
  induction l generalizing a l' with
  | nil => simp [popMin] at h
  | cons x l ih =>
    simp only [popMin] at h
    cases hp : popMin key l with
    | none =>
      simp only [hp, Option.some.injEq, Prod.mk.injEq] at h
      obtain ⟨rfl, rfl⟩ := h
      rw [popMin_eq_none.mp hp]
    | some p =>
      have hl := ih hp
      simp only [hp] at h
      split_ifs at h with hlt
      · simp only [Option.some.injEq, Prod.mk.injEq] at h
        obtain ⟨rfl, rfl⟩ := h
        exact (hl.cons x).trans (List.Perm.swap _ _ _)
      · simp only [Option.some.injEq, Prod.mk.injEq] at h
        obtain ⟨rfl, rfl⟩ := h
        exact hl.cons x

theorem popMin_le {key : α → K} {l l' : List α} {a : α} (h : popMin key l = some (a, l')) :
    ∀ b ∈ l, key a ≤ key b := by
  induction l generalizing a l' with
  | nil => simp [popMin] at h
  | cons x l ih =>
    simp only [popMin] at h
    cases hp : popMin key l with
    | none =>
      simp only [hp, Option.some.injEq, Prod.mk.injEq] at h
      obtain ⟨rfl, rfl⟩ := h
      simp [popMin_eq_none.mp hp]
    | some p =>
      have hl := ih hp
      simp only [hp] at h
      split_ifs at h with hlt
      · simp only [Option.some.injEq, Prod.mk.injEq] at h
        obtain ⟨rfl, rfl⟩ := h
        exact List.forall_mem_cons.mpr ⟨hlt.le, hl⟩
      · simp only [Option.some.injEq, Prod.mk.injEq] at h
        obtain ⟨rfl, rfl⟩ := h
        exact List.forall_mem_cons.mpr ⟨le_rfl, fun b hb => (not_lt.mp hlt).trans (hl b hb)⟩

theorem popMin_map {β : Type*} (key : β → K) (f : α → β) (l : List α) :
    popMin key (l.map f) = (popMin (fun a => key (f a)) l).map fun p => (f p.1, p.2.map f) := by
  induction l with
  | nil => rfl
  | cons a l ih =>
    simp only [List.map_cons, popMin, ih]
    cases popMin (fun a => key (f a)) l with
    | none => rfl
    | some p =>
      simp only [Option.map_some]
      split_ifs <;> rfl

abbrev Stream (α : Type*) := α × List α

def Stream.ofList : List α → List (Stream α)
  | [] => []
  | a :: l => [(a, l)]

def pending (hs : List (Stream α)) : ℕ := (hs.map fun h => h.2.length + 1).sum

def contents (hs : List (Stream α)) : List α := (hs.map fun h => h.1 :: h.2).flatten

def mergeHeads (key : α → K) : ℕ → List (Stream α) → List α
  | 0, _ => []
  | fuel + 1, hs =>
    match popMin (fun h => key h.1) hs with
    | none => []
    | some (h, hs') => h.1 :: mergeHeads key fuel (Stream.ofList h.2 ++ hs')

theorem contents_ofList (l : List α) : contents (Stream.ofList l) = l := by
  cases l <;> simp [Stream.ofList, contents]

theorem Stream.mem_ofList {l : List α} {h : Stream α} : h ∈ Stream.ofList l ↔ l = h.1 :: h.2 := by
  cases l with
  | nil => simp [Stream.ofList]
  | cons a l =>
    obtain ⟨b, r⟩ := h
    simp only [Stream.ofList, List.mem_singleton, Prod.mk.injEq, List.cons.injEq, eq_comm]

theorem contents_append (hs ks : List (Stream α)) :
    contents (hs ++ ks) = contents hs ++ contents ks := by simp [contents]

theorem contents_flatMap_ofList {β : Type*} (l : List β) (f : β → List α) :
    contents (l.flatMap fun b => Stream.ofList (f b)) = l.flatMap f := by
  induction l with
  | nil => rfl
  | cons b l ih => rw [List.flatMap_cons, contents_append, contents_ofList, ih, List.flatMap_cons]

theorem pending_eq_length (hs : List (Stream α)) : pending hs = (contents hs).length := by
  simp [pending, contents, List.length_flatten, Function.comp_def]

theorem contents_perm {hs ks : List (Stream α)} (h : hs.Perm ks) :
    (contents hs).Perm (contents ks) := (h.map _).flatten

/-- One pop moves the least head to the front of the contents. -/
theorem contents_pop {key : α → K} {hs hs' : List (Stream α)} {h : Stream α}
    (hp : popMin (fun h => key h.1) hs = some (h, hs')) :
    (contents hs).Perm (h.1 :: contents (Stream.ofList h.2 ++ hs')) := by
  refine (contents_perm (popMin_perm hp)).trans ?_
  rw [contents_append, contents_ofList]
  exact List.Perm.refl _

theorem pending_pop {key : α → K} {hs hs' : List (Stream α)} {h : Stream α}
    (hp : popMin (fun h => key h.1) hs = some (h, hs')) {fuel : ℕ} (hf : pending hs ≤ fuel + 1) :
    pending (Stream.ofList h.2 ++ hs') ≤ fuel := by
  have hl := (contents_pop hp).length_eq
  rw [List.length_cons, ← pending_eq_length, ← pending_eq_length] at hl
  omega

theorem mergeHeads_perm (key : α → K) (fuel : ℕ) (hs : List (Stream α))
    (hf : pending hs ≤ fuel) : (mergeHeads key fuel hs).Perm (contents hs) := by
  induction fuel generalizing hs with
  | zero =>
    rw [pending_eq_length, Nat.le_zero, List.length_eq_zero_iff] at hf
    rw [hf, mergeHeads]
  | succ fuel ih =>
    rw [mergeHeads]
    cases hp : popMin (fun h => key h.1) hs with
    | none => rw [popMin_eq_none.mp hp]; rfl
    | some p =>
      obtain ⟨h, hs'⟩ := p
      have hc := contents_pop hp
      have hlen : pending (Stream.ofList h.2 ++ hs') ≤ fuel := pending_pop hp hf
      exact ((ih _ hlen).cons _).trans hc.symm

theorem mergeHeads_sorted (key : α → K) (fuel : ℕ) (hs : List (Stream α))
    (hf : pending hs ≤ fuel)
    (hsorted : ∀ h ∈ hs, (h.1 :: h.2).Pairwise fun a b => key a ≤ key b) :
    (mergeHeads key fuel hs).Pairwise fun a b => key a ≤ key b := by
  induction fuel generalizing hs with
  | zero => simp [mergeHeads]
  | succ fuel ih =>
    rw [mergeHeads]
    cases hp : popMin (fun h => key h.1) hs with
    | none => exact List.Pairwise.nil
    | some p =>
      obtain ⟨h, hs'⟩ := p
      have hperm := popMin_perm hp
      have hmem : h ∈ hs := hperm.symm.subset (List.mem_cons_self)
      have hc := contents_pop hp
      have hlen : pending (Stream.ofList h.2 ++ hs') ≤ fuel := pending_pop hp hf
      have hsorted' : ∀ k ∈ Stream.ofList h.2 ++ hs',
          (k.1 :: k.2).Pairwise fun a b => key a ≤ key b := by
        intro k hk
        rcases List.mem_append.mp hk with hk | hk
        · have hrest := (List.pairwise_cons.mp (hsorted h hmem)).2
          rwa [Stream.mem_ofList.mp hk] at hrest
        · exact hsorted k (hperm.symm.subset (List.mem_cons_of_mem _ hk))
      refine List.pairwise_cons.mpr ⟨?_, ih _ hlen hsorted'⟩
      intro b hb
      have hb' : b ∈ contents hs :=
        hc.symm.subset (List.mem_cons_of_mem _ ((mergeHeads_perm key fuel _ hlen).subset hb))
      obtain ⟨l, hl, hbl⟩ := List.mem_flatten.mp hb'
      obtain ⟨k, hk, rfl⟩ := List.mem_map.mp hl
      have hhead : key h.1 ≤ key k.1 := popMin_le hp k hk
      rcases List.mem_cons.mp hbl with rfl | hbl
      · exact hhead
      · exact hhead.trans ((List.pairwise_cons.mp (hsorted k hk)).1 b hbl)

/-- One stream comes out as it went in, sorted or not. -/
theorem mergeHeads_ofList (key : α → K) (fuel : ℕ) (l : List α) (hf : l.length ≤ fuel) :
    mergeHeads key fuel (Stream.ofList l) = l := by
  induction fuel generalizing l with
  | zero => rw [List.length_eq_zero_iff.mp (Nat.le_zero.mp hf), mergeHeads]
  | succ fuel ih =>
    cases l with
    | nil => rfl
    | cons a l =>
      have hrest : l.length ≤ fuel := Nat.le_of_succ_le_succ hf
      change a :: mergeHeads key fuel (Stream.ofList l ++ []) = a :: l
      rw [List.append_nil, ih l hrest]

section Covering

variable {Q : Type*} [Add Q] [LE Q] [DecidableLE Q]

/-- Collect elements until their sizes, added to `gathered`, reach `need`; the
flag says that they did. Without `stop` the whole list is collected. -/
def takeCovering (size : α → Q) (need : Q) (stop : Bool) : Q → List α → List α × Bool
  | _, [] => ([], false)
  | gathered, a :: l =>
    if stop ∧ need ≤ gathered + size a then ([a], true)
    else
      let rest := takeCovering size need stop (gathered + size a) l
      (a :: rest.1, rest.2)

theorem takeCovering_prefix (size : α → Q) (need : Q) (stop : Bool) (gathered : Q) (l : List α) :
    (takeCovering size need stop gathered l).1 <+: l := by
  induction l generalizing gathered with
  | nil => exact List.prefix_refl _
  | cons a l ih =>
    rw [takeCovering]
    split_ifs
    · exact List.prefix_append [a] l
    · exact List.cons_prefix_cons.mpr ⟨rfl, ih _⟩

@[simp] theorem takeCovering_full (size : α → Q) (need gathered : Q) (l : List α) :
    takeCovering size need false gathered l = (l, false) := by
  induction l generalizing gathered with
  | nil => rfl
  | cons a l ih => simp [takeCovering, ih]

theorem takeCovering_exhausted {size : α → Q} {need : Q} {stop : Bool} {gathered : Q} {l : List α}
    (h : (takeCovering size need stop gathered l).2 = false) :
    (takeCovering size need stop gathered l).1 = l := by
  induction l generalizing gathered with
  | nil => rfl
  | cons a l ih =>
    rw [takeCovering] at h ⊢
    split_ifs at h ⊢
    exact congrArg (a :: ·) (ih h)

end Covering

section Cut

/-- `p` is the shortest prefix of `l` that reaches. -/
def IsShortest (Reaches : List α → Prop) (l p : List α) : Prop :=
  p <+: l ∧ Reaches p ∧ ∀ q, q <+: l → Reaches q → p.length ≤ q.length

/-- The list cut at the shortest prefix that reaches, with the flag raised, or
the whole list when no prefix does. -/
def CutAt (Reaches : List α → Prop) (l : List α) (r : List α × Bool) : Prop :=
  (IsShortest Reaches l r.1 ∧ r.2 = true) ∨ ((∀ p, p <+: l → ¬Reaches p) ∧ r = (l, false))

theorem CutAt.flag_iff {Reaches : List α → Prop} {l : List α} {r : List α × Bool}
    (h : CutAt Reaches l r) : r.2 = true ↔ ∃ p, p <+: l ∧ Reaches p := by
  rcases h with ⟨hshortest, hflag⟩ | ⟨hnone, rfl⟩
  · exact iff_of_true hflag ⟨r.1, hshortest.1, hshortest.2.1⟩
  · refine iff_of_false Bool.false_ne_true ?_
    rintro ⟨p, hp, hreach⟩
    exact hnone p hp hreach

theorem CutAt.cons {Reaches Reaches' : List α → Prop} {l : List α} {r : List α × Bool} {a : α}
    (h : CutAt Reaches' l r) (hnil : ¬Reaches []) (hcons : ∀ p, Reaches (a :: p) ↔ Reaches' p) :
    CutAt Reaches (a :: l) (a :: r.1, r.2) := by
  rcases h with ⟨⟨hleft, hreach, hleast⟩, hflag⟩ | ⟨hnone, rfl⟩
  · refine .inl ⟨⟨List.cons_prefix_cons.mpr ⟨rfl, hleft⟩, (hcons _).mpr hreach, ?_⟩, hflag⟩
    intro q hq hqreach
    rcases List.prefix_cons_iff.mp hq with rfl | ⟨q, rfl, _⟩
    · exact absurd hqreach hnil
    · exact Nat.succ_le_succ (hleast q (List.cons_prefix_cons.mp hq).2 ((hcons q).mp hqreach))
  · refine .inr ⟨fun q hq hqreach => ?_, rfl⟩
    rcases List.prefix_cons_iff.mp hq with rfl | ⟨q, rfl, _⟩
    · exact hnil hqreach
    · exact hnone q (List.cons_prefix_cons.mp hq).2 ((hcons q).mp hqreach)

variable {Q : Type*} [AddMonoid Q] [LE Q] [DecidableLE Q]

/-- Some of the list is collected before the need is looked at, so the empty
prefix never counts. -/
theorem takeCovering_cutAt (size : α → Q) (need gathered : Q) (l : List α) :
    CutAt (fun p => p ≠ [] ∧ need ≤ gathered + (p.map size).sum) l
      (takeCovering size need true gathered l) := by
  induction l generalizing gathered with
  | nil => exact .inr ⟨fun p hp hreach => hreach.1 (List.prefix_nil.mp hp), rfl⟩
  | cons a l ih =>
    rw [takeCovering]
    by_cases hfirst : need ≤ gathered + size a
    · rw [if_pos ⟨rfl, hfirst⟩]
      refine .inl ⟨⟨List.prefix_append [a] l, ⟨List.cons_ne_nil _ _, by simpa using hfirst⟩, ?_⟩, rfl⟩
      exact fun q _ hq => List.length_pos_iff.mpr hq.1
    · rw [if_neg fun h => hfirst h.2]
      refine (ih (gathered + size a)).cons (fun h => h.1 rfl) fun p => ?_
      simp only [List.map_cons, List.sum_cons, ← add_assoc]
      refine ⟨fun h => ⟨?_, h.2⟩, fun h => ⟨List.cons_ne_nil _ _, h.2⟩⟩
      rintro rfl
      exact hfirst (by simpa using h.2)

end Cut

end KWayMerge
