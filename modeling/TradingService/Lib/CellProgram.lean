import TradingService.Lib.Runs

/-!
# Programs that read a shared cell

A program reads a cell as often as it likes and puts out what it makes of the values. A
writer may replace the cell before any read. Where no value that the cell holds between
the first read and the end of the program differs from the first one in what matters,
every output comes from one of the values (`emitted_from_stored`).
-/

inductive CellProgram (σ ω α : Type)
  | done (a : α)
  | read (next : σ → CellProgram σ ω α)
  | emit (o : ω) (rest : CellProgram σ ω α)

namespace CellProgram

variable {σ ω α β : Type}

def bind : CellProgram σ ω α → (α → CellProgram σ ω β) → CellProgram σ ω β
  | done a, f => f a
  | read next, f => read fun x => (next x).bind f
  | emit o rest, f => emit o (rest.bind f)

def isDone : CellProgram σ ω α → Bool
  | done _ => true
  | _ => false

/-- The program puts nothing out and ends with `a`, if all that it reads is in `K`. -/
def Yields (K : σ → Prop) (a : α) : CellProgram σ ω α → Prop
  | done b => b = a
  | read next => ∀ x, K x → Yields K a (next x)
  | emit _ _ => False

/-- Every output comes from one of the values that were read before it, if all of them are
in `K`. -/
def Sound (K : σ → Prop) (P : σ → ω → Prop) : List σ → CellProgram σ ω α → Prop
  | _, done _ => True
  | seen, read next => ∀ x, K x → Sound K P (x :: seen) (next x)
  | seen, emit o rest => (∃ x ∈ seen, P x o) ∧ Sound K P seen rest

variable {K : σ → Prop} {P : σ → ω → Prop} {p : CellProgram σ ω α} {f : α → CellProgram σ ω β}
  {a : α} {b : β}

theorem Yields.bind (hp : p.Yields K a) (hf : (f a).Yields K b) : (p.bind f).Yields K b := by
  induction p with
  | done a' =>
    obtain rfl : a' = a := hp
    exact hf
  | read next ih => exact fun x hx => ih x (hp x hx)
  | emit o rest ih => exact hp.elim

theorem Yields.sound_bind (hp : p.Yields K a) {seen : List σ}
    (hf : ∀ seen', (f a).Sound K P seen') : (p.bind f).Sound K P seen := by
  induction p generalizing seen with
  | done a' =>
    obtain rfl : a' = a := hp
    exact hf seen
  | read next ih => exact fun x hx => ih x (hp x hx)
  | emit o rest ih => exact hp.elim

end CellProgram

structure CellState (σ ω α : Type) where
  current : σ
  stored : List σ
  /-- The first read is behind. -/
  begun : Bool
  program : CellProgram σ ω α
  emitted : List ω

inductive CellAction (σ : Type)
  | store (x : σ)
  | read
  | emit

namespace CellState

variable {σ ω α : Type}

def start (x : σ) (program : CellProgram σ ω α) : CellState σ ω α := ⟨x, [x], false, program, []⟩

def step (s : CellState σ ω α) : CellAction σ → Option (CellState σ ω α)
  | .store x => some { s with current := x, stored := x :: s.stored }
  | .read =>
    match s.program with
    | .read next => some { s with begun := true, program := next s.current }
    | _ => none
  | .emit =>
    match s.program with
    | .emit o rest => some { s with program := rest, emitted := s.emitted ++ [o] }
    | _ => none

def StoresAlike (same : σ → σ → Prop) (s : CellState σ ω α) : CellAction σ → Prop
  | .store x => s.begun → !s.program.isDone → same s.current x
  | _ => True

instance (same : σ → σ → Prop) [DecidableRel same] (s : CellState σ ω α) (a : CellAction σ) :
    Decidable (s.StoresAlike same a) :=
  match a with
  | .store _ => inferInstanceAs (Decidable (_ → _ → _))
  | .read => instDecidableTrue
  | .emit => instDecidableTrue

variable {same : σ → σ → Prop} {P : σ → ω → Prop} {s s' : CellState σ ω α} {a : CellAction σ}

structure Keeps (same : σ → σ → Prop) (P : σ → ω → Prop) (s : CellState σ ω α) : Prop where
  current : s.current ∈ s.stored
  emitted : ∀ o ∈ s.emitted, ∃ x ∈ s.stored, P x o
  unbegun : s.begun = false → ∀ x, s.program.Sound (same x) P []
  begun : s.begun → s.program.isDone ∨
    ∃ x seen, same x s.current ∧ seen ⊆ s.stored ∧ s.program.Sound (same x) P seen

theorem keeps_start (x : σ) {program : CellProgram σ ω α}
    (h : ∀ x, program.Sound (same x) P []) : (start x program).Keeps same P where
  current := List.mem_singleton_self x
  emitted _ ho := absurd ho List.not_mem_nil
  unbegun _ := h
  begun h := by cases h

theorem Keeps.store (hs : s.Keeps same P) (htrans : ∀ x y z, same x y → same y z → same x z) {x : σ}
    (halike : s.begun → !s.program.isDone → same s.current x) :
    Keeps same P { s with current := x, stored := x :: s.stored } where
  current := List.mem_cons_self
  emitted o ho := by
    obtain ⟨y, hy, hP⟩ := hs.emitted o ho
    exact ⟨y, List.mem_cons_of_mem _ hy, hP⟩
  unbegun := hs.unbegun
  begun hbegun := by
    rcases hs.begun hbegun with hdone | ⟨y, seen, hsame, hseen, hsound⟩
    · exact .inl hdone
    · by_cases hdone : s.program.isDone
      · exact .inl hdone
      · exact .inr ⟨y, seen, htrans _ _ _ hsame (halike hbegun (by simp [hdone])),
          List.subset_cons_of_subset _ hseen, hsound⟩

theorem Keeps.read (hs : s.Keeps same P) (hrefl : ∀ x, same x x) {next : σ → CellProgram σ ω α}
    (hprogram : s.program = .read next) :
    Keeps same P { s with begun := true, program := next s.current } where
  current := hs.current
  emitted := hs.emitted
  unbegun h := by cases h
  begun _ := by
    cases hbegun : s.begun with
    | false =>
      have hsound := hs.unbegun hbegun s.current
      rw [hprogram] at hsound
      exact .inr ⟨s.current, [s.current], hrefl _, by simpa using hs.current, hsound _ (hrefl _)⟩
    | true =>
      rcases hs.begun hbegun with hdone | ⟨x, seen, hsame, hseen, hsound⟩
      · rw [hprogram] at hdone
        cases hdone
      · rw [hprogram] at hsound
        exact .inr ⟨x, s.current :: seen, hsame, List.cons_subset.mpr ⟨hs.current, hseen⟩, hsound _ hsame⟩

theorem Keeps.emit (hs : s.Keeps same P) {o : ω} {rest : CellProgram σ ω α}
    (hprogram : s.program = .emit o rest) :
    Keeps same P { s with program := rest, emitted := s.emitted ++ [o] } := by
  cases hbegun : s.begun with
  | false =>
    have hsound := hs.unbegun hbegun s.current
    rw [hprogram] at hsound
    obtain ⟨⟨x, hx, _⟩, _⟩ := hsound
    cases hx
  | true =>
    rcases hs.begun hbegun with hdone | ⟨x, seen, hsame, hseen, hsound⟩
    · rw [hprogram] at hdone
      cases hdone
    · rw [hprogram] at hsound
      obtain ⟨⟨y, hy, hP⟩, hsound⟩ := hsound
      refine ⟨hs.current, List.forall_mem_append.mpr ⟨hs.emitted, ?_⟩, ?_, ?_⟩
      · intro o' ho'
        obtain rfl := List.mem_singleton.mp ho'
        exact ⟨y, hseen hy, hP⟩
      · intro h
        cases h
      · exact fun _ => .inr ⟨x, seen, hsame, hseen, hsound⟩

theorem keeps_step (hrefl : ∀ x, same x x) (htrans : ∀ x y z, same x y → same y z → same x z)
    (hs : s.Keeps same P) (halike : s.StoresAlike same a) (h : s.step a = some s') :
    s'.Keeps same P := by
  cases a with
  | store x =>
    obtain rfl := Option.some.inj h
    exact hs.store htrans halike
  | read =>
    unfold step at h
    dsimp only at h
    split at h
    · rename_i next hprogram
      obtain rfl := Option.some.inj h
      exact hs.read hrefl hprogram
    · cases h
  | emit =>
    unfold step at h
    dsimp only at h
    split at h
    · rename_i o rest hprogram
      obtain rfl := Option.some.inj h
      exact hs.emit hprogram
    · cases h

/-- In a run whose stores keep what matters, every output comes from a value that the cell
has held. -/
theorem emitted_from_stored (hrefl : ∀ x, same x x) (htrans : ∀ x y z, same x y → same y z → same x z)
    {program : CellProgram σ ω α} (h : ∀ x, program.Sound (same x) P []) (x : σ)
    {as : List (CellAction σ)} (has : Runs.AllSteps step (StoresAlike same) (start x program) as) :
    Runs.AllStates step (fun s => ∀ o ∈ s.emitted, ∃ x ∈ s.stored, P x o) (start x program) as :=
  (Runs.AllStates.of_allSteps (fun _ _ _ hs ha hstep => keeps_step hrefl htrans hs ha hstep)
    (keeps_start x h) has).mono fun _ hs => hs.emitted

end CellState
