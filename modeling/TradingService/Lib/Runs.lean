import Mathlib

/-!
# Runs of a transition system

A system is a partial step function; what the environment decides is in the
action. A run follows a list of actions and ends early at one that cannot be
taken. `AllStates` speaks of every state of a run, `AllSteps` of every step it
takes. The rules derive a property of runs from a property of single steps, by way of
an invariant.
-/

namespace Runs

variable {σ ι : Type*} (step : σ → ι → Option σ)

def AllStates (P : σ → Prop) : σ → List ι → Prop
  | s, [] => P s
  | s, a :: as => P s ∧ ∀ s' ∈ step s a, AllStates P s' as

def AllSteps (C : σ → ι → Prop) : σ → List ι → Prop
  | _, [] => True
  | s, a :: as => ∀ s' ∈ step s a, C s a ∧ AllSteps C s' as

instance AllStates.decidable (P : σ → Prop) [DecidablePred P] :
    ∀ s as, Decidable (AllStates step P s as)
  | s, [] => inferInstanceAs (Decidable (P s))
  | s, a :: as =>
    have : DecidablePred fun s' => AllStates step P s' as := fun s' => decidable P s' as
    inferInstanceAs (Decidable (P s ∧ ∀ s' ∈ step s a, AllStates step P s' as))

instance AllSteps.decidable (C : σ → ι → Prop) [∀ s a, Decidable (C s a)] :
    ∀ s as, Decidable (AllSteps step C s as)
  | _, [] => inferInstanceAs (Decidable True)
  | s, a :: as =>
    have : DecidablePred fun s' => AllSteps step C s' as := fun s' => decidable C s' as
    inferInstanceAs (Decidable (∀ s' ∈ step s a, C s a ∧ AllSteps step C s' as))

def Reaches : σ → σ → Prop := Relation.ReflTransGen fun s s' => ∃ a, step s a = some s'

variable {step} {I P : σ → Prop} {C : σ → ι → Prop}

theorem Reaches.of_invariant (hstep : ∀ s a s', I s → step s a = some s' → I s') {s s' : σ} (h0 : I s)
    (h : Reaches step s s') : I s' := by
  induction h with
  | refl => exact h0
  | tail _ hlast ih =>
    obtain ⟨a, ha⟩ := hlast
    exact hstep _ a _ ih ha

theorem AllStates.head {s : σ} {as : List ι} (h : AllStates step P s as) : P s := by
  cases as with
  | nil => exact h
  | cons a as => exact h.1

theorem AllStates.mono {Q : σ → Prop} (hPQ : ∀ s, P s → Q s) {s : σ} {as : List ι}
    (h : AllStates step P s as) : AllStates step Q s as := by
  induction as generalizing s with
  | nil => exact hPQ s h
  | cons a as ih => exact ⟨hPQ s h.1, fun s' hs' => ih (h.2 s' hs')⟩

theorem AllStates.last {s s' : σ} {as : List ι} (h : AllStates step P s as)
    (hrun : as.foldlM step s = some s') : P s' := by
  induction as generalizing s with
  | nil => exact Option.some.inj hrun ▸ h
  | cons a as ih =>
    obtain ⟨s₁, hs₁, hrest⟩ := Option.bind_eq_some_iff.mp hrun
    exact ih (h.2 s₁ hs₁) hrest

/-- An invariant of the steps that meet `C` holds along every run of such steps. -/
theorem AllStates.of_allSteps (hstep : ∀ s a s', I s → C s a → step s a = some s' → I s')
    {s : σ} {as : List ι} (h0 : I s) (h : AllSteps step C s as) : AllStates step I s as := by
  induction as generalizing s with
  | nil => exact h0
  | cons a as ih =>
    refine ⟨h0, fun s' hs' => ?_⟩
    obtain ⟨hC, hrest⟩ := h s' hs'
    exact ih (hstep s a s' h0 hC hs') hrest

/-- An invariant of all steps holds along every run. -/
theorem AllStates.of_invariant (hstep : ∀ s a s', I s → step s a = some s' → I s') {s : σ}
    (h0 : I s) (as : List ι) : AllStates step I s as := by
  induction as generalizing s with
  | nil => exact h0
  | cons a as ih => exact ⟨h0, fun s' hs' => ih (hstep s a s' h0 hs')⟩

theorem AllSteps.trivial (s : σ) (as : List ι) : AllSteps step (fun _ _ => True) s as := by
  induction as generalizing s with
  | nil => exact True.intro
  | cons a as ih => exact fun s' _ => ⟨True.intro, ih s'⟩

theorem AllSteps.of_forall {as : List ι} (h : ∀ a ∈ as, ∀ s, C s a) (s : σ) : AllSteps step C s as := by
  induction as generalizing s with
  | nil => exact True.intro
  | cons a as ih =>
    obtain ⟨ha, has⟩ := List.forall_mem_cons.mp h
    exact fun s' _ => ⟨ha s, ih has s'⟩

/-- Where an invariant makes the steps that meet `C` meet `Q`, a run of such steps meets
`Q` throughout. -/
theorem AllSteps.of_invariant {Q : σ → ι → Prop}
    (hstep : ∀ s a s', I s → C s a → step s a = some s' → Q s a ∧ I s')
    {s : σ} {as : List ι} (h0 : I s) (h : AllSteps step C s as) : AllSteps step Q s as := by
  induction as generalizing s with
  | nil => exact True.intro
  | cons a as ih =>
    intro s' hs'
    obtain ⟨hC, hrest⟩ := h s' hs'
    obtain ⟨hQ, hI⟩ := hstep s a s' h0 hC hs'
    exact ⟨hQ, ih hI hrest⟩

/-- Where `P` can only be reached by a step that meets `C`, a run through `P` is of such
steps. -/
theorem AllSteps.of_allStates
    (hstep : ∀ s a s', I s → step s a = some s' → P s' → C s a ∧ I s')
    {s : σ} {as : List ι} (h0 : I s) (h : AllStates step P s as) : AllSteps step C s as := by
  induction as generalizing s with
  | nil => exact True.intro
  | cons a as ih =>
    intro s' hs'
    have hrest := h.2 s' hs'
    obtain ⟨hC, hI⟩ := hstep s a s' h0 hs' hrest.head
    exact ⟨hC, ih hI hrest⟩

end Runs
