import Mathlib

/-!
# Replayed writes

A write to a place leaves it alone, sets a field of what is there, or puts something there
and forgets what was. Such writes compose to such a write, and what is written twice in a
row is written once. So a list of writes that is replayed as a whole leaves what it left
the first time.
-/

inductive PlaceWrite (F V : Type*)
  | keep
  | setField (x : F)
  | put (o : Option V)

namespace PlaceWrite

variable {F V : Type*} (set : F → V → V)

def run : PlaceWrite F V → Option V → Option V
  | .keep, o => o
  | .setField x, o => o.map (set x)
  | .put o, _ => o

def andThen : PlaceWrite F V → PlaceWrite F V → PlaceWrite F V
  | w, .keep => w
  | .keep, .setField x => .setField x
  | .setField _, .setField x => .setField x
  | .put o, .setField x => .put (o.map (set x))
  | _, .put o => .put o

def runAll (ws : List (PlaceWrite F V)) (o : Option V) : Option V :=
  ws.foldl (fun o w => w.run set o) o

theorem runAll_append (ws ws' : List (PlaceWrite F V)) (o : Option V) :
    runAll set (ws ++ ws') o = runAll set ws' (runAll set ws o) := List.foldl_append

variable {set} (hset : ∀ x y v, set x (set y v) = set x v)

include hset

theorem run_andThen (w w' : PlaceWrite F V) (o : Option V) :
    (andThen set w w').run set o = w'.run set (w.run set o) := by
  cases w' with
  | keep => rfl
  | put o' => cases w <;> rfl
  | setField x =>
    cases w with
    | keep => rfl
    | put o' => rfl
    | setField y =>
      cases o with
      | none => rfl
      | some v => exact congrArg some (hset x y v).symm

theorem run_run (w : PlaceWrite F V) (o : Option V) : w.run set (w.run set o) = w.run set o := by
  cases w with
  | keep => rfl
  | put o' => rfl
  | setField x =>
    cases o with
    | none => rfl
    | some v => exact congrArg some (hset x x v)

theorem exists_run_eq_runAll (ws : List (PlaceWrite F V)) :
    ∃ w : PlaceWrite F V, ∀ o, runAll set ws o = w.run set o := by
  induction ws with
  | nil => exact ⟨.keep, fun _ => rfl⟩
  | cons w ws ih =>
    obtain ⟨w', hw'⟩ := ih
    exact ⟨andThen set w w', fun o => (hw' _).trans (run_andThen hset w w' o).symm⟩

theorem runAll_runAll (ws : List (PlaceWrite F V)) (o : Option V) :
    runAll set ws (runAll set ws o) = runAll set ws o := by
  obtain ⟨w, hw⟩ := exists_run_eq_runAll hset ws
  rw [hw, hw, run_run hset]

end PlaceWrite
