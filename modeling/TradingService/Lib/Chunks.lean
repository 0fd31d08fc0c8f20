import Mathlib

/-!
# Lists in chunks

A list cut into pieces of a given length, the last of which may be shorter, and a list that
was put together from pieces of known lengths.
-/

namespace List

variable {α : Type*}

def piecesOf (n : ℕ) : ℕ → List α → List (List α)
  | 0, _ => []
  | _ + 1, [] => []
  | fuel + 1, x :: xs => (x :: xs).take n :: piecesOf n fuel ((x :: xs).drop n)

def chunks (n : ℕ) (xs : List α) : List (List α) := piecesOf n xs.length xs

theorem flatten_piecesOf {n : ℕ} (hn : 1 ≤ n) (fuel : ℕ) (xs : List α) (h : xs.length ≤ fuel) :
    (piecesOf n fuel xs).flatten = xs := by
  induction fuel generalizing xs with
  | zero => simpa [piecesOf, eq_comm] using h
  | succ fuel ih =>
    cases xs with
    | nil => rfl
    | cons x xs =>
      simp only [length_cons] at h
      rw [piecesOf, flatten_cons, ih _ (by rw [length_drop, length_cons]; omega), take_append_drop]

theorem flatten_chunks {n : ℕ} (hn : 1 ≤ n) (xs : List α) : (xs.chunks n).flatten = xs :=
  flatten_piecesOf hn xs.length xs le_rfl

theorem ne_nil_of_mem_piecesOf {n : ℕ} (hn : 1 ≤ n) {fuel : ℕ} {xs c : List α}
    (h : c ∈ piecesOf n fuel xs) : c ≠ [] := by
  induction fuel generalizing xs with
  | zero => simp [piecesOf] at h
  | succ fuel ih =>
    cases xs with
    | nil => simp [piecesOf] at h
    | cons x xs =>
      rcases mem_cons.mp h with rfl | h
      · obtain ⟨m, rfl⟩ := Nat.exists_eq_add_of_le' hn
        exact cons_ne_nil _ _
      · exact ih h

theorem ne_nil_of_mem_chunks {n : ℕ} (hn : 1 ≤ n) {xs c : List α} (h : c ∈ xs.chunks n) : c ≠ [] :=
  ne_nil_of_mem_piecesOf hn h

/-- Pieces are found again by their lengths. -/
theorem splitLengths_flatten (pieces : List (List α)) :
    (pieces.map length).splitLengths pieces.flatten = pieces := by
  induction pieces with
  | nil => rfl
  | cons piece pieces ih =>
    rw [map_cons, flatten_cons, splitLengths_cons, take_left, drop_left, ih]

@[simp] theorem chunks_nil (n : ℕ) : ([] : List α).chunks n = [] := rfl

end List
