import Mathlib.Data.List.Basic

/-!
# Delimited text

Rows of fields written one after another: a separator stands between the fields of a row, a
terminator after the row, and a field that holds a special symbol stands between quotes, the
quotes in it doubled. `read` is a machine that takes the text symbol by symbol, and
`read_write` says that it gives back every table of rows that are not empty.
-/

namespace Delimited

variable {α : Type*}

/-- The symbols of a delimited text. A field with a special symbol is written between quotes. -/
structure Dialect (α : Type*) where
  quote : α
  separator : α
  terminator : α
  special : List α
  quote_mem : quote ∈ special
  separator_mem : separator ∈ special
  terminator_mem : terminator ∈ special
  separator_ne_quote : separator ≠ quote
  terminator_ne_quote : terminator ≠ quote
  terminator_ne_separator : terminator ≠ separator

inductive Mode
  | start
  | bare
  | quoted
  | closed
  deriving DecidableEq, Repr

structure Reader (α : Type*) where
  mode : Mode
  field : List α
  row : List (List α)
  rows : List (List (List α))

namespace Reader

def initial : Reader α := ⟨.start, [], [], []⟩

def push (r : Reader α) (mode : Mode) (c : α) : Reader α :=
  { r with mode := mode, field := r.field ++ [c] }

def endField (r : Reader α) : Reader α :=
  { r with mode := .start, field := [], row := r.row ++ [r.field] }

def endRow (r : Reader α) : Reader α :=
  { r with mode := .start, field := [], row := [], rows := r.rows ++ [r.row ++ [r.field]] }

def finish (r : Reader α) : Option (List (List (List α))) :=
  match r.mode with
  | .quoted => none
  | .start => if r.row.isEmpty then some r.rows else some r.endRow.rows
  | .bare | .closed => some r.endRow.rows

end Reader

namespace Dialect

variable [DecidableEq α] (d : Dialect α)

def double (c : α) : List α := if c = d.quote then [c, c] else [c]

def escape (field : List α) : List α :=
  if field.any (· ∈ d.special) then d.quote :: (field.flatMap d.double ++ [d.quote]) else field

def writeRow (row : List (List α)) : List α :=
  [d.separator].intercalate (row.map d.escape) ++ [d.terminator]

def write (rows : List (List (List α))) : List α := rows.flatMap d.writeRow

/-- A symbol after a field: it ends the field, or the row, or it is an error. -/
def delimit (r : Reader α) (c : α) : Option (Reader α) :=
  if c = d.separator then some r.endField
  else if c = d.terminator then some r.endRow
  else none

def step (r : Reader α) (c : α) : Option (Reader α) :=
  match r.mode with
  | .start =>
    if c = d.quote then some { r with mode := .quoted }
    else if c ∈ d.special then d.delimit r c
    else some (r.push .bare c)
  | .bare => if c ∈ d.special then d.delimit r c else some (r.push .bare c)
  | .quoted => if c = d.quote then some { r with mode := .closed } else some (r.push .quoted c)
  | .closed => if c = d.quote then some (r.push .quoted c) else d.delimit r c

def read (text : List α) : Option (List (List (List α))) :=
  (text.foldlM d.step Reader.initial).bind Reader.finish

section Steps

variable {d} {r : Reader α}

theorem foldlM_bare (hmode : r.mode = .bare) {field : List α} (hfield : ∀ c ∈ field, c ∉ d.special) :
    field.foldlM d.step r = some { r with field := r.field ++ field } := by
  induction field generalizing r with
  | nil => simp
  | cons c field ih =>
    have hc : c ∉ d.special := hfield c List.mem_cons_self
    have hstep : d.step r c = some (r.push .bare c) := by simp [step, hmode, hc]
    rw [List.foldlM_cons, hstep, Option.bind_eq_bind, Option.bind_some,
      ih rfl fun c' hc' => hfield c' (List.mem_cons_of_mem _ hc')]
    simp [Reader.push, hmode]

/-- Between the quotes every symbol is read back from its doubling. -/
theorem foldlM_double (hmode : r.mode = .quoted) (field : List α) :
    (field.flatMap d.double).foldlM d.step r = some { r with field := r.field ++ field } := by
  induction field generalizing r with
  | nil => simp
  | cons c field ih =>
    have hstep : (d.double c).foldlM d.step r = some (r.push .quoted c) := by
      by_cases hc : c = d.quote
      · simp [double, step, hmode, hc, Reader.push]
      · simp [double, step, hmode, hc]
    rw [List.flatMap_cons, List.foldlM_append, hstep, Option.bind_eq_bind, Option.bind_some, ih rfl]
    simp [Reader.push, hmode]

/-- A written field is read back, and the reader stands behind it, not between quotes. -/
theorem foldlM_escape (hmode : r.mode = .start) (hempty : r.field = []) (field : List α) :
    ∃ mode, mode ≠ .quoted ∧
      (d.escape field).foldlM d.step r = some { r with mode := mode, field := field } := by
  unfold escape
  by_cases hspecial : field.any (· ∈ d.special)
  · have hopen : d.step r d.quote = some { r with mode := .quoted } := by simp [step, hmode]
    have hclose : d.step { r with mode := .quoted, field := field } d.quote =
        some { r with mode := .closed, field := field } := by simp [step]
    have hdouble := foldlM_double (d := d) (r := { r with mode := .quoted }) rfl field
    rw [if_pos hspecial, List.foldlM_cons, hopen, Option.bind_eq_bind, Option.bind_some,
      List.foldlM_append, hdouble]
    apply Exists.intro Mode.closed
    simp [hempty, hclose]
  · have hplain : ∀ c ∈ field, c ∉ d.special := by simpa using hspecial
    rw [if_neg hspecial]
    cases field with
    | nil =>
      have hsame : r = { r with mode := .start, field := [] } := by rw [← hmode, ← hempty]
      exact ⟨.start, by decide, congrArg some hsame⟩
    | cons c field =>
      have hc : c ∉ d.special := hplain c List.mem_cons_self
      have hne : c ≠ d.quote := fun h => hc (h ▸ d.quote_mem)
      have hstep : d.step r c = some (r.push .bare c) := by simp [step, hmode, hc, hne]
      have hrest := foldlM_bare (d := d) (r := r.push .bare c) rfl
        fun c' hc' => hplain c' (List.mem_cons_of_mem _ hc')
      apply Exists.intro Mode.bare
      rw [List.foldlM_cons, hstep, Option.bind_eq_bind, Option.bind_some, hrest]
      simp [Reader.push, hempty]

theorem step_separator (hmode : r.mode ≠ .quoted) : d.step r d.separator = some r.endField := by
  unfold step
  cases hcase : r.mode with
  | quoted => exact absurd hcase hmode
  | start => simp [d.separator_ne_quote, d.separator_mem, delimit]
  | bare => simp [d.separator_mem, delimit]
  | closed => simp [d.separator_ne_quote, delimit]

theorem step_terminator (hmode : r.mode ≠ .quoted) : d.step r d.terminator = some r.endRow := by
  unfold step
  cases hcase : r.mode with
  | quoted => exact absurd hcase hmode
  | start =>
    simp [d.terminator_ne_quote, d.terminator_mem, d.terminator_ne_separator, delimit]
  | bare => simp [d.terminator_mem, d.terminator_ne_separator, delimit]
  | closed => simp [d.terminator_ne_quote, d.terminator_ne_separator, delimit]

/-- A written row is read back behind the fields that were read before it. -/
theorem foldlM_writeRow (hmode : r.mode = .start) (hempty : r.field = []) {row : List (List α)}
    (hrow : row ≠ []) : (d.writeRow row).foldlM d.step r =
      some { r with row := [], rows := r.rows ++ [r.row ++ row] } := by
  unfold writeRow
  induction row generalizing r with
  | nil => exact absurd rfl hrow
  | cons field row ih =>
    obtain ⟨mode, hquoted, hfield⟩ := foldlM_escape (d := d) hmode hempty field
    cases row with
    | nil =>
      rw [List.map_singleton, List.intercalate_singleton, List.foldlM_append, hfield]
      simp [step_terminator (d := d) (r := { r with mode := mode, field := field }) hquoted,
        Reader.endRow, hmode, hempty]
    | cons next row =>
      have hnext := ih (r := Reader.endField { r with mode := mode, field := field }) rfl rfl
        (List.cons_ne_nil _ _)
      rw [List.map_cons, List.map_cons, List.intercalate_cons_cons, List.append_assoc,
        List.append_assoc, List.foldlM_append, hfield, Option.bind_eq_bind, Option.bind_some,
        List.singleton_append, List.foldlM_cons, step_separator hquoted, Option.bind_eq_bind,
        Option.bind_some, ← List.map_cons, hnext]
      simp [Reader.endField, hmode, hempty]

end Steps

/-- Reading gives back what was written, whatever symbols the fields hold. -/
theorem read_write {rows : List (List (List α))} (hrows : ∀ row ∈ rows, row ≠ []) :
    d.read (d.write rows) = some rows := by
  suffices hfold : ∀ r : Reader α, r.mode = .start → r.field = [] → r.row = [] →
      (d.write rows).foldlM d.step r = some { r with rows := r.rows ++ rows } by
    rw [read, hfold _ rfl rfl rfl]
    rfl
  unfold write
  induction rows with
  | nil => intro r hmode hfield hrow; simp
  | cons row rows ih =>
    intro r hmode hfield hrow
    have hrest := ih (fun row' h => hrows row' (List.mem_cons_of_mem _ h))
      { r with row := [], rows := r.rows ++ [r.row ++ row] } hmode hfield rfl
    rw [List.flatMap_cons, List.foldlM_append,
      foldlM_writeRow hmode hfield (hrows row List.mem_cons_self), Option.bind_eq_bind,
      Option.bind_some, hrest]
    simp [hrow]

end Dialect

end Delimited
