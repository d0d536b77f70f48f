import Mathlib.Data.List.Basic

set_option autoImplicit false

/-!
The table of a process as the list of its descriptors, closed ones being `none`.
A new descriptor is the lowest closed one; a fork copies the table.
-/
namespace DescriptorTable

abbrev Table (ρ : Type*) := List (Option ρ)

variable {ρ : Type*}

def lookup (table : Table ρ) (fd : ℕ) : Option ρ := (table[fd]?).join

def put : Table ρ → ℕ → ρ → Table ρ
  | [], 0, entry => [some entry]
  | [], fd + 1, entry => none :: put [] fd entry
  | _ :: table, 0, entry => some entry :: table
  | old :: table, fd + 1, entry => old :: put table fd entry

def lowest : Table ρ → ℕ
  | [] => 0
  | none :: _ => 0
  | some _ :: table => lowest table + 1

def close (table : Table ρ) (fd : ℕ) : Table ρ := table.set fd none

def dup2 (table : Table ρ) (old new : ℕ) : Table ρ :=
  match lookup table old with
  | none => table
  | some entry => put table new entry

/-- `pipe`: the table with both ends, and their descriptors. -/
def pipe (table : Table ρ) (readEnd writeEnd : ρ) : Table ρ × ℕ × ℕ :=
  let first := put table (lowest table) readEnd
  (put first (lowest first) writeEnd, lowest table, lowest first)

theorem lookup_put_self (table : Table ρ) (fd : ℕ) (entry : ρ) :
    lookup (put table fd entry) fd = some entry := by
  induction table, fd, entry using put.induct with
  | case1 entry => rfl
  | case2 fd entry ih => exact ih
  | case3 old table entry => rfl
  | case4 old table fd entry ih => exact ih

theorem lookup_put_of_ne (table : Table ρ) {fd k : ℕ} (entry : ρ) (hne : k ≠ fd) :
    lookup (put table fd entry) k = lookup table k := by
  induction table, fd, entry using put.induct generalizing k with
  | case1 entry =>
    cases k with
    | zero => exact absurd rfl hne
    | succ k => rfl
  | case2 fd entry ih =>
    cases k with
    | zero => rfl
    | succ k => exact ih (fun heq => hne (congrArg Nat.succ heq))
  | case3 old table entry =>
    cases k with
    | zero => exact absurd rfl hne
    | succ k => rfl
  | case4 old table fd entry ih =>
    cases k with
    | zero => rfl
    | succ k => exact ih (fun heq => hne (congrArg Nat.succ heq))

theorem lookup_lowest (table : Table ρ) : lookup table (lowest table) = none := by
  induction table using lowest.induct with
  | case1 => rfl
  | case2 table => rfl
  | case3 entry table ih => exact ih

section

variable {table : Table ρ} {fd k : ℕ} {entry : ρ}

/-- What is open stays where it is when the lowest closed descriptor is taken. -/
theorem lookup_put_lowest (h : lookup table fd = some entry) (new : ρ) :
    lookup (put table (lowest table) new) fd = some entry := by
  rw [lookup_put_of_ne, h]
  rintro rfl
  rw [lookup_lowest] at h
  cases h

theorem lookup_pipe (h : lookup table fd = some entry) (readEnd writeEnd : ρ) :
    lookup (pipe table readEnd writeEnd).1 fd = some entry :=
  lookup_put_lowest (lookup_put_lowest h readEnd) writeEnd

theorem lookup_pipe_read (table : Table ρ) (readEnd writeEnd : ρ) :
    lookup (pipe table readEnd writeEnd).1 (pipe table readEnd writeEnd).2.1 = some readEnd :=
  lookup_put_lowest (lookup_put_self table _ readEnd) writeEnd

theorem lookup_pipe_write (table : Table ρ) (readEnd writeEnd : ρ) :
    lookup (pipe table readEnd writeEnd).1 (pipe table readEnd writeEnd).2.2 = some writeEnd :=
  lookup_put_self _ _ writeEnd

theorem lookup_close (h : lookup table fd = some entry) (hne : k ≠ fd) :
    lookup (close table k) fd = some entry := by
  rw [lookup, close, List.getElem?_set_ne hne]
  exact h

theorem lookup_dup2 (h : lookup table fd = some entry) (old : ℕ) (hne : k ≠ fd) :
    lookup (dup2 table old k) fd = some entry := by
  unfold dup2
  split
  · exact h
  · rw [lookup_put_of_ne table _ hne.symm, h]

theorem ne_of_lookup {other : ρ} (hk : lookup table k = some other)
    (hfd : lookup table fd = some entry) (hne : other ≠ entry) : k ≠ fd := by
  rintro rfl
  rw [hk, Option.some.injEq] at hfd
  exact hne hfd

end

end DescriptorTable
