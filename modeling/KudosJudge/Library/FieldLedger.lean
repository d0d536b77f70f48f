import Mathlib.Logic.Function.Basic
import Mathlib.Tactic.SplitIfs

set_option autoImplicit false

/-!
A program is seen as the list of its operations on a set of fields. It is clean if no
field is used or freed before it is assigned or after it is freed.
-/
namespace FieldLedger

inductive Status where
  | unassigned
  | assigned
  | freed
deriving DecidableEq, Repr

inductive Op (α : Type*) where
  | write (field : α)
  | use (field : α)
  | free (field : α)
deriving DecidableEq, Repr

variable {α : Type*} [DecidableEq α]

def Op.run (s : α → Status) : Op α → Option (α → Status)
  | .write field => some (Function.update s field .assigned)
  | .use field => if s field = .assigned then some s else none
  | .free field => if s field = .assigned then some (Function.update s field .freed) else none

def runAll (s : α → Status) : List (Op α) → Option (α → Status)
  | [] => some s
  | op :: ops => (op.run s).bind fun s' => runAll s' ops

def Clean (ops : List (Op α)) : Prop := (runAll (fun _ => .unassigned) ops).isSome = true

instance (ops : List (Op α)) : Decidable (Clean ops) :=
  inferInstanceAs (Decidable (_ = true))

/-- A field that is never assigned cannot be used or freed. -/
theorem runAll_unwritten {field : α} {ops : List (Op α)} {s : α → Status}
    (hwrite : .write field ∉ ops) (htouch : .use field ∈ ops ∨ .free field ∈ ops)
    (hs : s field ≠ .assigned) : runAll s ops = none := by
  induction ops generalizing s with
  | nil => simp at htouch
  | cons op ops ih =>
    have hrest : .write field ∉ ops := fun hmem => hwrite (List.mem_cons_of_mem op hmem)
    cases op with
    | write f =>
      have hf : field ≠ f := fun heq => hwrite (heq ▸ List.mem_cons_self)
      have hlater : .use field ∈ ops ∨ .free field ∈ ops := by simpa using htouch
      have hkept : Function.update s f .assigned field ≠ .assigned := by
        rw [Function.update_of_ne hf]
        exact hs
      exact ih hrest hlater hkept
    | use f =>
      rw [runAll, Op.run]
      split_ifs with hassigned
      · have hf : field ≠ f := fun heq => hs (heq ▸ hassigned)
        have hlater : .use field ∈ ops ∨ .free field ∈ ops := by simpa [hf] using htouch
        exact ih hrest hlater hs
      · rfl
    | free f =>
      rw [runAll, Op.run]
      split_ifs with hassigned
      · have hf : field ≠ f := fun heq => hs (heq ▸ hassigned)
        have hlater : .use field ∈ ops ∨ .free field ∈ ops := by simpa [hf] using htouch
        have hkept : Function.update s f .freed field ≠ .assigned := by
          rw [Function.update_of_ne hf]
          exact hs
        exact ih hrest hlater hkept
      · rfl

theorem Clean.written {ops : List (Op α)} (h : Clean ops) {field : α}
    (htouch : .use field ∈ ops ∨ .free field ∈ ops) : .write field ∈ ops := by
  by_contra hwrite
  have hnone : runAll (fun _ => .unassigned) ops = none :=
    runAll_unwritten hwrite htouch (fun hassigned => by cases hassigned)
  rw [Clean, hnone] at h
  cases h

end FieldLedger
