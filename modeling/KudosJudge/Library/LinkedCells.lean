import Mathlib.Logic.Function.Basic
import Mathlib.Data.List.Nodup

set_option autoImplicit false

/-!
Singly linked cells as a partial map from addresses. `Chain heap p cells` says
that the pointer `p` leads through `cells`, addresses with their values, to a
null pointer.
-/
namespace LinkedCells

variable {α β : Type*}

structure Cell (α β : Type*) where
  value : β
  next : Option α
deriving DecidableEq, Repr

inductive Chain (heap : α → Option (Cell α β)) : Option α → List (α × β) → Prop where
  | nil : Chain heap none []
  | cons {a : α} {v : β} {p : Option α} {cells : List (α × β)} (cell : heap a = some ⟨v, p⟩)
      (rest : Chain heap p cells) : Chain heap (some a) ((a, v) :: cells)

variable {heap heap' : α → Option (Cell α β)} {p : Option α} {cells : List (α × β)}

theorem Chain.eq_nil_of_none (h : Chain heap none cells) : cells = [] := by
  cases h with
  | nil => rfl

theorem Chain.frame (h : Chain heap p cells) (hsame : ∀ c ∈ cells, heap' c.1 = heap c.1) :
    Chain heap' p cells := by
  induction h with
  | nil => exact .nil
  | cons cell rest ih =>
    refine .cons ?_ (ih fun c hc => hsame c (List.mem_cons_of_mem _ hc))
    rw [hsame _ List.mem_cons_self, cell]

theorem Chain.allocated (h : Chain heap p cells) {c : α × β} (hc : c ∈ cells) :
    ∃ q, heap c.1 = some ⟨c.2, q⟩ := by
  induction h with
  | nil => cases hc
  | cons cell rest ih =>
    rcases List.mem_cons.mp hc with rfl | hc
    · exact ⟨_, cell⟩
    · exact ih hc

variable [DecidableEq α]

theorem Chain.frame_update (h : Chain heap p cells) {a : α} (ha : a ∉ cells.map Prod.fst)
    (cell : Option (Cell α β)) : Chain (Function.update heap a cell) p cells := by
  refine h.frame fun c hc => Function.update_of_ne (fun heq => ha ?_) ..
  exact List.mem_map.mpr ⟨c, hc, heq⟩

/-- Linking a new last cell: the `next` of the old last one is written. -/
theorem Chain.link (h : Chain heap p cells) (hnodup : (cells.map Prod.fst).Nodup) {a t : α}
    {v w : β} (hlast : cells.getLast? = some (t, v)) (hnew : heap a = some ⟨w, none⟩)
    (ha : a ∉ cells.map Prod.fst) :
    Chain (Function.update heap t (some ⟨v, some a⟩)) p (cells ++ [(a, w)]) := by
  induction h with
  | nil => cases hlast
  | @cons b u q rest cell chain ih =>
    rw [List.map_cons, List.nodup_cons] at hnodup
    rw [List.map_cons, List.mem_cons, not_or] at ha
    cases chain with
    | nil =>
      obtain ⟨rfl, rfl⟩ := Prod.mk.inj (Option.some.inj hlast)
      refine .cons (Function.update_self ..) (.cons ?_ .nil)
      rw [Function.update_of_ne ha.1, hnew]
    | cons cell' chain' =>
      rw [List.getLast?_cons_cons] at hlast
      have hne : b ≠ t := fun heq =>
        hnodup.1 (List.mem_map.mpr ⟨(t, v), List.mem_of_getLast? hlast, heq.symm⟩)
      refine .cons ?_ (ih hnodup.2 hlast ha.2)
      rw [Function.update_of_ne hne, cell]

theorem Chain.unlink {a : α} {cell : Cell α β} (h : Chain heap (some a) cells)
    (hcell : heap a = some cell) (hnodup : (cells.map Prod.fst).Nodup) :
    ∃ rest, cells = (a, cell.value) :: rest ∧ Chain heap cell.next rest ∧
      Chain (Function.update heap a none) cell.next rest := by
  cases h with
  | @cons _ v q rest hhead chain =>
    obtain rfl : cell = ⟨v, q⟩ := Option.some.inj (hcell.symm.trans hhead)
    rw [List.map_cons, List.nodup_cons] at hnodup
    exact ⟨rest, rfl, chain, chain.frame_update hnodup.1 none⟩

end LinkedCells
