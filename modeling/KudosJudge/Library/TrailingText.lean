import Mathlib.Data.List.DropRight
import Mathlib.Data.List.Count

set_option autoImplicit false

/-! Lists compared up to a trailing run of ignored elements: how
`List.rdropWhile` meets a common start and a first difference. -/
namespace TrailingText

variable {α : Type*} {p : α → Bool}

theorem rdropWhile_append_of_all {l a : List α} (h : ∀ x ∈ a, p x) :
    (l ++ a).rdropWhile p = l.rdropWhile p := by
  unfold List.rdropWhile
  rw [List.reverse_append, List.dropWhile_append_of_pos]
  intro x hx
  exact h x (List.mem_reverse.mp hx)

theorem rdropWhile_append_of_exists {l a : List α} (h : ¬ ∀ x ∈ a, p x) :
    (l ++ a).rdropWhile p = l ++ a.rdropWhile p := by
  have hne : (a.reverse.dropWhile p).isEmpty = false := by
    rw [List.isEmpty_eq_false_iff, Ne, List.dropWhile_eq_nil_iff]
    simpa using h
  unfold List.rdropWhile
  rw [List.reverse_append, List.dropWhile_append, hne]
  simp

theorem rdropWhile_append_cancel (l a b : List α) :
    (l ++ a).rdropWhile p = (l ++ b).rdropWhile p ↔ a.rdropWhile p = b.rdropWhile p := by
  have short : ∀ c : List α, (¬ ∀ x ∈ c, p x) → l.rdropWhile p ≠ l ++ c.rdropWhile p := by
    intro c hc eq
    have hle := (List.rdropWhile_prefix (p := p) l).length_le
    have hpos : 0 < (c.rdropWhile p).length := by
      rw [List.length_pos_iff, Ne, List.rdropWhile_eq_nil_iff]
      exact hc
    have hlen := congrArg List.length eq
    rw [List.length_append] at hlen
    omega
  by_cases ha : ∀ x ∈ a, p x <;> by_cases hb : ∀ x ∈ b, p x
  · simp only [rdropWhile_append_of_all ha, rdropWhile_append_of_all hb,
      List.rdropWhile_eq_nil_iff.mpr ha, List.rdropWhile_eq_nil_iff.mpr hb]
  · rw [rdropWhile_append_of_all ha, rdropWhile_append_of_exists hb,
      List.rdropWhile_eq_nil_iff.mpr ha]
    exact iff_of_false (short b hb) (fun h => hb (List.rdropWhile_eq_nil_iff.mp h.symm))
  · rw [rdropWhile_append_of_exists ha, rdropWhile_append_of_all hb,
      List.rdropWhile_eq_nil_iff.mpr hb]
    exact iff_of_false (fun h => short a ha h.symm) (fun h => ha (List.rdropWhile_eq_nil_iff.mp h))
  · rw [rdropWhile_append_of_exists ha, rdropWhile_append_of_exists hb, List.append_cancel_left_eq]

/-- Two elements that differ, not both ignored, keep the lists apart whatever follows. -/
theorem rdropWhile_cons_ne {x y : α} (hne : x ≠ y) (hp : ¬ (p x ∧ p y)) (a b : List α) :
    (x :: a).rdropWhile p ≠ (y :: b).rdropWhile p := by
  have head : ∀ (z : α) (c : List α), (z :: c).rdropWhile p = [] ∨
      ∃ c', (z :: c).rdropWhile p = z :: c' := by
    intro z c
    obtain ⟨t, ht⟩ := List.rdropWhile_prefix (p := p) (z :: c)
    cases h : (z :: c).rdropWhile p with
    | nil => exact .inl rfl
    | cons w c' =>
      rw [h] at ht
      injection ht with hw _
      exact .inr ⟨c', by rw [hw]⟩
  have ignored : ∀ (z : α) (c : List α), (z :: c).rdropWhile p = [] → p z :=
    fun z c h => List.rdropWhile_eq_nil_iff.mp h z List.mem_cons_self
  intro eq
  rcases head x a with hx | ⟨a', hx⟩ <;> rcases head y b with hy | ⟨b', hy⟩
  · exact hp ⟨ignored x a hx, ignored y b hy⟩
  · rw [hx, hy] at eq
    cases eq
  · rw [hx, hy] at eq
    cases eq
  · rw [hx, hy] at eq
    injection eq with h _
    exact hne h

theorem count_rdropWhile [DecidableEq α] {x : α} (hx : ¬ p x) (l : List α) :
    (l.rdropWhile p).count x = l.count x := by
  have gone : (l.rtakeWhile p).count x = 0 :=
    List.count_eq_zero.mpr fun h => hx (List.mem_rtakeWhile_imp h)
  have split := congrArg (List.count x) (List.rdropWhile_append_rtakeWhile (p := p) (l := l))
  rw [List.count_append, gone, Nat.add_zero] at split
  exact split

end TrailingText
