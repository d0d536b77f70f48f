import KudosJudge.CompareExact
import Mathlib.Order.WellFounded
import Mathlib.Logic.Relation

set_option autoImplicit false

namespace KudosJudge.CompareOutput

def Turn (s s' : Round) : Prop := s.rx ≠ [] ∧ round s = .inr s'

theorem turn_wellFounded : WellFounded fun s' s => Turn s s' :=
  Subrelation.wf (fun h => round_measure h.1 h.2) (InvImage.wf measure Nat.lt_wfRel.wf)

theorem scan_readPlus_le {buffer rx : List UInt8} {i goback readPlus k g r : ℕ}
    (h : scan buffer rx i goback readPlus = .stop k g r) : r ≤ readPlus + buffer.length := by
  induction buffer generalizing rx i goback readPlus with
  | nil =>
    simp only [scan, Scan.stop.injEq] at h
    omega
  | cons b buffer ih =>
    induction rx generalizing i goback with
    | nil =>
      simp only [scan, Scan.stop.injEq] at h
      omega
    | cons x rx ihr =>
      rw [List.length_cons]
      by_cases hb : b = cr
      · subst hb
        rw [scan_skip_reference _ (by simp)] at h
        have := ih h
        omega
      by_cases hx : x = cr
      · subst hx
        rw [scan_skip_output hb] at h
        exact ihr h
      by_cases he : x = b
      · subst he
        rw [scan_match hb] at h
        have := ih h
        omega
      · rw [scan_differ hb hx he] at h
        cases h

structure Bounded (size : ℕ) (s : Round) : Prop where
  goback : s.goback + s.rx.length ≤ size
  readPlus : s.readPlus + s.d.remaining.length ≤ size + s.d.content.length

theorem Bounded.turn {size : ℕ} {s s' : Round} (h : Bounded size s) (hturn : Turn s s') :
    Bounded size s' := by
  have hcontent := round_content hturn.2
  obtain ⟨buffer, i, hbuffer, -, hscan, hrx, hd⟩ := round_inr hturn.2
  obtain ⟨-, hi, -, hgoback, -, -⟩ := scan_bounds hscan
  have hplus := scan_readPlus_le hscan
  have hremaining := s'.d.remaining_le
  have hgo := h.goback
  have hread := h.readPlus
  have hgo' : s'.goback + s'.rx.length ≤ size := by
    rw [hrx, List.length_drop]
    omega
  refine ⟨hgo', ?_⟩
  rw [hcontent] at hremaining ⊢
  by_cases hdebt : s'.goback ≤ s'.readPlus
  · -- No way back: the reference pays for every carriage return that is read.
    rw [reposition_of_le hdebt] at hd
    have hsplit := congrArg List.length (s.d.read_split (min readSize s.rx.length))
    rw [List.length_append, Descriptor.read_fst, ← hbuffer, ← hd] at hsplit
    omega
  · omega

theorem bounded_turns {d : Descriptor} {rx : List UInt8} {s : Round}
    (h : Relation.ReflTransGen Turn ⟨d, rx, 0, 0⟩ s) :
    Bounded rx.length s ∧ s.d.content = d.content := by
  induction h with
  | refl =>
    have hremaining := d.remaining_le
    exact ⟨⟨by simp, by simp only; omega⟩, rfl⟩
  | tail _ hturn ih => exact ⟨ih.1.turn hturn, (round_content hturn.2).trans ih.2⟩

theorem compareInternal_isSome (d : Descriptor) (rx : List UInt8) (stage : ℤ) :
    (compareInternal d rx stage).isSome := by
  have hremaining := d.remaining_le
  unfold compareInternal
  split_ifs
  · rfl
  · exact drain_isSome (by omega)
  · exact rounds_isSome (measure_start d rx)

/-- For every reference, offset, chunk and stage the call returns. Its loop has no endless run
from any state at all, and in a run of it both counters stay below the two lengths together. -/
theorem compare_finishes (d : Descriptor) (rx : List UInt8) (stage : ℤ) :
    (∃ result d', compareOutput d rx stage = some (result, d')) ∧
      (¬ ∃ turns : ℕ → Round, ∀ n, Turn (turns n) (turns (n + 1))) ∧
      ∀ s, Relation.ReflTransGen Turn ⟨d, rx, 0, 0⟩ s →
        s.goback ≤ rx.length ∧ s.readPlus ≤ rx.length + d.content.length := by
  refine ⟨?_, ?_, fun s hturns => ?_⟩
  · obtain ⟨⟨result, d'⟩, h⟩ := Option.isSome_iff_exists.mp (compareInternal_isSome d rx stage)
    exact ⟨result, d', h⟩
  · rintro ⟨turns, hturns⟩
    exact (wellFounded_iff_isEmpty_descending_chain.mp turn_wellFounded).false ⟨turns, hturns⟩
  · obtain ⟨hbounded, hcontent⟩ := bounded_turns hturns
    have hgoback := hbounded.goback
    have hreadPlus := hbounded.readPlus
    rw [hcontent] at hreadPlus
    omega

end KudosJudge.CompareOutput
