import KudosJudge.CompareOutput
import KudosJudge.Library.TrailingText

set_option autoImplicit false

/-!
A round is summarised by how the question "do reference and output agree as
texts?" moves on to what is left of both. On chunks without carriage returns
every round keeps that question; the offset is then always right. A carriage
return in the output breaks it, because `goback` and `read_plus` of earlier
rounds of the call are counted again and because a short read at the end of
the reference is repositioned as if it had been a full one.
-/
namespace KudosJudge.CompareOutput

def withoutCr (l : List UInt8) : List UInt8 := l.filter (· ≠ cr)

/-- The text of a file or of an output: no `'\r'`, and no `'\n'` at the end. -/
def text (l : List UInt8) : List UInt8 := (withoutCr l).rdropWhile (· = lf)

theorem withoutCr_cons_cr (l : List UInt8) : withoutCr (cr :: l) = withoutCr l := by
  simp [withoutCr]

theorem withoutCr_cons {b : UInt8} (h : b ≠ cr) (l : List UInt8) :
    withoutCr (b :: l) = b :: withoutCr l := by
  simp [withoutCr, h]

theorem withoutCr_of_not_mem {l : List UInt8} (h : cr ∉ l) : withoutCr l = l := by
  rw [withoutCr, List.filter_eq_self]
  intro a ha
  simpa using fun e : a = cr => h (e ▸ ha)

theorem text_cons_cr (l : List UInt8) : text (cr :: l) = text l := by
  rw [text, withoutCr_cons_cr, text]

theorem text_cons_cancel {b : UInt8} (h : b ≠ cr) (l m : List UInt8) :
    text (b :: l) = text (b :: m) ↔ text l = text m := by
  unfold text
  rw [withoutCr_cons h, withoutCr_cons h]
  exact TrailingText.rdropWhile_append_cancel [b] _ _

theorem text_cons_ne {b x : UInt8} (hb : b ≠ cr) (hx : x ≠ cr) (hne : b ≠ x)
    (l m : List UInt8) : text (b :: l) ≠ text (x :: m) := by
  unfold text
  rw [withoutCr_cons hb, withoutCr_cons hx]
  apply TrailingText.rdropWhile_cons_ne hne
  simp only [decide_eq_true_eq]
  rintro ⟨h1, h2⟩
  exact hne (h1.trans h2.symm)

theorem text_eq_nil_iff (l : List UInt8) : text l = [] ↔ ∀ x ∈ l, x = cr ∨ x = lf := by
  rw [text, List.rdropWhile_eq_nil_iff]
  simp only [withoutCr, List.mem_filter, decide_eq_true_eq]
  exact forall_congr' fun x => by tauto

theorem text_append_of_blank {a : List UInt8} (h : ∀ x ∈ a, x = cr ∨ x = lf) (l : List UInt8) :
    text (a ++ l) = [] ↔ text l = [] := by
  simp only [text_eq_nil_iff, List.mem_append]
  exact ⟨fun hl x hx => hl x (.inr hx), fun hl x hx => hx.elim (h x) (hl x)⟩

namespace Descriptor

theorem read_fst (d : Descriptor) (n : ℕ) : (d.read n).1 = d.remaining.take n := rfl

theorem read_remaining (d : Descriptor) (n : ℕ) :
    (d.read n).2.remaining = d.remaining.drop n := by
  simp only [read, remaining, List.drop_drop, List.length_take, List.length_drop]
  rcases Nat.le_total n (d.content.length - d.offset) with h | h
  · rw [Nat.min_eq_left h]
  · rw [Nat.min_eq_right h, List.drop_of_length_le (by omega), List.drop_of_length_le (by omega)]

theorem read_split (d : Descriptor) (n : ℕ) :
    (d.read n).1 ++ (d.read n).2.remaining = d.remaining := by
  rw [read_fst, read_remaining, List.take_append_drop]

end Descriptor

/-- On a chunk without carriage returns the inner loop uses up the whole
reference block, so what is left of block and chunk carries the question on. -/
theorem scan_exact {buffer rx : List UInt8} (hrx : cr ∉ rx) (hlen : buffer.length ≤ rx.length)
    (i readPlus : ℕ) :
    (∃ result, scan buffer rx i 0 readPlus = .mismatch (result+1) ∧
      ∀ v w, text (buffer ++ v) ≠ text (rx ++ w)) ∨
    (∃ k readPlus', scan buffer rx i 0 readPlus = .stop (i+k) 0 readPlus' ∧ k ≤ rx.length ∧
      ∀ v w, text (buffer ++ v) = text (rx ++ w) ↔ text v = text (rx.drop k ++ w)) := by
  induction buffer generalizing rx i readPlus with
  | nil =>
    refine .inr ⟨0, readPlus, by simp [scan], Nat.zero_le _, fun v w => ?_⟩
    rw [List.nil_append, List.drop_zero]
  | cons b buffer ih =>
    cases rx with
    | nil => simp at hlen
    | cons x rx =>
      have hx : x ≠ cr := fun e => hrx (e ▸ List.mem_cons_self)
      by_cases hb : b = cr
      · subst hb
        rw [scan_skip_reference _ (by simp)]
        simp only [List.cons_append, text_cons_cr]
        exact ih hrx (by simp only [List.length_cons] at hlen ⊢; omega) i (readPlus+1)
      by_cases he : x = b
      · subst he
        rw [scan_match hx]
        rcases ih (fun h => hrx (List.mem_cons_of_mem _ h))
          (by simpa using hlen) (i+1) readPlus with ⟨result, hs, ht⟩ | ⟨k, rp, hs, hk, ht⟩
        · refine .inl ⟨result, hs, fun v w => ?_⟩
          simp only [List.cons_append]
          rw [Ne, text_cons_cancel hx]
          exact ht v w
        · refine .inr ⟨k+1, rp, ?_, by simpa using hk, fun v w => ?_⟩
          · rw [hs]
            congr 1
            omega
          · simp only [List.cons_append]
            rw [text_cons_cancel hx, ht v w, List.drop_succ_cons]
      · refine .inl ⟨i, scan_differ hb hx he .., fun v w => ?_⟩
        simp only [List.cons_append]
        exact text_cons_ne hb hx (Ne.symm he) _ _

theorem scan_bounds {buffer rx : List UInt8} {i goback readPlus k g r : ℕ}
    (h : scan buffer rx i goback readPlus = .stop k g r) :
    i ≤ k ∧ k ≤ i + rx.length ∧ goback ≤ g ∧ g + i ≤ goback + k ∧ readPlus ≤ r ∧
      (k = i → rx ≠ [] → r = readPlus + buffer.length) := by
  induction buffer generalizing rx i goback readPlus with
  | nil =>
    simp only [scan, Scan.stop.injEq] at h
    simp only [List.length_nil]
    omega
  | cons b buffer ih =>
    induction rx generalizing i goback with
    | nil =>
      rw [scan_nil_right, Scan.stop.injEq] at h
      obtain ⟨rfl, rfl, rfl⟩ := h
      exact ⟨le_rfl, Nat.le_add_right _ _, le_rfl, le_rfl, le_rfl, fun _ hne => absurd rfl hne⟩
    | cons x rx ihr =>
      by_cases hb : b = cr
      · subst hb
        rw [scan_skip_reference _ (by simp)] at h
        obtain ⟨h1, h2, h3, h4, h5, h6⟩ := ih h
        refine ⟨h1, h2, h3, h4, by omega, fun hk hne => ?_⟩
        have := h6 hk hne
        simp only [List.length_cons]
        omega
      by_cases hx : x = cr
      · subst hx
        rw [scan_skip_output hb] at h
        obtain ⟨h1, h2, h3, h4, h5, _⟩ := ihr h
        simp only [List.length_cons]
        omega
      by_cases he : x = b
      · subst he
        rw [scan_match hb] at h
        obtain ⟨h1, h2, h3, h4, h5, _⟩ := ih h
        simp only [List.length_cons]
        omega
      · rw [scan_differ hb hx he] at h
        cases h

theorem reposition_content (d : Descriptor) (g r : ℕ) :
    (reposition d g r).content = d.content := by
  simp only [reposition, Descriptor.lseekSet]
  split_ifs <;> rfl

theorem reposition_of_le {g r : ℕ} (h : g ≤ r) (d : Descriptor) : reposition d g r = d := by
  unfold reposition
  rw [if_neg (by omega)]

theorem Descriptor.remaining_le (d : Descriptor) : d.remaining.length ≤ d.content.length := by
  simp only [Descriptor.remaining, List.length_drop]
  omega

theorem round_inr {s s' : Round} (h : round s = .inr s') :
    ∃ buffer i, buffer = s.d.remaining.take (min readSize s.rx.length) ∧ buffer ≠ [] ∧
      scan buffer s.rx 0 s.goback s.readPlus = .stop i s'.goback s'.readPlus ∧
      s'.rx = s.rx.drop i ∧
      s'.d = reposition (s.d.read (min readSize s.rx.length)).2 s'.goback s'.readPlus := by
  simp only [round] at h
  split_ifs at h with hb
  cases hs : scan (s.d.read (min readSize s.rx.length)).1 s.rx 0 s.goback s.readPlus with
  | mismatch result => rw [hs] at h; cases h
  | stop i g r =>
    rw [hs] at h
    injection h with h
    subst h
    exact ⟨_, i, rfl, hb, hs, rfl, rfl⟩

def measure (s : Round) : ℕ :=
  s.rx.length * (2*s.d.content.length+2) +
    (s.goback - s.readPlus) * (s.d.content.length+1) + s.d.remaining.length

theorem round_content {s s' : Round} (h : round s = .inr s') : s'.d.content = s.d.content := by
  obtain ⟨_, _, _, _, _, _, hd⟩ := round_inr h
  rw [hd, reposition_content]
  rfl

/-- The weights of `measure`: a used chunk byte pays for the debt it may add and
for any way back in the reference. -/
theorem measure_chunk {n L i debt debt' rem rem' : ℕ} (hi : 1 ≤ i) (hL : i ≤ L)
    (hdebt : debt' ≤ debt + i) (hrem : rem' ≤ n) :
    (L-i) * (2*n+2) + debt' * (n+1) + rem' < L * (2*n+2) + debt * (n+1) + rem := by
  obtain ⟨m, rfl⟩ := Nat.exists_eq_add_of_le hL
  have hd := Nat.mul_le_mul_right (n+1) hdebt
  have hp := Nat.mul_le_mul_right (n+1) hi
  rw [Nat.add_mul] at hd
  rw [Nat.add_sub_cancel_left, Nat.add_mul, show 2*n+2 = 2*(n+1) by omega]
  have he : i * (2*(n+1)) = 2 * (i*(n+1)) := Nat.mul_left_comm ..
  omega

theorem measure_debt {n base debt debt' rem rem' : ℕ} (hdebt : debt' + 1 ≤ debt) (hrem : rem' ≤ n) :
    base + debt' * (n+1) + rem' < base + debt * (n+1) + rem := by
  have hd := Nat.mul_le_mul_right (n+1) hdebt
  rw [Nat.add_mul, Nat.one_mul] at hd
  omega

theorem round_measure {s s' : Round} (hrx : s.rx ≠ []) (h : round s = .inr s') :
    measure s' < measure s := by
  have hc := round_content h
  obtain ⟨buffer, i, hbuf, hne, hs, hrx', hd⟩ := round_inr h
  obtain ⟨_, hi, _, hg, hr, hzero⟩ := scan_bounds hs
  have hpos : 0 < buffer.length := List.length_pos_iff.mpr hne
  have hrem : s'.d.remaining.length ≤ s.d.content.length := hc ▸ s'.d.remaining_le
  unfold measure
  rw [hc, hrx', List.length_drop]
  by_cases hk : i = 0
  · -- no chunk byte was used: the block was all carriage returns
    subst hk
    have hr' := hzero rfl hrx
    rw [Nat.sub_zero]
    by_cases hdebt : s.goback ≤ s.readPlus
    · rw [reposition_of_le (by omega)] at hd
      have hlen : s'.d.remaining.length + buffer.length = s.d.remaining.length := by
        rw [hd, hbuf, Nat.add_comm, ← List.length_append]
        exact congrArg List.length (s.d.read_split _)
      rw [Nat.sub_eq_zero_of_le hdebt, Nat.sub_eq_zero_of_le (by omega)]
      omega
    · exact measure_debt (by omega) hrem
  · exact measure_chunk (by omega) (by omega) (by omega) hrem

theorem rounds_isSome {fuel : ℕ} {s : Round} (h : measure s < fuel) : (rounds fuel s).isSome := by
  induction fuel generalizing s with
  | zero => omega
  | succ fuel ih =>
    unfold rounds
    by_cases hrx : s.rx = []
    · simp [hrx]
    · rw [if_neg hrx]
      cases hr : round s with
      | inl out => rfl
      | inr s' =>
        have := round_measure hrx hr
        exact ih (by omega)

theorem drain_isSome {fuel : ℕ} {d : Descriptor} (h : d.remaining.length < fuel) :
    (drain fuel d).isSome := by
  induction fuel generalizing d with
  | zero => omega
  | succ fuel ih =>
    simp only [drain]
    split_ifs with hb
    · rfl
    · rfl
    · apply ih
      have hpos := List.length_pos_iff.mpr hb
      have hsplit := congrArg List.length (d.read_split readSize)
      rw [List.length_append] at hsplit
      omega

/-- The question whether the reference from `d` on and the output `rx ++ w`
are the same text, for every continuation `w`, has become the same question
about `d'` and `rx' ++ w`. -/
def Carries (d d' : Descriptor) (rx rx' : List UInt8) : Prop :=
  d'.flags = d.flags ∧
    ∀ w, text d.remaining = text (rx ++ w) ↔ text d'.remaining = text (rx' ++ w)

theorem Carries.trans {d d' d'' : Descriptor} {rx rx' rx'' : List UInt8}
    (h : Carries d d' rx rx') (h' : Carries d' d'' rx' rx'') : Carries d d'' rx rx'' :=
  ⟨h'.1.trans h.1, fun w => (h.2 w).trans (h'.2 w)⟩

theorem Carries.append {d d' d'' : Descriptor} {bytes chunk : List UInt8}
    (h : Carries d d' bytes []) (h' : Carries d' d'' chunk []) :
    Carries d d'' (bytes ++ chunk) [] := by
  refine ⟨h'.1.trans h.1, fun rest => ?_⟩
  rw [List.append_assoc, h.2 (chunk ++ rest), List.nil_append]
  exact h'.2 rest

/-- The three outcomes of a round on output without carriage returns: a
difference that no continuation can mend, the end of the reference, or a next
round with the question carried on. -/
theorem round_exact {s : Round} (hg : s.goback = 0) (hcr : cr ∉ s.rx) (hne : s.rx ≠ []) :
    (∃ r d, round s = .inl (r, d) ∧ r ≠ 0 ∧ ∀ w, text s.d.remaining ≠ text (s.rx ++ w)) ∨
    (∃ d, round s = .inl (0, d) ∧ Carries s.d d s.rx []) ∨
    (∃ s', round s = .inr s' ∧ s'.goback = 0 ∧ cr ∉ s'.rx ∧ Carries s.d s'.d s.rx s'.rx) := by
  set n := min readSize s.rx.length with hn
  by_cases hb : (s.d.read n).1 = []
  · -- end of file: `read` asked for at least one byte
    have hpos : 0 < n := by
      have := List.length_pos_iff.mpr hne
      simp only [hn, readSize]
      omega
    have hend : s.d.remaining = [] := by
      rw [Descriptor.read_fst, List.take_eq_nil_iff] at hb
      exact hb.resolve_left (by omega)
    by_cases hany : s.rx.any (fun x => x ≠ cr ∧ x ≠ lf)
    · refine .inl ⟨20, (s.d.read n).2, ?_, by decide, fun w eq => ?_⟩
      · simp only [round, ← hn, hb, hany, if_true]
      · rw [hend] at eq
        obtain ⟨x, hx, hp⟩ := List.any_eq_true.mp hany
        have := (text_eq_nil_iff _).mp eq.symm x (List.mem_append_left _ hx)
        simp only [decide_eq_true_eq] at hp
        exact this.elim hp.1 hp.2
    · refine .inr (.inl ⟨(s.d.read n).2, ?_, rfl, fun w => ?_⟩)
      · simp only [round, ← hn, hb, hany, if_true, if_false, Bool.false_eq_true]
      · have hblank : ∀ x ∈ s.rx, x = cr ∨ x = lf := by
          intro x hx
          by_contra hp
          exact hany (List.any_eq_true.mpr ⟨x, hx, by simpa [not_or] using hp⟩)
        rw [Descriptor.read_remaining, hend, List.drop_nil, eq_comm, List.nil_append,
          eq_comm (b := text w)]
        exact text_append_of_blank hblank w
  · have hlen : (s.d.read n).1.length ≤ s.rx.length := by
      rw [Descriptor.read_fst, List.length_take]
      omega
    rcases scan_exact hcr hlen 0 s.readPlus with ⟨result, hs, ht⟩ | ⟨k, rp, hs, hk, ht⟩
    · refine .inl ⟨(result+1 : ℕ), (s.d.read n).2, ?_, by omega, fun w => ?_⟩
      · simp only [round, ← hn, hb, if_false, hg, hs]
      · rw [← s.d.read_split n]
        exact ht _ w
    · refine .inr (.inr ⟨⟨(s.d.read n).2, s.rx.drop k, 0, rp⟩, ?_, rfl, ?_, rfl, fun w => ?_⟩)
      · simp only [round, ← hn, hb, if_false, hg, hs, Nat.zero_add, reposition_of_le (Nat.zero_le rp)]
      · exact fun h => hcr (List.mem_of_mem_drop h)
      · rw [← s.d.read_split n]
        exact ht _ w

theorem rounds_exact {fuel : ℕ} {s : Round} {r : ℤ} {d : Descriptor} (hg : s.goback = 0)
    (hcr : cr ∉ s.rx) (h : rounds fuel s = some (r, d)) :
    (r = 0 → Carries s.d d s.rx []) ∧
      (r ≠ 0 → ∀ w, text s.d.remaining ≠ text (s.rx ++ w)) := by
  induction fuel generalizing s with
  | zero => cases h
  | succ fuel ih =>
    unfold rounds at h
    by_cases hne : s.rx = []
    · rw [if_pos hne, Option.some.injEq, Prod.mk.injEq] at h
      obtain ⟨rfl, rfl⟩ := h
      exact ⟨fun _ => ⟨rfl, fun w => by rw [hne]⟩, fun h => absurd rfl h⟩
    rw [if_neg hne] at h
    rcases round_exact hg hcr hne with ⟨r', d', hr, h0, ht⟩ | ⟨d', hr, hc⟩ | ⟨s', hr, hg', hcr', hc⟩
    · simp only [hr, Option.some.injEq, Prod.mk.injEq] at h
      exact ⟨fun e => absurd (h.1.trans e) h0, fun _ => ht⟩
    · simp only [hr, Option.some.injEq, Prod.mk.injEq] at h
      obtain ⟨rfl, rfl⟩ := h
      exact ⟨fun _ => hc, fun h => absurd rfl h⟩
    · simp only [hr] at h
      obtain ⟨h0, hn⟩ := ih hg' hcr' h
      exact ⟨fun e => hc.trans (h0 e), fun e w => fun eq => hn e w ((hc.2 w).mp eq)⟩

theorem drain_exact {fuel : ℕ} {d d' : Descriptor} {r : ℤ} (h : drain fuel d = some (r, d')) :
    r = 0 ↔ text d.remaining = [] := by
  induction fuel generalizing d with
  | zero => cases h
  | succ fuel ih =>
    simp only [drain] at h
    rw [text_eq_nil_iff]
    split_ifs at h with hb hany
    · rw [Option.some.injEq, Prod.mk.injEq] at h
      have hend : d.remaining = [] := by
        rw [Descriptor.read_fst, List.take_eq_nil_iff] at hb
        exact hb.resolve_left (by decide)
      simp [← h.1, hend]
    · rw [Option.some.injEq, Prod.mk.injEq] at h
      obtain ⟨x, hx, hp⟩ := List.any_eq_true.mp hany
      simp only [decide_eq_true_eq] at hp
      refine iff_of_false (by rw [← h.1]; decide) (fun hall => ?_)
      exact (hall x (List.mem_of_mem_take hx)).elim hp.2 hp.1
    · rw [ih h, text_eq_nil_iff, ← d.read_split readSize]
      have hblank : ∀ x ∈ (d.read readSize).1, x = cr ∨ x = lf := by
        intro x hx
        by_contra hp
        exact hany (List.any_eq_true.mpr ⟨x, hx, by simpa [not_or, and_comm] using hp⟩)
      simp only [List.mem_append]
      exact ⟨fun hl x hx => hx.elim (hblank x) (hl x), fun hl x hx => hl x (.inr hx)⟩

theorem round_nonneg {s : Round} {r : ℤ} {d : Descriptor} (h : round s = .inl (r, d)) : 0 ≤ r := by
  simp only [round] at h
  split_ifs at h
  · cases h
    decide
  · cases h
    exact Int.le_refl 0
  · split at h
    · cases h
      exact Int.natCast_nonneg _
    · cases h

theorem rounds_nonneg {fuel : ℕ} {s : Round} {r : ℤ} {d : Descriptor}
    (h : rounds fuel s = some (r, d)) : 0 ≤ r := by
  induction fuel generalizing s with
  | zero => cases h
  | succ fuel ih =>
    unfold rounds at h
    split_ifs at h
    · cases h
      exact Int.le_refl 0
    · split at h
      · rename_i out hround
        rw [Option.some.inj h] at hround
        exact round_nonneg hround
      · exact ih h

theorem round_flags (s : Round) :
    match round s with
    | .inl out => out.2.flags = s.d.flags
    | .inr s' => s'.d.flags = s.d.flags := by
  have hback : ∀ (d : Descriptor) (g r : ℕ), (reposition d g r).flags = d.flags := by
    intro d g r
    simp only [reposition, Descriptor.lseekSet]
    split_ifs <;> rfl
  cases hround : round s with
  | inl out =>
    simp only [round] at hround
    split_ifs at hround
    · cases hround
      rfl
    · cases hround
      rfl
    · split at hround
      · cases hround
        rfl
      · cases hround
  | inr s' =>
    obtain ⟨_, _, _, _, _, _, hd⟩ := round_inr hround
    simp only [hd, hback]
    rfl

theorem rounds_flags {fuel : ℕ} {s : Round} {out : ℤ × Descriptor}
    (h : rounds fuel s = some out) : out.2.flags = s.d.flags := by
  induction fuel generalizing s with
  | zero => cases h
  | succ fuel ih =>
    have hflags := round_flags s
    unfold rounds at h
    split_ifs at h
    · cases h
      rfl
    · split at h
      · rename_i out' hround
        rw [hround, Option.some.inj h] at hflags
        exact hflags
      · rename_i s' hround
        rw [hround] at hflags
        exact (ih h).trans hflags

theorem drain_nonneg {fuel : ℕ} {d d' : Descriptor} {r : ℤ} (h : drain fuel d = some (r, d')) :
    0 ≤ r := by
  induction fuel generalizing d with
  | zero => cases h
  | succ fuel ih =>
    simp only [drain] at h
    split_ifs at h
    · cases h
      exact Int.le_refl 0
    · cases h
      decide
    · exact ih h

theorem compareOutput_last (d : Descriptor) (rx : List UInt8) :
    ∃ r d', compareOutput d rx (-1) = some (r, d') ∧ (r = 0 ↔ text d.remaining = []) ∧ 0 ≤ r := by
  have hs : (drain (d.content.length+1) d).isSome := drain_isSome (by have := d.remaining_le; omega)
  obtain ⟨⟨r, d'⟩, h⟩ := Option.isSome_iff_exists.mp hs
  exact ⟨r, d', by simp [compareOutput, compareInternal, h], drain_exact h, drain_nonneg h⟩

theorem compareOutput_chunk (d : Descriptor) (rx : List UInt8) (stage : ℕ) (hd : d.flags = oRdwr) :
    compareOutput d rx stage = rounds (roundBudget d.content.length rx.length) ⟨d, rx, 0, 0⟩ := by
  simp [compareOutput, compareInternal, hd, oRdwr]

theorem measure_start (d : Descriptor) (rx : List UInt8) :
    measure ⟨d, rx, 0, 0⟩ < roundBudget d.content.length rx.length := by
  have := d.remaining_le
  have := Nat.mul_le_mul_left rx.length (show 2*d.content.length+2 ≤ 2*d.content.length+3 by omega)
  simp only [measure, roundBudget]
  omega

theorem compareOutput_returns (d : Descriptor) (rx : List UInt8) (stage : ℕ) (hd : d.flags = oRdwr) :
    ∃ r d', compareOutput d rx stage = some (r, d') := by
  rw [compareOutput_chunk d rx stage hd]
  obtain ⟨⟨r, d'⟩, h⟩ := Option.isSome_iff_exists.mp (rounds_isSome (measure_start d rx))
  exact ⟨r, d', h⟩

theorem compareChunks_exact {chunks : List (List UInt8)} (hcr : ∀ c ∈ chunks, cr ∉ c)
    (d : Descriptor) (stage : ℕ) (hd : d.flags = oRdwr) :
    compareChunks d stage chunks = some 0 ↔ text d.remaining = text chunks.flatten := by
  induction chunks generalizing d stage with
  | nil =>
    obtain ⟨r, d', h, hr, -⟩ := compareOutput_last d []
    simp only [compareChunks, h, Option.map_some, Option.some.injEq, List.flatten_nil]
    exact hr
  | cons c chunks ih =>
    obtain ⟨r, d', h⟩ := compareOutput_returns d c stage hd
    have hs := h
    rw [compareOutput_chunk d c stage hd] at hs
    obtain ⟨h0, hn⟩ := rounds_exact rfl (hcr c List.mem_cons_self) hs
    simp only [compareChunks, h, List.flatten_cons]
    by_cases hr : r = 0
    · obtain ⟨hf, ht⟩ := h0 hr
      rw [if_pos hr, ih (fun c hc => hcr c (List.mem_cons_of_mem _ hc)) d' _ (hf.trans hd), ht]
      rfl
    · rw [if_neg hr]
      exact iff_of_false (by simpa using hr) (hn hr _)

def filler : UInt8 := 120

/-- The reference segment that the two rounds on `chunk` read over. -/
def decoy (chunk : List UInt8) : List UInt8 :=
  List.replicate chunk.length cr ++ withoutCr chunk ++ List.replicate (chunk.count cr) filler

def decoys (chunks : List (List UInt8)) : List UInt8 := chunks.flatMap decoy

theorem length_withoutCr (l : List UInt8) : (withoutCr l).length + l.count cr = l.length := by
  induction l with
  | nil => rfl
  | cons x l ih =>
    by_cases hx : x = cr
    · subst hx
      simp only [withoutCr_cons_cr, List.count_cons_self, List.length_cons]
      omega
    · rw [withoutCr_cons hx, List.count_cons_of_ne hx, List.length_cons, List.length_cons]
      omega

theorem scan_block {rx : List UInt8} (hrx : rx ≠ []) (n i goback readPlus : ℕ) :
    scan (List.replicate n cr) rx i goback readPlus = .stop i goback (readPlus+n) := by
  induction n generalizing readPlus with
  | zero => rfl
  | succ n ih =>
    rw [List.replicate_succ, scan_skip_reference _ hrx, ih]
    congr 1
    omega

theorem scan_astray (chunk : List UInt8) (n i goback readPlus : ℕ) (hn : chunk.count cr ≤ n) :
    scan (withoutCr chunk ++ List.replicate n filler) chunk i goback readPlus =
      .stop (i+chunk.length) (goback+chunk.count cr) readPlus := by
  induction chunk generalizing i goback with
  | nil => rw [scan_nil_right]; rfl
  | cons x chunk ih =>
    by_cases hx : x = cr
    · subst hx
      rw [List.count_cons_self] at hn ⊢
      have step : ∀ b buffer, b ≠ cr →
          withoutCr chunk ++ List.replicate n filler = b :: buffer →
          scan (withoutCr chunk ++ List.replicate n filler) (cr :: chunk) i goback readPlus =
            .stop (i+(chunk.length+1)) (goback+(chunk.count cr+1)) readPlus := by
        intro b buffer hb heq
        have := ih (i+1) (goback+1) (by omega)
        rw [heq] at this ⊢
        rw [scan_skip_output hb, this]
        congr 1 <;> omega
      rw [withoutCr_cons_cr, List.length_cons]
      cases hc : withoutCr chunk with
      | nil =>
        obtain ⟨m, rfl⟩ : ∃ m, n = m+1 := ⟨n-1, by omega⟩
        rw [hc] at step
        exact step filler (List.replicate m filler) (by decide) rfl
      | cons b rest =>
        have hb : b ≠ cr := by
          have hmem : b ∈ withoutCr chunk := by rw [hc]; exact List.mem_cons_self
          simpa using (List.mem_filter.mp hmem).2
        rw [hc] at step
        exact step b _ hb rfl
    · rw [withoutCr_cons hx, List.cons_append, scan_match hx, List.count_cons_of_ne hx] at *
      rw [ih (i+1) goback hn, List.length_cons]
      congr 1
      omega

theorem Descriptor.read_block {d : Descriptor} {block rest : List UInt8} {n : ℕ}
    (h : d.remaining = block ++ rest) (hn : n = block.length) :
    (d.read n).1 = block ∧ (d.read n).2.remaining = rest := by
  rw [read_fst, read_remaining, h, hn]
  exact ⟨List.take_left, List.drop_left⟩

theorem round_stop {s : Round} (block rest : List UInt8) {i g r : ℕ}
    (hread : s.d.remaining = block ++ rest) (hlen : block.length = s.rx.length)
    (hsize : s.rx.length ≤ 255) (hne : s.rx ≠ [])
    (hs : scan block s.rx 0 s.goback s.readPlus = .stop i g r) (hle : g ≤ r) :
    ∃ d, round s = .inr ⟨d, s.rx.drop i, g, r⟩ ∧ d.remaining = rest ∧ d.flags = s.d.flags ∧
      d.content = s.d.content := by
  have hn : min readSize s.rx.length = block.length := by
    rw [hlen]
    exact Nat.min_eq_right (by unfold readSize; omega)
  obtain ⟨h1, h2⟩ := Descriptor.read_block hread hn
  have hb : block ≠ [] :=
    List.ne_nil_of_length_pos (by rw [hlen]; exact List.length_pos_iff.mpr hne)
  refine ⟨(s.d.read (min readSize s.rx.length)).2, ?_, h2, rfl, rfl⟩
  simp only [round, h1, if_neg hb, hs, reposition_of_le hle]

theorem compareOutput_astray {d : Descriptor} {chunk : List UInt8} (rest : List UInt8) (stage : ℕ)
    (hd : d.flags = oRdwr) (hne : chunk ≠ []) (hsize : chunk.length ≤ 255)
    (hread : d.remaining = decoy chunk ++ rest) :
    ∃ d', compareOutput d chunk stage = some (0, d') ∧ d'.remaining = rest ∧ d'.flags = oRdwr := by
  have hcount := length_withoutCr chunk
  have hpos := List.length_pos_iff.mpr hne
  obtain ⟨d₁, hr₁, hrem₁, hf₁, hc₁⟩ := round_stop (s := ⟨d, chunk, 0, 0⟩)
    (List.replicate chunk.length cr)
    (withoutCr chunk ++ List.replicate (chunk.count cr) filler ++ rest)
    (by rw [hread, decoy]; simp only [List.append_assoc]) (by simp) hsize hne
    (scan_block hne chunk.length 0 0 0) (by omega)
  obtain ⟨d₂, hr₂, hrem₂, hf₂, _⟩ := round_stop
    (s := ⟨d₁, chunk, 0, 0+chunk.length⟩)
    (withoutCr chunk ++ List.replicate (chunk.count cr) filler) rest
    hrem₁ (by simpa using hcount) hsize hne (scan_astray chunk _ 0 0 _ le_rfl)
    (by simp only; omega)
  refine ⟨d₂, ?_, hrem₂, hf₂.trans (hf₁.trans hd)⟩
  rw [compareOutput_chunk d chunk stage hd]
  obtain ⟨fuel, hfuel⟩ : ∃ fuel, roundBudget d.content.length chunk.length = fuel+3 := by
    refine ⟨roundBudget d.content.length chunk.length - 3, ?_⟩
    have := Nat.mul_le_mul_right (2*d.content.length+3) hpos
    simp only [roundBudget]
    omega
  simp only [List.drop_zero] at hr₁
  simp only [Nat.zero_add, List.drop_length] at hr₁ hr₂
  rw [hfuel]
  simp only [rounds, hne, if_false, hr₁, hr₂, if_true]

theorem compareChunks_astray {chunks : List (List UInt8)}
    (hchunks : ∀ c ∈ chunks, 1 ≤ c.length ∧ c.length ≤ 255) (d : Descriptor) (stage : ℕ)
    (hd : d.flags = oRdwr) (hread : d.remaining = decoys chunks) :
    compareChunks d stage chunks = some 0 := by
  induction chunks generalizing d stage with
  | nil => exact (compareChunks_exact (by simp) d stage hd).mpr (by rw [hread]; rfl)
  | cons c chunks ih =>
    obtain ⟨h1, h2⟩ := hchunks c List.mem_cons_self
    obtain ⟨d', hcall, hrem, hf⟩ := compareOutput_astray (decoys chunks) stage hd
      (List.length_pos_iff.mp h1) h2 (by rw [hread]; rfl)
    simp only [compareChunks, hcall, if_true]
    exact ih (fun c hc => hchunks c (List.mem_cons_of_mem _ hc)) d' (stage+1) hf hrem

theorem count_filler_text (l : List UInt8) : (text l).count filler = l.count filler := by
  rw [text, TrailingText.count_rdropWhile (by decide), withoutCr, List.count_filter (by decide)]

theorem count_filler_decoy (chunk : List UInt8) :
    (decoy chunk).count filler = chunk.count filler + chunk.count cr := by
  rw [decoy, List.count_append, List.count_append, withoutCr, List.count_filter (by decide),
    List.count_replicate_self, List.count_replicate, if_neg (by decide), Nat.zero_add]

theorem count_filler_decoys (chunks : List (List UInt8)) :
    (decoys chunks).count filler = chunks.flatten.count filler + chunks.flatten.count cr := by
  induction chunks with
  | nil => rfl
  | cons c chunks ih =>
    rw [decoys, List.flatMap_cons, List.count_append, count_filler_decoy, ← decoys, ih,
      List.flatten_cons, List.count_append, List.count_append]
    omega

/-- The comparator decides equality of texts for a chunked output, whatever the
reference, exactly when the output has no carriage return. -/
theorem compareChunks_decides_iff (chunks : List (List UInt8))
    (hchunks : ∀ c ∈ chunks, 1 ≤ c.length ∧ c.length ≤ 255) :
    (∀ reference, compareChunks (opened reference) 0 chunks = some 0 ↔
      text reference = text chunks.flatten) ↔ cr ∉ chunks.flatten := by
  constructor
  · intro h hmem
    have hpass := compareChunks_astray hchunks (opened (decoys chunks)) 0 rfl (List.drop_zero ..)
    have hcount := congrArg (List.count filler) ((h (decoys chunks)).mp hpass)
    rw [count_filler_text, count_filler_text, count_filler_decoys] at hcount
    have := List.count_pos_iff.mpr hmem
    omega
  · intro hcr reference
    exact compareChunks_exact (fun c hc hmem => hcr (List.mem_flatten.mpr ⟨c, hc, hmem⟩)) _ 0 rfl

theorem compareChunks_decides_iff_two_lines :
    (∀ c ∈ [[97, lf], [98, lf]], 1 ≤ c.length ∧ c.length ≤ 255) ∧
      ((∀ reference, compareChunks (opened reference) 0 [[97, lf], [98, lf]] = some 0 ↔
        text reference = text [97, lf, 98, lf]) ↔ cr ∉ [97, lf, 98, lf]) :=
  ⟨by decide, compareChunks_decides_iff [[97, lf], [98, lf]] (by decide)⟩

/-- The reference `"\raXY"` accepts the output `"aY"`, sent as `"a\r"` and `"Y"`:
the second round of the first call reads `X` and never returns to it. -/
theorem compareChunks_accepts_other_text :
    compareChunks (opened [cr, 97, 88, 89]) 0 [[97, cr], [89]] = some 0 ∧
      text [cr, 97, 88, 89] ≠ text [[97, cr], [89]].flatten := by
  decide

-- The other way to go wrong: at the end of the reference the offset goes back
-- one byte too far, and the end call finds `b` again.
example : compareChunks (opened [97, lf, 98]) 0 [[97, cr, lf, 98]] = some 10 ∧
    text [97, lf, 98] = text [97, cr, lf, 98] := by
  decide

end KudosJudge.CompareOutput
