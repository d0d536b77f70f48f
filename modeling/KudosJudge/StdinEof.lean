import KudosJudge.PipeHygiene

set_option autoImplicit false

namespace KudosJudge.RunSystem
open Results SandboxWatcher RunnerLoop Runs

def looping : SandboxWatcher.Pc → Bool
  | .splice => true
  | .wait => true
  | _ => false

def transfers (act : Act) : Bool := act ≠ .splice .error

/-- What the binary can read on stdin is a first part of the input; the end of file comes
with the last byte, not before it, and the write end is not closed again. -/
structure InputThenEof (cfg : Config) (s : Sys) : Prop where
  bytes : s.log.forwarded <+: cfg.input
  once : s.watcher.stdinCloses ≤ 1
  eof : s.watcher.stdinCloses = 1 ↔ s.log.forwarded = cfg.input

/-- The closes so far, by where the watcher is. -/
structure Closing (size : ℕ) (w : Watcher) : Prop where
  before : looping w.pc = false → flushing w.pc = false →
    w.stdinCloses = 0 ∧ w.spliceSizeAcc = 0
  splice : w.pc = .splice → w.stdinCloses = 0 ∧ w.spliceSizeAcc < size
  wait : w.pc = .wait →
    w.stdinCloses = if 0 < size ∧ size ≤ w.spliceSizeAcc then 1 else 0

section

variable {size : ℕ} {w w' : Watcher}

theorem Closing.same (h : Closing size w) (hpc : w'.pc = w.pc)
    (hcloses : w'.stdinCloses = w.stdinCloses) (hacc : w'.spliceSizeAcc = w.spliceSizeAcc) :
    Closing size w' := by
  refine ⟨?_, ?_, ?_⟩
  · rw [hpc, hcloses, hacc]
    exact h.before
  · rw [hpc, hcloses, hacc]
    exact h.splice
  · rw [hpc, hcloses, hacc]
    exact h.wait

theorem closing_flushing (hpc : flushing w.pc = true) : Closing size w := by
  refine ⟨fun _ hnot => ?_, fun hsplice => ?_, fun hwait => ?_⟩
  · rw [hpc] at hnot
    cases hnot
  · rw [hsplice] at hpc
    cases hpc
  · rw [hwait] at hpc
    cases hpc

theorem closing_before (hcloses : w.stdinCloses = 0) (hacc : w.spliceSizeAcc = 0)
    (hpc : looping w.pc = false) : Closing size w := by
  refine ⟨fun _ _ => ⟨hcloses, hacc⟩, fun hsplice => ?_, fun hwait => ?_⟩
  · rw [hsplice] at hpc
    cases hpc
  · rw [hwait] at hpc
    cases hpc

theorem closing_top (hcloses : w.stdinCloses = if 0 < size ∧ size ≤ w.spliceSizeAcc then 1 else 0) :
    Closing size (w.top size) := by
  unfold Watcher.top
  split_ifs with hacc
  · exact ⟨nofun, fun _ => ⟨by rw [hcloses, if_neg (by omega)], hacc⟩, nofun⟩
  · exact ⟨nofun, nofun, fun _ => hcloses⟩

theorem Closing.firstWait (h : Closing size w) (hpc : w.pc = .firstWait) (ok : Bool) :
    Closing size (w.onFirstWait size ok) := by
  obtain ⟨hcloses, hacc⟩ := h.before (by rw [hpc]; rfl) (by rw [hpc]; rfl)
  cases ok with
  | false => exact closing_flushing rfl
  | true => exact closing_top (by rw [hcloses, if_neg (by omega)])

/-- The transfer that brings the last byte closes, and no other one does. -/
theorem Closing.onSplice (h : Closing size w) (hpc : w.pc = .splice) {t : Transfer}
    (ht : t ≠ .error) : Closing size (w.onSplice size t) := by
  obtain ⟨hcloses, hacc⟩ := h.splice hpc
  cases t with
  | error => exact absurd rfl ht
  | again =>
    refine ⟨nofun, nofun, fun _ => ?_⟩
    simp only [Watcher.onSplice, hcloses]
    rw [if_neg (by omega)]
  | moved n =>
    refine ⟨nofun, nofun, fun _ => ?_⟩
    simp only [Watcher.onSplice, hcloses]
    exact if_congr (by omega) rfl rfl

theorem Closing.onWait {cfg : Config} (h : Closing cfg.input.length w) (hpc : w.pc = .wait)
    (b : Binary) (ok : Bool) (memUsed : ℤ) :
    Closing cfg.input.length (watcherOnWait cfg w b ok memUsed) := by
  have hcloses := h.wait hpc
  unfold watcherOnWait
  split
  · exact closing_flushing rfl
  · exact closing_top hcloses
  · rename_i st
    cases st with
    | exited code => exact closing_flushing rfl
    | signaled sig => exact closing_flushing rfl
    | stopped sig event => exact closing_top hcloses
  · exact closing_top hcloses

theorem Closing.reap (h : Closing size w) (ok : Bool) : Closing size (reap w ok) := by
  unfold RunSystem.reap
  split
  · exact closing_flushing rfl
  · exact h

theorem Closing.receive (h : Closing size w) (sig : Sig) : Closing size (w.receive sig) := by
  unfold Watcher.receive
  split_ifs
  · exact h.same rfl rfl rfl
  · exact h

theorem Closing.onSignal (h : Closing size w) (sig : Sig) (killed : Bool) :
    Closing size (w.onSignal sig killed) := by
  cases killed <;> cases sig <;> exact h.same rfl rfl rfl

theorem Closing.onSetup (h : Closing size w) (ok : Bool) : Closing size (watcherOnSetup w ok) := by
  unfold watcherOnSetup
  split
  · rename_i call calls hpc
    obtain ⟨hcloses, hacc⟩ := h.before (by rw [hpc]; rfl) (by rw [hpc]; rfl)
    unfold Watcher.onSetup
    split
    · exact closing_flushing rfl
    · cases call <;> exact closing_before hcloses hacc rfl
  · exact h

end

theorem closing_step {cfg : Config} {s : Sys} {act : Act} (h : Closing cfg.input.length s.watcher)
    (hok : transfers act = true) (hon : enabled cfg s act = true) :
    Closing cfg.input.length (effect cfg s act).watcher := by
  cases act with
  | clone outcome =>
    simp only [enabled, decide_eq_true_eq] at hon
    obtain ⟨hcloses, hacc⟩ := h.before (by rw [hon.2]; rfl) (by rw [hon.2]; rfl)
    cases outcome <;> exact closing_before hcloses hacc rfl
  | poll ok => exact h.reap ok
  | kill => exact h.receive .usr2
  | setup ok => exact h.onSetup ok
  | fork ok =>
    simp only [enabled, decide_eq_true_eq] at hon
    obtain ⟨hcloses, hacc⟩ := h.before (by rw [hon]; rfl) (by rw [hon]; rfl)
    cases ok with
    | false => exact closing_flushing rfl
    | true => exact closing_before hcloses hacc rfl
  | startWatching =>
    simp only [enabled, decide_eq_true_eq] at hon
    obtain ⟨hcloses, hacc⟩ := h.before (by rw [hon]; rfl) (by rw [hon]; rfl)
    exact closing_before hcloses hacc rfl
  | firstWait ok =>
    simp only [enabled, decide_eq_true_eq] at hon
    exact h.firstWait hon.1 ok
  | splice t =>
    simp only [enabled, decide_eq_true_eq] at hon
    exact h.onSplice hon.1 fun ht => by rw [ht] at hok; cases hok
  | wait ok memUsed =>
    simp only [enabled, decide_eq_true_eq] at hon
    exact h.onWait hon s.binary ok memUsed
  | flush t =>
    simp only [enabled, decide_eq_true_eq] at hon
    exact closing_flushing (onFlushRead_counters hon.1 cfg.input.length t).2.2
  | test errno =>
    simp only [enabled, decide_eq_true_eq] at hon
    exact closing_flushing (onTest_counters hon.1 cfg.input.length errno).2.2
  | handle sig => exact h.onSignal sig _
  | alarm => exact (h.receive .alrm).same rfl rfl rfl
  | killWatcher sig => exact closing_flushing rfl
  | _ => exact h

theorem closing_run {cfg : Config} {s : Sys}
    (hrun : Reaches (step cfg) (fun _ act => transfers act = true) (start cfg) s) :
    Closing cfg.input.length s.watcher := by
  have hstart : Closing cfg.input.length (start cfg).watcher := closing_before rfl rfl rfl
  refine hrun.invariant (fun s => Closing cfg.input.length s.watcher) hstart ?_
  intro s act s' h hok hstep
  obtain ⟨hon, -, rfl⟩ := step_cases hstep
  exact closing_step h hok hon

theorem closes_iff {cfg : Config} {s : Sys} (h : Closing cfg.input.length s.watcher)
    (hloop : looping s.watcher.pc = true) :
    s.watcher.stdinCloses =
      if 0 < cfg.input.length ∧ cfg.input.length ≤ s.watcher.spliceSizeAcc then 1 else 0 := by
  cases hpc : s.watcher.pc with
  | splice =>
    obtain ⟨hcloses, hacc⟩ := h.splice hpc
    rw [hcloses, if_neg (by omega)]
  | wait => exact h.wait hpc
  | _ => rw [hpc] at hloop; cases hloop

theorem forwarded_prefix {cfg : Config} {s : Sys} (h : s.Conserved cfg)
    (hloop : looping s.watcher.pc = true) :
    s.log.forwarded <+: cfg.input ∧
      (s.log.forwarded = cfg.input ↔ cfg.input.length ≤ s.watcher.spliceSizeAcc) := by
  have hnot : flushing s.watcher.pc = false := by
    cases hpc : s.watcher.pc <;> rw [hpc] at hloop <;> first | rfl | cases hloop
  have hbytes := h.bytes
  rw [Log.consumed, h.unflushed hnot, List.append_nil] at hbytes
  have hfront : s.log.forwarded <+: cfg.input :=
    (hbytes ▸ List.prefix_append _ _ : s.log.forwarded <+: cfg.input.take s.runner.sent).trans
      (List.take_prefix _ _)
  refine ⟨hfront, ?_⟩
  rw [h.forwarded]
  constructor
  · intro heq
    rw [heq]
  · exact fun hle => hfront.eq_of_length_le hle

/-- In the main loop, whatever the transfers give, the program gets its input and then the end
of file; only an empty input is never ended. -/
theorem input_then_eof_iff (cfg : Config) (s : Sys)
    (hrun : Reaches (step cfg) (fun _ act => transfers act = true) (start cfg) s)
    (hloop : looping s.watcher.pc = true) :
    InputThenEof cfg s ↔ cfg.input ≠ [] := by
  have hcloses := closes_iff (closing_run hrun) hloop
  obtain ⟨hfront, hall⟩ := forwarded_prefix (conserved_run hrun (conserved_start cfg)) hloop
  constructor
  · rintro h hempty
    have heof : s.watcher.stdinCloses = 1 :=
      h.eof.mpr (hall.mpr (by rw [hempty]; exact Nat.zero_le _))
    rw [hcloses, hempty, if_neg (by simp)] at heof
    cases heof
  · intro hne
    have hpos : 0 < cfg.input.length := List.length_pos_iff.mpr hne
    refine ⟨hfront, ?_, ?_⟩
    · rw [hcloses]
      split_ifs <;> omega
    · rw [hcloses, hall]
      split_ifs with hlength
      · exact iff_of_true rfl hlength.2
      · exact iff_of_false nofun fun hle => hlength ⟨hpos, hle⟩

def forwardRun : List Act :=
  spawn ++ [.poll true, .send (.moved 1), .splice .again, .wait true 0, .splice (.moved 1),
    .wait true 0]

theorem input_then_eof_iff_oneByte :
    ∃ s, Reaches (step oneByte) (fun _ act => transfers act = true) (start oneByte) s ∧
      s.binary = .running ∧ s.log.forwarded = [7] ∧ s.watcher.stdinCloses = 1 ∧
      InputThenEof oneByte s := by
  have hforward : ∃ s, runWhere (step oneByte) (fun _ act => transfers act = true)
      (start oneByte) forwardRun = some s ∧ looping s.watcher.pc = true ∧ s.binary = .running ∧
        s.log.forwarded = [7] ∧ s.watcher.stdinCloses = 1 :=
    ⟨_, rfl, rfl, rfl, rfl, rfl⟩
  obtain ⟨s, hs, hloop, hbinary, hforwarded, hcloses⟩ := hforward
  have hrun := reaches_of_runWhere hs
  exact ⟨s, hrun, hbinary, hforwarded, hcloses, (input_then_eof_iff oneByte s hrun hloop).mpr nofun⟩

def noInput : Config := { oneByte with input := [] }

theorem stdin_left_open :
    ∃ s, Reaches (step noInput) (fun _ act => transfers act = true) (start noInput) s ∧
      looping s.watcher.pc = true ∧ s.binary = .running ∧ ¬ InputThenEof noInput s := by
  have hround : ∃ s, runWhere (step noInput) (fun _ act => transfers act = true)
      (start noInput) (spawn ++ [.wait true 0]) = some s ∧ looping s.watcher.pc = true ∧
        s.binary = .running ∧ s.log.forwarded = [] ∧ s.watcher.stdinCloses = 0 :=
    ⟨_, rfl, rfl, rfl, rfl, rfl⟩
  obtain ⟨s, hs, hloop, hbinary, hforwarded, hcloses⟩ := hround
  refine ⟨s, reaches_of_runWhere hs, hloop, hbinary, fun h => ?_⟩
  have heof : s.watcher.stdinCloses = 1 := h.eof.mpr hforwarded
  rw [hcloses] at heof
  cases heof

end KudosJudge.RunSystem
