import KudosJudge.RunResult

set_option autoImplicit false

/-!
The runner sends `SIGUSR2` to the watcher, whose process id is -2 after a failed
clone and free for others once it is waited for. The handler of the watcher sends
`SIGKILL` to `binary_pid`, which is 0 until the fork.
-/
namespace KudosJudge.RunSystem
open CompareOutput Results SandboxWatcher RunnerLoop Runs

variable {cfg : Config}

def killing : RunnerLoop.Pc → Bool
  | .killSend => true
  | .killMismatch => true
  | .killLimit => true
  | .killRead => true
  | _ => false

/-- Every signal the judge can send next goes to a process of the submission. -/
structure Sys.Safe (cfg : Config) (s : Sys) : Prop where
  runner : enabled cfg s .kill = true → reachable s.watcher.pc = true
  handler : ∀ sig, enabled cfg s (.handle sig) = true → s.binary ≠ .unforked
  group : s.groupKilled = false

def killsOnRead (cfg : Config) (r : Runner) (outPipe : List UInt8) : Read → Bool
  | .bytes n => ((r.chunkCall (outPipe.take n)).1 ≠ 0 ∧ cfg.killOnCompout) ∨
      overLimit cfg (r.receivedBytes + (outPipe.take n).length)
  | .error => cfg.killOnCompout
  | _ => false

/-- The runner meets no reason to kill while the watcher cannot be reached, and no signal
arrives between the installation of its handler and the fork. -/
def timely (cfg : Config) (s : Sys) : Act → Bool
  | .send t => s.runner.pc = .send → t = .error → cfg.killOnCompout → reachable s.watcher.pc
  | .read o => s.runner.pc = .read → killsOnRead cfg s.runner s.outPipe o →
      reachable s.watcher.pc
  | .kill => s.watcher.alive → s.binary = .unforked → .usr2 ∉ s.watcher.handlers
  | .alarm => s.binary = .unforked → .alrm ∉ s.watcher.handlers
  | _ => true

section

variable {r r' : Runner}

theorem Resumes.not_killing (h : Resumes cfg r r') : killing r'.pc = false := by
  cases h <;> rfl

theorem checkLimit_killing (r : Runner) :
    killing (r.checkLimit cfg).pc = overLimit cfg r.receivedBytes := by
  cases hlimit : overLimit cfg r.receivedBytes with
  | false => rw [checkLimit_top hlimit, (top_resumes r).not_killing]
  | true => rw [Runner.checkLimit, hlimit, if_pos rfl, killing]

theorem onPoll_killing (r : Runner) (p : Poll) : killing (r.onPoll cfg p).pc = false := by
  cases p <;> exact (toSend_resumes _).not_killing

theorem onSend_killing (r : Runner) (t : Transfer) :
    killing (r.onSend cfg t).pc = decide (t = .error ∧ cfg.killOnCompout = true) := by
  cases t with
  | moved n => simp [Runner.onSend, (check_resumes cfg _).not_killing]
  | again => simp [Runner.onSend, (check_resumes cfg _).not_killing]
  | error =>
    simp only [Runner.onSend]
    split_ifs with hkill
    · simp [hkill, killing]
    · simp [hkill, (check_resumes cfg _).not_killing]

theorem onRead_killing (r : Runner) (outPipe : List UInt8) (o : Read) :
    killing (r.onRead cfg outPipe o).pc = killsOnRead cfg r outPipe o := by
  cases o with
  | bytes n =>
    simp only [Runner.onRead, Runner.onChunk, killsOnRead]
    split_ifs with hkill
    · simp [hkill, killing]
    · rw [checkLimit_killing]
      simp only [hkill, false_or, Bool.decide_eq_true]
      rfl
  | eof => exact (top_resumes _).not_killing
  | again =>
    simp only [Runner.onRead]
    split_ifs
    · exact (top_resumes r).not_killing
    · rfl
  | error =>
    simp only [Runner.onRead, killsOnRead]
    split_ifs with hkill
    · exact hkill.symm
    · rw [Bool.not_eq_true] at hkill
      rw [(top_resumes _).not_killing, hkill]

theorem onFlushOut_killing (r : Runner) (blockingCount : ℕ) (o : Read) :
    killing (r.onFlushOut blockingCount o).pc = false := by
  cases o with
  | again =>
    simp only [Runner.onFlushOut]
    split_ifs <;> rfl
  | _ => rfl

theorem leave_killing (hpc : r.pc = .flushIn) : killing (r.leave cfg).pc = false := by
  unfold Runner.leave
  split_ifs
  · rfl
  · rw [hpc]
    rfl

theorem onFlushIn_killing (hpc : r.pc = .flushIn) (t : Transfer) :
    killing (r.onFlushIn cfg t).pc = false := by
  cases t with
  | moved n =>
    have hmoved : { r with flushAcc := r.flushAcc + n }.pc = .flushIn := hpc
    exact leave_killing hmoved
  | again => exact leave_killing hpc
  | error => rfl

end

/-- A kill of the runner finds the watcher, and before the fork no signal waits. -/
structure Live (s : Sys) : Prop where
  reach : killing s.runner.pc = true → reachable s.watcher.pc = true
  quiet : s.binary = .unforked → s.watcher.pending = []
  group : s.groupKilled = false

section

variable {s : Sys} {act : Act}

theorem enabled_kill_killing (s : Sys) : enabled cfg s .kill = killing s.runner.pc := by
  simp only [enabled]
  cases s.runner.pc <;> rfl

theorem Live.safe (h : Live s) : s.Safe cfg where
  runner := fun hon => h.reach (enabled_kill_killing s ▸ hon)
  handler := fun sig hon hunforked => by
    simp only [enabled, decide_eq_true_eq, h.quiet hunforked] at hon
    exact List.not_mem_nil hon.2
  group := h.group

theorem unforked_effect (h : (effect cfg s act).binary = .unforked) : s.binary = .unforked := by
  cases act with
  | fork ok =>
    cases ok with
    | true => cases h
    | false => exact h
  | firstWait ok =>
    change binaryOnFirstWait s.binary ok = .unforked at h
    unfold binaryOnFirstWait at h
    split at h
    · cases h
    · cases h
    · exact h
  | wait ok memUsed =>
    change binaryOnWait s.binary ok = .unforked at h
    unfold binaryOnWait at h
    split at h
    · cases h
    · cases h
    · exact h
  | exec => cases h
  | stop sig event => cases h
  | exit code => cases h
  | die sig => cases h
  | _ => exact h

theorem leave_pending (w : Watcher) (size : ℕ) : (w.leave size).pending = w.pending := by
  unfold Watcher.leave
  split_ifs <;> rfl

theorem setup_pending (w : Watcher) (ok : Bool) : (watcherOnSetup w ok).pending = w.pending := by
  unfold watcherOnSetup
  split
  · rename_i call calls hpc
    unfold Watcher.onSetup
    split
    · rfl
    · cases call <;> rfl
  · rfl

theorem wait_pending (w : Watcher) (b : Binary) (ok : Bool) (memUsed : ℤ) :
    (watcherOnWait cfg w b ok memUsed).pending = w.pending := by
  unfold watcherOnWait
  split
  · rfl
  · rfl
  · rename_i st
    cases st <;> rfl
  · rfl

theorem pending_effect (hkill : act ≠ .kill) (halarm : act ≠ .alarm)
    (hhandle : ∀ sig, act ≠ .handle sig) :
    (effect cfg s act).watcher.pending = s.watcher.pending := by
  cases act with
  | kill => exact absurd rfl hkill
  | alarm => exact absurd rfl halarm
  | handle sig => exact absurd rfl (hhandle sig)
  | clone outcome => cases outcome <;> rfl
  | poll ok =>
    simp only [effect, reap]
    split <;> rfl
  | setup ok => exact setup_pending ..
  | fork ok => cases ok <;> rfl
  | firstWait ok => cases ok <;> rfl
  | splice t => cases t <;> rfl
  | wait ok memUsed => exact wait_pending ..
  | flush t =>
    cases t with
    | error => rfl
    | again => rfl
    | moved n => exact leave_pending ..
  | test errno =>
    cases errno with
    | eagain => exact leave_pending ..
    | esrch => rfl
  | _ => rfl

theorem receive_unheard {w : Watcher} {sig : Sig} (h : w.alive = true → sig ∉ w.handlers) :
    w.receive sig = w := by
  have hnot : ¬ (w.alive = true ∧ sig ∈ w.handlers) := fun hboth => h hboth.1 hboth.2
  rw [Watcher.receive, if_neg hnot]

theorem live_quiet (h : Live s) (hon : enabled cfg s act = true)
    (htimely : timely cfg s act = true) (hunforked : (effect cfg s act).binary = .unforked) :
    (effect cfg s act).watcher.pending = [] := by
  have hbefore := unforked_effect hunforked
  have hnone := h.quiet hbefore
  by_cases hkill : act = .kill
  · subst hkill
    simp only [timely, decide_eq_true_eq] at htimely
    have hsame : s.watcher.receive .usr2 = s.watcher :=
      receive_unheard fun halive => htimely halive hbefore
    change (s.watcher.receive .usr2).pending = []
    rw [hsame, hnone]
  by_cases halarm : act = .alarm
  · subst halarm
    simp only [timely, decide_eq_true_eq] at htimely
    have hsame : s.watcher.receive .alrm = s.watcher :=
      receive_unheard fun _ => htimely hbefore
    change (s.watcher.receive .alrm).pending = []
    rw [hsame, hnone]
  by_cases hhandle : ∃ sig, act = .handle sig
  · obtain ⟨sig, rfl⟩ := hhandle
    simp only [enabled, decide_eq_true_eq, hnone] at hon
    exact absurd hon.2 List.not_mem_nil
  · rw [pending_effect hkill halarm fun sig heq => hhandle ⟨sig, heq⟩, hnone]

theorem live_reach (h : Live s) (hon : enabled cfg s act = true)
    (htimely : timely cfg s act = true) (hkill : killing (effect cfg s act).runner.pc = true) :
    reachable s.watcher.pc = true := by
  cases act with
  | clone outcome => cases outcome <;> cases hkill
  | checkFds ok => cases ok <;> cases hkill
  | poll ok =>
    change killing (s.runner.onPoll cfg (pollResult s ok)).pc = true at hkill
    rw [onPoll_killing] at hkill
    cases hkill
  | send t =>
    simp only [enabled, decide_eq_true_eq] at hon
    change killing (runnerOnSend cfg s.runner t).pc = true at hkill
    rcases hon.1 with hpc | hpc
    · rw [runnerOnSend_loop hpc, onSend_killing, decide_eq_true_eq] at hkill
      simp only [timely, decide_eq_true_eq] at htimely
      exact htimely hpc hkill.1 hkill.2
    · rw [runnerOnSend_flushIn hpc, onFlushIn_killing hpc] at hkill
      cases hkill
  | read o =>
    change killing (runnerOnRead cfg s.runner s.outPipe o).pc = true at hkill
    cases hpc : s.runner.pc with
    | read =>
      simp only [runnerOnRead, hpc, onRead_killing] at hkill
      simp only [timely, decide_eq_true_eq] at htimely
      exact htimely hpc hkill
    | flushOut blockingCount =>
      simp only [runnerOnRead, hpc, onFlushOut_killing] at hkill
      cases hkill
    | _ =>
      simp only [enabled, hpc] at hon
      cases hon
  | kill => exact h.reach (enabled_kill_killing s ▸ hon)
  | _ => exact h.reach hkill

theorem live_step (h : Live s) (hon : enabled cfg s act = true)
    (htimely : timely cfg s act = true) : Live (effect cfg s act) where
  reach := fun hkill => by
    have hbefore := live_reach h hon htimely hkill
    have hclone : ∀ outcome, act ≠ .clone outcome := by
      rintro outcome rfl
      cases outcome <;> cases hkill
    have hpoll : ∀ ok, act ≠ .poll ok := by
      rintro ok rfl
      change killing (s.runner.onPoll cfg (pollResult s ok)).pc = true at hkill
      rw [onPoll_killing] at hkill
      cases hkill
    have hplace : (effect cfg s act).watcher.pc = s.watcher.pc ∨
        reachable (effect cfg s act).watcher.pc = true := reachable_effect hclone hpoll
    rcases hplace with hsame | hreachable
    · rw [hsame]
      exact hbefore
    · exact hreachable
  quiet := live_quiet h hon htimely
  group := by
    cases act with
    | handle sig =>
      have hforked : s.binary ≠ .unforked := h.safe.handler sig hon
      exact decide_eq_false hforked
    | _ => exact h.group

theorem enabled_handle_received {s' : Sys} {sig : Sig} (halive : s.watcher.alive = true)
    (hheard : sig ∈ s.watcher.handlers) (hpc : s'.watcher.pc = (s.watcher.receive sig).pc)
    (hpending : s'.watcher.pending = (s.watcher.receive sig).pending) :
    enabled cfg s' (.handle sig) = true := by
  have halive' : s'.watcher.alive = true := by
    rw [Watcher.alive, hpc, receive_pc]
    exact halive
  rw [Watcher.receive, if_pos ⟨halive, hheard⟩] at hpending
  simp [enabled, halive', hpending]

/-- A step at the wrong time leaves a signal to the wrong process as the next one. -/
theorem unsafe_of_untimely (hon : enabled cfg s act = true)
    (huntimely : timely cfg s act = false) : ¬ (effect cfg s act).Safe cfg := by
  intro hsafe
  cases act with
  | send t =>
    simp only [timely, decide_eq_false_iff_not, Classical.not_imp, Bool.not_eq_true] at huntimely
    obtain ⟨hpc, rfl, hkill, hunreachable⟩ := huntimely
    have hkilling : killing (effect cfg s (.send .error)).runner.pc = true := by
      change killing (runnerOnSend cfg s.runner .error).pc = true
      rw [runnerOnSend_loop hpc, onSend_killing]
      exact decide_eq_true ⟨rfl, hkill⟩
    have hreachable := hsafe.runner (enabled_kill_killing _ ▸ hkilling)
    exact absurd (hunreachable.symm.trans hreachable) Bool.false_ne_true
  | read o =>
    simp only [timely, decide_eq_false_iff_not, Classical.not_imp, Bool.not_eq_true] at huntimely
    obtain ⟨hpc, hkill, hunreachable⟩ := huntimely
    have hkilling : killing (effect cfg s (.read o)).runner.pc = true := by
      change killing (runnerOnRead cfg s.runner s.outPipe o).pc = true
      simp only [runnerOnRead, hpc, onRead_killing]
      exact hkill
    have hreachable := hsafe.runner (enabled_kill_killing _ ▸ hkilling)
    exact absurd (hunreachable.symm.trans hreachable) Bool.false_ne_true
  | kill =>
    simp only [timely, decide_eq_false_iff_not, Classical.not_imp, not_not] at huntimely
    obtain ⟨halive, hunforked, hheard⟩ := huntimely
    exact hsafe.handler .usr2 (enabled_handle_received halive hheard rfl rfl) hunforked
  | alarm =>
    simp only [timely, decide_eq_false_iff_not, Classical.not_imp, not_not] at huntimely
    simp only [enabled, decide_eq_true_eq] at hon
    exact hsafe.handler .alrm (enabled_handle_received hon.1 huntimely.2 rfl rfl) huntimely.1
  | _ => cases huntimely

end

/-- As long as every step is timely, every signal that the judge can send goes to a live process
of the submission; the first step that is not leaves a signal to another process as the next. -/
theorem signals_safe (cfg : Config) (s : Sys)
    (hrun : Reaches (step cfg) (fun s act => timely cfg s act = true) (start cfg) s) :
    s.Safe cfg ∧ ∀ act s', step cfg s act = some s' →
      (s'.Safe cfg ↔ timely cfg s act = true) := by
  have hlive : Live s := by
    apply hrun.invariant Live
    · exact ⟨fun hkill => absurd hkill Bool.false_ne_true, fun _ => rfl, rfl⟩
    · intro s act s' h htimely hstep
      obtain ⟨hon, -, rfl⟩ := step_cases hstep
      exact live_step h hon htimely
  refine ⟨hlive.safe, fun act s' hstep => ?_⟩
  obtain ⟨hon, -, rfl⟩ := step_cases hstep
  constructor
  · intro hsafe
    by_contra huntimely
    rw [Bool.not_eq_true] at huntimely
    exact unsafe_of_untimely hon huntimely hsafe
  · exact fun htimely => (live_step hlive hon htimely).safe

theorem signals_safe_oneByte :
    ∃ s, Reaches (step oneByte) (fun s act => timely oneByte s act = true) (start oneByte) s ∧
      s.runner.pc = .returned .done ∧ s.Safe oneByte := by
  have hloop : ∃ s, runWhere (step oneByte) (fun s act => timely oneByte s act = true)
      (start oneByte) oneByteRun = some s ∧ s.runner.pc = .flushOut 0 ∧ s.outPipe = [] ∧
        s.groupKilled = false ∧ s.runner.sent = 1 :=
    ⟨_, rfl, rfl, rfl, rfl, rfl⟩
  obtain ⟨s, hs, hpc, hempty, hlive, hsent⟩ := hloop
  have hread : ∀ s, timely oneByte s (.read .again) = true := by
    intro s
    simp [timely, killsOnRead]
  have hsend : ∀ s, timely oneByte s (.send .again) = true := by
    intro s
    simp [timely]
  have hrun := (reaches_of_runWhere hs).trans
    (reaches_done hread hsend hpc hempty hlive (by rw [hsent]; rfl))
  exact ⟨_, hrun, rfl, (signals_safe oneByte _ hrun).1⟩

def lateByte : List Act :=
  spawn ++ [.poll true, .send (.moved 1), .read .again, .splice (.moved 1), .write [98], .exit 0,
    .wait true 0, .flush .again, .test .eagain, .poll true, .read (.bytes 1)]

def earlyAlarm : List Act :=
  [.clone .cloned, .checkFds true] ++ List.replicate 14 (.setup true) ++ [.alarm]

theorem signals_astray :
    (∃ s, Reaches (step oneByte) (fun _ _ => True) (start oneByte) s ∧
      enabled oneByte s .kill = true ∧ s.watcher.pc = .reaped (.exited 0)) ∧
    ∃ s s', Reaches (step oneByte) (fun _ _ => True) (start oneByte) s ∧
      s.binary = .unforked ∧ step oneByte s (.handle .alrm) = some s' ∧ s'.groupKilled = true := by
  have hlate : ∃ s, runWhere (step oneByte) (fun _ _ => True) (start oneByte) lateByte = some s ∧
      enabled oneByte s .kill = true ∧ s.watcher.pc = .reaped (.exited 0) :=
    ⟨_, rfl, rfl, rfl⟩
  have hearly : ∃ s s', runWhere (step oneByte) (fun _ _ => True) (start oneByte) earlyAlarm =
      some s ∧ s.binary = .unforked ∧ step oneByte s (.handle .alrm) = some s' ∧
      s'.groupKilled = true :=
    ⟨_, _, rfl, rfl, rfl, rfl⟩
  obtain ⟨s, hs, hkill, hreaped⟩ := hlate
  obtain ⟨s₁, s₂, hs₁, hunforked, hhandle, hgroup⟩ := hearly
  exact ⟨⟨s, reaches_of_runWhere hs, hkill, hreaped⟩, s₁, s₂, reaches_of_runWhere hs₁, hunforked,
    hhandle, hgroup⟩

end KudosJudge.RunSystem
