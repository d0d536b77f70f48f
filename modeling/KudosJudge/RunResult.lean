import KudosJudge.RunSoundness

set_option autoImplicit false

namespace KudosJudge.RunSystem
open CompareOutput Results SandboxWatcher RunnerLoop Runs

variable {cfg : Config}

def conclusion (r : Runner) : SandboxResult :=
  if r.spawnSucceeded then
    if r.watcherResult = .correct then r.compResult else r.watcherResult
  else .unknown

def Concluded (r : Runner) : Prop :=
  match r.pc with
  | .flushOut _ => r.result = some (conclusion r)
  | .flushIn => r.result = some (conclusion r)
  | .returned .outPipeError => r.result = some .unknown
  | .returned .inPipeError => r.result = some .unknown
  | .returned .done => r.result = some (conclusion r)
  | _ => True

section

variable {r r' : Runner}

theorem Resumes.concluded (h : Resumes cfg r r') : Concluded r' := by
  cases h with
  | poll alive => trivial
  | send unsent => trivial
  | read more equal => trivial
  | finish decided dead => rfl

theorem concluded_checkLimit (r : Runner) : Concluded (r.checkLimit cfg) := by
  unfold Runner.checkLimit
  split_ifs
  · trivial
  · exact (top_resumes r).concluded

theorem concluded_onRead (r : Runner) (outPipe : List UInt8) (o : Read) :
    Concluded (r.onRead cfg outPipe o) := by
  cases o with
  | bytes n =>
    simp only [Runner.onRead, Runner.onChunk]
    split_ifs
    · trivial
    · exact concluded_checkLimit _
  | eof => exact (top_resumes _).concluded
  | again =>
    simp only [Runner.onRead]
    split_ifs
    · exact (top_resumes r).concluded
    · rfl
  | error =>
    simp only [Runner.onRead]
    split_ifs
    · trivial
    · exact (top_resumes _).concluded

theorem concluded_onSend (r : Runner) (t : Transfer) : Concluded (r.onSend cfg t) := by
  cases t with
  | moved n => exact (check_resumes cfg _).concluded
  | again => exact (check_resumes cfg r).concluded
  | error =>
    simp only [Runner.onSend]
    split_ifs
    · trivial
    · exact (check_resumes cfg _).concluded

theorem concluded_onKill (h : Concluded r) : Concluded (r.onKill cfg) := by
  unfold Runner.onKill
  split
  · exact (check_resumes cfg r).concluded
  · exact concluded_checkLimit r
  · exact (top_resumes _).concluded
  · exact (top_resumes r).concluded
  · exact h

theorem concluded_onFlushOut {blockingCount : ℕ} (hpc : r.pc = .flushOut blockingCount)
    (h : Concluded r) (o : Read) : Concluded (r.onFlushOut blockingCount o) := by
  have hresult : r.result = some (conclusion r) := by
    rw [Concluded, hpc] at h
    exact h
  cases o with
  | bytes n => exact hresult
  | eof => exact hresult
  | again =>
    simp only [Runner.onFlushOut]
    split_ifs
    · exact hresult
    · exact hresult
  | error => rfl

theorem concluded_leave (hpc : r.pc = .flushIn) (h : r.result = some (conclusion r)) :
    Concluded (r.leave cfg) := by
  unfold Runner.leave
  split_ifs
  · exact h
  · rw [Concluded, hpc]
    exact h

theorem concluded_onFlushIn (hpc : r.pc = .flushIn) (h : Concluded r) (t : Transfer) :
    Concluded (r.onFlushIn cfg t) := by
  have hresult : r.result = some (conclusion r) := by
    rw [Concluded, hpc] at h
    exact h
  cases t with
  | moved n => exact concluded_leave hpc hresult
  | again => exact concluded_leave hpc hresult
  | error => rfl

end

theorem concluded_step {s : Sys} {act : Act} (h : Concluded s.runner)
    (hon : enabled cfg s act = true) : Concluded (effect cfg s act).runner := by
  cases act with
  | clone outcome => cases outcome <;> trivial
  | checkFds ok => cases ok <;> trivial
  | poll ok =>
    change Concluded (s.runner.onPoll cfg (pollResult s ok))
    cases pollResult s ok with
    | error => exact (toSend_resumes _).concluded
    | unchanged => exact (toSend_resumes _).concluded
    | status st => exact (toSend_resumes _).concluded
  | send t =>
    change Concluded (runnerOnSend cfg s.runner t)
    simp only [enabled, decide_eq_true_eq] at hon
    rcases hon.1 with hpc | hpc
    · rw [runnerOnSend_loop hpc]
      exact concluded_onSend s.runner t
    · rw [runnerOnSend_flushIn hpc]
      exact concluded_onFlushIn hpc h t
  | kill => exact concluded_onKill h
  | read o =>
    change Concluded (runnerOnRead cfg s.runner s.outPipe o)
    unfold runnerOnRead
    split
    · rename_i blockingCount hpc
      exact concluded_onFlushOut hpc h o
    · exact concluded_onRead s.runner s.outPipe o
  | _ => exact h

/-- `watcher_result` keeps the value it had on entry until a status is collected. -/
def Sys.Collected (cfg : Config) (s : Sys) : Prop :=
  match s.watcher.pc with
  | .reaped st =>
    s.runner.watcherResult = ((entry cfg).collect st).watcherResult ∧
      s.runner.spawnSucceeded = ((entry cfg).collect st).spawnSucceeded
  | _ => s.runner.watcherResult = cfg.staleWatcherResult ∧ s.runner.spawnSucceeded = true

def unreaped : SandboxWatcher.Pc → Bool
  | .reaped _ => false
  | _ => true

/-- The watcher has a process id that is still its own. -/
def reachable : SandboxWatcher.Pc → Bool
  | .unborn => false
  | .absent => false
  | .reaped _ => false
  | _ => true

section

variable {s : Sys} {act : Act}

theorem Sys.Collected.stale (h : s.Collected cfg) (hpc : unreaped s.watcher.pc = true) :
    s.runner.watcherResult = cfg.staleWatcherResult ∧ s.runner.spawnSucceeded = true := by
  unfold Sys.Collected at h
  cases hplace : s.watcher.pc with
  | reaped st =>
    rw [hplace] at hpc
    cases hpc
  | _ =>
    rw [hplace] at h
    exact h

theorem collected_unreaped (hpc : unreaped s.watcher.pc = true)
    (h : s.runner.watcherResult = cfg.staleWatcherResult ∧ s.runner.spawnSucceeded = true) :
    s.Collected cfg := by
  unfold Sys.Collected
  cases hplace : s.watcher.pc with
  | reaped st =>
    rw [hplace] at hpc
    cases hpc
  | _ => exact h

theorem reachable_unreaped {pc : SandboxWatcher.Pc} (h : reachable pc = true) :
    unreaped pc = true := by
  cases pc with
  | reaped st => cases h
  | _ => rfl

theorem reachable_top (w : Watcher) (size : ℕ) : reachable (w.top size).pc = true := by
  unfold Watcher.top
  split_ifs <;> rfl

theorem reachable_leave (w : Watcher) (size : ℕ) :
    (w.leave size).pc = w.pc ∨ reachable (w.leave size).pc = true := by
  unfold Watcher.leave
  split_ifs
  · exact .inr rfl
  · exact .inl rfl

theorem reachable_wait (w : Watcher) (b : Binary) (ok : Bool) (memUsed : ℤ) :
    reachable (watcherOnWait cfg w b ok memUsed).pc = true := by
  cases ok with
  | false => rfl
  | true =>
    cases b with
    | stopped sig event => exact reachable_top _ _
    | zombie st =>
      cases st with
      | stopped sig event => exact reachable_top _ _
      | _ => rfl
    | _ => exact reachable_top _ _

theorem reachable_setup (w : Watcher) (ok : Bool) :
    (watcherOnSetup w ok).pc = w.pc ∨ reachable (watcherOnSetup w ok).pc = true := by
  unfold watcherOnSetup
  split
  · unfold Watcher.onSetup
    split <;> exact .inr rfl
  · exact .inl rfl

/-- Only the clone and the runner's poll leave a watcher that no signal can reach. -/
theorem reachable_effect (hclone : ∀ outcome, act ≠ .clone outcome) (hpoll : ∀ ok, act ≠ .poll ok) :
    (effect cfg s act).watcher.pc = s.watcher.pc ∨
      reachable (effect cfg s act).watcher.pc = true := by
  cases act with
  | clone outcome => exact absurd rfl (hclone outcome)
  | poll ok => exact absurd rfl (hpoll ok)
  | kill => exact .inl (receive_pc s.watcher .usr2)
  | setup ok => exact reachable_setup ..
  | fork ok => cases ok <;> exact .inr rfl
  | startWatching => exact .inr rfl
  | firstWait ok =>
    cases ok with
    | false => exact .inr rfl
    | true => exact .inr (reachable_top _ _)
  | splice t => cases t <;> exact .inr rfl
  | wait ok memUsed => exact .inr (reachable_wait ..)
  | flush t =>
    cases t with
    | error => exact .inr rfl
    | again => exact .inl rfl
    | moved n => exact reachable_leave ..
  | test errno =>
    cases errno with
    | eagain => exact reachable_leave ..
    | esrch => exact .inr rfl
  | handle sig => exact .inl (onSignal_pc s.watcher sig _)
  | alarm => exact .inl (receive_pc s.watcher .alrm)
  | killWatcher sig => exact .inr rfl
  | _ => exact .inl rfl

theorem unreaped_effect (hact : ∀ ok, act ≠ .poll ok) (h : unreaped s.watcher.pc = true) :
    unreaped (effect cfg s act).watcher.pc = true := by
  by_cases hclone : ∃ outcome, act = .clone outcome
  · obtain ⟨outcome, rfl⟩ := hclone
    cases outcome <;> rfl
  · have hnot : ∀ outcome, act ≠ .clone outcome := fun outcome heq => hclone ⟨outcome, heq⟩
    have hplace : (effect cfg s act).watcher.pc = s.watcher.pc ∨
        reachable (effect cfg s act).watcher.pc = true := reachable_effect hnot hact
    rcases hplace with hsame | hreachable
    · rw [hsame]
      exact h
    · exact reachable_unreaped hreachable

theorem collect_congr {r r' : Runner} (hreported : r.watcherResult = r'.watcherResult)
    (hspawned : r.spawnSucceeded = r'.spawnSucceeded) (st : WaitStatus) :
    (r.collect st).watcherResult = (r'.collect st).watcherResult ∧
      (r.collect st).spawnSucceeded = (r'.collect st).spawnSucceeded := by
  cases st with
  | exited code =>
    simp only [Runner.collect]
    split_ifs
    · exact ⟨hreported, rfl⟩
    · exact ⟨rfl, hspawned⟩
  | signaled sig => exact ⟨rfl, hspawned⟩
  | stopped sig event => exact ⟨rfl, hspawned⟩

theorem Sys.Collected.keep {s' : Sys} (h : s.Collected cfg)
    (hpc : s'.watcher.pc = s.watcher.pc)
    (hreported : s'.runner.watcherResult = s.runner.watcherResult)
    (hspawned : s'.runner.spawnSucceeded = s.runner.spawnSucceeded) : s'.Collected cfg := by
  unfold Sys.Collected at h ⊢
  rw [hpc, hreported, hspawned]
  exact h

theorem collected_poll (h : s.Collected cfg) (ok : Bool) :
    (effect cfg s (.poll ok)).Collected cfg := by
  have hrest : ∀ r : Runner, Kept 0 r (r.toSend cfg) := fun r => (toSend_resumes r).kept
  cases ok with
  | false =>
    have hkept := hrest { s.runner with watcherAlive := false }
    exact h.keep rfl hkept.reported hkept.spawned
  | true =>
    cases hpc : s.watcher.pc with
    | ended st =>
      obtain ⟨hstale, hspawned⟩ := h.stale (by rw [hpc]; rfl)
      have hentry : s.runner.watcherResult = (entry cfg).watcherResult := hstale
      have hcollect := collect_congr hentry hspawned st
      have hkept := hrest (s.runner.collect st)
      have hrunner : (effect cfg s (.poll true)).runner = (s.runner.collect st).toSend cfg := by
        simp [effect, pollResult, hpc, Runner.onPoll]
      have hwatcher : (effect cfg s (.poll true)).watcher.pc = .reaped st := by
        simp [effect, reap, hpc]
      unfold Sys.Collected
      rw [hwatcher, hrunner, hkept.reported, hkept.spawned]
      exact hcollect
    | _ =>
      have hkept := hrest s.runner
      apply h.keep
      · simp [effect, reap, hpc]
      · simpa [effect, pollResult, hpc, Runner.onPoll] using hkept.reported
      · simpa [effect, pollResult, hpc, Runner.onPoll] using hkept.spawned

theorem collected_step (h : s.Collected cfg) (hon : enabled cfg s act = true) :
    (effect cfg s act).Collected cfg := by
  by_cases hpoll : ∃ ok, act = .poll ok
  · obtain ⟨ok, rfl⟩ := hpoll
    exact collected_poll h ok
  · have hact : ∀ ok, act ≠ .poll ok := fun ok heq => hpoll ⟨ok, heq⟩
    obtain ⟨n, hkept⟩ : ∃ n, Kept n s.runner (effect cfg s act).runner := kept_effect s hact
    by_cases hreaped : unreaped s.watcher.pc = true
    · apply collected_unreaped (unreaped_effect hact hreaped)
      rw [hkept.reported, hkept.spawned]
      exact h.stale hreaped
    · have hpc : ∃ st, s.watcher.pc = .reaped st := by
        cases hplace : s.watcher.pc with
        | reaped st => exact ⟨st, rfl⟩
        | _ => simp [hplace, unreaped] at hreaped
      obtain ⟨st, hst⟩ := hpc
      exact h.keep ((reaped_stays hst hon).trans hst.symm) hkept.reported hkept.spawned

end

/-- The result and what it is made of, in every run. -/
theorem result_of_run {s : Sys} {ok : Sys → Act → Prop}
    (hrun : Reaches (step cfg) ok (start cfg) s) : Concluded s.runner ∧ s.Collected cfg := by
  apply hrun.invariant (fun s => Concluded s.runner ∧ s.Collected cfg)
  · exact ⟨trivial, rfl, rfl⟩
  · intro s act s' h _ hstep
    obtain ⟨hon, -, rfl⟩ := step_cases hstep
    exact ⟨concluded_step h.1 hon, collected_step h.2 hon⟩

end KudosJudge.RunSystem
