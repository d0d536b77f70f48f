import KudosJudge.RunSignals
import KudosJudge.RunVerdict

set_option autoImplicit false

namespace KudosJudge.RunSystem
open CompareOutput Results SandboxWatcher RunnerLoop Runs

variable {cfg : Config}

/-- A program that the watcher has not yet let go. -/
def held : Binary → Bool
  | .starting => true
  | .execStop => true
  | .zombie _ => true
  | _ => false

/-- A program that the watcher still waits for. -/
def traced : Binary → Bool
  | .running => true
  | .stopped _ _ => true
  | .zombie (.exited _) => true
  | .zombie (.signaled _) => true
  | _ => false

def polls : RunnerLoop.Pc → Bool
  | .clone => true
  | .checkFds => true
  | .poll => true
  | _ => false

/-- What the place of the runner tells of its variables. -/
structure Placed (cfg : Config) (r : Runner) : Prop where
  polling : polls r.pc = true → r.watcherAlive = true
  sending : r.pc = .send → r.dsSentAcc < cfg.input.length
  unflushed : behindLoop r.pc = false → r.flushAcc = 0

section

variable {r r' : Runner}

def aside : RunnerLoop.Pc → Bool
  | .clone => false
  | .checkFds => false
  | .poll => false
  | .send => false
  | _ => true

theorem placed_aside (haside : aside r.pc = true) (hflush : behindLoop r.pc = false → r.flushAcc = 0) :
    Placed cfg r ∧ r.pc ≠ .clone := by
  have hnot : ∀ pc, aside pc = false → r.pc ≠ pc := by
    rintro pc hpc rfl
    rw [haside] at hpc
    cases hpc
  have hpolls : polls r.pc = false := by
    cases hpc : r.pc <;> rw [hpc] at haside <;> first | rfl | cases haside
  refine ⟨⟨fun hpoll => ?_, fun hsend => absurd hsend (hnot .send rfl), hflush⟩, hnot .clone rfl⟩
  rw [hpolls] at hpoll
  cases hpoll

theorem placed_polling (hpc : r.pc = .poll) (halive : r.watcherAlive = true)
    (hflush : r.flushAcc = 0) : Placed cfg r ∧ r.pc ≠ .clone :=
  ⟨⟨fun _ => halive, by simp [hpc], fun _ => hflush⟩, by simp [hpc]⟩

theorem Resumes.placed (h : Resumes cfg r r') (hflush : r.flushAcc = 0) :
    Placed cfg r' ∧ r'.pc ≠ .clone := by
  cases h with
  | poll alive => exact placed_polling rfl alive hflush
  | send unsent => exact ⟨⟨by simp [polls], fun _ => unsent, fun _ => hflush⟩, by simp⟩
  | read more equal => exact placed_aside rfl fun _ => hflush
  | finish decided dead => exact placed_aside rfl fun hin => by cases hin

theorem placed_checkLimit (hflush : r.flushAcc = 0) :
    Placed cfg (r.checkLimit cfg) ∧ (r.checkLimit cfg).pc ≠ .clone := by
  unfold Runner.checkLimit
  split_ifs
  · exact placed_aside rfl fun _ => hflush
  · exact (top_resumes r).placed hflush

theorem placed_onRead (hflush : r.flushAcc = 0) (outPipe : List UInt8) (o : Read) :
    Placed cfg (r.onRead cfg outPipe o) ∧ (r.onRead cfg outPipe o).pc ≠ .clone := by
  cases o with
  | bytes n =>
    simp only [Runner.onRead, Runner.onChunk]
    split_ifs
    · exact placed_aside rfl fun _ => hflush
    · exact placed_checkLimit hflush
  | eof => exact (top_resumes _).placed hflush
  | again =>
    simp only [Runner.onRead]
    split_ifs
    · exact (top_resumes r).placed hflush
    · exact placed_aside rfl fun hin => by cases hin
  | error =>
    simp only [Runner.onRead]
    split_ifs
    · exact placed_aside rfl fun _ => hflush
    · exact (top_resumes _).placed hflush

theorem placed_onSend (hflush : r.flushAcc = 0) (t : Transfer) :
    Placed cfg (r.onSend cfg t) ∧ (r.onSend cfg t).pc ≠ .clone := by
  cases t with
  | moved n => exact (check_resumes cfg _).placed hflush
  | again => exact (check_resumes cfg r).placed hflush
  | error =>
    simp only [Runner.onSend]
    split_ifs
    · exact placed_aside rfl fun _ => hflush
    · exact (check_resumes cfg _).placed hflush

theorem placed_onKill (h : Placed cfg r) (hin : behindLoop r.pc = false) (hpc : r.pc ≠ .clone) :
    Placed cfg (r.onKill cfg) ∧ (r.onKill cfg).pc ≠ .clone := by
  have hflush := h.unflushed hin
  unfold Runner.onKill
  split
  · exact (check_resumes cfg r).placed hflush
  · exact placed_checkLimit hflush
  · exact (top_resumes _).placed hflush
  · exact (top_resumes r).placed hflush
  · exact ⟨h, hpc⟩

theorem collect_flushAcc (r : Runner) (st : WaitStatus) : (r.collect st).flushAcc = r.flushAcc := by
  cases st with
  | exited code =>
    simp only [Runner.collect]
    split_ifs <;> rfl
  | _ => rfl

theorem placed_onPoll (hflush : r.flushAcc = 0) (p : Poll) :
    Placed cfg (r.onPoll cfg p) ∧ (r.onPoll cfg p).pc ≠ .clone := by
  cases p with
  | error => exact (toSend_resumes _).placed hflush
  | unchanged => exact (toSend_resumes r).placed hflush
  | status st => exact (toSend_resumes _).placed ((collect_flushAcc r st).trans hflush)

theorem placed_behind (hbehind : behindLoop r.pc = true) : Placed cfg r ∧ r.pc ≠ .clone := by
  refine placed_aside ?_ fun hin => ?_
  · cases hpc : r.pc <;> rw [hpc] at hbehind <;> first | rfl | cases hbehind
  · rw [hbehind] at hin
    cases hin

theorem onFlushOut_behind (r : Runner) (blockingCount : ℕ) (o : Read) :
    behindLoop (r.onFlushOut blockingCount o).pc = true := by
  cases o with
  | again =>
    simp only [Runner.onFlushOut]
    split_ifs <;> rfl
  | _ => rfl

theorem leave_behind (hbehind : behindLoop r.pc = true) :
    behindLoop (r.leave cfg).pc = true := by
  unfold Runner.leave
  split_ifs
  · rfl
  · exact hbehind

theorem onFlushIn_behind (hbehind : behindLoop r.pc = true) (t : Transfer) :
    behindLoop (r.onFlushIn cfg t).pc = true := by
  cases t with
  | moved n =>
    have hmoved : behindLoop { r with flushAcc := r.flushAcc + n }.pc = true := hbehind
    exact leave_behind hmoved
  | again => exact leave_behind hbehind
  | error => rfl

end

/-- The places at which a watcher that was born needs no binary. -/
def settled : SandboxWatcher.Pc → Bool
  | .setup _ => true
  | .flush => true
  | .ended _ => true
  | _ => false

theorem onSetup_pc (w : Watcher) (call : SetupCall) (calls : List SetupCall) (ok : Bool) :
    (w.onSetup call calls ok).pc = .setup calls ∨ ∃ st, (w.onSetup call calls ok).pc = .ended st := by
  unfold Watcher.onSetup
  split
  · exact .inr ⟨_, rfl⟩
  · exact .inl rfl

theorem onFlush_pc {w : Watcher} (hpc : w.pc = .flush) (size : ℕ) (t : Transfer) :
    (w.onFlush size t).pc = .flush ∨ ∃ st, (w.onFlush size t).pc = .ended st := by
  have hleave : ∀ w' : Watcher, w'.pc = .flush →
      (w'.leave size).pc = .flush ∨ ∃ st, (w'.leave size).pc = .ended st := by
    intro w' hpc'
    unfold Watcher.leave
    split_ifs
    · exact .inr ⟨_, rfl⟩
    · exact .inl hpc'
  cases t with
  | moved n => exact hleave _ hpc
  | again => exact hleave _ hpc
  | error => exact .inr ⟨_, rfl⟩

theorem onFlushRead_pc {w : Watcher} (hpc : w.pc = .flush) (size : ℕ) (t : Transfer) :
    (w.onFlushRead size t).pc = .flush ∨ ∃ st, (w.onFlushRead size t).pc = .ended st := by
  cases t with
  | again => exact .inl hpc
  | moved n => exact onFlush_pc hpc size (.moved n)
  | error => exact onFlush_pc hpc size .error

theorem onTest_pc {w : Watcher} (hpc : w.pc = .flush) (size : ℕ) (errno : Errno) :
    (w.onTest size errno).pc = .flush ∨ ∃ st, (w.onTest size errno).pc = .ended st := by
  have htested : ({ w with failedRead := none } : Watcher).pc = .flush := hpc
  cases errno with
  | eagain => exact onFlush_pc htested size .again
  | esrch => exact onFlush_pc htested size .error

theorem reap_cases (w : Watcher) (ok : Bool) :
    reap w ok = w ∨ ∃ st, ok = true ∧ w.pc = .ended st ∧ (reap w ok).pc = .reaped st := by
  unfold reap
  split
  · rename_i st hpc
    exact .inr ⟨st, rfl, hpc, rfl⟩
  · exact .inl rfl

/-- An `errno` that has still to be tested was left by a read of the flush loop. -/
def Testing (w : Watcher) : Prop :=
  w.failedRead ≠ none → w.pc = .flush ∨ gone w.pc = true

theorem Testing.tested {w : Watcher} (h : Testing w) (hflush : w.pc ≠ .flush)
    (hgone : gone w.pc = false) : w.failedRead = none := by
  by_contra hpending
  rcases h hpending with hpc | hpc
  · exact hflush hpc
  · rw [hgone] at hpc
    cases hpc

theorem Testing.of_none {w w' : Watcher} (h : w.failedRead = none)
    (hsame : w'.failedRead = w.failedRead) : Testing w' :=
  fun hpending => absurd (hsame.trans h) hpending

theorem testing_step {s : Sys} {act : Act} (h : Testing s.watcher)
    (hon : enabled cfg s act = true) : Testing (effect cfg s act).watcher := by
  have hleft : ∀ {pc}, s.watcher.pc = pc → pc ≠ .flush → gone pc = false →
      (effect cfg s act).watcher.failedRead = s.watcher.failedRead →
        Testing (effect cfg s act).watcher := by
    rintro pc rfl hflush hgone hsame
    exact .of_none (h.tested hflush hgone) hsame
  have hstays : (effect cfg s act).watcher.pc = s.watcher.pc →
      ((effect cfg s act).watcher.failedRead ≠ none → s.watcher.failedRead ≠ none) →
        Testing (effect cfg s act).watcher := by
    intro hpc hpending hnew
    rw [hpc]
    exact h (hpending hnew)
  cases act with
  | clone outcome =>
    simp only [enabled, decide_eq_true_eq] at hon
    exact hleft hon.2 (by decide) rfl (by cases outcome <;> rfl)
  | poll ok =>
    rcases reap_cases s.watcher ok with hsame | ⟨st, -, -, hreap⟩
    · exact hstays (congrArg Watcher.pc hsame) (by simp only [effect, hsame, imp_self])
    · exact fun _ => .inr (by simp only [effect, hreap, gone])
  | kill => exact hstays (receive_pc ..) (by simp only [effect, receive_failedRead, imp_self])
  | setup ok =>
    obtain ⟨call, calls, hpc⟩ := enabled_setup hon
    exact hleft hpc (by simp) rfl (setup_failedRead ..)
  | fork ok =>
    simp only [enabled, decide_eq_true_eq] at hon
    exact hleft hon (by decide) rfl (by cases ok <;> rfl)
  | startWatching =>
    simp only [enabled, decide_eq_true_eq] at hon
    exact hleft hon (by decide) rfl rfl
  | firstWait ok =>
    simp only [enabled, decide_eq_true_eq] at hon
    exact hleft hon.1 (by decide) rfl (by cases ok <;> rfl)
  | splice t =>
    simp only [enabled, decide_eq_true_eq] at hon
    exact hleft hon.1 (by decide) rfl (by cases t <;> rfl)
  | wait ok memUsed =>
    simp only [enabled, decide_eq_true_eq] at hon
    exact hleft hon (by decide) rfl (wait_failedRead ..)
  | flush t =>
    simp only [enabled, decide_eq_true_eq] at hon
    cases t with
    | moved n => exact .of_none hon.2.1 (leave_failedRead ..)
    | again => exact fun _ => .inl hon.1
    | error => exact .of_none hon.2.1 rfl
  | test errno =>
    cases errno with
    | eagain => exact .of_none (w := { s.watcher with failedRead := none }) rfl (leave_failedRead ..)
    | esrch => exact .of_none (w := { s.watcher with failedRead := none }) rfl rfl
  | handle sig =>
    refine hstays (onSignal_pc ..) fun hnew hold => hnew ?_
    change (s.watcher.onSignal sig (killable s.binary)).failedRead = _
    cases killable s.binary <;> cases sig <;> simp [Watcher.onSignal, hold]
  | alarm => exact hstays (receive_pc ..) (by simp only [effect, receive_failedRead, imp_self])
  | killWatcher sig => exact fun _ => .inr rfl
  | _ => exact h

/-- What holds of every state of a run, whatever fails in it. -/
structure Coherent (cfg : Config) (s : Sys) : Prop where
  placed : Placed cfg s.runner
  cloning : s.runner.pc = .clone ↔ s.watcher.pc = .unborn
  seen : ∀ st, s.watcher.pc = .reaped st → s.runner.watcherAlive = false
  begun : s.watcher.pc = .forked ∨ s.watcher.pc = .firstWait → held s.binary = true
  watching : s.watcher.pc = .splice ∨ s.watcher.pc = .wait → traced s.binary = true
  capacity : s.inPipe.length ≤ cfg.inCapacity
  testing : Testing s.watcher
  watched : s.Watched
  conserved : s.Conserved cfg

section

variable {s s' : Sys} {act : Act}

theorem Coherent.runner (h : Coherent cfg s) (hbefore : s.runner.pc ≠ .clone)
    (hplaced : Placed cfg s'.runner ∧ s'.runner.pc ≠ .clone)
    (halive : s'.runner.watcherAlive = s.runner.watcherAlive)
    (hpc : s'.watcher.pc = s.watcher.pc) (hbinary : s'.binary = s.binary)
    (hcapacity : s'.inPipe.length ≤ cfg.inCapacity)
    (hbase : Testing s'.watcher ∧ s'.Watched ∧ s'.Conserved cfg) :
    Coherent cfg s' where
  placed := hplaced.1
  cloning := iff_of_false hplaced.2 (by rw [hpc]; exact fun hunborn => hbefore (h.cloning.mpr hunborn))
  seen := by rw [hpc, halive]; exact h.seen
  begun := by rw [hpc, hbinary]; exact h.begun
  watching := by rw [hpc, hbinary]; exact h.watching
  capacity := hcapacity
  testing := hbase.1
  watched := hbase.2.1
  conserved := hbase.2.2

theorem Coherent.watcher (h : Coherent cfg s) (hrunner : s'.runner = s.runner)
    (hbefore : s.watcher.pc ≠ .unborn) (hafter : reachable s'.watcher.pc = true)
    (begun : s'.watcher.pc = .forked ∨ s'.watcher.pc = .firstWait → held s'.binary = true)
    (watching : s'.watcher.pc = .splice ∨ s'.watcher.pc = .wait → traced s'.binary = true)
    (hcapacity : s'.inPipe.length ≤ s.inPipe.length)
    (hbase : Testing s'.watcher ∧ s'.Watched ∧ s'.Conserved cfg) :
    Coherent cfg s' where
  placed := by rw [hrunner]; exact h.placed
  cloning := by
    rw [hrunner]
    refine iff_of_false (fun hpc => hbefore (h.cloning.mp hpc)) fun hpc => ?_
    rw [hpc] at hafter
    cases hafter
  seen := fun st hst => by
    rw [hst] at hafter
    cases hafter
  begun := begun
  watching := watching
  capacity := hcapacity.trans h.capacity
  testing := hbase.1
  watched := hbase.2.1
  conserved := hbase.2.2

theorem Coherent.elsewhere (h : Coherent cfg s) (hrunner : s'.runner = s.runner)
    (hbefore : s.watcher.pc ≠ .unborn) (hafter : settled s'.watcher.pc = true)
    (hcapacity : s'.inPipe.length ≤ s.inPipe.length)
    (hbase : Testing s'.watcher ∧ s'.Watched ∧ s'.Conserved cfg) :
    Coherent cfg s' := by
  refine h.watcher hrunner hbefore ?_ (fun hplace => ?_) (fun hplace => ?_) hcapacity hbase
  · cases hpc : s'.watcher.pc with
    | setup calls => rfl
    | flush => rfl
    | ended st => rfl
    | _ =>
      rw [hpc] at hafter
      cases hafter
  · rcases hplace with hpc | hpc <;> rw [hpc] at hafter <;> cases hafter
  · rcases hplace with hpc | hpc <;> rw [hpc] at hafter <;> cases hafter

theorem Coherent.inPlace (h : Coherent cfg s) (hrunner : s'.runner = s.runner)
    (hpc : s'.watcher.pc = s.watcher.pc) (hheld : held s.binary = true → held s'.binary = true)
    (htraced : traced s.binary = true → traced s'.binary = true) (hin : s'.inPipe = s.inPipe)
    (hbase : Testing s'.watcher ∧ s'.Watched ∧ s'.Conserved cfg) : Coherent cfg s' where
  placed := by rw [hrunner]; exact h.placed
  cloning := by rw [hrunner, hpc]; exact h.cloning
  seen := by rw [hrunner, hpc]; exact h.seen
  begun := by rw [hpc]; exact fun hplace => hheld (h.begun hplace)
  watching := by rw [hpc]; exact fun hplace => htraced (h.watching hplace)
  capacity := by rw [hin]; exact h.capacity
  testing := hbase.1
  watched := hbase.2.1
  conserved := hbase.2.2

theorem coherent_start (cfg : Config) : Coherent cfg (start cfg) where
  placed := ⟨fun _ => rfl, (fun hpc => by cases hpc), fun _ => rfl⟩
  cloning := iff_of_true rfl rfl
  seen := fun _ hst => by cases hst
  begun := fun h => by rcases h with h | h <;> cases h
  watching := fun h => by rcases h with h | h <;> cases h
  capacity := Nat.zero_le _
  testing := fun hpending => absurd rfl hpending
  watched := watched_early rfl ⟨rfl, rfl⟩
  conserved := conserved_start cfg

theorem poll_collects (cfg : Config) {st : WaitStatus} (hst : s.watcher.pc = .ended st) :
    (effect cfg s (.poll true)).runner.watcherAlive = false := by
  simp only [effect, pollResult, hst, if_true, Runner.onPoll]
  rw [(toSend_resumes _).kept.alive]
  cases st with
  | exited code =>
    simp only [Runner.collect]
    split_ifs <;> rfl
  | _ => rfl

theorem coherent_poll (h : Coherent cfg s) {ok : Bool} (hpc : s.runner.pc = .poll)
    (hbase : Testing (effect cfg s (.poll ok)).watcher ∧ (effect cfg s (.poll ok)).Watched ∧
      (effect cfg s (.poll ok)).Conserved cfg) :
    Coherent cfg (effect cfg s (.poll ok)) := by
  have hflush := h.placed.unflushed (by rw [hpc]; rfl)
  have hplaced : Placed cfg (effect cfg s (.poll ok)).runner ∧
      (effect cfg s (.poll ok)).runner.pc ≠ .clone := placed_onPoll hflush _
  have hbefore : s.runner.pc ≠ .clone := by
    simp [hpc]
  have hunborn : s.watcher.pc ≠ .unborn := fun hunborn => hbefore (h.cloning.mpr hunborn)
  rcases reap_cases s.watcher ok with hsame | ⟨st, rfl, hst, hreap⟩
  · refine ⟨hplaced.1, iff_of_false hplaced.2 ?_, fun st hst => ?_, ?_, ?_, h.capacity, hbase.1,
      hbase.2.1, hbase.2.2⟩
    · simp only [effect, hsame]
      exact hunborn
    · simp only [effect, hsame] at hst
      have hdead := h.seen st hst
      rw [h.placed.polling (by rw [hpc]; rfl)] at hdead
      cases hdead
    · simp only [effect, hsame]
      exact h.begun
    · simp only [effect, hsame]
      exact h.watching
  · have hreaped : (effect cfg s (.poll true)).watcher.pc = .reaped st := hreap
    refine ⟨hplaced.1, iff_of_false hplaced.2 (by simp [hreaped]),
      fun _ _ => poll_collects cfg hst, ?_, ?_, h.capacity, hbase.1, hbase.2.1, hbase.2.2⟩
    · rw [hreaped]
      rintro (hplace | hplace) <;> cases hplace
    · rw [hreaped]
      rintro (hplace | hplace) <;> cases hplace

theorem coherent_read (h : Coherent cfg s) {o : Read} (hon : enabled cfg s (.read o) = true)
    (hbase : Testing (effect cfg s (.read o)).watcher ∧ (effect cfg s (.read o)).Watched ∧
      (effect cfg s (.read o)).Conserved cfg) :
    Coherent cfg (effect cfg s (.read o)) := by
  have halive : (effect cfg s (.read o)).runner.watcherAlive = s.runner.watcherAlive :=
    (kept_runnerOnRead ..).alive
  simp only [enabled] at hon
  split at hon
  · rename_i hpc
    have hrunner : (effect cfg s (.read o)).runner = s.runner.onRead cfg s.outPipe o := by
      simp only [effect, runnerOnRead, hpc]
    refine h.runner (by simp [hpc]) ?_ halive rfl rfl h.capacity hbase
    rw [hrunner]
    exact placed_onRead (h.placed.unflushed (by rw [hpc]; rfl)) ..
  · rename_i blockingCount hpc
    have hrunner : (effect cfg s (.read o)).runner = s.runner.onFlushOut blockingCount o := by
      simp only [effect, runnerOnRead, hpc]
    refine h.runner (by simp [hpc]) ?_ halive rfl rfl h.capacity hbase
    rw [hrunner]
    exact placed_behind (onFlushOut_behind ..)
  · cases hon

theorem traced_top (w : Watcher) (size : ℕ) : reachable (w.top size).pc = true ∧
    ¬ ((w.top size).pc = .forked ∨ (w.top size).pc = .firstWait) := by
  unfold Watcher.top
  split_ifs
  · exact ⟨rfl, by rintro (h | h) <;> cases h⟩
  · exact ⟨rfl, by rintro (h | h) <;> cases h⟩

theorem coherent_wait (h : Coherent cfg s) {ok : Bool} {memUsed : ℤ} (hpc : s.watcher.pc = .wait)
    (hbase : Testing (effect cfg s (.wait ok memUsed)).watcher ∧
      (effect cfg s (.wait ok memUsed)).Watched ∧ (effect cfg s (.wait ok memUsed)).Conserved cfg) :
    Coherent cfg (effect cfg s (.wait ok memUsed)) := by
  have htraced := h.watching (.inr hpc)
  have hbefore : s.watcher.pc ≠ .unborn := by
    simp [hpc]
  cases ok with
  | false =>
    have hpc' : (effect cfg s (.wait false memUsed)).watcher.pc = .ended (.exited _) := rfl
    refine h.watcher rfl hbefore rfl ?_ ?_ le_rfl hbase
    · rw [hpc']
      rintro (hplace | hplace) <;> cases hplace
    · rw [hpc']
      rintro (hplace | hplace) <;> cases hplace
  | true =>
    cases hb : s.binary with
    | running =>
      have hwatcher : (effect cfg s (.wait true memUsed)).watcher =
          s.watcher.top cfg.input.length := by simp only [effect, watcherOnWait, hb]
      have hbinary : (effect cfg s (.wait true memUsed)).binary = .running := by
        simp only [effect, binaryOnWait, hb]
      obtain ⟨hreachable, hnot⟩ := traced_top s.watcher cfg.input.length
      refine h.watcher rfl hbefore ?_ ?_ ?_ le_rfl hbase
      · rw [hwatcher]
        exact hreachable
      · rw [hwatcher]
        exact fun hplace => absurd hplace hnot
      · rw [hbinary]
        exact fun _ => rfl
    | stopped sig event =>
      have hwatcher : (effect cfg s (.wait true memUsed)).watcher =
          (s.watcher.onStop cfg.memLimitMb sig event memUsed).top cfg.input.length := by
        simp only [effect, watcherOnWait, hb, Watcher.onStatus]
      have hbinary : (effect cfg s (.wait true memUsed)).binary = .running := by
        simp only [effect, binaryOnWait, hb]
      obtain ⟨hreachable, hnot⟩ :=
        traced_top (s.watcher.onStop cfg.memLimitMb sig event memUsed) cfg.input.length
      refine h.watcher rfl hbefore ?_ ?_ ?_ le_rfl hbase
      · rw [hwatcher]
        exact hreachable
      · rw [hwatcher]
        exact fun hplace => absurd hplace hnot
      · rw [hbinary]
        exact fun _ => rfl
    | zombie st =>
      have hflush : (effect cfg s (.wait true memUsed)).watcher.pc = .flush := by
        rw [hb] at htraced
        cases st with
        | exited code => simp only [effect, watcherOnWait, hb, Watcher.onStatus]
        | signaled sig => simp only [effect, watcherOnWait, hb, Watcher.onStatus]
        | stopped sig event => cases htraced
      refine h.watcher rfl hbefore ?_ ?_ ?_ le_rfl hbase
      · rw [hflush]
        rfl
      · rw [hflush]
        rintro (hplace | hplace) <;> cases hplace
      · rw [hflush]
        rintro (hplace | hplace) <;> cases hplace
    | _ =>
      rw [hb] at htraced
      cases htraced

theorem sent_fits {t : Transfer} (h : sendable cfg s t = true)
    (hcapacity : s.inPipe.length ≤ cfg.inCapacity) :
    (s.inPipe ++ (cfg.input.drop s.runner.sent).take (Transfer.count t)).length ≤
      cfg.inCapacity := by
  rw [List.length_append, List.length_take]
  cases t with
  | moved n =>
    cases n with
    | zero => simpa [Transfer.count] using hcapacity
    | succ n =>
      simp only [sendable, movable, decide_eq_true_eq] at h
      simp only [Transfer.count]
      omega
  | again => simpa [Transfer.count] using hcapacity
  | error => simpa [Transfer.count] using hcapacity

theorem coherent_step (h : Coherent cfg s) (hon : enabled cfg s act = true) :
    Coherent cfg (effect cfg s act) := by
  have hbase : Testing (effect cfg s act).watcher ∧ (effect cfg s act).Watched ∧
      (effect cfg s act).Conserved cfg :=
    ⟨testing_step h.testing hon, watched_step h.watched hon, conserved_step h.conserved hon⟩
  have hcapacity := h.capacity
  cases act with
  | clone outcome =>
    simp only [enabled, decide_eq_true_eq] at hon
    have halive := h.placed.polling (by rw [hon.1]; rfl)
    have hflush := h.placed.unflushed (by rw [hon.1]; rfl)
    cases outcome <;>
      refine ⟨⟨fun _ => halive, fun hpc => ?_, fun _ => hflush⟩,
        iff_of_false (fun hpc => ?_) fun hpc => ?_, fun _ hpc => ?_, ?_, ?_, hcapacity, hbase.1,
        hbase.2.1, hbase.2.2⟩
    all_goals first | cases hpc | rintro (hplace | hplace) <;> cases hplace
  | checkFds ok =>
    simp only [enabled, decide_eq_true_eq] at hon
    have halive := h.placed.polling (by rw [hon]; rfl)
    have hflush := h.placed.unflushed (by rw [hon]; rfl)
    have hbefore : s.runner.pc ≠ .clone := by
      simp [hon]
    cases ok with
    | false =>
      exact h.runner hbefore (placed_aside rfl fun hin => by cases hin) rfl rfl rfl hcapacity hbase
    | true =>
      exact h.runner hbefore (placed_polling rfl halive hflush) rfl rfl rfl hcapacity hbase
  | poll ok =>
    simp only [enabled, decide_eq_true_eq] at hon
    exact coherent_poll h hon.1 hbase
  | send t =>
    simp only [enabled, decide_eq_true_eq] at hon
    refine h.runner ?_ ?_ (kept_runnerOnSend ..).alive rfl rfl (sent_fits hon.2 hcapacity) hbase
    · rcases hon.1 with hpc | hpc <;> simp [hpc]
    · change Placed cfg (runnerOnSend cfg s.runner t) ∧ (runnerOnSend cfg s.runner t).pc ≠ .clone
      rcases hon.1 with hpc | hpc
      · rw [runnerOnSend_loop hpc]
        exact placed_onSend (h.placed.unflushed (by rw [hpc]; rfl)) t
      · rw [runnerOnSend_flushIn hpc]
        exact placed_behind (onFlushIn_behind (by rw [hpc]; rfl) t)
  | kill =>
    have hbefore : s.runner.pc ≠ .clone := by
      intro hpc
      simp [enabled, hpc] at hon
    exact h.runner hbefore (placed_onKill h.placed (enabled_kill hon) hbefore) (kept_onKill ..).alive
      (receive_pc s.watcher .usr2) rfl hcapacity hbase
  | read o => exact coherent_read h hon hbase
  | setup ok =>
    obtain ⟨call, calls, hpc⟩ := enabled_setup hon
    have hafter : (effect cfg s (.setup ok)).watcher = s.watcher.onSetup call calls ok := by
      simp only [effect, watcherOnSetup, hpc]
    refine h.elsewhere rfl (by simp [hpc]) ?_ le_rfl hbase
    rw [hafter]
    rcases onSetup_pc s.watcher call calls ok with hplace | ⟨st, hplace⟩ <;> rw [hplace] <;> rfl
  | fork ok =>
    simp only [enabled, decide_eq_true_eq] at hon
    have hbefore : s.watcher.pc ≠ .unborn := by
      simp [hon]
    cases ok with
    | false => exact h.elsewhere rfl hbefore rfl le_rfl hbase
    | true =>
      refine h.watcher rfl hbefore rfl (fun _ => rfl) ?_ le_rfl hbase
      rintro (hplace | hplace) <;> cases hplace
  | startWatching =>
    simp only [enabled, decide_eq_true_eq] at hon
    refine h.watcher rfl (by simp [hon]) rfl (fun _ => h.begun (.inl hon)) ?_ le_rfl hbase
    rintro (hplace | hplace) <;> cases hplace
  | firstWait ok =>
    simp only [enabled, decide_eq_true_eq] at hon
    have hbefore : s.watcher.pc ≠ .unborn := by
      simp [hon.1]
    cases ok with
    | false => exact h.elsewhere rfl hbefore rfl le_rfl hbase
    | true =>
      obtain ⟨hreachable, hnot⟩ := traced_top s.watcher cfg.input.length
      exact h.watcher rfl hbefore hreachable (fun hplace => absurd hplace hnot) (fun _ => rfl)
        le_rfl hbase
  | splice t =>
    simp only [enabled, decide_eq_true_eq] at hon
    have hbefore : s.watcher.pc ≠ .unborn := by
      simp [hon.1]
    have hshorter : (effect cfg s (.splice t)).inPipe.length ≤ s.inPipe.length := by
      simp only [effect, List.length_drop]
      omega
    have htraced := h.watching (.inl hon.1)
    cases t with
    | error => exact h.elsewhere rfl hbefore rfl hshorter hbase
    | _ =>
      refine h.watcher rfl hbefore rfl ?_ (fun _ => htraced) hshorter hbase
      rintro (hplace | hplace) <;> cases hplace
  | wait ok memUsed =>
    simp only [enabled, decide_eq_true_eq] at hon
    exact coherent_wait h hon hbase
  | flush t =>
    simp only [enabled, decide_eq_true_eq] at hon
    have hshorter : (effect cfg s (.flush t)).inPipe.length ≤ s.inPipe.length := by
      simp only [effect, List.length_drop]
      omega
    refine h.elsewhere rfl (by simp [hon.1]) ?_ hshorter hbase
    change settled (s.watcher.onFlushRead cfg.input.length t).pc = true
    rcases onFlushRead_pc hon.1 cfg.input.length t with hplace | ⟨st, hplace⟩ <;>
      rw [hplace] <;> rfl
  | test errno =>
    simp only [enabled, decide_eq_true_eq] at hon
    refine h.elsewhere rfl (by simp [hon.1]) ?_ le_rfl hbase
    change settled (s.watcher.onTest cfg.input.length errno).pc = true
    rcases onTest_pc hon.1 cfg.input.length errno with hplace | ⟨st, hplace⟩ <;>
      rw [hplace] <;> rfl
  | handle sig => exact h.inPlace rfl (onSignal_pc ..) id id rfl hbase
  | alarm => exact h.inPlace rfl (receive_pc s.watcher .alrm) id id rfl hbase
  | killWatcher sig =>
    simp only [enabled] at hon
    refine h.elsewhere rfl (fun hpc => ?_) rfl le_rfl hbase
    rw [Watcher.alive, hpc] at hon
    cases hon
  | exec =>
    simp only [enabled, decide_eq_true_eq] at hon
    exact h.inPlace rfl rfl (fun _ => rfl) (fun htraced => by rw [hon] at htraced; cases htraced) rfl
      hbase
  | write bytes => exact h.inPlace rfl rfl id id rfl hbase
  | stop sig event =>
    simp only [enabled, decide_eq_true_eq] at hon
    exact h.inPlace rfl rfl (fun hheld => by rw [hon] at hheld; cases hheld) (fun _ => rfl) rfl hbase
  | exit code => exact h.inPlace rfl rfl (fun _ => rfl) (fun _ => rfl) rfl hbase
  | die sig => exact h.inPlace rfl rfl (fun _ => rfl) (fun _ => rfl) rfl hbase

end

end KudosJudge.RunSystem
