import KudosJudge.RunSystem

set_option autoImplicit false

/-!
Where the bytes of the input are: forwarded to the binary, discarded by the
watcher's closing flush, in `in_pipe`, or not yet sent. This holds in every run,
whatever fails in it.
-/
namespace KudosJudge.RunSystem
open CompareOutput Results SandboxWatcher RunnerLoop Runs

theorem runnerOnSend_loop {cfg : Config} {r : Runner} {t : Transfer} (hpc : r.pc = .send) :
    runnerOnSend cfg r t = r.onSend cfg t := by
  rw [runnerOnSend, if_pos hpc]

theorem runnerOnSend_flushIn {cfg : Config} {r : Runner} {t : Transfer} (hpc : r.pc = .flushIn) :
    runnerOnSend cfg r t = r.onFlushIn cfg t := by
  have hnot : r.pc ≠ .send := by
    rw [hpc]
    nofun
  rw [runnerOnSend, if_neg hnot]

/-- The places at which the runner can go on behind a system call of its loop. -/
inductive Resumes (cfg : Config) (r : Runner) : Runner → Prop where
  | poll (alive : r.watcherAlive = true) : Resumes cfg r { r with pc := .poll }
  | send (unsent : r.dsSentAcc < cfg.input.length) : Resumes cfg r { r with pc := .send }
  | read (more : r.endoffile = false) (equal : r.compoutDetected = false) :
      Resumes cfg r { r with pc := .read }
  | finish (decided : r.endoffile = true ∨ r.compoutDetected = true)
      (dead : r.watcherAlive = false) : Resumes cfg r r.finish

variable {cfg : Config}

theorem check_resumes (cfg : Config) (r : Runner) : Resumes cfg r r.check := by
  unfold Runner.check
  split_ifs with hdecided halive
  · exact .poll halive
  · exact .finish (Bool.or_eq_true .. ▸ hdecided) (Bool.eq_false_iff.mpr halive)
  · rw [Bool.not_eq_true, Bool.or_eq_false_iff] at hdecided
    exact .read hdecided.1 hdecided.2

theorem toSend_resumes (r : Runner) : Resumes cfg r (r.toSend cfg) := by
  unfold Runner.toSend
  split_ifs with hunsent
  · exact .send hunsent
  · exact check_resumes cfg r

theorem top_resumes (r : Runner) : Resumes cfg r (r.top cfg) := by
  unfold Runner.top
  split_ifs with halive
  · exact .poll halive
  · exact toSend_resumes r

/-- The runner has sent `n` bytes, knows nothing new about the watcher and has
not forgotten a difference. -/
structure Kept (n : ℕ) (r r' : Runner) : Prop where
  sent : r'.sent = r.sent + n
  alive : r'.watcherAlive = r.watcherAlive
  spawned : r'.spawnSucceeded = r.spawnSucceeded
  reported : r'.watcherResult = r.watcherResult
  compout : r.compoutDetected = true → r'.compoutDetected = true

theorem Kept.refl (r : Runner) : Kept 0 r r := ⟨rfl, rfl, rfl, rfl, id⟩

theorem Kept.after {n : ℕ} {r r₁ r' : Runner} (h : Kept 0 r₁ r') (hsent : r₁.sent = r.sent + n)
    (halive : r₁.watcherAlive = r.watcherAlive) (hspawned : r₁.spawnSucceeded = r.spawnSucceeded)
    (hreported : r₁.watcherResult = r.watcherResult)
    (hcompout : r.compoutDetected = true → r₁.compoutDetected = true) : Kept n r r' :=
  ⟨h.sent.trans hsent, h.alive.trans halive, h.spawned.trans hspawned,
    h.reported.trans hreported, fun hr => h.compout (hcompout hr)⟩

theorem Resumes.kept {r r' : Runner} (h : Resumes cfg r r') : Kept 0 r r' := by
  cases h <;> exact ⟨rfl, rfl, rfl, rfl, id⟩

theorem kept_checkLimit (r : Runner) : Kept 0 r (r.checkLimit cfg) := by
  unfold Runner.checkLimit
  split_ifs
  · exact ⟨rfl, rfl, rfl, rfl, id⟩
  · exact (top_resumes r).kept

theorem kept_onChunk (r : Runner) (chunk : List UInt8) : Kept 0 r (r.onChunk cfg chunk) := by
  have hcompout : r.compoutDetected = true → (r.compareChunk chunk).compoutDetected = true :=
    fun hr => (Bool.or_eq_true ..).mpr (.inl hr)
  unfold Runner.onChunk
  split_ifs
  · exact ⟨rfl, rfl, rfl, rfl, hcompout⟩
  · exact (kept_checkLimit _).after rfl rfl rfl rfl hcompout

theorem kept_onRead (r : Runner) (outPipe : List UInt8) (o : Read) :
    Kept 0 r (r.onRead cfg outPipe o) := by
  cases o with
  | bytes n => exact kept_onChunk r _
  | eof => exact (top_resumes _).kept.after rfl rfl rfl rfl id
  | again =>
    simp only [Runner.onRead]
    split_ifs
    · exact (top_resumes r).kept
    · exact ⟨rfl, rfl, rfl, rfl, id⟩
  | error =>
    simp only [Runner.onRead]
    split_ifs
    · exact ⟨rfl, rfl, rfl, rfl, fun _ => rfl⟩
    · exact (top_resumes _).kept.after rfl rfl rfl rfl fun _ => rfl

theorem kept_onFlushOut (r : Runner) (blockingCount : ℕ) (o : Read) :
    Kept 0 r (r.onFlushOut blockingCount o) := by
  cases o with
  | again =>
    simp only [Runner.onFlushOut]
    split_ifs <;> exact ⟨rfl, rfl, rfl, rfl, id⟩
  | _ => exact ⟨rfl, rfl, rfl, rfl, id⟩

theorem kept_runnerOnRead (r : Runner) (outPipe : List UInt8) (o : Read) :
    Kept 0 r (runnerOnRead cfg r outPipe o) := by
  unfold runnerOnRead
  split
  · exact kept_onFlushOut ..
  · exact kept_onRead ..

theorem kept_onKill (r : Runner) : Kept 0 r (r.onKill cfg) := by
  unfold Runner.onKill
  split
  · exact (check_resumes cfg r).kept
  · exact kept_checkLimit r
  · exact (top_resumes _).kept.after rfl rfl rfl rfl id
  · exact (top_resumes r).kept
  · exact .refl r

theorem kept_onSend (r : Runner) (t : Transfer) : Kept (Transfer.count t) r (r.onSend cfg t) := by
  cases t with
  | moved n =>
    exact (check_resumes cfg _).kept.after (Nat.add_right_comm ..) rfl rfl rfl id
  | again => exact (check_resumes cfg r).kept
  | error =>
    simp only [Runner.onSend]
    split_ifs
    · exact ⟨rfl, rfl, rfl, rfl, fun _ => rfl⟩
    · exact (check_resumes cfg _).kept.after rfl rfl rfl rfl fun _ => rfl

theorem kept_leave (r : Runner) : Kept 0 r (r.leave cfg) := by
  unfold Runner.leave
  split_ifs <;> exact ⟨rfl, rfl, rfl, rfl, id⟩

theorem kept_onFlushIn (r : Runner) (t : Transfer) :
    Kept (Transfer.count t) r (r.onFlushIn cfg t) := by
  cases t with
  | moved n =>
    exact (kept_leave _).after (Nat.add_assoc ..).symm rfl rfl rfl id
  | again => exact kept_leave r
  | error => exact ⟨rfl, rfl, rfl, rfl, id⟩

theorem kept_runnerOnSend (r : Runner) (t : Transfer) :
    Kept (Transfer.count t) r (runnerOnSend cfg r t) := by
  unfold runnerOnSend
  split_ifs
  · exact kept_onSend r t
  · exact kept_onFlushIn r t

theorem kept_onClone (r : Runner) (outcome : Clone) : Kept 0 r (r.onClone outcome) := by
  cases outcome <;> exact ⟨rfl, rfl, rfl, rfl, id⟩

theorem kept_onCheckFds (r : Runner) (ok : Bool) : Kept 0 r (r.onCheckFds ok) := by
  cases ok <;> exact ⟨rfl, rfl, rfl, rfl, id⟩

theorem collect_sent (r : Runner) (st : WaitStatus) : (r.collect st).sent = r.sent := by
  cases st with
  | exited code =>
    simp only [Runner.collect]
    split_ifs <;> rfl
  | signaled sig => rfl
  | stopped sig event => rfl

theorem onPoll_sent (r : Runner) (p : Poll) : (r.onPoll cfg p).sent = r.sent := by
  cases p with
  | error => exact (toSend_resumes _).kept.sent
  | unchanged => exact (toSend_resumes _).kept.sent
  | status st => exact (toSend_resumes _).kept.sent.trans (collect_sent r st)

def flushing : SandboxWatcher.Pc → Bool
  | .flush => true
  | .ended _ => true
  | .reaped _ => true
  | _ => false

/-- The watcher has moved no input and is not back before its flush. -/
def Steady (w w' : Watcher) : Prop :=
  w'.spliceSizeAcc = w.spliceSizeAcc ∧ w'.flushAcc = w.flushAcc ∧
    (flushing w'.pc = false → flushing w.pc = false)

theorem steady_clone {w : Watcher} (hpc : w.pc = .unborn) (outcome : Clone) :
    Steady w (watcherOnClone cfg w outcome) := by
  cases outcome <;> exact ⟨rfl, rfl, fun _ => by rw [hpc]; rfl⟩

theorem steady_reap (w : Watcher) (ok : Bool) : Steady w (reap w ok) := by
  unfold reap
  split
  · exact ⟨rfl, rfl, fun h => nomatch h⟩
  · exact ⟨rfl, rfl, id⟩

theorem steady_receive (w : Watcher) (sig : Sig) : Steady w (w.receive sig) := by
  unfold Watcher.receive
  split_ifs <;> exact ⟨rfl, rfl, id⟩

theorem steady_setup (w : Watcher) (ok : Bool) : Steady w (watcherOnSetup w ok) := by
  unfold watcherOnSetup
  split
  · rename_i call calls hpc
    have hbefore : flushing w.pc = false := by rw [hpc]; rfl
    unfold Watcher.onSetup
    split
    · exact ⟨rfl, rfl, fun _ => hbefore⟩
    · cases call <;> exact ⟨rfl, rfl, fun _ => hbefore⟩
  · exact ⟨rfl, rfl, id⟩

theorem steady_fork {w : Watcher} (hpc : w.pc = .setup []) (ok : Bool) :
    Steady w (w.onFork ok) := by
  cases ok <;> exact ⟨rfl, rfl, fun _ => by rw [hpc]; rfl⟩

theorem steady_firstWait {w : Watcher} (hpc : w.pc = .firstWait) (size : ℕ) (ok : Bool) :
    Steady w (w.onFirstWait size ok) := by
  cases ok <;> exact ⟨rfl, rfl, fun _ => by rw [hpc]; rfl⟩

theorem steady_wait {w : Watcher} (hpc : w.pc = .wait) (b : Binary) (ok : Bool) (memUsed : ℤ) :
    Steady w (watcherOnWait cfg w b ok memUsed) := by
  have hbefore : flushing w.pc = false := by rw [hpc]; rfl
  unfold watcherOnWait
  split
  · exact ⟨rfl, rfl, fun _ => hbefore⟩
  · exact ⟨rfl, rfl, fun _ => hbefore⟩
  · rename_i st
    cases st <;> exact ⟨rfl, rfl, fun _ => hbefore⟩
  · exact ⟨rfl, rfl, fun _ => hbefore⟩

theorem steady_ended (w : Watcher) (st : WaitStatus) : Steady w { w with pc := .ended st } :=
  ⟨rfl, rfl, nofun⟩

theorem steady_signal (w : Watcher) (sig : Sig) (killed : Bool) :
    Steady w (w.onSignal sig killed) := by
  cases killed <;> cases sig <;> exact ⟨rfl, rfl, id⟩

def Log.consumed (log : Log) : List UInt8 := log.forwarded ++ log.discarded

structure Conserved (cfg : Config) (r : Runner) (w : Watcher) (inPipe : List UInt8) (log : Log) :
    Prop where
  bytes : log.consumed ++ inPipe = cfg.input.take r.sent
  sent_le : r.sent ≤ cfg.input.length
  forwarded : w.spliceSizeAcc = log.forwarded.length
  discarded : w.flushAcc = log.discarded.length
  unflushed : flushing w.pc = false → log.discarded = []

section

variable {r r' : Runner} {w w' : Watcher} {inPipe : List UInt8} {log : Log}

theorem Conserved.runner (h : Conserved cfg r w inPipe log) (hsent : r'.sent = r.sent) :
    Conserved cfg r' w inPipe log :=
  ⟨by rw [hsent, h.bytes], by rw [hsent]; exact h.sent_le, h.forwarded, h.discarded, h.unflushed⟩

theorem Conserved.watcher (h : Conserved cfg r w inPipe log) (hsteady : Steady w w') :
    Conserved cfg r w' inPipe log :=
  ⟨h.bytes, h.sent_le, hsteady.1.trans h.forwarded, hsteady.2.1.trans h.discarded,
    fun hpc => h.unflushed (hsteady.2.2 hpc)⟩

theorem Conserved.send (h : Conserved cfg r w inPipe log) {n : ℕ}
    (hn : n ≤ cfg.input.length - r.sent) (hsent : r'.sent = r.sent + n) :
    Conserved cfg r' w (inPipe ++ (cfg.input.drop r.sent).take n) log := by
  have hle := h.sent_le
  refine ⟨?_, by omega, h.forwarded, h.discarded, h.unflushed⟩
  rw [← List.append_assoc, h.bytes, hsent, List.take_add]

theorem Conserved.splice (h : Conserved cfg r w inPipe log) (hpc : flushing w.pc = false) {n : ℕ}
    (hn : n ≤ inPipe.length) (hacc : w'.spliceSizeAcc = w.spliceSizeAcc + n)
    (hflush : w'.flushAcc = w.flushAcc) :
    Conserved cfg r w' (inPipe.drop n)
      { log with forwarded := log.forwarded ++ inPipe.take n } := by
  have hnil := h.unflushed hpc
  have hbytes := h.bytes
  rw [Log.consumed, hnil, List.append_nil] at hbytes
  refine ⟨?_, h.sent_le, ?_, hflush.trans h.discarded, fun _ => hnil⟩
  · rw [Log.consumed, hnil, List.append_nil, List.append_assoc, List.take_append_drop, hbytes]
  · rw [hacc, h.forwarded, List.length_append, List.length_take, Nat.min_eq_left hn]

theorem Conserved.flush (h : Conserved cfg r w inPipe log) {n : ℕ} (hn : n ≤ inPipe.length)
    (hacc : w'.spliceSizeAcc = w.spliceSizeAcc) (hflush : w'.flushAcc = w.flushAcc + n)
    (hpc : flushing w'.pc = true) :
    Conserved cfg r w' (inPipe.drop n)
      { log with discarded := log.discarded ++ inPipe.take n } := by
  have hbytes := h.bytes
  rw [Log.consumed, List.append_assoc] at hbytes
  refine ⟨?_, h.sent_le, hacc.trans h.forwarded, ?_, fun hnot => by rw [hpc] at hnot; cases hnot⟩
  · simp only [Log.consumed, List.append_assoc, List.take_append_drop, hbytes]
  · rw [hflush, h.discarded, List.length_append, List.length_take, Nat.min_eq_left hn]

theorem Conserved.sameInput {log' : Log} (h : Conserved cfg r w inPipe log)
    (hforwarded : log'.forwarded = log.forwarded) (hdiscarded : log'.discarded = log.discarded) :
    Conserved cfg r w inPipe log' := by
  refine ⟨?_, h.sent_le, ?_, ?_, ?_⟩
  · rw [Log.consumed, hforwarded, hdiscarded, ← Log.consumed, h.bytes]
  · rw [hforwarded, h.forwarded]
  · rw [hdiscarded, h.discarded]
  · rw [hdiscarded]
    exact h.unflushed

end

theorem sendable_count {s : Sys} {t : Transfer} (h : sendable cfg s t = true) :
    Transfer.count t ≤ cfg.input.length - s.runner.sent := by
  cases t with
  | moved n =>
    cases n with
    | zero => exact Nat.zero_le _
    | succ n =>
      simp only [sendable, movable, decide_eq_true_eq] at h
      simp only [Transfer.count]
      omega
  | again => exact Nat.zero_le _
  | error => exact Nat.zero_le _

theorem movable_count {available limit : ℕ} {t : Transfer} (h : movable available limit t = true) :
    Transfer.count t ≤ available := by
  cases t with
  | moved n =>
    simp only [movable, decide_eq_true_eq] at h
    exact h.2.1
  | again => exact Nat.zero_le _
  | error => exact Nat.zero_le _

theorem onSplice_counters (w : Watcher) (size : ℕ) (t : Transfer) :
    (w.onSplice size t).spliceSizeAcc = w.spliceSizeAcc + Transfer.count t ∧
      (w.onSplice size t).flushAcc = w.flushAcc := by
  cases t <;> exact ⟨rfl, rfl⟩

theorem leave_counters (w : Watcher) (size : ℕ) :
    (w.leave size).spliceSizeAcc = w.spliceSizeAcc ∧ (w.leave size).flushAcc = w.flushAcc ∧
      (flushing w.pc = true → flushing (w.leave size).pc = true) := by
  unfold Watcher.leave
  split_ifs
  · exact ⟨rfl, rfl, fun _ => rfl⟩
  · exact ⟨rfl, rfl, id⟩

theorem onFlush_counters {w : Watcher} (hpc : w.pc = .flush) (size : ℕ) (t : Transfer) :
    (w.onFlush size t).spliceSizeAcc = w.spliceSizeAcc ∧
      (w.onFlush size t).flushAcc = w.flushAcc + Transfer.count t ∧
      flushing (w.onFlush size t).pc = true := by
  have hflushing : flushing w.pc = true := by rw [hpc]; rfl
  cases t with
  | moved n =>
    obtain ⟨hsplice, hflush, hpc'⟩ := leave_counters { w with flushAcc := w.flushAcc + n } size
    exact ⟨hsplice, hflush, hpc' hflushing⟩
  | again =>
    obtain ⟨hsplice, hflush, hpc'⟩ := leave_counters w size
    exact ⟨hsplice, hflush, hpc' hflushing⟩
  | error => exact ⟨rfl, rfl, rfl⟩

theorem onFlushRead_counters {w : Watcher} (hpc : w.pc = .flush) (size : ℕ) (t : Transfer) :
    (w.onFlushRead size t).spliceSizeAcc = w.spliceSizeAcc ∧
      (w.onFlushRead size t).flushAcc = w.flushAcc + Transfer.count t ∧
      flushing (w.onFlushRead size t).pc = true := by
  cases t with
  | again => exact ⟨rfl, rfl, by rw [Watcher.onFlushRead, hpc]; rfl⟩
  | moved n => exact onFlush_counters hpc size (.moved n)
  | error => exact onFlush_counters hpc size .error

theorem onTest_counters {w : Watcher} (hpc : w.pc = .flush) (size : ℕ) (errno : Errno) :
    (w.onTest size errno).spliceSizeAcc = w.spliceSizeAcc ∧
      (w.onTest size errno).flushAcc = w.flushAcc ∧
      flushing (w.onTest size errno).pc = true := by
  have htested : ({ w with failedRead := none } : Watcher).pc = .flush := hpc
  cases errno with
  | eagain => exact onFlush_counters htested size .again
  | esrch => exact onFlush_counters htested size .error

theorem steady_test {w : Watcher} (hpc : w.pc = .flush) (size : ℕ) (errno : Errno) :
    Steady w (w.onTest size errno) := by
  obtain ⟨hacc, hflush, hflushing⟩ := onTest_counters hpc size errno
  exact ⟨hacc, hflush, fun hnot => absurd (hnot.symm.trans hflushing) Bool.false_ne_true⟩

theorem logRead_input (log : Log) (r : Runner) (outPipe : List UInt8) (o : Read) :
    (logRead log r outPipe o).forwarded = log.forwarded ∧
      (logRead log r outPipe o).discarded = log.discarded := by
  unfold logRead
  split
  · exact ⟨rfl, rfl⟩
  · split_ifs <;> exact ⟨rfl, rfl⟩
  · exact ⟨rfl, rfl⟩
  · exact ⟨rfl, rfl⟩

def Sys.Conserved (cfg : Config) (s : Sys) : Prop :=
  RunSystem.Conserved cfg s.runner s.watcher s.inPipe s.log

theorem conserved_step {s : Sys} {act : Act} (h : s.Conserved cfg)
    (hon : enabled cfg s act = true) : (effect cfg s act).Conserved cfg := by
  cases act with
  | clone outcome =>
    simp only [enabled, decide_eq_true_eq] at hon
    exact (h.watcher (steady_clone hon.2 outcome)).runner (kept_onClone ..).sent
  | checkFds ok => exact h.runner (kept_onCheckFds ..).sent
  | poll ok => exact (h.watcher (steady_reap ..)).runner (onPoll_sent ..)
  | send t =>
    simp only [enabled, decide_eq_true_eq] at hon
    exact h.send (sendable_count hon.2) (kept_runnerOnSend ..).sent
  | kill => exact (h.watcher (steady_receive ..)).runner (kept_onKill ..).sent
  | read o =>
    obtain ⟨hforwarded, hdiscarded⟩ := logRead_input s.log s.runner s.outPipe o
    exact (h.runner (kept_runnerOnRead ..).sent).sameInput hforwarded hdiscarded
  | setup ok => exact h.watcher (steady_setup ..)
  | fork ok =>
    simp only [enabled, decide_eq_true_eq] at hon
    exact h.watcher (steady_fork hon ok)
  | startWatching =>
    simp only [enabled, decide_eq_true_eq] at hon
    exact h.watcher ⟨rfl, rfl, fun _ => by rw [hon]; rfl⟩
  | firstWait ok =>
    simp only [enabled, decide_eq_true_eq] at hon
    exact h.watcher (steady_firstWait hon.1 _ ok)
  | splice t =>
    simp only [enabled, decide_eq_true_eq] at hon
    obtain ⟨hacc, hflush⟩ := onSplice_counters s.watcher cfg.input.length t
    exact h.splice (by rw [hon.1]; rfl) (movable_count hon.2) hacc hflush
  | wait ok memUsed =>
    simp only [enabled, decide_eq_true_eq] at hon
    exact h.watcher (steady_wait hon ..)
  | flush t =>
    simp only [enabled, decide_eq_true_eq] at hon
    obtain ⟨hacc, hflush, hpc⟩ := onFlushRead_counters hon.1 cfg.input.length t
    exact h.flush (movable_count hon.2.2) hacc hflush hpc
  | test errno =>
    simp only [enabled, decide_eq_true_eq] at hon
    exact h.watcher (steady_test hon.1 ..)
  | handle sig => exact h.watcher (steady_signal ..)
  | alarm => exact h.watcher (steady_receive s.watcher .alrm)
  | killWatcher sig => exact h.watcher (steady_ended ..)
  | exec => exact h
  | write bytes => exact h.sameInput rfl rfl
  | stop sig event => exact h
  | exit code => exact h
  | die sig => exact h

theorem conserved_start (cfg : Config) : (start cfg).Conserved cfg :=
  ⟨rfl, Nat.zero_le _, rfl, rfl, fun _ => rfl⟩

theorem conserved_run {ok : Sys → Act → Prop} {s s' : Sys} (hrun : Reaches (step cfg) ok s s')
    (h : s.Conserved cfg) : s'.Conserved cfg :=
  hrun.invariant (fun s => s.Conserved cfg) h fun _ _ _ h _ hstep => by
    obtain ⟨hon, -, rfl⟩ := step_cases hstep
    exact conserved_step h hon

end KudosJudge.RunSystem
