import KudosJudge.Library.Runs
import KudosJudge.RunnerLoop

set_option autoImplicit false

/-!
The three processes of a run with the pipes between them. An action is one
system call of the runner or the watcher with its outcome, the delivery of a
signal, or a step of the binary; the actions of a run interleave freely.
-/
namespace KudosJudge.RunSystem
open CompareOutput Results SandboxWatcher RunnerLoop Runs

/-- The submitted program: forked, stopped at `execvpe`, running, stopped for the
watcher, dead, or waited for. -/
inductive Binary where
  | unforked
  | starting
  | execStop
  | running
  | stopped (sig event : ℕ)
  | zombie (status : WaitStatus)
  | reaped (status : WaitStatus)
deriving DecidableEq, Repr

/-- What happened to the bytes so far: the input forwarded to the binary and
discarded by the watcher's flush, the output of the binary, the calls of the
comparator with their results, and the result of the last call. -/
structure Log where
  forwarded : List UInt8
  discarded : List UInt8
  written : List UInt8
  passed : List (List UInt8 × ℤ)
  final : Option ℤ
deriving DecidableEq, Repr

/-- `sigkill` tells that the judge has sent `SIGKILL` to the binary, and
`groupKilled` that it went to the process group of the daemon. -/
structure Sys where
  runner : Runner
  watcher : Watcher
  binary : Binary
  sigkill : Bool
  groupKilled : Bool
  inPipe : List UInt8
  outPipe : List UInt8
  log : Log
deriving DecidableEq, Repr

inductive Act where
  | clone (outcome : Clone)
  | checkFds (ok : Bool)
  | poll (ok : Bool)
  | send (t : Transfer)
  | kill
  | read (o : Read)
  | setup (ok : Bool)
  | fork (ok : Bool)
  | startWatching
  | firstWait (ok : Bool)
  | splice (t : Transfer)
  | wait (ok : Bool) (memUsed : ℤ)
  | flush (t : Transfer)
  | test (errno : Errno)
  | handle (sig : Sig)
  | alarm
  | killWatcher (sig : ℕ)
  | exec
  | write (bytes : List UInt8)
  | stop (sig event : ℕ)
  | exit (code : UInt8)
  | die (sig : ℕ)
deriving DecidableEq, Repr

def start (cfg : Config) : Sys where
  runner := entry cfg
  watcher := unborn
  binary := .unforked
  sigkill := false
  groupKilled := false
  inPipe := []
  outPipe := []
  log := ⟨[], [], [], [], none⟩

def movable (available limit : ℕ) : Transfer → Bool
  | .moved n => 1 ≤ n ∧ n ≤ available ∧ n ≤ limit
  | .again => true
  | .error => true

def transferSize : ℕ := 40000

/-- `sendfile` moves nothing at the end of the file and at most what the pipe has room for. -/
def sendable (cfg : Config) (s : Sys) : Transfer → Bool
  | .moved 0 => s.runner.sent = cfg.input.length
  | t => movable (min (cfg.input.length - s.runner.sent) (cfg.inCapacity - s.inPipe.length))
      transferSize t

/-- The template process keeps the write end of `out_pipe` open, so that a read
never meets the end of the file. -/
def readable (s : Sys) : Read → Bool
  | .bytes n => 1 ≤ n ∧ n ≤ s.outPipe.length ∧ n ≤ 255
  | .eof => false
  | .again => s.outPipe = []
  | .error => true

def Binary.ended : Binary → Bool
  | .zombie _ => true
  | .reaped _ => true
  | _ => false

def pollResult (s : Sys) (ok : Bool) : Poll :=
  if ok then
    match s.watcher.pc with
    | .ended st => .status st
    | _ => .unchanged
  else .error

def enabled (cfg : Config) (s : Sys) : Act → Bool
  | .clone _ => s.runner.pc = .clone ∧ s.watcher.pc = .unborn
  | .checkFds _ => s.runner.pc = .checkFds
  | .poll ok => s.runner.pc = .poll ∧ (s.watcher.pc = .absent → ok = false)
  | .send t => (s.runner.pc = .send ∨ s.runner.pc = .flushIn) ∧ sendable cfg s t
  | .kill => s.runner.pc ∈ [.killSend, .killMismatch, .killLimit, .killRead]
  | .read o =>
    match s.runner.pc with
    | .read => readable s o
    | .flushOut _ => readable s o
    | _ => false
  | .setup _ =>
    match s.watcher.pc with
    | .setup (_ :: _) => true
    | _ => false
  | .fork _ => s.watcher.pc = .setup []
  | .startWatching => s.watcher.pc = .forked
  | .firstWait ok => s.watcher.pc = .firstWait ∧
      ((s.binary = .execStop ∧ (ok → ¬ s.sigkill)) ∨ (s.binary.ended ∧ ok = false))
  | .splice t => s.watcher.pc = .splice ∧ movable s.inPipe.length transferSize t
  | .wait _ _ => s.watcher.pc = .wait
  | .flush t => s.watcher.pc = .flush ∧ s.watcher.failedRead = none ∧
      movable s.inPipe.length 500 t
  | .test errno => s.watcher.pc = .flush ∧ s.watcher.failedRead = some errno
  | .handle sig => s.watcher.alive ∧ sig ∈ s.watcher.pending
  | .alarm => s.watcher.alive ∧ s.watcher.alarmSet
  | .killWatcher _ => s.watcher.alive
  | .exec => s.binary = .starting
  | .write bytes => s.binary = .running ∧ bytes ≠ [] ∧
      s.outPipe.length + bytes.length ≤ cfg.outCapacity
  | .stop _ _ => s.binary = .running
  | .exit _ => s.binary = .starting ∨ s.binary = .running
  | .die _ => s.binary ≠ .unforked ∧ ¬ s.binary.ended

def Transfer.count : Transfer → ℕ
  | .moved n => n
  | _ => 0

def Read.count : Read → ℕ
  | .bytes n => n
  | _ => 0

def watcherOnClone (cfg : Config) (w : Watcher) : Clone → Watcher
  | .noTemplate => { w with pc := .absent }
  | .failed => { w with pc := .absent }
  | .cloned => { w with pc := .setup (setupCalls cfg.useERFS) }

def reap (w : Watcher) (ok : Bool) : Watcher :=
  match ok, w.pc with
  | true, .ended st => { w with pc := .reaped st }
  | _, _ => w

def runnerOnSend (cfg : Config) (r : Runner) (t : Transfer) : Runner :=
  if r.pc = .send then r.onSend cfg t else r.onFlushIn cfg t

def runnerOnRead (cfg : Config) (r : Runner) (outPipe : List UInt8) (o : Read) : Runner :=
  match r.pc with
  | .flushOut blockingCount => r.onFlushOut blockingCount o
  | _ => r.onRead cfg outPipe o

def logRead (log : Log) (r : Runner) (outPipe : List UInt8) (o : Read) : Log :=
  match r.pc, o with
  | .read, .bytes n =>
    { log with passed := log.passed ++ [(outPipe.take n, (r.chunkCall (outPipe.take n)).1)] }
  | .read, .again =>
    if r.watcherAlive then log
    else { log with final := some (compareCall r.fdOutputRef [] (-1)).1 }
  | .read, .eof => { log with final := some (compareCall r.fdOutputRef [] (-1)).1 }
  | _, _ => log

def watcherOnSetup (w : Watcher) (ok : Bool) : Watcher :=
  match w.pc with
  | .setup (call :: calls) => w.onSetup call calls ok
  | _ => w

def watcherOnWait (cfg : Config) (w : Watcher) (b : Binary) (ok : Bool) (memUsed : ℤ) : Watcher :=
  match ok, b with
  | false, _ => w.exit (-60)
  | true, .stopped sig event =>
    w.onStatus cfg.input.length cfg.memLimitMb memUsed (.stopped sig event)
  | true, .zombie st => w.onStatus cfg.input.length cfg.memLimitMb memUsed st
  | true, _ => w.top cfg.input.length

def binaryOnWait (b : Binary) (ok : Bool) : Binary :=
  match ok, b with
  | true, .stopped _ _ => .running
  | true, .zombie st => .reaped st
  | _, b => b

def killsOnWait (b : Binary) (ok : Bool) : Bool :=
  match ok, b with
  | true, .stopped sig event => Watcher.killsOnStop sig event
  | _, _ => false

def binaryOnFirstWait (b : Binary) (ok : Bool) : Binary :=
  match ok, b with
  | true, _ => .running
  | false, .zombie st => .reaped st
  | false, b => b

def killable : Binary → Bool
  | .unforked => false
  | .reaped _ => false
  | _ => true

def effect (cfg : Config) (s : Sys) : Act → Sys
  | .clone outcome => { s with
      runner := s.runner.onClone outcome
      watcher := watcherOnClone cfg s.watcher outcome }
  | .checkFds ok => { s with runner := s.runner.onCheckFds ok }
  | .poll ok => { s with
      runner := s.runner.onPoll cfg (pollResult s ok)
      watcher := reap s.watcher ok }
  | .send t => { s with
      runner := runnerOnSend cfg s.runner t
      inPipe := s.inPipe ++ (cfg.input.drop s.runner.sent).take (Transfer.count t) }
  | .kill => { s with
      runner := s.runner.onKill cfg
      watcher := s.watcher.receive .usr2 }
  | .read o => { s with
      runner := runnerOnRead cfg s.runner s.outPipe o
      outPipe := s.outPipe.drop (Read.count o)
      log := logRead s.log s.runner s.outPipe o }
  | .setup ok => { s with watcher := watcherOnSetup s.watcher ok }
  | .fork ok => { s with
      watcher := s.watcher.onFork ok
      binary := if ok then .starting else s.binary }
  | .startWatching => { s with
      watcher := { s.watcher with binaryState := .running, pc := .firstWait } }
  | .firstWait ok => { s with
      watcher := s.watcher.onFirstWait cfg.input.length ok
      binary := binaryOnFirstWait s.binary ok }
  | .splice t => { s with
      watcher := s.watcher.onSplice cfg.input.length t
      inPipe := s.inPipe.drop (Transfer.count t)
      log := { s.log with forwarded := s.log.forwarded ++ s.inPipe.take (Transfer.count t) } }
  | .wait ok memUsed => { s with
      watcher := watcherOnWait cfg s.watcher s.binary ok memUsed
      binary := binaryOnWait s.binary ok
      sigkill := s.sigkill || killsOnWait s.binary ok }
  | .flush t => { s with
      watcher := s.watcher.onFlushRead cfg.input.length t
      inPipe := s.inPipe.drop (Transfer.count t)
      log := { s.log with discarded := s.log.discarded ++ s.inPipe.take (Transfer.count t) } }
  | .test errno => { s with watcher := s.watcher.onTest cfg.input.length errno }
  | .handle sig => { s with
      watcher := s.watcher.onSignal sig (killable s.binary)
      sigkill := s.sigkill || killable s.binary
      groupKilled := s.binary = .unforked }
  | .alarm => { s with watcher := { s.watcher.receive .alrm with alarmSet := false } }
  | .killWatcher sig => { s with watcher := { s.watcher with pc := .ended (.signaled sig) } }
  | .exec => { s with binary := .execStop }
  | .write bytes => { s with
      outPipe := s.outPipe ++ bytes
      log := { s.log with written := s.log.written ++ bytes } }
  | .stop sig event => { s with binary := .stopped sig event }
  | .exit code => { s with binary := .zombie (.exited code) }
  | .die sig => { s with binary := .zombie (.signaled sig) }

/-- Nothing happens any more once the daemon's group is killed. -/
def step (cfg : Config) (s : Sys) (act : Act) : Option Sys :=
  if enabled cfg s act && !s.groupKilled then some (effect cfg s act) else none

theorem step_cases {cfg : Config} {s s' : Sys} {act : Act} (h : step cfg s act = some s') :
    enabled cfg s act = true ∧ s.groupKilled = false ∧ s' = effect cfg s act := by
  unfold step at h
  split at h
  · rename_i hon
    rw [Bool.and_eq_true, Bool.not_eq_true'] at hon
    exact ⟨hon.1, hon.2, (Option.some.inj h).symm⟩
  · cases h

def Sys.goTo (s : Sys) (pc : RunnerLoop.Pc) : Sys := { s with runner := { s.runner with pc := pc } }

section

variable {cfg : Config} {s : Sys} {ok : Sys → Act → Prop}

theorem step_flushOut_again (hempty : s.outPipe = []) (hlive : s.groupKilled = false)
    (blockingCount : ℕ) :
    step cfg (s.goTo (.flushOut blockingCount)) (.read .again) =
      some (s.goTo (if blockingCount + 1 > 10000 then .flushIn
        else .flushOut (blockingCount + 1))) := by
  have hon : enabled cfg (s.goTo (.flushOut blockingCount)) (.read .again) = true := by
    simp [enabled, Sys.goTo, readable, hempty]
  have hgroup : (s.goTo (.flushOut blockingCount)).groupKilled = false := hlive
  rw [step, hon, hgroup]
  change some (effect cfg (s.goTo (.flushOut blockingCount)) (.read .again)) = _
  simp only [effect, runnerOnRead, logRead, Runner.onFlushOut, Sys.goTo, Read.count,
    List.drop_zero]
  split_ifs <;> rfl

theorem reaches_blockingCount (hok : ∀ s, ok s (.read .again)) (hempty : s.outPipe = [])
    (hlive : s.groupKilled = false) {k : ℕ} (hk : k ≤ 10000) :
    Reaches (step cfg) ok (s.goTo (.flushOut 0)) (s.goTo (.flushOut k)) := by
  induction k with
  | zero => exact .refl
  | succ k ih =>
    refine (ih (by omega)).tail ⟨.read .again, hok _, ?_⟩
    rw [step_flushOut_again hempty hlive, if_neg (by omega)]

theorem reaches_flushIn (hok : ∀ s, ok s (.read .again)) (hempty : s.outPipe = [])
    (hlive : s.groupKilled = false) :
    Reaches (step cfg) ok (s.goTo (.flushOut 0)) (s.goTo .flushIn) := by
  refine (reaches_blockingCount hok hempty hlive le_rfl).tail ⟨.read .again, hok _, ?_⟩
  rw [step_flushOut_again hempty hlive, if_pos (by omega)]

theorem reaches_done (hread : ∀ s, ok s (.read .again)) (hsend : ∀ s, ok s (.send .again))
    (hpc : s.runner.pc = .flushOut 0) (hempty : s.outPipe = []) (hlive : s.groupKilled = false)
    (hall : cfg.input.length ≤ s.runner.sent) :
    Reaches (step cfg) ok s (s.goTo (.returned .done)) := by
  have hstart : s.goTo (.flushOut 0) = s := by
    unfold Sys.goTo
    rw [← hpc]
  have hflush : Reaches (step cfg) ok (s.goTo (.flushOut 0)) (s.goTo .flushIn) :=
    reaches_flushIn hread hempty hlive
  rw [hstart] at hflush
  refine hflush.tail ⟨.send .again, hsend _, ?_⟩
  have hgroup : (s.goTo .flushIn).groupKilled = false := hlive
  have hleave : (s.goTo .flushIn).runner.leave cfg = (s.goTo (.returned .done)).runner := by
    unfold Runner.leave
    rw [if_pos (by simp only [Sys.goTo, Runner.sent] at hall ⊢; omega)]
    rfl
  rw [step, hgroup]
  change some (effect cfg (s.goTo .flushIn) (.send .again)) = _
  simp only [effect, Transfer.count, List.take_zero, List.append_nil]
  change some { s.goTo .flushIn with runner := (s.goTo .flushIn).runner.leave cfg } = _
  rw [hleave]
  rfl

end

end KudosJudge.RunSystem
