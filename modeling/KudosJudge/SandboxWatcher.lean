import KudosJudge.Results
import Mathlib.Data.Nat.Notation

set_option autoImplicit false

/-!
`jug_sandbox_watcher` and `watcher_sig_handler` of `sandbox.c`: what each system
call of the watcher leads to, as functions on its variables. The binary is the
process it forks, traces and waits for.
-/
namespace KudosJudge.SandboxWatcher
open Results

inductive WaitStatus where
  | exited (code : UInt8)
  | signaled (sig : ℕ)
  | stopped (sig event : ℕ)
deriving DecidableEq, Repr

def sigkill : ℕ := 9
def sigsegv : ℕ := 11
def sigxcpu : ℕ := 24
def sigtrap : ℕ := 5

def ptraceEventFork : ℕ := 1
def ptraceEventVfork : ℕ := 2
def ptraceEventClone : ℕ := 3
def ptraceEventExec : ℕ := 4
def ptraceEventExit : ℕ := 6

def stopWord (sig event : ℕ) : ℕ := event <<< 16 ||| sig <<< 8 ||| 0x7f

inductive SetupCall where
  | chdir
  | chroot
  | umountProc
  | mountProc
  | umountTmp
  | mountTmp
  | bindVarTmp
  | dup2
  | pipe
  | checkPipe
  | checkNonblock
  | checkBeforeSignal
  | signalAlrm
  | signalUsr2
  | alarm
  | checkBeforeFork
deriving DecidableEq, Repr

/-- The status the watcher ends with when the call fails; the results of
`signal(SIGALRM)` and `alarm` are not looked at. -/
def SetupCall.exitCode : SetupCall → Option ℤ
  | chdir => some (-2)
  | chroot => some (-3)
  | umountProc => some (-4)
  | mountProc => some (-4)
  | umountTmp => some (-9)
  | mountTmp => some (-9)
  | bindVarTmp => some (-9)
  | dup2 => some (-5)
  | pipe => some (-9)
  | checkPipe => some (-50)
  | checkNonblock => some (-45)
  | checkBeforeSignal => some (-30)
  | signalAlrm => none
  | signalUsr2 => some (-3)
  | alarm => none
  | checkBeforeFork => some (-40)

def setupCalls (useERFS : Bool) : List SetupCall :=
  (if useERFS then [.chdir, .chroot] else [.chdir]) ++
    [.umountProc, .mountProc, .umountTmp, .mountTmp, .bindVarTmp, .dup2, .pipe, .checkPipe,
      .checkNonblock, .checkBeforeSignal, .signalAlrm, .signalUsr2, .alarm, .checkBeforeFork]

/-- `unborn` before `clone`, `absent` when it failed; `reaped` once the runner
has collected the status. -/
inductive Pc where
  | unborn
  | absent
  | setup (calls : List SetupCall)
  | forked
  | firstWait
  | splice
  | wait
  | flush
  | ended (status : WaitStatus)
  | reaped (status : WaitStatus)
deriving DecidableEq, Repr

inductive BinState where
  | notStarted
  | running
  | wallTimeout
  | timeout
  | compout
deriving DecidableEq, Repr

inductive Sig where
  | alrm
  | usr2
deriving DecidableEq, Repr

/-- `errno` behind a read of the flush loop that found nothing, until the loop tests it: a
handler that runs in between overwrites it when its `kill` fails. -/
inductive Errno where
  | eagain
  | esrch
deriving DecidableEq, Repr

/-- The variables of the watcher. `failedRead` is `errno` between a read of the flush loop that
found nothing and its test; `stdinCloses` counts the calls
`close(binary_input_pipe[PIPE_WRITETO])`; `alarmSet` is the pending `alarm`. -/
structure Watcher where
  pc : Pc
  binaryState : BinState
  sigxcpuReceived : Bool
  sigsegvReceived : Bool
  memLimitExceeded : Bool
  binKilled : Bool
  spliceSizeAcc : ℕ
  flushAcc : ℕ
  failedRead : Option Errno
  stdinCloses : ℕ
  handlers : List Sig
  pending : List Sig
  alarmSet : Bool
deriving DecidableEq, Repr

def unborn : Watcher :=
  ⟨.unborn, .notStarted, false, false, false, false, 0, 0, none, 0, [], [], false⟩

inductive Transfer where
  | moved (n : ℕ)
  | again
  | error
deriving DecidableEq, Repr

namespace Watcher

def exit (w : Watcher) (code : ℤ) : Watcher := { w with pc := .ended (.exited (UInt8.ofInt code)) }

def alive (w : Watcher) : Bool :=
  match w.pc with
  | .unborn => false
  | .absent => false
  | .ended _ => false
  | .reaped _ => false
  | _ => true

def top (w : Watcher) (datasourceSize : ℕ) : Watcher :=
  { w with pc := if w.spliceSizeAcc < datasourceSize then .splice else .wait }

def establish (w : Watcher) : SetupCall → Watcher
  | .signalAlrm => { w with handlers := .alrm :: w.handlers }
  | .signalUsr2 => { w with handlers := .usr2 :: w.handlers }
  | .alarm => { w with alarmSet := true }
  | _ => w

def onSetup (w : Watcher) (call : SetupCall) (calls : List SetupCall) (ok : Bool) : Watcher :=
  match ok, call.exitCode with
  | false, some code => w.exit code
  | _, _ => { w.establish call with pc := .setup calls }

/-- Like every failing check, a failed `fork` is one step with the `exit` behind it. -/
def onFork (w : Watcher) (ok : Bool) : Watcher :=
  if ok then { w with pc := .forked } else w.exit (-6)

def onFirstWait (w : Watcher) (datasourceSize : ℕ) (ok : Bool) : Watcher :=
  if ok then w.top datasourceSize else w.exit (-21)

def onSplice (w : Watcher) (datasourceSize : ℕ) : Transfer → Watcher
  | .error => { w with stdinCloses := w.stdinCloses + 1 }.exit (-22)
  | .again => { w with pc := .wait }
  | .moved n =>
    let acc := w.spliceSizeAcc + n
    { w with
      spliceSizeAcc := acc
      stdinCloses := if acc ≥ datasourceSize then w.stdinCloses + 1 else w.stdinCloses
      pc := .wait }

/-- The test for the exit event looks at bits of the signal's byte, so that every
stop with `SIGTRAP` passes it. -/
def overMemory (memLimitMb : ℤ) (sig event : ℕ) (memUsed : ℤ) : Bool :=
  (sig = sigtrap ∧ stopWord sig event &&& ptraceEventExit <<< 8 ≠ 0 ∧
    memUsed > 0 ∧ memUsed / 1000000 > memLimitMb) ∨
  (sig = sigsegv ∧ memUsed ≥ 0 ∧ memUsed / 1000000 ≥ memLimitMb)

def forbidden (sig event : ℕ) : Bool :=
  sig = sigtrap ∧ event ∈ [ptraceEventFork, ptraceEventClone, ptraceEventVfork, ptraceEventExec]

def killsOnStop (sig event : ℕ) : Bool := forbidden sig event ∨ sig = sigsegv

def onStop (w : Watcher) (memLimitMb : ℤ) (sig event : ℕ) (memUsed : ℤ) : Watcher :=
  { w with
    memLimitExceeded := w.memLimitExceeded || overMemory memLimitMb sig event memUsed
    binKilled := w.binKilled || forbidden sig event
    sigxcpuReceived := w.sigxcpuReceived || (sig = sigxcpu)
    sigsegvReceived := w.sigsegvReceived || (sig = sigsegv) }

def onStatus (w : Watcher) (datasourceSize : ℕ) (memLimitMb : ℤ) (memUsed : ℤ) :
    WaitStatus → Watcher
  | .stopped sig event => (w.onStop memLimitMb sig event memUsed).top datasourceSize
  | .exited _ => { w with pc := .flush }
  | .signaled _ => { w with binKilled := true, pc := .flush }

def analyse (w : Watcher) : SandboxResult :=
  if w.sigxcpuReceived then .timelimit
  else if w.memLimitExceeded then .memlimit
  else if w.binaryState = .wallTimeout then .wallTimelimit
  else if w.binaryState = .compout then .correct
  else if w.sigsegvReceived || w.binKilled then
    if w.memLimitExceeded then .memlimit else .runtime
  else .correct

def leave (w : Watcher) (datasourceSize : ℕ) : Watcher :=
  if w.spliceSizeAcc + w.flushAcc ≥ datasourceSize then w.exit w.analyse.toInt else w

def onFlush (w : Watcher) (datasourceSize : ℕ) : Transfer → Watcher
  | .error => w.exit SandboxResult.runtime.toInt
  | .again => w.leave datasourceSize
  | .moved n => { w with flushAcc := w.flushAcc + n }.leave datasourceSize

/-- The read of the loop. The test behind one that found nothing is a step of its own. -/
def onFlushRead (w : Watcher) (datasourceSize : ℕ) : Transfer → Watcher
  | .again => { w with failedRead := some .eagain }
  | t => w.onFlush datasourceSize t

def onTest (w : Watcher) (datasourceSize : ℕ) : Errno → Watcher
  | .eagain => { w with failedRead := none }.onFlush datasourceSize .again
  | .esrch => { w with failedRead := none }.onFlush datasourceSize .error

/-- A signal of the runner or the alarm. The watcher is the first process of its
PID namespace, which gets no signal it has no handler for. -/
def receive (w : Watcher) (sig : Sig) : Watcher :=
  if w.alive ∧ sig ∈ w.handlers then { w with pending := sig :: w.pending.erase sig } else w

def onSignal (w : Watcher) (sig : Sig) (killed : Bool) : Watcher :=
  let w := { w with pending := w.pending.erase sig }
  match killed, sig with
  | false, _ => { w with failedRead := w.failedRead.map fun _ => .esrch }
  | true, .alrm => { w with alarmSet := false, binaryState := .wallTimeout }
  | true, .usr2 => { w with binaryState := .compout }

end Watcher

end KudosJudge.SandboxWatcher
