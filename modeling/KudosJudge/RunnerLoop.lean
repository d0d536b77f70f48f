import KudosJudge.CompareOutput
import KudosJudge.SandboxWatcher

set_option autoImplicit false

/-!
`jug_runner_run` of `runner.c`: what each of its system calls leads to, as
functions on its variables. `pc` names the next call. The counters of the input are
natural numbers: a request bounds the input far below the range of `int`. Nothing bounds the
output, and `received_bytes` is the count of its bytes in an `int`.
-/
namespace KudosJudge.RunnerLoop
open CompareOutput Results SandboxWatcher

/-- The parameters of a run. The two results are what the uninitialised locals
`watcher_result` and `comp_result` hold on entry. -/
structure Config where
  input : List UInt8
  reference : List UInt8
  killOnCompout : Bool
  outputSizeLimitMb : ℤ
  memLimitMb : ℤ
  useERFS : Bool
  inCapacity : ℕ
  outCapacity : ℕ
  staleWatcherResult : SandboxResult
  staleCompResult : SandboxResult

/-- `jug_runner_template_clone`: -1 without a template, -2 when `clone` failed, or a pid. -/
inductive Clone where
  | noTemplate
  | failed
  | cloned
deriving DecidableEq, Repr

inductive Poll where
  | error
  | unchanged
  | status (st : WaitStatus)
deriving DecidableEq, Repr

inductive Read where
  | bytes (n : ℕ)
  | eof
  | again
  | error
deriving DecidableEq, Repr

inductive Return where
  | noClone
  | badFd
  | outPipeError
  | inPipeError
  | done
deriving DecidableEq, Repr

def Return.code : Return → ℤ
  | noClone => -2
  | badFd => -3
  | outPipeError => 0
  | inPipeError => 0
  | done => 0

inductive Pc where
  | clone
  | checkFds
  | poll
  | send
  | killSend
  | read
  | killMismatch
  | killLimit
  | killRead
  | flushOut (blockingCount : ℕ)
  | flushIn
  | returned (site : Return)
deriving DecidableEq, Repr

structure Runner where
  pc : Pc
  watcherAlive : Bool
  spawnSucceeded : Bool
  endoffile : Bool
  compoutDetected : Bool
  watcherResult : SandboxResult
  compResult : SandboxResult
  result : Option SandboxResult
  compareStage : ℕ
  receivedBytes : ℕ
  dsSentAcc : ℕ
  flushAcc : ℕ
  fdOutputRef : Descriptor
deriving DecidableEq, Repr

def entry (cfg : Config) : Runner where
  pc := .clone
  watcherAlive := true
  spawnSucceeded := true
  endoffile := false
  compoutDetected := false
  watcherResult := cfg.staleWatcherResult
  compResult := cfg.staleCompResult
  result := none
  compareStage := 0
  receivedBytes := 0
  dsSentAcc := 0
  flushAcc := 0
  fdOutputRef := opened cfg.reference

def compareCall (d : Descriptor) (rx : List UInt8) (stage : ℤ) : ℤ × Descriptor :=
  (compareOutput d rx stage).getD (0, d)

def compared (nequal : ℤ) : SandboxResult :=
  if nequal = 0 then .correct else if nequal > 0 then .wrong else .compError

/-- The `int` that has counted `count` bytes. -/
def receivedInt (count : ℕ) : ℤ := (Int32.ofNat count).toInt

def overLimit (cfg : Config) (count : ℕ) : Bool :=
  (receivedInt count).tdiv 1000000 > cfg.outputSizeLimitMb

namespace Runner

variable (cfg : Config)

def finish (r : Runner) : Runner :=
  { r with
    result := some (if r.spawnSucceeded then
      if r.watcherResult = .correct then r.compResult else r.watcherResult else .unknown)
    pc := .flushOut 0 }

def check (r : Runner) : Runner :=
  if r.endoffile || r.compoutDetected then
    if r.watcherAlive then { r with pc := .poll } else r.finish
  else { r with pc := .read }

def toSend (r : Runner) : Runner :=
  if r.dsSentAcc < cfg.input.length then { r with pc := .send } else r.check

/-- The top of the loop; a dead watcher is not polled again. -/
def top (r : Runner) : Runner := if r.watcherAlive then { r with pc := .poll } else r.toSend cfg

def onClone (r : Runner) : Clone → Runner
  | .noTemplate => { r with pc := .returned .noClone }
  | .failed => { r with pc := .checkFds }
  | .cloned => { r with pc := .checkFds }

def onCheckFds (r : Runner) (ok : Bool) : Runner :=
  if ok then { r with pc := .poll } else { r with pc := .returned .badFd }

/-- A status of the watcher; the exit status is read as a `char`. -/
def collect (r : Runner) : WaitStatus → Runner
  | .exited code =>
    let exitCode : ℤ := code.toInt8.toInt
    if exitCode < 0 then { r with spawnSucceeded := false, watcherAlive := false }
    else { r with watcherResult := .ofInt exitCode, watcherAlive := false }
  | .signaled _ => { r with watcherResult := .unknown, watcherAlive := false }
  | .stopped _ _ => { r with watcherResult := .unknown, watcherAlive := false }

def onPoll (r : Runner) : Poll → Runner
  | .error => { r with watcherAlive := false }.toSend cfg
  | .unchanged => r.toSend cfg
  | .status st => (r.collect st).toSend cfg

def onSend (r : Runner) : Transfer → Runner
  | .moved n => { r with dsSentAcc := r.dsSentAcc + n }.check
  | .again => r.check
  | .error =>
    let r := { r with compResult := .pipeError, compoutDetected := true }
    if cfg.killOnCompout then { r with pc := .killSend } else r.check

def checkLimit (r : Runner) : Runner :=
  if overLimit cfg r.receivedBytes then { r with pc := .killLimit } else r.top cfg

def chunkCall (r : Runner) (chunk : List UInt8) : ℤ × Descriptor :=
  compareCall r.fdOutputRef chunk r.compareStage

def compareChunk (r : Runner) (chunk : List UInt8) : Runner :=
  { r with
    compResult := compared (r.chunkCall chunk).1
    fdOutputRef := (r.chunkCall chunk).2
    compareStage := r.compareStage + 1
    compoutDetected := r.compoutDetected || (r.chunkCall chunk).1 ≠ 0
    receivedBytes := r.receivedBytes + chunk.length }

def onChunk (r : Runner) (chunk : List UInt8) : Runner :=
  if (r.chunkCall chunk).1 ≠ 0 ∧ cfg.killOnCompout then
    { r.compareChunk chunk with pc := .killMismatch }
  else (r.compareChunk chunk).checkLimit cfg

def endCall (r : Runner) : Runner :=
  let call := compareCall r.fdOutputRef [] (-1)
  { r with compResult := compared call.1, fdOutputRef := call.2 }

def onRead (r : Runner) (outPipe : List UInt8) : Read → Runner
  | .bytes n => r.onChunk cfg (outPipe.take n)
  | .eof => { r with endoffile := true }.endCall.top cfg
  | .again => if r.watcherAlive then r.top cfg else r.endCall.finish
  | .error =>
    let r := { r with compResult := .pipeError, compoutDetected := true }
    if cfg.killOnCompout then { r with pc := .killRead } else r.top cfg

def onKill (r : Runner) : Runner :=
  match r.pc with
  | .killSend => r.check
  | .killMismatch => r.checkLimit cfg
  | .killLimit => { r with compResult := .outputlimit }.top cfg
  | .killRead => r.top cfg
  | _ => r

/-- The first flush loop gives up at the 10001st read in a row without data. -/
def onFlushOut (r : Runner) (blockingCount : ℕ) : Read → Runner
  | .bytes _ => { r with pc := .flushOut 0 }
  | .eof => { r with pc := .flushIn }
  | .again =>
    if blockingCount + 1 > 10000 then { r with pc := .flushIn }
    else { r with pc := .flushOut (blockingCount + 1) }
  | .error => { r with result := some .unknown, pc := .returned .outPipeError }

def leave (r : Runner) : Runner :=
  if r.flushAcc + r.dsSentAcc ≥ cfg.input.length then { r with pc := .returned .done } else r

def onFlushIn (r : Runner) : Transfer → Runner
  | .moved n => { r with flushAcc := r.flushAcc + n }.leave cfg
  | .again => r.leave cfg
  | .error => { r with result := some .unknown, pc := .returned .inPipeError }

def sent (r : Runner) : ℕ := r.dsSentAcc + r.flushAcc

end Runner

end KudosJudge.RunnerLoop
