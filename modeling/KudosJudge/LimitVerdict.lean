import KudosJudge.WatcherSimulation
import KudosJudge.WorkerServe

set_option autoImplicit false

namespace KudosJudge.WatcherEvents
open Results SandboxWatcher RunnerLoop RunSystem WorkerServe Runs

inductive Cause where
  | cpuTime
  | memory
  | wallTime
  | fault
  | killed
deriving DecidableEq, Repr

def Cause.verdict : Cause → Verdict
  | .cpuTime => .timelimit
  | .memory => .memlimit
  | .wallTime => .timelimit
  | .fault => .runtime
  | .killed => .runtime

def Cause.result : Cause → SandboxResult
  | .cpuTime => .timelimit
  | .memory => .memlimit
  | .wallTime => .wallTimelimit
  | .fault => .runtime
  | .killed => .runtime

/-- The first cause that applies to a run, in the order of the watcher. -/
def firstCause (cfg : Config) (events : List WatchEvent) : Option Cause :=
  if events.any xcpuStop then some .cpuTime
  else if events.any (memoryStop cfg) then some .memory
  else
    match lastSignal events with
    | some .alrm => some .wallTime
    | some .usr2 => none
    | none =>
      if events.any segvStop then some .fault
      else if events.any killing then some .killed
      else none

variable {cfg : Config} {s : Watch} {events : List WatchEvent} {cause : Cause}

theorem analyse_of_firstCause (htally : Tally cfg s events)
    (hsignalled : Signalled s.watcher.binaryState events)
    (hcause : firstCause cfg events = some cause) : s.watcher.analyse = cause.result := by
  have hwall := hsignalled.wall
  have hcompout := hsignalled.compout
  unfold Watcher.analyse
  unfold firstCause at hcause
  rw [htally.flags.xcpu, htally.flags.memory, htally.flags.segv, htally.flags.killed]
  by_cases hxcpu : events.any xcpuStop = true
  · rw [if_pos hxcpu] at hcause ⊢
    cases hcause
    rfl
  rw [if_neg hxcpu] at hcause ⊢
  by_cases hmemory : events.any (memoryStop cfg) = true
  · rw [if_pos hmemory] at hcause ⊢
    cases hcause
    rfl
  rw [if_neg hmemory] at hcause ⊢
  cases hlast : lastSignal events with
  | none =>
    rw [hlast] at hwall hcompout hcause
    have hstate : s.watcher.binaryState ≠ .wallTimeout ∧ s.watcher.binaryState ≠ .compout := by
      simp [hwall, hcompout]
    rw [if_neg hstate.1, if_neg hstate.2, if_neg hmemory]
    by_cases hsegv : events.any segvStop = true
    · rw [if_pos hsegv] at hcause
      cases hcause
      rw [hsegv]
      rfl
    · rw [if_neg hsegv] at hcause
      split_ifs at hcause with hkilled
      cases hcause
      rw [hkilled, Bool.or_true]
      rfl
  | some sig =>
    rw [hlast] at hwall hcause
    cases sig with
    | alrm =>
      cases hcause
      rw [if_pos (hwall.mpr rfl)]
      rfl
    | usr2 => cases hcause

theorem status_of_firstCause {st : WaitStatus} (hwatch : watch cfg events = some s)
    (hended : s.watcher.pc = .ended st) (hunfailed : Unfailed events)
    (hcause : firstCause cfg events = some cause) :
    st = .exited (UInt8.ofInt cause.result.toInt) := by
  have htally := tally_watch hwatch
  have hphase := htally.phase
  rw [hended] at hphase
  rcases hphase with ⟨-, e, hmem, hfailing⟩ | ⟨hst, hsignalled, -⟩
  · rw [hunfailed e hmem] at hfailing
    cases hfailing
  · rw [hst, analyse_of_firstCause htally hsignalled hcause]

theorem conclusion_of_cause {r r' : Runner}
    (hreported : r.watcherResult =
      (r'.collect (.exited (UInt8.ofInt cause.result.toInt))).watcherResult)
    (hspawned : r.spawnSucceeded =
      (r'.collect (.exited (UInt8.ofInt cause.result.toInt))).spawnSucceeded)
    (hentry : r'.spawnSucceeded = true) : conclusion r = cause.result := by
  have hread : r.watcherResult = cause.result ∧ r.spawnSucceeded = true := by
    cases cause <;> exact ⟨hreported, hspawned.trans hentry⟩
  have hnot : cause.result ≠ .correct := by
    cases cause <;> decide
  rw [conclusion, if_pos hread.2, hread.1, if_neg hnot]

theorem verdict_of_cause (cause : Cause) :
    resultVerdict cause.result = cause.verdict ↔ cause ≠ .memory := by
  cases cause <;> decide

theorem reaches_of_observed {s : Sys} (hrun : Observed cfg s events) :
    Reaches (step cfg) (fun _ act => unfailing act = true) (start cfg) s := by
  exact Reaches.unrecorded hrun fun _ _ hok => hok

theorem observed_done {s : Sys} (hrun : Observed cfg s events) (hpc : s.runner.pc = .flushOut 0)
    (hempty : s.outPipe = []) (hlive : s.groupKilled = false)
    (hall : cfg.input.length ≤ s.runner.sent) :
    Observed cfg (s.goTo (.returned .done)) events := by
  have hrest : Reaches (step cfg) (fun s act => unfailing act = true ∧ observe s act = [])
      s (s.goTo (.returned .done)) :=
    reaches_done (fun _ => ⟨rfl, rfl⟩) (fun _ => ⟨rfl, rfl⟩) hpc hempty hlive hall
  exact Relation.ReflTransGen.trans hrun
    (hrest.silent events (fun _ _ hok => hok.1) fun _ _ hok => hok.2)

/-- What the judge answers when its own calls succeed and the run returns 0. -/
def answer (submission : Submission) (result : SandboxResult) : Verdict :=
  (jugRunnerJudge ⟨fun _ => true, false, (0, result)⟩ submission).2

/-- In a run in which nothing fails, the client sees the name of the first cause exactly if
that is not the memory, whatever was written and compared. -/
theorem limit_verdict_iff (cfg : Config) (s : Sys) (events : List WatchEvent) (site : Return)
    (cause : Cause) (submission : Submission) (hrun : Observed cfg s events)
    (hreturned : s.runner.pc = .returned site) (hcause : firstCause cfg events = some cause) :
    site.code = 0 ∧ ∃ result, s.runner.result = some result ∧
      (answer submission result = cause.verdict ↔ cause ≠ .memory) := by
  have hreach : Reaches (step cfg) (fun _ act => unfailing act = true) (start cfg) s :=
    reaches_of_observed hrun
  have hhygienic := hygienic_run hreach
  obtain ⟨rfl, -⟩ := hhygienic.returned site hreturned
  obtain ⟨st, hreaped⟩ := hhygienic.collected (hhygienic.behind (by rw [hreturned]; rfl))
  obtain ⟨hconcluded, hcollected⟩ := result_of_run hreach
  rw [Concluded, hreturned] at hconcluded
  rw [Sys.Collected, hreaped] at hcollected
  obtain ⟨v, hwatch, hended⟩ := watch_of_run hrun hreaped
  rw [status_of_firstCause hwatch hended (unfailed_run hrun) hcause] at hcollected
  refine ⟨rfl, cause.result, ?_, verdict_of_cause cause⟩
  rw [hconcluded, conclusion_of_cause hcollected.1 hcollected.2 rfl]

def stoppedRun (sig event : ℕ) (memUsed : ℤ) : List Act :=
  spawn ++ [.poll true, .send (.moved 1), .read .again, .splice (.moved 1), .stop sig event,
    .wait true memUsed, .exit 0, .wait true 0, .flush .again, .test .eagain, .poll true,
    .read .again]

def stoppedEvents (sig event : ℕ) (memUsed : ℤ) : List WatchEvent :=
  [.startWatching, .firstWait true, .splice (.moved 1), .status (.stopped sig event) memUsed,
    .status (.exited 0) 0, .flush .again]

theorem limit_verdict_iff_xcpu :
    ∃ s result, Observed oneByte s (stoppedEvents sigxcpu 0 3000000) ∧
      s.runner.pc = .returned .done ∧ s.runner.result = some result ∧
      ∀ submission, answer submission result = .timelimit := by
  have hloop : ∃ s, runWhere (recordStep (step oneByte) observe)
      (fun _ act => unfailing act = true) (start oneByte, []) (stoppedRun sigxcpu 0 3000000) =
        some (s, stoppedEvents sigxcpu 0 3000000) ∧ s.runner.pc = .flushOut 0 ∧
      s.outPipe = [] ∧ s.groupKilled = false ∧ s.runner.sent = 1 :=
    ⟨_, rfl, rfl, rfl, rfl, rfl⟩
  obtain ⟨s, hs, hpc, hempty, hlive, hsent⟩ := hloop
  have hrun := observed_done (reaches_of_runWhere hs) hpc hempty hlive (by rw [hsent]; rfl)
  obtain ⟨-, result, hresult, -⟩ := limit_verdict_iff oneByte _ _ .done .cpuTime
    ⟨0, none, none, none, none, none, none⟩ hrun rfl rfl
  refine ⟨_, result, hrun, rfl, hresult, fun submission => ?_⟩
  obtain ⟨-, result', hresult', hverdict⟩ := limit_verdict_iff oneByte _ _ .done .cpuTime
    submission hrun rfl rfl
  rw [hresult, Option.some.injEq] at hresult'
  rw [hresult']
  exact hverdict.mpr (by decide)

theorem limit_verdict_loses_memory :
    ∃ s, Observed oneByte s (stoppedEvents sigtrap ptraceEventExit 70000000) ∧
      s.runner.pc = .returned .done ∧
      firstCause oneByte (stoppedEvents sigtrap ptraceEventExit 70000000) = some .memory ∧
      s.runner.result = some .memlimit ∧
      ∀ submission, answer submission .memlimit = .internal := by
  have hloop : ∃ s, runWhere (recordStep (step oneByte) observe)
      (fun _ act => unfailing act = true) (start oneByte, [])
        (stoppedRun sigtrap ptraceEventExit 70000000) =
        some (s, stoppedEvents sigtrap ptraceEventExit 70000000) ∧ s.runner.pc = .flushOut 0 ∧
      s.outPipe = [] ∧ s.groupKilled = false ∧ s.runner.sent = 1 ∧
      s.runner.result = some .memlimit :=
    ⟨_, rfl, rfl, rfl, rfl, rfl, rfl⟩
  obtain ⟨s, hs, hpc, hempty, hlive, hsent, hresult⟩ := hloop
  exact ⟨_, observed_done (reaches_of_runWhere hs) hpc hempty hlive (by rw [hsent]; rfl), rfl,
    by decide, hresult, fun _ => rfl⟩

end KudosJudge.WatcherEvents
