import KudosJudge.RunSoundness

set_option autoImplicit false

/-!
The life of the watcher behind its fork, driven by a list of events: the statuses
of the binary in any order, the signals wherever they arrive, and the outcomes of
its own calls. The flags of the watcher are compared with the events.
-/
namespace KudosJudge.WatcherEvents
open Results SandboxWatcher RunnerLoop RunSystem Runs

/-- A `signal` is handled before the binary is waited for, a `lateSignal` after, when
`kill` fails. -/
inductive WatchEvent where
  | startWatching
  | firstWait (ok : Bool)
  | splice (t : Transfer)
  | unchanged
  | waitFails
  | status (st : WaitStatus) (memUsed : ℤ)
  | flush (t : Transfer)
  | signal (sig : Sig)
  | lateSignal (sig : Sig)
deriving DecidableEq, Repr

/-- `sigkilled` tells that a handler has killed the binary. -/
structure Watch where
  watcher : Watcher
  sigkilled : Bool
deriving DecidableEq, Repr

def forkedWatch : Watch :=
  ⟨{ unborn with pc := .forked, handlers := [.usr2, .alrm], alarmSet := true }, false⟩

def present : SandboxWatcher.Pc → Bool
  | .forked => true
  | .firstWait => true
  | .splice => true
  | .wait => true
  | _ => false

def watchStep (cfg : Config) (s : Watch) : WatchEvent → Option Watch
  | .startWatching =>
    if s.watcher.pc = .forked then
      some { s with watcher := { s.watcher with binaryState := .running, pc := .firstWait } }
    else none
  | .firstWait ok =>
    -- a binary that is killed already has no options set
    if s.watcher.pc = .firstWait ∧ (ok = true → s.sigkilled = false) then
      some { s with watcher := s.watcher.onFirstWait cfg.input.length ok }
    else none
  | .splice t =>
    if s.watcher.pc = .splice then
      some { s with watcher := s.watcher.onSplice cfg.input.length t }
    else none
  | .unchanged =>
    if s.watcher.pc = .wait then some { s with watcher := s.watcher.top cfg.input.length }
    else none
  | .waitFails =>
    if s.watcher.pc = .wait then some { s with watcher := s.watcher.exit (-60) } else none
  | .status st memUsed =>
    if s.watcher.pc = .wait then
      some { s with watcher := s.watcher.onStatus cfg.input.length cfg.memLimitMb memUsed st }
    else none
  | .flush t =>
    if s.watcher.pc = .flush then
      some { s with watcher := s.watcher.onFlush cfg.input.length t }
    else none
  | .signal sig =>
    if present s.watcher.pc then
      some { s with watcher := s.watcher.onSignal sig true, sigkilled := true }
    else none
  | .lateSignal sig =>
    if s.watcher.pc = .flush then some { s with watcher := s.watcher.onSignal sig false }
    else none

def watch (cfg : Config) (events : List WatchEvent) : Option Watch :=
  runWhere (watchStep cfg) (fun _ _ => True) forkedWatch events

/-- The signals that terminate a process unless it handles them; the others are
`SIGCHLD`, `SIGCONT`, `SIGSTOP`, `SIGTSTP`, `SIGTTIN`, `SIGTTOU`, `SIGURG` and `SIGWINCH`. -/
def terminating (sig : ℕ) : Bool :=
  1 ≤ sig ∧ sig ≤ 64 ∧ sig ∉ [17, 18, 19, 20, 21, 22, 23, 28]

/-- Memory is measured at stops for `SIGTRAP` and `SIGSEGV`, in whole megabytes. -/
def aboveLimit (cfg : Config) (sig : ℕ) (memUsed : ℤ) : Bool :=
  (sig = sigtrap ∨ sig = sigsegv) ∧ memUsed > 0 ∧ memUsed / 1000000 > cfg.memLimitMb

def forks (sig event : ℕ) : Bool :=
  sig = sigtrap ∧ event ∈ [ptraceEventFork, ptraceEventVfork, ptraceEventClone]

/-- What a clean run does not contain. -/
def tainted (cfg : Config) : WatchEvent → Bool
  | .status (.stopped sig event) memUsed =>
    sig = sigxcpu || aboveLimit cfg sig memUsed || forks sig event ||
      (event = 0 && terminating sig)
  | .signal .alrm => true
  | _ => false

def Clean (cfg : Config) (events : List WatchEvent) : Prop :=
  (∃ code memUsed, .status (.exited code) memUsed ∈ events) ∧
    ∀ e ∈ events, tainted cfg e = false

/-- A stop for a terminating signal of which `PTRACE_CONT` with 0 leaves no trace. -/
def unnoticed : WatchEvent → Bool
  | .status (.stopped sig event) _ =>
    event = 0 && terminating sig && sig ≠ sigxcpu && sig ≠ sigsegv
  | _ => false

def failing : WatchEvent → Bool
  | .firstWait ok => !ok
  | .splice t => t = .error
  | .waitFails => true
  | .flush t => t = .error
  | _ => false

/-- Events that keep the watcher from `JS_CORRECT`, or explain it. -/
def recorded (cfg : Config) : WatchEvent → Bool
  | .status (.stopped sig event) memUsed =>
    sig = sigxcpu || sig = sigsegv || Watcher.overMemory cfg.memLimitMb sig event memUsed ||
      Watcher.forbidden sig event
  | .status (.signaled _) _ => true
  | .signal _ => true
  | e => failing e

def xcpuStop : WatchEvent → Bool
  | .status (.stopped sig _) _ => sig = sigxcpu
  | _ => false

def segvStop : WatchEvent → Bool
  | .status (.stopped sig _) _ => sig = sigsegv
  | _ => false

def memoryStop (cfg : Config) : WatchEvent → Bool
  | .status (.stopped sig event) memUsed => Watcher.overMemory cfg.memLimitMb sig event memUsed
  | _ => false

def killing : WatchEvent → Bool
  | .status (.stopped sig event) _ => Watcher.forbidden sig event
  | .status (.signaled _) _ => true
  | _ => false

structure Flags (cfg : Config) (w : Watcher) (events : List WatchEvent) : Prop where
  xcpu : w.sigxcpuReceived = events.any xcpuStop
  segv : w.sigsegvReceived = events.any segvStop
  memory : w.memLimitExceeded = events.any (memoryStop cfg)
  killed : w.binKilled = events.any killing

def Unfailed (events : List WatchEvent) : Prop := ∀ e ∈ events, failing e = false

def lastSignal (events : List WatchEvent) : Option Sig :=
  events.foldl (fun last e => match e with | .signal sig => some sig | _ => last) none

structure Signalled (state : BinState) (events : List WatchEvent) : Prop where
  wall : state = .wallTimeout ↔ lastSignal events = some .alrm
  compout : state = .compout ↔ lastSignal events = some .usr2
  unfailed : Unfailed events

def Finished (events : List WatchEvent) : Prop :=
  events.any killing = true ∨ ∃ code memUsed, .status (.exited code) memUsed ∈ events

def Phase (s : Watch) (events : List WatchEvent) : SandboxWatcher.Pc → Prop
  | .forked => Unfailed events ∧ (s.sigkilled = false → ∀ sig, .signal sig ∉ events)
  | .firstWait => Unfailed events ∧ (s.sigkilled = false →
      s.watcher.binaryState = .running ∧ ∀ sig, .signal sig ∉ events)
  | .splice => Signalled s.watcher.binaryState events
  | .wait => Signalled s.watcher.binaryState events
  | .flush => Signalled s.watcher.binaryState events ∧ Finished events
  | .ended st => (st ≠ .exited 0 ∧ ∃ e ∈ events, failing e) ∨
      (st = .exited (UInt8.ofInt s.watcher.analyse.toInt) ∧ Signalled s.watcher.binaryState events ∧
        Finished events)
  | _ => False

structure Tally (cfg : Config) (s : Watch) (events : List WatchEvent) : Prop where
  flags : Flags cfg s.watcher events
  phase : Phase s events s.watcher.pc

variable {cfg : Config} {s s' : Watch} {w w' : Watcher} {events : List WatchEvent} {e : WatchEvent}

theorem Flags.keep (h : Flags cfg w events) (hxcpu : w'.sigxcpuReceived = w.sigxcpuReceived)
    (hsegv : w'.sigsegvReceived = w.sigsegvReceived)
    (hmemory : w'.memLimitExceeded = w.memLimitExceeded) (hkilled : w'.binKilled = w.binKilled)
    (hevent : xcpuStop e = false ∧ segvStop e = false ∧ memoryStop cfg e = false ∧
      killing e = false) : Flags cfg w' (events ++ [e]) := by
  obtain ⟨he1, he2, he3, he4⟩ := hevent
  constructor
  · rw [hxcpu, h.xcpu, List.any_append]
    simp [he1]
  · rw [hsegv, h.segv, List.any_append]
    simp [he2]
  · rw [hmemory, h.memory, List.any_append]
    simp [he3]
  · rw [hkilled, h.killed, List.any_append]
    simp [he4]

theorem flags_status (h : Flags cfg w events) (size : ℕ) (memUsed : ℤ) (st : WaitStatus) :
    Flags cfg (w.onStatus size cfg.memLimitMb memUsed st) (events ++ [.status st memUsed]) := by
  cases st with
  | exited code => exact h.keep rfl rfl rfl rfl ⟨rfl, rfl, rfl, rfl⟩
  | signaled sig =>
    constructor
    · simp [Watcher.onStatus, h.xcpu, xcpuStop]
    · simp [Watcher.onStatus, h.segv, segvStop]
    · simp [Watcher.onStatus, h.memory, memoryStop]
    · simp [Watcher.onStatus, killing]
  | stopped sig event =>
    constructor
    · simp [Watcher.onStatus, Watcher.top, Watcher.onStop, h.xcpu, xcpuStop]
    · simp [Watcher.onStatus, Watcher.top, Watcher.onStop, h.segv, segvStop]
    · simp [Watcher.onStatus, Watcher.top, Watcher.onStop, h.memory, memoryStop]
    · simp [Watcher.onStatus, Watcher.top, Watcher.onStop, h.killed, killing]

theorem Unfailed.append (h : Unfailed events) (he : failing e = false) :
    Unfailed (events ++ [e]) := by
  intro e' hmem
  rw [List.mem_append, List.mem_singleton] at hmem
  rcases hmem with hmem | rfl
  · exact h e' hmem
  · exact he

theorem lastSignal_signal (events : List WatchEvent) (sig : Sig) :
    lastSignal (events ++ [.signal sig]) = some sig := by
  rw [lastSignal, List.foldl_append]
  rfl

theorem lastSignal_other (events : List WatchEvent) (he : ∀ sig, e ≠ .signal sig) :
    lastSignal (events ++ [e]) = lastSignal events := by
  rw [lastSignal, List.foldl_append]
  cases e with
  | signal sig => exact absurd rfl (he sig)
  | _ => rfl

theorem mem_of_lastSignal {sig : Sig} (h : lastSignal events = some sig) :
    .signal sig ∈ events := by
  induction events using List.reverseRecOn with
  | nil => cases h
  | append_singleton events e ih =>
    rw [List.mem_append, List.mem_singleton]
    by_cases he : ∃ sig', e = .signal sig'
    · obtain ⟨sig', rfl⟩ := he
      rw [lastSignal_signal, Option.some.injEq] at h
      exact .inr (by rw [h])
    · rw [lastSignal_other events (fun sig' heq => he ⟨sig', heq⟩)] at h
      exact .inl (ih h)

theorem lastSignal_ne_none {sig : Sig} (h : .signal sig ∈ events) :
    ∃ sig', lastSignal events = some sig' := by
  induction events using List.reverseRecOn with
  | nil => cases h
  | append_singleton events e ih =>
    by_cases he : ∃ sig', e = .signal sig'
    · obtain ⟨sig', rfl⟩ := he
      exact ⟨sig', lastSignal_signal events sig'⟩
    · rw [lastSignal_other events (fun sig' heq => he ⟨sig', heq⟩)]
      rw [List.mem_append, List.mem_singleton] at h
      rcases h with hmem | heq
      · exact ih hmem
      · exact absurd ⟨sig, heq.symm⟩ he

theorem Signalled.none {state : BinState} (h : Signalled state events)
    (hwall : state ≠ .wallTimeout) (hcompout : state ≠ .compout) (sig : Sig) :
    .signal sig ∉ events := by
  intro hsig
  obtain ⟨sig', hlast⟩ := lastSignal_ne_none hsig
  cases sig' with
  | alrm => exact hwall (h.wall.mpr hlast)
  | usr2 => exact hcompout (h.compout.mpr hlast)

theorem Signalled.keep {state : BinState} (h : Signalled state events)
    (he : ∀ sig, e ≠ .signal sig) (hok : failing e = false) :
    Signalled state (events ++ [e]) where
  wall := by rw [lastSignal_other events he, h.wall]
  compout := by rw [lastSignal_other events he, h.compout]
  unfailed := h.unfailed.append hok

theorem signalled_onSignal (w : Watcher) (hunfailed : Unfailed events) (sig : Sig) :
    Signalled (w.onSignal sig true).binaryState (events ++ [.signal sig]) := by
  refine ⟨?_, ?_, hunfailed.append rfl⟩
  · rw [lastSignal_signal]
    cases sig <;> simp [Watcher.onSignal]
  · rw [lastSignal_signal]
    cases sig <;> simp [Watcher.onSignal]

theorem Finished.keep (h : Finished events) (e : WatchEvent) : Finished (events ++ [e]) := by
  rcases h with hkilled | ⟨code, memUsed, hmem⟩
  · left
    rw [List.any_append, hkilled, Bool.true_or]
  · exact .inr ⟨code, memUsed, List.mem_append_left _ hmem⟩

theorem phase_top (size : ℕ) (h : Signalled w.binaryState events) :
    Phase { s with watcher := w.top size } events (w.top size).pc := by
  unfold Watcher.top
  split_ifs
  · exact h
  · exact h

theorem phase_failed {code : ℤ} (hcode : WaitStatus.exited (UInt8.ofInt code) ≠ .exited 0)
    (he : failing e = true) :
    Phase { s with watcher := w.exit code } (events ++ [e]) (w.exit code).pc :=
  .inl ⟨hcode, e, by simp, he⟩

theorem phase_leave (hpc : w.pc = .flush) (h : Signalled w.binaryState events)
    (hfinished : Finished events)
    (size : ℕ) : Phase { s with watcher := w.leave size } events (w.leave size).pc := by
  unfold Watcher.leave
  split_ifs
  · exact .inr ⟨rfl, h, hfinished⟩
  · rw [hpc]
    exact ⟨h, hfinished⟩

theorem flags_leave (h : Flags cfg w events) (size : ℕ) : Flags cfg (w.leave size) events := by
  unfold Watcher.leave
  split_ifs
  · exact ⟨h.xcpu, h.segv, h.memory, h.killed⟩
  · exact h

theorem tally_forkedWatch : Tally cfg forkedWatch [] where
  flags := ⟨rfl, rfl, rfl, rfl⟩
  phase := ⟨fun _ hmem => absurd hmem List.not_mem_nil, fun _ _ => List.not_mem_nil⟩

theorem tally_firstWait (h : Tally cfg s events) (hpc : s.watcher.pc = .firstWait) {ok : Bool}
    (hok : ok = true → s.sigkilled = false) :
    Tally cfg { s with watcher := s.watcher.onFirstWait cfg.input.length ok }
      (events ++ [.firstWait ok]) := by
  have hphase := h.phase
  rw [hpc] at hphase
  cases ok with
  | false =>
    exact ⟨h.flags.keep rfl rfl rfl rfl ⟨rfl, rfl, rfl, rfl⟩, phase_failed (by decide) rfl⟩
  | true =>
    obtain ⟨hrunning, hnone⟩ := hphase.2 (hok rfl)
    refine ⟨h.flags.keep rfl rfl rfl rfl ⟨rfl, rfl, rfl, rfl⟩, phase_top _ ?_⟩
    have hsignalled : Signalled s.watcher.binaryState events := by
      rw [hrunning]
      have hlast : ∀ sig, lastSignal events ≠ some sig :=
        fun sig heq => hnone sig (mem_of_lastSignal heq)
      exact ⟨by simp [hlast], by simp [hlast], hphase.1⟩
    exact hsignalled.keep (fun _ heq => by cases heq) rfl

theorem tally_splice (h : Tally cfg s events) (hpc : s.watcher.pc = .splice) (t : Transfer) :
    Tally cfg { s with watcher := s.watcher.onSplice cfg.input.length t }
      (events ++ [.splice t]) := by
  have hphase := h.phase
  rw [hpc] at hphase
  cases t with
  | error =>
    exact ⟨h.flags.keep rfl rfl rfl rfl ⟨rfl, rfl, rfl, rfl⟩, phase_failed (by decide) rfl⟩
  | again =>
    exact ⟨h.flags.keep rfl rfl rfl rfl ⟨rfl, rfl, rfl, rfl⟩,
      Signalled.keep hphase (fun _ heq => by cases heq) rfl⟩
  | moved n =>
    exact ⟨h.flags.keep rfl rfl rfl rfl ⟨rfl, rfl, rfl, rfl⟩,
      Signalled.keep hphase (fun _ heq => by cases heq) rfl⟩

theorem tally_status (h : Tally cfg s events) (hpc : s.watcher.pc = .wait) (st : WaitStatus)
    (memUsed : ℤ) :
    Tally cfg { s with watcher := s.watcher.onStatus cfg.input.length cfg.memLimitMb memUsed st }
      (events ++ [.status st memUsed]) := by
  refine ⟨flags_status h.flags _ _ _, ?_⟩
  have hphase := h.phase
  rw [hpc] at hphase
  have hsignalled : Signalled s.watcher.binaryState (events ++ [.status st memUsed]) :=
    Signalled.keep hphase (fun _ heq => by cases heq) rfl
  cases st with
  | exited code => exact ⟨hsignalled, .inr ⟨code, memUsed, by simp⟩⟩
  | signaled sig => exact ⟨hsignalled, .inl (by simp [killing])⟩
  | stopped sig event => exact phase_top _ hsignalled

theorem tally_flush (h : Tally cfg s events) (hpc : s.watcher.pc = .flush) (t : Transfer) :
    Tally cfg { s with watcher := s.watcher.onFlush cfg.input.length t }
      (events ++ [.flush t]) := by
  have hphase := h.phase
  rw [hpc] at hphase
  obtain ⟨hsignalled, hfinished⟩ := hphase
  have hleave : ∀ w : Watcher, Flags cfg w (events ++ [.flush t]) → w.pc = .flush →
      w.binaryState = s.watcher.binaryState → failing (.flush t) = false →
      Tally cfg { s with watcher := w.leave cfg.input.length } (events ++ [.flush t]) := by
    intro w hflags hflush hstate hok
    refine ⟨flags_leave hflags _, phase_leave hflush ?_ (hfinished.keep _) _⟩
    rw [hstate]
    exact hsignalled.keep (fun _ heq => by cases heq) hok
  cases t with
  | error =>
    exact ⟨h.flags.keep rfl rfl rfl rfl ⟨rfl, rfl, rfl, rfl⟩, phase_failed (by decide) rfl⟩
  | again => exact hleave _ (h.flags.keep rfl rfl rfl rfl ⟨rfl, rfl, rfl, rfl⟩) hpc rfl rfl
  | moved n =>
    exact hleave { s.watcher with flushAcc := s.watcher.flushAcc + n }
      (h.flags.keep rfl rfl rfl rfl ⟨rfl, rfl, rfl, rfl⟩) hpc rfl rfl

theorem tally_signal (h : Tally cfg s events) (hpc : present s.watcher.pc = true) (sig : Sig) :
    Tally cfg { s with watcher := s.watcher.onSignal sig true, sigkilled := true }
      (events ++ [.signal sig]) := by
  refine ⟨?_, ?_⟩
  · cases sig <;> exact h.flags.keep rfl rfl rfl rfl ⟨rfl, rfl, rfl, rfl⟩
  · change Phase _ _ (s.watcher.onSignal sig true).pc
    have hphase := h.phase
    rw [onSignal_pc]
    cases hplace : s.watcher.pc with
    | forked =>
      rw [hplace] at hphase
      exact ⟨hphase.1.append rfl, fun hno => by cases hno⟩
    | firstWait =>
      rw [hplace] at hphase
      exact ⟨hphase.1.append rfl, fun hno => by cases hno⟩
    | splice =>
      rw [hplace] at hphase
      exact signalled_onSignal _ (Signalled.unfailed hphase) _
    | wait =>
      rw [hplace] at hphase
      exact signalled_onSignal _ (Signalled.unfailed hphase) _
    | _ => simp [hplace, present] at hpc

theorem tally_lateSignal (h : Tally cfg s events) (hpc : s.watcher.pc = .flush) (sig : Sig) :
    Tally cfg { s with watcher := s.watcher.onSignal sig false }
      (events ++ [.lateSignal sig]) := by
  have hphase := h.phase
  rw [hpc] at hphase
  refine ⟨h.flags.keep rfl rfl rfl rfl ⟨rfl, rfl, rfl, rfl⟩, ?_⟩
  change Phase _ _ (s.watcher.onSignal sig false).pc
  rw [onSignal_pc, hpc]
  exact ⟨hphase.1.keep (fun _ heq => by cases heq) rfl, hphase.2.keep _⟩

theorem tally_step (h : Tally cfg s events) (hstep : watchStep cfg s e = some s') :
    Tally cfg s' (events ++ [e]) := by
  cases e with
  | startWatching =>
    simp only [watchStep, Option.ite_none_right_eq_some, Option.some.injEq] at hstep
    obtain ⟨hpc, rfl⟩ := hstep
    have hphase := h.phase
    rw [hpc] at hphase
    refine ⟨h.flags.keep rfl rfl rfl rfl ⟨rfl, rfl, rfl, rfl⟩, hphase.1.append rfl,
      fun hno => ⟨rfl, ?_⟩⟩
    intro sig hmem
    exact hphase.2 hno sig (by simpa using hmem)
  | firstWait ok =>
    simp only [watchStep, Option.ite_none_right_eq_some, Option.some.injEq] at hstep
    obtain ⟨⟨hpc, hok⟩, rfl⟩ := hstep
    exact tally_firstWait h hpc hok
  | splice t =>
    simp only [watchStep, Option.ite_none_right_eq_some, Option.some.injEq] at hstep
    obtain ⟨hpc, rfl⟩ := hstep
    exact tally_splice h hpc t
  | unchanged =>
    simp only [watchStep, Option.ite_none_right_eq_some, Option.some.injEq] at hstep
    obtain ⟨hpc, rfl⟩ := hstep
    have hphase := h.phase
    rw [hpc] at hphase
    exact ⟨h.flags.keep rfl rfl rfl rfl ⟨rfl, rfl, rfl, rfl⟩,
      phase_top _ (Signalled.keep hphase (fun _ heq => by cases heq) rfl)⟩
  | waitFails =>
    simp only [watchStep, Option.ite_none_right_eq_some, Option.some.injEq] at hstep
    obtain ⟨hpc, rfl⟩ := hstep
    exact ⟨h.flags.keep rfl rfl rfl rfl ⟨rfl, rfl, rfl, rfl⟩, phase_failed (by decide) rfl⟩
  | status st memUsed =>
    simp only [watchStep, Option.ite_none_right_eq_some, Option.some.injEq] at hstep
    obtain ⟨hpc, rfl⟩ := hstep
    exact tally_status h hpc st memUsed
  | flush t =>
    simp only [watchStep, Option.ite_none_right_eq_some, Option.some.injEq] at hstep
    obtain ⟨hpc, rfl⟩ := hstep
    exact tally_flush h hpc t
  | signal sig =>
    simp only [watchStep, Option.ite_none_right_eq_some, Option.some.injEq] at hstep
    obtain ⟨hpc, rfl⟩ := hstep
    exact tally_signal h hpc sig
  | lateSignal sig =>
    simp only [watchStep, Option.ite_none_right_eq_some, Option.some.injEq] at hstep
    obtain ⟨hpc, rfl⟩ := hstep
    exact tally_lateSignal h hpc sig

theorem tally_watch (hrun : watch cfg events = some s) : Tally cfg s events := by
  have h := runWhere_history (Tally cfg) (fun _ _ _ _ h _ hstep => tally_step h hstep)
    tally_forkedWatch hrun
  rwa [List.nil_append] at h

theorem analyse_zero (h : w.analyse.toInt = 0) : w.sigxcpuReceived = false ∧
    w.memLimitExceeded = false ∧ (w.binaryState = .compout ∨
      (w.binaryState ≠ .wallTimeout ∧ w.sigsegvReceived = false ∧ w.binKilled = false)) := by
  refine ⟨?_, ?_, analyse_correct h⟩
  · unfold Watcher.analyse at h
    split_ifs at h with hxcpu
    · cases h
    all_goals exact Bool.eq_false_iff.mpr hxcpu
  · unfold Watcher.analyse at h
    split_ifs at h with hxcpu hmemory
    · cases h
    · cases h
    all_goals exact Bool.eq_false_iff.mpr hmemory

theorem failing_recorded (h : failing e = true) : recorded cfg e = true := by
  cases e with
  | status st memUsed => cases h
  | signal sig => rfl
  | _ => exact h

theorem unnoticed_tainted (h : unnoticed e = true) : tainted cfg e = true := by
  cases e with
  | status st memUsed =>
    cases st with
    | stopped sig event =>
      simp only [unnoticed, Bool.and_eq_true] at h
      simp [tainted, h.1.1.1, h.1.1.2]
    | _ => cases h
  | _ => cases h

theorem stopWord_sigtrap (event : ℕ) : stopWord sigtrap event &&& ptraceEventExit <<< 8 ≠ 0 := by
  intro hzero
  have hbit := congrArg (fun word => Nat.testBit word 10) hzero
  simp [stopWord, sigtrap, ptraceEventExit, Nat.testBit_or, Nat.testBit_and,
    Nat.testBit_shiftLeft] at hbit
  simp [Nat.testBit] at hbit

theorem overMemory_of_aboveLimit {sig event : ℕ} {memUsed : ℤ}
    (h : aboveLimit cfg sig memUsed = true) :
    Watcher.overMemory cfg.memLimitMb sig event memUsed = true := by
  simp only [aboveLimit, decide_eq_true_eq] at h
  obtain ⟨hsig, hpos, habove⟩ := h
  simp only [Watcher.overMemory, decide_eq_true_eq]
  rcases hsig with rfl | rfl
  · exact .inl ⟨rfl, stopWord_sigtrap event, hpos, habove⟩
  · exact .inr ⟨rfl, by omega, by omega⟩

theorem forbidden_of_forks {sig event : ℕ} (h : forks sig event = true) :
    Watcher.forbidden sig event = true := by
  simp only [forks, Watcher.forbidden, decide_eq_true_eq, List.mem_cons, List.not_mem_nil,
    or_false] at h ⊢
  tauto

/-- An event that a clean run does not contain is recorded, or goes unnoticed. -/
theorem tainted_cases (h : tainted cfg e = true) : recorded cfg e = true ∨ unnoticed e = true := by
  cases e with
  | status st memUsed =>
    cases st with
    | stopped sig event =>
      simp only [tainted, Bool.or_eq_true, decide_eq_true_eq] at h
      simp only [recorded, unnoticed, Bool.or_eq_true, Bool.and_eq_true, decide_eq_true_eq]
      rcases h with ((hxcpu | habove) | hforks) | hsignal
      · exact .inl (.inl (.inl (.inl hxcpu)))
      · exact .inl (.inl (.inr (overMemory_of_aboveLimit habove)))
      · exact .inl (.inr (forbidden_of_forks hforks))
      · rw [Bool.and_eq_true, decide_eq_true_eq] at hsignal
        tauto
    | exited code => cases h
    | signaled sig => cases h
  | signal sig => exact .inl rfl
  | _ => cases h

section

variable (htally : Tally cfg s events)
include htally

theorem unrecorded (hxcpu : s.watcher.sigxcpuReceived = false)
    (hmemory : s.watcher.memLimitExceeded = false) (hsegv : s.watcher.sigsegvReceived = false)
    (hkilled : s.watcher.binKilled = false) (hsignals : ∀ sig, .signal sig ∉ events)
    (hunfailed : Unfailed events) : ∀ e ∈ events, recorded cfg e = false := by
  intro e hmem
  rw [htally.flags.xcpu, List.any_eq_false] at hxcpu
  rw [htally.flags.memory, List.any_eq_false] at hmemory
  rw [htally.flags.segv, List.any_eq_false] at hsegv
  rw [htally.flags.killed, List.any_eq_false] at hkilled
  cases e with
  | status st memUsed =>
    have h1 := hxcpu _ hmem
    have h2 := hmemory _ hmem
    have h3 := hsegv _ hmem
    have h4 := hkilled _ hmem
    cases st with
    | stopped sig event =>
      simp only [xcpuStop, memoryStop, segvStop, killing, decide_eq_true_eq] at h1 h2 h3 h4
      simp [recorded, h1, h2, h3, h4]
    | exited code => rfl
    | signaled sig => exact absurd rfl h4
  | signal sig => exact absurd hmem (hsignals sig)
  | _ => exact hunfailed _ hmem

theorem untouched (hnone : ∀ e ∈ events, recorded cfg e = false) :
    s.watcher.sigxcpuReceived = false ∧ s.watcher.memLimitExceeded = false ∧
      s.watcher.sigsegvReceived = false ∧ s.watcher.binKilled = false := by
  rw [htally.flags.xcpu, htally.flags.memory, htally.flags.segv, htally.flags.killed]
  simp only [List.any_eq_false]
  have hcase : ∀ e ∈ events, xcpuStop e = false ∧ memoryStop cfg e = false ∧
      segvStop e = false ∧ killing e = false := by
    intro e hmem
    have hrecorded := hnone e hmem
    cases e with
    | status st memUsed =>
      cases st with
      | stopped sig event =>
        simp only [recorded, Bool.or_eq_false_iff] at hrecorded
        exact ⟨hrecorded.1.1.1, hrecorded.1.2, hrecorded.1.1.2, hrecorded.2⟩
      | exited code => exact ⟨rfl, rfl, rfl, rfl⟩
      | signaled sig => cases hrecorded
    | _ => exact ⟨rfl, rfl, rfl, rfl⟩
  refine ⟨?_, ?_, ?_, ?_⟩
  all_goals
    intro e hmem
    simp [hcase e hmem]

theorem correct_of_unrecorded {st : WaitStatus} (hended : s.watcher.pc = .ended st)
    (hnone : ∀ e ∈ events, recorded cfg e = false) : st = .exited 0 := by
  have hphase := htally.phase
  rw [hended] at hphase
  rcases hphase with ⟨-, e, hmem, hfailing⟩ | ⟨hst, hsignalled, -⟩
  · have hrecorded : recorded cfg e = true := failing_recorded hfailing
    rw [hnone e hmem] at hrecorded
    cases hrecorded
  · obtain ⟨hxcpu, hmemory, hsegv, hkilled⟩ := untouched htally hnone
    have hsignals : ∀ sig, lastSignal events ≠ some sig := by
      intro sig hlast
      have hrecorded := hnone _ (mem_of_lastSignal hlast)
      cases hrecorded
    have hwall : s.watcher.binaryState ≠ .wallTimeout :=
      fun hstate => hsignals _ (hsignalled.wall.mp hstate)
    have hcompout : s.watcher.binaryState ≠ .compout :=
      fun hstate => hsignals _ (hsignalled.compout.mp hstate)
    have hcorrect : s.watcher.analyse = .correct := by
      simp [Watcher.analyse, hxcpu, hmemory, hsegv, hkilled, hwall, hcompout]
    rw [hst, hcorrect]
    rfl

theorem unrecorded_of_correct (hended : s.watcher.pc = .ended (.exited 0)) :
    .signal .usr2 ∈ events ∨ ((∀ e ∈ events, recorded cfg e = false) ∧
      ∃ code memUsed, .status (.exited code) memUsed ∈ events) := by
  have hphase := htally.phase
  rw [hended] at hphase
  rcases hphase with ⟨hne, -⟩ | ⟨hst, hsignalled, hfinished⟩
  · exact absurd rfl hne
  · have hcorrect := exit_zero hst.symm (analyse_range _).1 (analyse_range _).2
    obtain ⟨hxcpu, hmemory, hstate⟩ := analyse_zero hcorrect
    by_cases hcompout : s.watcher.binaryState = .compout
    · exact .inl (mem_of_lastSignal (hsignalled.compout.mp hcompout))
    · obtain ⟨hwall, hsegv, hkilled⟩ := hstate.resolve_left hcompout
      right
      refine ⟨unrecorded htally hxcpu hmemory hsegv hkilled (hsignalled.none hwall hcompout)
        hsignalled.unfailed, ?_⟩
      rcases hfinished with hdied | hexited
      · rw [← htally.flags.killed, hkilled] at hdied
        cases hdied
      · exact hexited

end

/-- A watcher that ends with `JS_CORRECT` was stopped by the runner or saw a clean run,
exactly if no stop for a terminating signal went unnoticed in a run in which nothing else
was recorded. -/
theorem watcher_correct_iff (cfg : Config) (events : List WatchEvent) (s : Watch)
    (st : WaitStatus) (hrun : watch cfg events = some s) (hended : s.watcher.pc = .ended st) :
    (st = .exited 0 → .signal .usr2 ∈ events ∨ Clean cfg events) ↔
      ((∃ e ∈ events, unnoticed e = true) → ∃ e ∈ events, recorded cfg e = true) := by
  have htally := tally_watch hrun
  constructor
  · rintro hsound ⟨e, hmem, hun⟩
    by_contra hno
    have hnone : ∀ e ∈ events, recorded cfg e = false := by
      intro e hmem
      rw [← Bool.not_eq_true]
      exact fun hrecorded => hno ⟨e, hmem, hrecorded⟩
    rcases hsound (correct_of_unrecorded htally hended hnone) with husr2 | hclean
    · exact hno ⟨_, husr2, rfl⟩
    · have htaint := hclean.2 e hmem
      rw [unnoticed_tainted hun] at htaint
      cases htaint
  · rintro hcond rfl
    rcases unrecorded_of_correct htally hended with husr2 | ⟨hnone, hexited⟩
    · exact .inl husr2
    · refine .inr ⟨hexited, fun e hmem => ?_⟩
      rw [← Bool.not_eq_true]
      intro htaint
      rcases tainted_cases htaint with hrecorded | hun
      · rw [hnone e hmem] at hrecorded
        cases hrecorded
      · obtain ⟨e', hmem', hrecorded⟩ := hcond ⟨e, hmem, hun⟩
        rw [hnone e' hmem'] at hrecorded
        cases hrecorded

def stoppedOnce (sig event : ℕ) : List WatchEvent :=
  [.startWatching, .firstWait true, .splice (.moved 1), .unchanged,
    .status (.stopped sig event) 3000000, .status (.exited 0) 0, .flush .again]

theorem watcher_correct_iff_exit_event :
    ∃ s, watch oneByte (stoppedOnce sigtrap ptraceEventExit) = some s ∧
      s.watcher.pc = .ended (.exited 0) ∧ Clean oneByte (stoppedOnce sigtrap ptraceEventExit) := by
  have hrun : ∃ s, watch oneByte (stoppedOnce sigtrap ptraceEventExit) = some s ∧
      s.watcher.pc = .ended (.exited 0) :=
    ⟨_, rfl, rfl⟩
  obtain ⟨s, hs, hended⟩ := hrun
  have hsound := (watcher_correct_iff oneByte _ s _ hs hended).mpr (by decide)
  exact ⟨s, hs, hended, (hsound rfl).resolve_left (by decide)⟩

theorem watcher_clears_sigfpe :
    ∃ s, watch oneByte (stoppedOnce 8 0) = some s ∧ s.watcher.pc = .ended (.exited 0) ∧
      ¬ (.signal .usr2 ∈ stoppedOnce 8 0 ∨ Clean oneByte (stoppedOnce 8 0)) := by
  refine ⟨_, rfl, rfl, ?_⟩
  rintro (husr2 | hclean)
  · revert husr2
    decide
  · have htaint := hclean.2 (.status (.stopped 8 0) 3000000) (by decide)
    revert htaint
    decide

end KudosJudge.WatcherEvents
