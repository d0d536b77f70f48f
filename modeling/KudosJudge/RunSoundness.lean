import KudosJudge.PipeHygiene

set_option autoImplicit false

namespace KudosJudge.RunSystem
open CompareOutput Results SandboxWatcher RunnerLoop Runs

variable {cfg : Config}

def withinLimit (cfg : Config) (received : ℕ) : Prop :=
  ((received / 1000000 : ℕ) : ℤ) ≤ cfg.outputSizeLimitMb

instance (received : ℕ) : Decidable (withinLimit cfg received) :=
  inferInstanceAs (Decidable (((received / 1000000 : ℕ) : ℤ) ≤ cfg.outputSizeLimitMb))

theorem bmod_le_self (m count : ℕ) : Int.bmod count m ≤ count := by
  have hmod : count % m ≤ count := Nat.mod_le _ _
  rw [Int.bmod_eq_emod, ← Int.natCast_emod]
  split_ifs <;> omega

theorem receivedInt_le (count : ℕ) : receivedInt count ≤ count := by
  rw [receivedInt, Int32.toInt_ofNat']
  exact bmod_le_self _ _

/-- Overflow included, the test never takes a total within the limit for one above it. -/
theorem overLimit_of_within {count : ℕ} (h : withinLimit cfg count) :
    overLimit cfg count = false := by
  have hle : (receivedInt count).tdiv 1000000 ≤ (count : ℤ).tdiv 1000000 :=
    Int.tdiv_le_tdiv (by decide) (receivedInt_le count)
  have hlimit : (count : ℤ).tdiv 1000000 ≤ cfg.outputSizeLimitMb := h
  rw [overLimit, decide_eq_false_iff_not, Int.not_lt]
  exact Int.le_trans hle hlimit

/-- A `waitpid` of the runner does not fail over a `watcher_result` that happens
to be `JS_CORRECT`, and no read takes `received_bytes` over the output limit. -/
def sane (cfg : Config) (s : Sys) : Act → Bool
  | .poll ok => ok = false → s.runner.watcherResult ≠ .correct
  | .read (.bytes n) => s.runner.pc = .read →
      overLimit cfg (s.runner.receivedBytes + n) = false
  | _ => true

/-- What `JS_CORRECT` is to mean. -/
structure Sound (s : Sys) : Prop where
  collected : s.watcher.pc = .reaped (.exited 0)
  ended : ∃ code, s.binary = .reaped (.exited code)
  unkilled : s.sigkill = false
  all : (s.log.passed.map Prod.fst).flatten = s.log.written
  equal : ∀ call ∈ s.log.passed, call.2 = 0
  final : s.log.final = some 0

def Sys.Returns (s : Sys) (code : ℤ) (result : SandboxResult) : Prop :=
  ∃ site, s.runner.pc = .returned site ∧ site.code = code ∧ s.runner.result = some result

def started : SandboxWatcher.Pc → Bool
  | .splice => true
  | .wait => true
  | .flush => true
  | _ => false

def unforked : SandboxWatcher.Pc → Bool
  | .unborn => true
  | .absent => true
  | .setup _ => true
  | _ => false

def Blamed (w : Watcher) : Prop :=
  w.binKilled = true ∨ w.sigsegvReceived = true ∨ w.binaryState = .wallTimeout ∨
    w.binaryState = .compout

def OwnExit (b : Binary) (killed : Bool) : Prop :=
  (∃ code, b = .reaped (.exited code)) ∧ killed = false

/-- Behind the main loop the binary is waited for; `binKilled` tells a death by a signal. -/
def Waited (w : Watcher) (b : Binary) : Prop :=
  ∃ st, b = .reaped st ∧ (w.binKilled = false → ∃ code, st = .exited code)

structure Watched (w : Watcher) (b : Binary) (killed : Bool) : Prop where
  clean : w.pc = .ended (.exited 0) ∨ w.pc = .reaped (.exited 0) →
    w.binaryState = .compout ∨ OwnExit b killed
  waited : w.pc = .flush → Waited w b
  blamed : started w.pc = true → killed = true → Blamed w
  early : unforked w.pc = true → b = .unforked ∧ killed = false

section

variable {w w' : Watcher} {b b' : Binary} {killed : Bool}

theorem watched_going (hgone : gone w.pc = false)
    (waited : w.pc = .flush → Waited w b)
    (blamed : started w.pc = true → killed = true → Blamed w)
    (early : unforked w.pc = true → b = .unforked ∧ killed = false) : Watched w b killed := by
  refine ⟨fun hzero => ?_, waited, blamed, early⟩
  rcases hzero with hpc | hpc
  · rw [hpc] at hgone
    cases hgone
  · rw [hpc] at hgone
    cases hgone

theorem unforked_places {pc : SandboxWatcher.Pc} (h : unforked pc = true) :
    gone pc = false ∧ pc ≠ .flush ∧ started pc = false := by
  cases pc <;> simp_all [unforked, gone, started]

theorem watched_early (hpc : unforked w.pc = true) (hb : b = .unforked ∧ killed = false) :
    Watched w b killed := by
  obtain ⟨hgone, hflush, hstarted⟩ := unforked_places hpc
  refine watched_going hgone (fun heq => absurd heq hflush) (fun heq => ?_) fun _ => hb
  exact absurd (hstarted.symm.trans heq) Bool.false_ne_true

theorem watched_forked (hpc : w.pc = .forked ∨ w.pc = .firstWait) : Watched w b killed := by
  rcases hpc with hpc | hpc <;> constructor <;> simp [hpc, started, unforked]

theorem watched_looping (hpc : w.pc = .splice ∨ w.pc = .wait) (hblamed : killed = true → Blamed w) :
    Watched w b killed := by
  rcases hpc with hpc | hpc
  all_goals
    refine watched_going ?_ ?_ (fun _ => hblamed) ?_ <;> simp [hpc, gone, unforked]

theorem watched_ended {st : WaitStatus} (hpc : w.pc = .ended st) (hst : st ≠ .exited 0) :
    Watched w b killed := by
  refine ⟨fun h => ?_, fun h => ?_, fun h => ?_, fun h => ?_⟩
  · rcases h with h | h
    · rw [hpc, SandboxWatcher.Pc.ended.injEq] at h
      exact absurd h hst
    · rw [hpc] at h
      cases h
  all_goals
    rw [hpc] at h
    cases h

theorem Watched.samePc (h : Watched w b killed) (hpc : w'.pc = w.pc)
    (hkilled : w'.binKilled = w.binKilled) (hsegv : w'.sigsegvReceived = w.sigsegvReceived)
    (hstate : w'.binaryState = w.binaryState) : Watched w' b killed := by
  refine ⟨?_, ?_, ?_, ?_⟩
  · rw [hpc, hstate]
    exact h.clean
  · rw [hpc]
    unfold Waited
    rw [hkilled]
    exact h.waited
  · rw [hpc]
    unfold Blamed
    rw [hkilled, hsegv, hstate]
    exact h.blamed
  · rw [hpc]
    exact h.early

theorem watched_setup (h : Watched w b killed) {call : SetupCall} {calls : List SetupCall}
    (hpc : w.pc = .setup (call :: calls)) (ok : Bool) :
    Watched (w.onSetup call calls ok) b killed := by
  unfold Watcher.onSetup
  split
  · rename_i code hcode
    refine watched_ended rfl fun heq => ?_
    cases call <;> cases hcode <;> cases heq
  · have hearly := h.early (by rw [hpc]; rfl)
    exact watched_early rfl hearly

theorem watched_top (w : Watcher) (size : ℕ) (hblamed : killed = true → Blamed w) :
    Watched (w.top size) b killed := by
  unfold Watcher.top
  split_ifs
  · exact watched_looping (.inl rfl) hblamed
  · exact watched_looping (.inr rfl) hblamed

theorem blamed_onStop {memLimitMb : ℤ} {sig event : ℕ} {memUsed : ℤ}
    (h : Blamed w ∨ Watcher.killsOnStop sig event = true) :
    Blamed (w.onStop memLimitMb sig event memUsed) := by
  simp only [Blamed, Watcher.onStop, Watcher.killsOnStop, Bool.or_eq_true, decide_eq_true_eq] at h ⊢
  tauto

theorem watched_wait (h : Watched w b killed) (hpc : w.pc = .wait) (ok : Bool) (memUsed : ℤ) :
    Watched (watcherOnWait cfg w b ok memUsed) (binaryOnWait b ok) (killed || killsOnWait b ok) := by
  have hblamed := h.blamed (by rw [hpc]; rfl)
  cases ok with
  | false => exact watched_ended rfl (by decide)
  | true =>
    cases b with
    | stopped sig event =>
      refine watched_top _ _ fun hkilled => blamed_onStop ?_
      rcases (Bool.or_eq_true ..).mp hkilled with hkilled | hkilled
      · exact .inl (hblamed hkilled)
      · exact .inr hkilled
    | zombie st =>
      rw [show (killed || killsOnWait (.zombie st) true) = killed from Bool.or_false _]
      cases st with
      | exited code =>
        exact watched_going rfl (fun _ => ⟨_, rfl, fun _ => ⟨code, rfl⟩⟩) (fun _ => hblamed) nofun
      | signaled sig =>
        exact watched_going rfl (fun _ => ⟨_, rfl, nofun⟩) (fun _ _ => .inl rfl) nofun
      | stopped sig event =>
        exact watched_top _ _ fun hkilled => blamed_onStop (.inl (hblamed hkilled))
    | _ => exact watched_top _ _ fun hkilled => hblamed ((Bool.or_false _).symm.trans hkilled)

theorem exit_zero {code : ℤ} (h : WaitStatus.exited (UInt8.ofInt code) = .exited 0)
    (hlow : 0 ≤ code) (hhigh : code < 256) : code = 0 := by
  rw [WaitStatus.exited.injEq] at h
  have hnat := congrArg UInt8.toNat h
  simp only [UInt8.ofInt, UInt8.toNat_ofNat', UInt8.toNat_zero] at hnat
  omega

theorem analyse_correct (h : w.analyse.toInt = 0) :
    w.binaryState = .compout ∨ (w.binaryState ≠ .wallTimeout ∧ w.sigsegvReceived = false ∧
      w.binKilled = false) := by
  unfold Watcher.analyse at h
  split_ifs at h with h1 h2 h3 h4 h5
  · cases h
  · cases h
  · cases h
  · exact .inl h4
  · cases h
  · rw [Bool.or_eq_true, not_or, Bool.not_eq_true, Bool.not_eq_true] at h5
    exact .inr ⟨h3, h5⟩

theorem analyse_range (w : Watcher) : 0 ≤ w.analyse.toInt ∧ w.analyse.toInt < 256 := by
  unfold Watcher.analyse
  split_ifs <;> decide

theorem watched_leave (h : Watched w b killed) (hpc : w.pc = .flush) (size : ℕ) :
    Watched (w.leave size) b killed := by
  unfold Watcher.leave
  split_ifs
  · obtain ⟨st, rfl, hexited⟩ := h.waited hpc
    have hblamed := h.blamed (by rw [hpc]; rfl)
    refine ⟨fun hzero => ?_, nofun, nofun, nofun⟩
    rcases hzero with hzero | hzero
    · have hcorrect := exit_zero (SandboxWatcher.Pc.ended.inj hzero) (analyse_range w).1
        (analyse_range w).2
      rcases analyse_correct hcorrect with hcompout | ⟨hwall, hsegv, hkilled⟩
      · exact .inl hcompout
      · obtain ⟨code, rfl⟩ := hexited hkilled
        by_cases hcompout : w.binaryState = .compout
        · exact .inl hcompout
        · refine .inr ⟨⟨code, rfl⟩, Bool.eq_false_iff.mpr fun hsent => ?_⟩
          rcases hblamed hsent with hb | hb | hb | hb
          · rw [hkilled] at hb
            cases hb
          · rw [hsegv] at hb
            cases hb
          · exact hwall hb
          · exact hcompout hb
    · cases hzero
  · exact h

theorem watched_flush (h : Watched w b killed) (hpc : w.pc = .flush) (size : ℕ) (t : Transfer) :
    Watched (w.onFlush size t) b killed := by
  cases t with
  | moved n =>
    have hmoved : Watched { w with flushAcc := w.flushAcc + n } b killed :=
      h.samePc rfl rfl rfl rfl
    exact watched_leave hmoved hpc size
  | again => exact watched_leave h hpc size
  | error => exact watched_ended rfl (by decide)

theorem watched_flushRead (h : Watched w b killed) (hpc : w.pc = .flush) (size : ℕ)
    (t : Transfer) : Watched (w.onFlushRead size t) b killed := by
  cases t with
  | again => exact h.samePc rfl rfl rfl rfl
  | moved n => exact watched_flush h hpc size (.moved n)
  | error => exact watched_flush h hpc size .error

theorem watched_test (h : Watched w b killed) (hpc : w.pc = .flush) (size : ℕ) (errno : Errno) :
    Watched (w.onTest size errno) b killed := by
  have htested : Watched { w with failedRead := none } b killed := h.samePc rfl rfl rfl rfl
  cases errno with
  | eagain => exact watched_flush htested hpc size .again
  | esrch => exact watched_flush htested hpc size .error

theorem watched_reap (h : Watched w b killed) (ok : Bool) : Watched (reap w ok) b killed := by
  unfold reap
  split
  · rename_i st hpc
    refine ⟨fun hzero => ?_, nofun, nofun, nofun⟩
    rcases hzero with hzero | hzero
    · cases hzero
    · have hst : st = .exited 0 := SandboxWatcher.Pc.reaped.inj hzero
      exact h.clean (.inl (by rw [hpc, hst]))
  · exact h

theorem watched_receive (h : Watched w b killed) (sig : Sig) : Watched (w.receive sig) b killed := by
  unfold Watcher.receive
  split_ifs
  · exact h.samePc rfl rfl rfl rfl
  · exact h

theorem watched_signal (h : Watched w b killed) (halive : w.alive = true) (sig : Sig) :
    Watched (w.onSignal sig (killable b)) b (killed || killable b) := by
  cases hkillable : killable b with
  | false =>
    rw [Bool.or_false]
    exact h.samePc (onSignal_pc ..) rfl rfl rfl
  | true =>
    have hpc := onSignal_pc w sig true
    have hblamed : Blamed (w.onSignal sig true) := by
      cases sig with
      | alrm => exact .inr (.inr (.inl rfl))
      | usr2 => exact .inr (.inr (.inr rfl))
    refine ⟨fun hzero => ?_, fun hflush => ?_, fun _ _ => hblamed, fun hearly => ?_⟩
    · rw [hpc] at hzero
      rcases hzero with hzero | hzero <;> simp [Watcher.alive, hzero] at halive
    · obtain ⟨st, rfl, -⟩ := h.waited (hpc ▸ hflush)
      cases hkillable
    · obtain ⟨rfl, -⟩ := h.early (hpc ▸ hearly)
      cases hkillable

theorem Watched.binary (h : Watched w b killed) (hreaped : ∀ st, b ≠ .reaped st)
    (hforked : b ≠ .unforked) : Watched w b' killed := by
  refine ⟨fun hzero => ?_, fun hflush => ?_, h.blamed, fun hearly => ?_⟩
  · rcases h.clean hzero with hcompout | ⟨⟨code, hb⟩, -⟩
    · exact .inl hcompout
    · exact absurd hb (hreaped _)
  · obtain ⟨st, hb, -⟩ := h.waited hflush
    exact absurd hb (hreaped st)
  · exact absurd (h.early hearly).1 hforked

end

theorem enabled_forked {s : Sys} {act : Act} (hact : ofBinary act = true)
    (hon : enabled cfg s act = true) : s.binary ≠ .unforked := by
  intro hb
  cases act with
  | exec => simp [enabled, hb] at hon
  | write bytes => simp [enabled, hb] at hon
  | stop sig event => simp [enabled, hb] at hon
  | exit code => simp [enabled, hb] at hon
  | die sig => simp [enabled, hb] at hon
  | _ => cases hact

def Sys.Watched (s : Sys) : Prop := RunSystem.Watched s.watcher s.binary s.sigkill

theorem watched_step {s : Sys} {act : Act} (h : s.Watched) (hon : enabled cfg s act = true) :
    (effect cfg s act).Watched := by
  have hbinary : ofBinary act = true → ∀ b', RunSystem.Watched s.watcher b' s.sigkill :=
    fun hact _ => h.binary (enabled_binary hact hon) (enabled_forked hact hon)
  cases act with
  | clone outcome =>
    simp only [enabled, decide_eq_true_eq] at hon
    have hearly := h.early (by rw [hon.2]; rfl)
    cases outcome <;> exact watched_early rfl hearly
  | checkFds ok => exact h
  | poll ok => exact watched_reap h ok
  | send t => exact h
  | kill => exact watched_receive h .usr2
  | read o => exact h
  | setup ok =>
    obtain ⟨call, calls, hpc⟩ := enabled_setup hon
    change RunSystem.Watched (watcherOnSetup s.watcher ok) s.binary s.sigkill
    simp only [watcherOnSetup, hpc]
    exact watched_setup h hpc ok
  | fork ok =>
    cases ok with
    | false => exact watched_ended rfl (by decide)
    | true => exact watched_forked (.inl rfl)
  | startWatching => exact watched_forked (.inr rfl)
  | firstWait ok =>
    cases ok with
    | false => exact watched_ended rfl (by decide)
    | true =>
      simp only [enabled, decide_eq_true_eq] at hon
      refine watched_top s.watcher _ fun hkilled => ?_
      rcases hon.2 with ⟨-, hnot⟩ | ⟨-, hfalse⟩
      · exact absurd hkilled (hnot trivial)
      · cases hfalse
  | splice t =>
    simp only [enabled, decide_eq_true_eq] at hon
    have hblamed := h.blamed (by rw [hon.1]; rfl)
    cases t with
    | error => exact watched_ended rfl (by decide)
    | _ => exact watched_looping (.inr rfl) hblamed
  | wait ok memUsed =>
    simp only [enabled, decide_eq_true_eq] at hon
    exact watched_wait h hon ok memUsed
  | flush t =>
    simp only [enabled, decide_eq_true_eq] at hon
    exact watched_flushRead h hon.1 _ t
  | test errno =>
    simp only [enabled, decide_eq_true_eq] at hon
    exact watched_test h hon.1 _ errno
  | handle sig =>
    simp only [enabled, decide_eq_true_eq] at hon
    exact watched_signal h hon.1 sig
  | alarm => exact (watched_receive h .alrm).samePc rfl rfl rfl rfl
  | killWatcher sig => exact watched_ended rfl fun heq => by cases heq
  | exec => exact hbinary rfl _
  | write bytes => exact h
  | stop sig event => exact hbinary rfl _
  | exit code => exact hbinary rfl _
  | die sig => exact hbinary rfl _

/-- In the loop: nothing is decided, and what was read is what was passed on. -/
structure Comparing (r : Runner) (outPipe : List UInt8) (passed : List (List UInt8 × ℤ))
    (written : List UInt8) : Prop where
  more : r.endoffile = false
  differs : r.compoutDetected = true → r.compResult ≠ .correct
  equal : r.compoutDetected = false → ∀ call ∈ passed, call.2 = 0
  bytes : (passed.map Prod.fst).flatten ++ outPipe = written
  undecided : r.result = none

def reporting : RunnerLoop.Pc → Bool
  | .killSend => true
  | .killMismatch => true
  | .killRead => true
  | _ => false

/-- What the result `JS_CORRECT` of the runner rests on. -/
structure Decided (r : Runner) (outPipe : List UInt8) (passed : List (List UInt8 × ℤ))
    (written : List UInt8) (final : Option ℤ) : Prop where
  dead : r.watcherAlive = false
  spawned : r.spawnSucceeded = true
  reported : r.watcherResult = .correct
  same : r.compoutDetected = false
  equal : ∀ call ∈ passed, call.2 = 0
  read : outPipe = []
  all : (passed.map Prod.fst).flatten = written
  final : final = some 0

structure Judged (cfg : Config) (r : Runner) (outPipe : List UInt8)
    (passed : List (List UInt8 × ℤ)) (written : List UInt8) (final : Option ℤ) : Prop where
  comparing : behindLoop r.pc = false → Comparing r outPipe passed written
  reading : r.pc = .read → r.compoutDetected = false
  reports : reporting r.pc = true → r.compoutDetected = true
  unlimited : r.pc ≠ .killLimit
  limited : r.pc = .killMismatch → overLimit cfg r.receivedBytes = false
  decided : r.result = some .correct → Decided r outPipe passed written final

section

variable {r r' : Runner} {outPipe outPipe' : List UInt8} {passed : List (List UInt8 × ℤ)}
  {written : List UInt8} {final : Option ℤ}

theorem Comparing.keep (h : Comparing r outPipe passed written) (r' : Runner)
    (hmore : r'.endoffile = r.endoffile) (hcompout : r'.compoutDetected = r.compoutDetected)
    (hcomp : r'.compResult = r.compResult) (hresult : r'.result = r.result) :
    Comparing r' outPipe passed written := by
  refine ⟨hmore.trans h.more, ?_, ?_, h.bytes, hresult.trans h.undecided⟩
  · rw [hcompout, hcomp]
    exact h.differs
  · rw [hcompout]
    exact h.equal

theorem Comparing.not_correct (h : Comparing r outPipe passed written) :
    r.result ≠ some .correct := by
  rw [h.undecided]
  nofun

theorem Comparing.judged (h : Comparing r outPipe passed written)
    (hreading : r.pc = .read → r.compoutDetected = false) (hreporting : reporting r.pc = false)
    (hlimit : r.pc ≠ .killLimit) : Judged cfg r outPipe passed written final where
  comparing := fun _ => h
  reading := hreading
  reports := fun hyes => absurd (hreporting.symm.trans hyes) Bool.false_ne_true
  unlimited := hlimit
  limited := fun hpc => by rw [hpc] at hreporting; cases hreporting
  decided := fun hcorrect => absurd hcorrect h.not_correct

theorem behindLoop_places {pc : RunnerLoop.Pc} (h : behindLoop pc = true) :
    pc ≠ .read ∧ reporting pc = false ∧ pc ≠ .killLimit := by
  cases pc <;> simp_all [behindLoop, reporting]

theorem judged_behind (hbehind : behindLoop r.pc = true)
    (hdecided : r.result = some .correct → Decided r outPipe passed written final) :
    Judged cfg r outPipe passed written final := by
  obtain ⟨hread, hreporting, hlimit⟩ := behindLoop_places hbehind
  refine ⟨fun hin => ?_, fun hpc => absurd hpc hread, fun hyes => ?_, hlimit, fun hpc => ?_,
    hdecided⟩
  · exact absurd (hin.symm.trans hbehind) Bool.false_ne_true
  · exact absurd (hreporting.symm.trans hyes) Bool.false_ne_true
  · rw [hpc] at hreporting
    cases hreporting

theorem finish_not_correct (h : r.compResult ≠ .correct) : r.finish.result ≠ some .correct := by
  simp only [Runner.finish, ne_eq, Option.some.injEq]
  split_ifs with hspawned hreported
  · exact h
  · exact hreported
  · nofun

theorem Resumes.judged (h : Resumes cfg r r') (hcomparing : Comparing r outPipe passed written) :
    Judged cfg r' outPipe passed written final := by
  cases h with
  | poll alive =>
    exact (hcomparing.keep { r with pc := .poll } rfl rfl rfl rfl).judged nofun rfl nofun
  | send unsent =>
    exact (hcomparing.keep { r with pc := .send } rfl rfl rfl rfl).judged nofun rfl nofun
  | read more equal =>
    exact (hcomparing.keep { r with pc := .read } rfl rfl rfl rfl).judged (fun _ => equal) rfl
      nofun
  | finish decided dead =>
    refine judged_behind rfl fun hcorrect => ?_
    rcases decided with hend | hcompout
    · rw [hcomparing.more] at hend
      cases hend
    · exact absurd hcorrect (finish_not_correct (hcomparing.differs hcompout))

theorem checkLimit_top (hlimit : overLimit cfg r.receivedBytes = false) :
    r.checkLimit cfg = r.top cfg := by
  rw [Runner.checkLimit, hlimit, if_neg Bool.false_ne_true]

theorem Comparing.checkLimit (h : Comparing r outPipe passed written)
    (hlimit : overLimit cfg r.receivedBytes = false) :
    Judged cfg (r.checkLimit cfg) outPipe passed written final := by
  rw [checkLimit_top hlimit]
  exact (top_resumes r).judged h

theorem Comparing.report (h : Comparing r outPipe passed written)
    (hcompout : r.compoutDetected = true) (pc : RunnerLoop.Pc) (hpc : reporting pc = true)
    (hlimit : pc = .killMismatch → overLimit cfg r.receivedBytes = false) :
    Judged cfg { r with pc := pc } outPipe passed written final where
  comparing := fun _ => h.keep _ rfl rfl rfl rfl
  reading := fun hread => by
    change pc = .read at hread
    rw [hread] at hpc
    cases hpc
  reports := fun _ => hcompout
  unlimited := fun hkill => by
    change pc = .killLimit at hkill
    rw [hkill] at hpc
    cases hpc
  limited := hlimit
  decided := fun hcorrect => absurd hcorrect h.not_correct

theorem Comparing.pipeError (h : Comparing r outPipe passed written) :
    Comparing { r with compResult := .pipeError, compoutDetected := true } outPipe passed
      written where
  more := h.more
  differs := fun _ => nofun
  equal := nofun
  bytes := h.bytes
  undecided := h.undecided

theorem judged_pipeError (h : Comparing r outPipe passed written) {pc : RunnerLoop.Pc}
    (hpc : pc = .killSend ∨ pc = .killRead) :
    Judged cfg { r with compResult := .pipeError, compoutDetected := true, pc := pc } outPipe passed
      written final := by
  refine h.pipeError.report rfl pc ?_ fun hmismatch => ?_
  · rcases hpc with rfl | rfl <;> rfl
  · subst hmismatch
    rcases hpc with heq | heq <;> cases heq

theorem judged_onSend (h : Comparing r outPipe passed written) (t : Transfer) :
    Judged cfg (r.onSend cfg t) outPipe passed written final := by
  cases t with
  | moved n => exact (check_resumes cfg _).judged (h.keep _ rfl rfl rfl rfl)
  | again => exact (check_resumes cfg r).judged h
  | error =>
    simp only [Runner.onSend]
    split_ifs
    · exact judged_pipeError h (.inl rfl)
    · exact (check_resumes cfg _).judged h.pipeError

theorem judged_onPoll (h : Comparing r outPipe passed written) (p : Poll) :
    Judged cfg (r.onPoll cfg p) outPipe passed written final := by
  cases p with
  | error => exact (toSend_resumes _).judged (h.keep _ rfl rfl rfl rfl)
  | unchanged => exact (toSend_resumes r).judged h
  | status st =>
    refine (toSend_resumes _).judged ?_
    cases st with
    | exited code =>
      simp only [Runner.collect]
      split_ifs <;> exact h.keep _ rfl rfl rfl rfl
    | signaled sig => exact h.keep _ rfl rfl rfl rfl
    | stopped sig event => exact h.keep _ rfl rfl rfl rfl

theorem judged_onKill (h : Judged cfg r outPipe passed written final)
    (hin : behindLoop r.pc = false) : Judged cfg (r.onKill cfg) outPipe passed written final := by
  have hcomparing := h.comparing hin
  unfold Runner.onKill
  split
  · exact (check_resumes cfg r).judged hcomparing
  · rename_i hpc
    exact hcomparing.checkLimit (h.limited hpc)
  · rename_i hpc
    exact absurd hpc h.unlimited
  · exact (top_resumes r).judged hcomparing
  · exact h

theorem compared_correct {nequal : ℤ} (h : compared nequal = .correct) : nequal = 0 := by
  unfold compared at h
  split_ifs at h with hzero
  exact hzero

theorem Comparing.compareChunk (h : Comparing r outPipe passed written)
    (hsame : r.compoutDetected = false) (n : ℕ) :
    Comparing (r.compareChunk (outPipe.take n)) (outPipe.drop n)
      (passed ++ [(outPipe.take n, (r.chunkCall (outPipe.take n)).1)]) written where
  more := h.more
  differs := fun hcompout hcorrect => by
    simp only [Runner.compareChunk, hsame, Bool.false_or, decide_eq_true_eq] at hcompout
    exact hcompout (compared_correct hcorrect)
  equal := fun hcompout call hcall => by
    simp only [Runner.compareChunk, hsame, Bool.false_or, decide_eq_false_iff_not,
      not_not] at hcompout
    rcases List.mem_append.mp hcall with hcall | hcall
    · exact h.equal hsame call hcall
    · rw [List.mem_singleton.mp hcall]
      exact hcompout
  bytes := by
    rw [← h.bytes]
    simp
  undecided := h.undecided

theorem judged_onChunk (h : Comparing r outPipe passed written) (hsame : r.compoutDetected = false)
    (n : ℕ) (hlimit : overLimit cfg (r.receivedBytes + (outPipe.take n).length) = false) :
    Judged cfg (r.onChunk cfg (outPipe.take n)) (outPipe.drop n)
      (passed ++ [(outPipe.take n, (r.chunkCall (outPipe.take n)).1)]) written final := by
  have hnext := h.compareChunk hsame n
  unfold Runner.onChunk
  split_ifs with hkill
  · refine hnext.report ?_ .killMismatch rfl fun _ => hlimit
    simp only [Runner.compareChunk, hsame, Bool.false_or, decide_eq_true_eq]
    exact hkill.1
  · exact hnext.checkLimit hlimit

theorem judged_endCall (h : Comparing r [] passed written) (hsame : r.compoutDetected = false)
    (hdead : r.watcherAlive = false) :
    Judged cfg r.endCall.finish [] passed written
      (some (compareCall r.fdOutputRef [] (-1)).1) := by
  refine judged_behind rfl fun hcorrect => ?_
  simp only [Runner.finish, Option.some.injEq] at hcorrect
  split_ifs at hcorrect with hspawned hreported
  · have hzero : (compareCall r.fdOutputRef [] (-1)).1 = 0 := compared_correct hcorrect
    refine ⟨hdead, hspawned, hreported, hsame, h.equal hsame, rfl, ?_, by rw [hzero]⟩
    rw [← h.bytes, List.append_nil]
  · exact absurd hcorrect hreported

theorem judged_onFlushOut (h : Judged cfg r outPipe passed written final) {blockingCount : ℕ}
    (o : Read) :
    Judged cfg (r.onFlushOut blockingCount o) (outPipe.drop (Read.count o)) passed written
      final := by
  have hkeep : ∀ pc, behindLoop pc = true → Judged cfg { r with pc := pc }
      (outPipe.drop (Read.count o)) passed written final := by
    intro pc hbehind
    refine judged_behind hbehind fun hcorrect => ?_
    have hdecided := h.decided hcorrect
    exact { hdecided with read := by rw [hdecided.read, List.drop_nil] }
  cases o with
  | bytes n => exact hkeep _ rfl
  | eof => exact hkeep _ rfl
  | again =>
    simp only [Runner.onFlushOut]
    split_ifs <;> exact hkeep _ rfl
  | error => exact judged_behind rfl fun hcorrect => by cases hcorrect

theorem judged_leave (h : Judged cfg r outPipe passed written final) :
    Judged cfg (r.leave cfg) outPipe passed written final := by
  unfold Runner.leave
  split_ifs
  · refine judged_behind rfl fun hcorrect => ?_
    have hdecided := h.decided hcorrect
    exact { hdecided with }
  · exact h

theorem judged_onFlushIn (h : Judged cfg r outPipe passed written final) (hpc : r.pc = .flushIn)
    (t : Transfer) : Judged cfg (r.onFlushIn cfg t) outPipe passed written final := by
  cases t with
  | moved n =>
    refine judged_leave (judged_behind (by rw [hpc]; rfl) fun hcorrect => ?_)
    have hdecided := h.decided hcorrect
    exact { hdecided with }
  | again => exact judged_leave h
  | error => exact judged_behind rfl fun hcorrect => by cases hcorrect

theorem judged_onClone (h : Comparing r outPipe passed written) (outcome : Clone) :
    Judged cfg (r.onClone outcome) outPipe passed written final := by
  cases outcome with
  | noTemplate =>
    exact (h.keep { r with pc := .returned .noClone } rfl rfl rfl rfl).judged nofun rfl nofun
  | _ => exact (h.keep { r with pc := .checkFds } rfl rfl rfl rfl).judged nofun rfl nofun

theorem judged_onCheckFds (h : Comparing r outPipe passed written) (ok : Bool) :
    Judged cfg (r.onCheckFds ok) outPipe passed written final := by
  cases ok with
  | false => exact (h.keep { r with pc := .returned .badFd } rfl rfl rfl rfl).judged nofun rfl nofun
  | true => exact (h.keep { r with pc := .poll } rfl rfl rfl rfl).judged nofun rfl nofun

theorem judged_readError (h : Comparing r outPipe passed written) :
    Judged cfg (r.onRead cfg outPipe .error) outPipe passed written final := by
  simp only [Runner.onRead]
  split_ifs
  · exact judged_pipeError h (.inr rfl)
  · exact (top_resumes _).judged h.pipeError

end

theorem kept_effect (s : Sys) {act : Act} (hact : ∀ ok, act ≠ .poll ok) :
    ∃ n, Kept n s.runner (effect cfg s act).runner := by
  cases act with
  | clone outcome => exact ⟨_, kept_onClone ..⟩
  | checkFds ok => exact ⟨_, kept_onCheckFds ..⟩
  | poll ok => exact absurd rfl (hact ok)
  | send t => exact ⟨_, kept_runnerOnSend ..⟩
  | kill => exact ⟨_, kept_onKill ..⟩
  | read o => exact ⟨_, kept_runnerOnRead ..⟩
  | _ => exact ⟨0, .refl _⟩

def Sys.Judged (cfg : Config) (s : Sys) : Prop :=
  RunSystem.Judged cfg s.runner s.outPipe s.log.passed s.log.written s.log.final

theorem judged_send {s : Sys} (h : s.Judged cfg) {t : Transfer}
    (hon : enabled cfg s (.send t) = true) : (effect cfg s (.send t)).Judged cfg := by
  simp only [enabled, decide_eq_true_eq] at hon
  change RunSystem.Judged cfg (runnerOnSend cfg s.runner t) s.outPipe s.log.passed s.log.written
    s.log.final
  rcases hon.1 with hpc | hpc
  · rw [runnerOnSend_loop hpc]
    exact judged_onSend (h.comparing (by rw [hpc]; rfl)) t
  · rw [runnerOnSend_flushIn hpc]
    exact judged_onFlushIn h hpc t

theorem judged_mainRead {s : Sys} (h : s.Judged cfg) {o : Read} (hpc : s.runner.pc = .read)
    (hreadable : readable s o = true) (hsane : sane cfg s (.read o) = true) :
    (effect cfg s (.read o)).Judged cfg := by
  have hcomparing := h.comparing (by rw [hpc]; rfl)
  have hsame := h.reading hpc
  change RunSystem.Judged cfg (runnerOnRead cfg s.runner s.outPipe o)
    (s.outPipe.drop (Read.count o)) (logRead s.log s.runner s.outPipe o).passed
    (logRead s.log s.runner s.outPipe o).written (logRead s.log s.runner s.outPipe o).final
  have hrunner : runnerOnRead cfg s.runner s.outPipe o = s.runner.onRead cfg s.outPipe o := by
    simp only [runnerOnRead, hpc]
  rw [hrunner]
  cases o with
  | bytes n =>
    simp only [readable, decide_eq_true_eq] at hreadable
    simp only [sane, decide_eq_true_eq] at hsane
    simp only [logRead, hpc]
    refine judged_onChunk hcomparing hsame n ?_
    rw [List.length_take, Nat.min_eq_left hreadable.2.1]
    exact hsane hpc
  | eof => cases hreadable
  | again =>
    simp only [readable, decide_eq_true_eq] at hreadable
    simp only [logRead, hpc, Runner.onRead, Read.count, List.drop_zero]
    split_ifs with halive
    · exact (top_resumes s.runner).judged hcomparing
    · rw [hreadable] at hcomparing ⊢
      exact judged_endCall hcomparing hsame (Bool.eq_false_iff.mpr halive)
  | error =>
    simp only [logRead, hpc]
    exact judged_readError hcomparing

theorem judged_read {s : Sys} (h : s.Judged cfg) {o : Read}
    (hon : enabled cfg s (.read o) = true) (hsane : sane cfg s (.read o) = true) :
    (effect cfg s (.read o)).Judged cfg := by
  simp only [enabled] at hon
  split at hon
  · rename_i hpc
    exact judged_mainRead h hpc hon hsane
  · rename_i blockingCount hpc
    have hlog : logRead s.log s.runner s.outPipe o = s.log := by
      simp only [logRead, hpc]
    have hrunner : runnerOnRead cfg s.runner s.outPipe o = s.runner.onFlushOut blockingCount o := by
      simp only [runnerOnRead, hpc]
    unfold Sys.Judged
    simp only [effect, hlog, hrunner]
    exact judged_onFlushOut h o
  · cases hon

/-- The binary writes: in the loop the bytes are still to be read, and behind it
nothing is decided on a binary that is running. -/
theorem judged_write {s : Sys} (h : s.Judged cfg) (hundecided : behindLoop s.runner.pc = true →
    s.runner.result ≠ some .correct) (bytes : List UInt8) :
    (effect cfg s (.write bytes)).Judged cfg where
  comparing := fun hin => by
    have hcomparing := h.comparing hin
    have hbytes : (s.log.passed.map Prod.fst).flatten ++ (s.outPipe ++ bytes) =
        s.log.written ++ bytes := by
      rw [← List.append_assoc, hcomparing.bytes]
    exact { hcomparing with bytes := hbytes }
  reading := h.reading
  reports := h.reports
  unlimited := h.unlimited
  limited := h.limited
  decided := fun hcorrect => by
    cases hbehind : behindLoop s.runner.pc with
    | false => exact absurd hcorrect (h.comparing hbehind).not_correct
    | true => exact absurd hcorrect (hundecided hbehind)

theorem reaped_stays {s : Sys} {act : Act} {st : WaitStatus} (hpc : s.watcher.pc = .reaped st)
    (hon : enabled cfg s act = true) : (effect cfg s act).watcher.pc = .reaped st := by
  cases act with
  | poll ok =>
    change (reap s.watcher ok).pc = _
    cases ok <;> simp only [reap, hpc]
  | kill => exact (receive_pc ..).trans hpc
  | handle sig => exact (onSignal_pc ..).trans hpc
  | alarm => exact (receive_pc s.watcher .alrm).trans hpc
  | setup ok =>
    obtain ⟨call, calls, hsetup⟩ := enabled_setup hon
    rw [hpc] at hsetup
    cases hsetup
  | checkFds ok => exact hpc
  | send t => exact hpc
  | read o => exact hpc
  | exec => exact hpc
  | write bytes => exact hpc
  | stop sig event => exact hpc
  | exit code => exact hpc
  | die sig => exact hpc
  | _ => simp [enabled, hpc, Watcher.alive] at hon

theorem ofInt_correct {value : ℤ} (h : SandboxResult.ofInt value = .correct) : value = 0 := by
  unfold SandboxResult.ofInt at h
  split at h
  · rfl
  all_goals cases h

theorem collect_correct {r : Runner} {st : WaitStatus}
    (hspawned : (r.collect st).spawnSucceeded = true)
    (hcorrect : (r.collect st).watcherResult = .correct) : st = .exited 0 := by
  cases st with
  | exited code =>
    simp only [Runner.collect] at hspawned hcorrect
    split_ifs at hspawned hcorrect
    have hzero : code.toInt8 = (0 : UInt8).toInt8 := Int8.toInt_inj.mp (ofInt_correct hcorrect)
    rw [Int8.ofUInt8.inj hzero]
  | signaled sig => cases hcorrect
  | stopped sig event => cases hcorrect

def Sys.Reported (s : Sys) : Prop :=
  s.runner.watcherAlive = false → s.runner.spawnSucceeded = true →
    s.runner.watcherResult = .correct → s.watcher.pc = .reaped (.exited 0)

theorem reported_poll {s : Sys} (h : s.Reported) {ok : Bool}
    (hon : enabled cfg s (.poll ok) = true) (hsane : sane cfg s (.poll ok) = true) :
    (effect cfg s (.poll ok)).Reported := by
  intro hdead hspawned hcorrect
  change (s.runner.onPoll cfg (pollResult s ok)).watcherAlive = false at hdead
  change (s.runner.onPoll cfg (pollResult s ok)).spawnSucceeded = true at hspawned
  change (s.runner.onPoll cfg (pollResult s ok)).watcherResult = .correct at hcorrect
  cases ok with
  | false =>
    simp only [sane, decide_eq_true_eq] at hsane
    have hkept : Kept 0 _ (s.runner.onPoll cfg .error) := (toSend_resumes _).kept
    exact absurd (hkept.reported.symm.trans hcorrect) (hsane trivial)
  | true =>
    cases hpc : s.watcher.pc with
    | ended st =>
      have hkept : Kept 0 (s.runner.collect st) (s.runner.onPoll cfg (.status st)) :=
        (toSend_resumes _).kept
      simp only [pollResult, hpc, if_true] at hspawned hcorrect
      have hst : st = .exited 0 :=
        collect_correct (hkept.spawned.symm.trans hspawned) (hkept.reported.symm.trans hcorrect)
      change (reap s.watcher true).pc = _
      simp only [reap, hpc, hst]
    | _ =>
      have hkept : Kept 0 s.runner (s.runner.onPoll cfg .unchanged) := (toSend_resumes _).kept
      simp only [pollResult, hpc, if_true] at hdead hspawned hcorrect
      exact reaped_stays (h (hkept.alive.symm.trans hdead) (hkept.spawned.symm.trans hspawned)
        (hkept.reported.symm.trans hcorrect)) hon

theorem reported_step {s : Sys} {act : Act} (h : s.Reported) (hon : enabled cfg s act = true)
    (hsane : sane cfg s act = true) : (effect cfg s act).Reported := by
  by_cases hpoll : ∃ ok, act = .poll ok
  · obtain ⟨ok, rfl⟩ := hpoll
    exact reported_poll h hon hsane
  · intro hdead hspawned hcorrect
    obtain ⟨n, hkept⟩ := kept_effect s fun ok heq => hpoll ⟨ok, heq⟩
    exact reaped_stays (h (hkept.alive.symm.trans hdead) (hkept.spawned.symm.trans hspawned)
      (hkept.reported.symm.trans hcorrect)) hon

def Told (w : Watcher) : Prop := Sig.usr2 ∈ w.pending ∨ w.binaryState = .compout

theorem told_receive {w : Watcher} (h : Told (w.receive .alrm)) : Told w := by
  unfold Watcher.receive at h
  split_ifs at h
  · rcases h with hpending | hstate
    · rcases List.mem_cons.mp hpending with heq | hpending
      · cases heq
      · exact .inl (List.mem_of_mem_erase hpending)
    · exact .inr hstate
  · exact h

theorem told_onSignal {w : Watcher} {sig : Sig} {killed : Bool} (hsig : sig ∈ w.pending)
    (h : Told (w.onSignal sig killed)) : Told w := by
  cases killed with
  | false => exact h.imp_left List.mem_of_mem_erase
  | true =>
    cases sig with
    | alrm =>
      rcases h with hpending | hstate
      · exact .inl (List.mem_of_mem_erase hpending)
      · cases hstate
    | usr2 => exact .inl hsig

theorem told_wait {w : Watcher} {b : Binary} {ok : Bool} {memUsed : ℤ}
    (h : Told (watcherOnWait cfg w b ok memUsed)) : Told w := by
  unfold watcherOnWait at h
  split at h
  · exact h
  · exact h
  · rename_i st
    cases st <;> exact h
  · exact h

theorem told_setup {w : Watcher} {ok : Bool} (h : Told (watcherOnSetup w ok)) : Told w := by
  unfold watcherOnSetup at h
  split at h
  · rename_i call calls hpc
    unfold Watcher.onSetup at h
    split at h
    · exact h
    · cases call <;> exact h
  · exact h

theorem told_leave {w : Watcher} {size : ℕ} (h : Told (w.leave size)) : Told w := by
  unfold Watcher.leave at h
  split_ifs at h
  · exact h
  · exact h

theorem told_step {s : Sys} {act : Act} (hon : enabled cfg s act = true) (hact : act ≠ .kill)
    (h : Told (effect cfg s act).watcher) : Told s.watcher := by
  cases act with
  | clone outcome => cases outcome <;> exact h
  | poll ok =>
    change Told (reap s.watcher ok) at h
    unfold reap at h
    split at h
    · exact h
    · exact h
  | kill => exact absurd rfl hact
  | setup ok => exact told_setup h
  | fork ok => cases ok <;> exact h
  | startWatching => exact h.imp_right nofun
  | firstWait ok => cases ok <;> exact h
  | splice t => cases t <;> exact h
  | wait ok memUsed => exact told_wait h
  | flush t =>
    cases t with
    | moved n => exact told_leave (w := { s.watcher with flushAcc := s.watcher.flushAcc + n }) h
    | again => exact h
    | error => exact h
  | test errno =>
    cases errno with
    | eagain => exact told_leave (w := { s.watcher with failedRead := none }) h
    | esrch => exact h
  | handle sig =>
    simp only [enabled, decide_eq_true_eq] at hon
    exact told_onSignal hon.2 h
  | alarm => exact told_receive h
  | _ => exact h

theorem kept_poll_compout (r : Runner) (p : Poll) :
    r.compoutDetected = true → (r.onPoll cfg p).compoutDetected = true := by
  intro h
  cases p with
  | error => exact (toSend_resumes _).kept.compout h
  | unchanged => exact (toSend_resumes r).kept.compout h
  | status st =>
    refine (toSend_resumes _).kept.compout ?_
    cases st with
    | exited code =>
      simp only [Runner.collect]
      split_ifs <;> exact h
    | _ => exact h

theorem effect_compout {s : Sys} (act : Act) (h : s.runner.compoutDetected = true) :
    (effect cfg s act).runner.compoutDetected = true := by
  by_cases hpoll : ∃ ok, act = .poll ok
  · obtain ⟨ok, rfl⟩ := hpoll
    exact kept_poll_compout _ _ h
  · obtain ⟨n, hkept⟩ := kept_effect s fun ok heq => hpoll ⟨ok, heq⟩
    exact hkept.compout h

structure Trusted (cfg : Config) (s : Sys) : Prop where
  watched : s.Watched
  judged : s.Judged cfg
  reported : s.Reported
  informed : Told s.watcher → s.runner.compoutDetected = true

theorem Trusted.sound {s : Sys} (h : Trusted cfg s) (hcorrect : s.runner.result = some .correct) :
    Sound s := by
  have hdecided := h.judged.decided hcorrect
  have hreaped := h.reported hdecided.dead hdecided.spawned hdecided.reported
  rcases h.watched.clean (.inr hreaped) with hcompout | ⟨hexited, hkilled⟩
  · have hdiffers := h.informed (.inr hcompout)
    rw [hdecided.same] at hdiffers
    cases hdiffers
  · exact ⟨hreaped, hexited, hkilled, hdecided.all, hdecided.equal, hdecided.final⟩

theorem judged_step {s : Sys} {act : Act} (h : Trusted cfg s) (hon : enabled cfg s act = true)
    (hsane : sane cfg s act = true) : (effect cfg s act).Judged cfg := by
  have hjudged := h.judged
  cases act with
  | clone outcome =>
    simp only [enabled, decide_eq_true_eq] at hon
    exact judged_onClone (hjudged.comparing (by rw [hon.1]; rfl)) outcome
  | checkFds ok =>
    simp only [enabled, decide_eq_true_eq] at hon
    exact judged_onCheckFds (hjudged.comparing (by rw [hon]; rfl)) ok
  | poll ok =>
    simp only [enabled, decide_eq_true_eq] at hon
    exact judged_onPoll (hjudged.comparing (by rw [hon.1]; rfl)) _
  | send t => exact judged_send hjudged hon
  | kill => exact judged_onKill hjudged (enabled_kill hon)
  | read o => exact judged_read hjudged hon hsane
  | write bytes =>
    refine judged_write hjudged (fun _ hcorrect => ?_) bytes
    obtain ⟨code, hreaped⟩ := (h.sound hcorrect).ended
    exact enabled_binary rfl hon _ hreaped
  | _ => exact hjudged

theorem reports_kill {s : Sys} (h : s.Judged cfg) (hon : enabled cfg s .kill = true) :
    s.runner.compoutDetected = true := by
  apply h.reports
  simp only [enabled, decide_eq_true_eq, List.mem_cons, List.not_mem_nil, or_false] at hon
  rcases hon with hpc | hpc | hpc | hpc
  · rw [hpc]
    rfl
  · rw [hpc]
    rfl
  · exact absurd hpc h.unlimited
  · rw [hpc]
    rfl

theorem trusted_step {s : Sys} {act : Act} (h : Trusted cfg s) (hon : enabled cfg s act = true)
    (hsane : sane cfg s act = true) : Trusted cfg (effect cfg s act) where
  watched := watched_step h.watched hon
  judged := judged_step h hon hsane
  reported := reported_step h.reported hon hsane
  informed := fun htold => by
    apply effect_compout
    by_cases hkill : act = .kill
    · subst hkill
      exact reports_kill h.judged hon
    · exact h.informed (told_step hon hkill htold)

theorem trusted_start (cfg : Config) : Trusted cfg (start cfg) where
  watched := watched_early rfl ⟨rfl, rfl⟩
  judged := Comparing.judged ⟨rfl, nofun, fun _ _ hcall => (nomatch hcall), rfl, rfl⟩ nofun rfl
    nofun
  reported := nofun
  informed := fun h => by
    rcases h with h | h <;> cases h

/-- In a run without such a failing `waitpid` and within the output limit,
`JS_CORRECT` means what it says. -/
theorem correct_run_sound (cfg : Config) (s : Sys)
    (hrun : Reaches (step cfg) (fun s act => sane cfg s act = true) (start cfg) s)
    (hreturns : s.Returns 0 .correct) : Sound s := by
  have htrusted : Trusted cfg s :=
    hrun.invariant (Trusted cfg) (trusted_start cfg) fun _ _ _ h hsane hstep => by
      obtain ⟨hon, -, rfl⟩ := step_cases hstep
      exact trusted_step h hon hsane
  obtain ⟨-, -, -, hcorrect⟩ := hreturns
  exact htrusted.sound hcorrect

theorem correct_run_sound_oneByte :
    ∃ s, Reaches (step oneByte) (fun s act => sane oneByte s act = true) (start oneByte) s ∧
      s.Returns 0 .correct ∧ Sound s := by
  have hloop : ∃ s, runWhere (step oneByte) (fun s act => sane oneByte s act = true)
      (start oneByte) oneByteRun = some s ∧ s.runner.pc = .flushOut 0 ∧ s.outPipe = [] ∧
        s.groupKilled = false ∧ s.runner.sent = 1 ∧ s.runner.result = some .correct :=
    ⟨_, rfl, rfl, rfl, rfl, rfl, rfl⟩
  obtain ⟨s, hs, hpc, hempty, hlive, hsent, hcorrect⟩ := hloop
  have hrun := (reaches_of_runWhere hs).trans
    (reaches_done (fun _ => rfl) (fun _ => rfl) hpc hempty hlive (by rw [hsent]; rfl))
  have hreturns : (s.goTo (.returned .done)).Returns 0 .correct := ⟨.done, rfl, rfl, hcorrect⟩
  exact ⟨_, hrun, hreturns, correct_run_sound oneByte _ hrun hreturns⟩

def stale : Config :=
  { oneByte with input := [], reference := [], staleWatcherResult := .correct }

/-- `clone` fails, and with it `waitpid`; the runner takes the watcher for dead
and `JS_CORRECT` for its report. -/
theorem correct_without_watcher :
    ∃ s, Reaches (step stale) (fun _ _ => True) (start stale) s ∧ s.Returns 0 .correct ∧
      s.watcher.pc = .absent ∧ s.binary = .unforked ∧ ¬ Sound s := by
  have hloop : ∃ s, runWhere (step stale) (fun _ _ => True) (start stale)
      [.clone .failed, .checkFds true, .poll false, .read .again] = some s ∧
        s.runner.pc = .flushOut 0 ∧ s.outPipe = [] ∧ s.groupKilled = false ∧
        s.runner.result = some .correct ∧ s.watcher.pc = .absent ∧ s.binary = .unforked :=
    ⟨_, rfl, rfl, rfl, rfl, rfl, rfl, rfl⟩
  obtain ⟨s, hs, hpc, hempty, hlive, hcorrect, habsent, hunforked⟩ := hloop
  have hrun := (reaches_of_runWhere hs).trans
    (reaches_done (fun _ => trivial) (fun _ => trivial) hpc hempty hlive (Nat.zero_le _))
  refine ⟨_, hrun, ⟨.done, rfl, rfl, hcorrect⟩, habsent, hunforked, fun hsound => ?_⟩
  have hreaped : s.watcher.pc = .reaped (.exited 0) := hsound.collected
  rw [habsent] at hreaped
  cases hreaped

end KudosJudge.RunSystem
