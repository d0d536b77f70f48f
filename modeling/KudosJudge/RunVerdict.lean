import KudosJudge.CompareExact
import KudosJudge.RunSoundness

set_option autoImplicit false

namespace KudosJudge.RunSystem
open CompareOutput Results SandboxWatcher RunnerLoop Runs

variable {cfg : Config}

/-- The steps of a run on a program that, left alone, writes `output` and exits.
It stops for its exit only, and dies by the `SIGKILL` of the judge only. No call fails, and no
handler runs between a read of the flush loop that found nothing and its test of `errno`. -/
def ordinary (cfg : Config) (output : List UInt8) (s : Sys) : Act → Bool
  | .wait ok memUsed =>
    ok ∧ ¬ Watcher.overMemory cfg.memLimitMb sigtrap ptraceEventExit memUsed
  | .handle _ => s.watcher.failedRead = none
  | .alarm => false
  | .write bytes => s.log.written ++ bytes <+: output
  | .stop sig event => sig = sigtrap ∧ event = ptraceEventExit
  | .exit _ => s.binary = .running ∧ s.log.written = output
  | .die sig => s.sigkill ∧ sig = sigkill
  | act => unfailing act

/-- The same steps, with handlers at any moment. -/
def tolerated (cfg : Config) (output : List UInt8) (s : Sys) : Act → Bool
  | .handle _ => true
  | .test _ => true
  | act => ordinary cfg output s act

def undisturbed (s : Sys) : Act → Bool
  | .handle _ => s.watcher.failedRead = none
  | _ => true

theorem unfailing_of_ordinary {output : List UInt8} {s : Sys} {act : Act}
    (h : ordinary cfg output s act = true) : unfailing act = true := by
  cases act with
  | wait ok memUsed =>
    simp only [ordinary, decide_eq_true_eq] at h
    exact h.1
  | handle sig => rfl
  | alarm => cases h
  | write bytes => rfl
  | stop sig event => rfl
  | exit code => rfl
  | die sig => rfl
  | _ => exact h

/-- `JS_CORRECT` if the texts are equal up to line feeds at the end. -/
def verdict (reference output : List UInt8) : SandboxResult :=
  if reference.rdropWhile (· = lf) = output.rdropWhile (· = lf) then .correct else .wrong

def Ended (killed : Bool) (written output : List UInt8) : WaitStatus → Prop
  | .exited _ => written = output
  | .signaled _ => killed = true
  | .stopped _ _ => False

/-- What the state of the binary tells about its output. -/
def Fits (killed : Bool) (written output : List UInt8) : Binary → Prop
  | .unforked => written = []
  | .starting => written = []
  | .execStop => written = []
  | .running => True
  | .stopped sig event => sig = sigtrap ∧ event = ptraceEventExit
  | .zombie st => Ended killed written output st
  | .reaped st => Ended killed written output st

def unstarted : Binary → Bool
  | .unforked => true
  | .starting => true
  | .execStop => true
  | _ => false

def watching : SandboxWatcher.Pc → Bool
  | .splice => true
  | .wait => true
  | .flush => true
  | .ended _ => true
  | .reaped _ => true
  | _ => false

structure Calm (w : Watcher) (b : Binary) (killed : Bool) (written output : List UInt8) : Prop where
  fits : Fits killed written output b
  part : written <+: output
  xcpu : w.sigxcpuReceived = false
  memory : w.memLimitExceeded = false
  segv : w.sigsegvReceived = false
  wall : w.binaryState ≠ .wallTimeout
  quiet : Sig.alrm ∉ w.pending
  early : watching w.pc = false → unstarted b = true ∧ killed = false ∧ w.binKilled = false
  blamed : killed = true ∨ w.binKilled = true → w.binaryState = .compout
  ended : ∀ st, w.pc = .ended st ∨ w.pc = .reaped st → st = .exited 0

section

variable {w w' : Watcher} {b b' : Binary} {killed : Bool} {written output : List UInt8}

theorem fits_unstarted (h : Fits killed written output b) (hb : unstarted b = true) :
    written = [] := by
  cases b with
  | unforked => exact h
  | starting => exact h
  | execStop => exact h
  | _ => cases hb

theorem Fits.kill (h : Fits killed written output b) : Fits true written output b := by
  cases b with
  | zombie st => cases st with
    | signaled sig => rfl
    | _ => exact h
  | reaped st => cases st with
    | signaled sig => rfl
    | _ => exact h
  | _ => exact h

theorem Calm.moves (h : Calm w b killed written output) (hfits : Fits killed written output b')
    (hxcpu : w'.sigxcpuReceived = w.sigxcpuReceived)
    (hmemory : w'.memLimitExceeded = w.memLimitExceeded)
    (hsegv : w'.sigsegvReceived = w.sigsegvReceived) (hstate : w'.binaryState = w.binaryState)
    (hpending : w'.pending = w.pending) (hkilled : w'.binKilled = w.binKilled)
    (hgone : gone w'.pc = false)
    (hearly : watching w'.pc = false → watching w.pc = false ∧ unstarted b' = true) :
    Calm w' b' killed written output where
  fits := hfits
  part := h.part
  xcpu := hxcpu.trans h.xcpu
  memory := hmemory.trans h.memory
  segv := hsegv.trans h.segv
  wall := by rw [hstate]; exact h.wall
  quiet := by rw [hpending]; exact h.quiet
  early := fun hpc => by
    rw [hkilled]
    exact ⟨(hearly hpc).2, (h.early (hearly hpc).1).2⟩
  blamed := by rw [hkilled, hstate]; exact h.blamed
  ended := fun st hpc => by
    rcases hpc with hpc | hpc
    · rw [hpc] at hgone
      cases hgone
    · rw [hpc] at hgone
      cases hgone

theorem Calm.sameWatcher (h : Calm w b killed written output)
    (hfits : Fits killed written output b')
    (hstarted : unstarted b = true → killed = false → unstarted b' = true) :
    Calm w b' killed written output :=
  { h with
    fits := hfits
    early := fun hpc => ⟨hstarted (h.early hpc).1 (h.early hpc).2.1, (h.early hpc).2⟩ }

theorem calm_unborn : Calm unborn .unforked false [] output where
  fits := rfl
  part := List.nil_prefix
  xcpu := rfl
  memory := rfl
  segv := rfl
  wall := nofun
  quiet := nofun
  early := fun _ => ⟨rfl, rfl, rfl⟩
  blamed := fun h => by rcases h with h | h <;> cases h
  ended := fun st h => by rcases h with h | h <;> cases h

theorem calm_reap (h : Calm w b killed written output) (ok : Bool) :
    Calm (reap w ok) b killed written output := by
  unfold reap
  split
  · rename_i st hpc
    refine { h with early := nofun, ended := fun st' hst => ?_ }
    rcases hst with hst | hst
    · cases hst
    · exact h.ended st' (.inl (hpc.trans (congrArg _ (SandboxWatcher.Pc.reaped.inj hst))))
  · exact h

theorem calm_receive (h : Calm w b killed written output) :
    Calm (w.receive .usr2) b killed written output := by
  unfold Watcher.receive
  split_ifs
  · refine { h with quiet := fun hmem => ?_ }
    rcases List.mem_cons.mp hmem with heq | hmem
    · cases heq
    · exact h.quiet (List.mem_of_mem_erase hmem)
  · exact h

theorem calm_setup (h : Calm w b killed written output) {call : SetupCall} {calls : List SetupCall}
    (hpc : w.pc = .setup (call :: calls)) :
    Calm (w.onSetup call calls true) b killed written output := by
  have hearly := h.early (by rw [hpc]; rfl)
  cases call <;>
    exact h.moves h.fits rfl rfl rfl rfl rfl rfl rfl fun _ => ⟨by rw [hpc]; rfl, hearly.1⟩

theorem calm_fork (h : Calm w b killed written output) (hpc : w.pc = .setup []) :
    Calm (w.onFork true) .starting killed written output := by
  have hearly : watching w.pc = false := by rw [hpc]; rfl
  exact h.moves (fits_unstarted h.fits (h.early hearly).1) rfl rfl rfl rfl rfl rfl rfl
    fun _ => ⟨hearly, rfl⟩

theorem calm_startWatching (h : Calm w b killed written output) (hpc : w.pc = .forked) :
    Calm { w with binaryState := .running, pc := .firstWait } b killed written output := by
  have hearly := h.early (by rw [hpc]; rfl)
  refine { h with wall := nofun, early := fun _ => hearly, blamed := fun hblamed => ?_,
                  ended := fun st hst => ?_ }
  · rw [hearly.2.1, hearly.2.2] at hblamed
    rcases hblamed with hfalse | hfalse <;> cases hfalse
  · rcases hst with hst | hst <;> cases hst

theorem calm_top (h : Calm w b killed written output) (hfits : Fits killed written output b')
    (size : ℕ) : Calm (w.top size) b' killed written output := by
  unfold Watcher.top
  split_ifs
  · exact h.moves hfits rfl rfl rfl rfl rfl rfl rfl nofun
  · exact h.moves hfits rfl rfl rfl rfl rfl rfl rfl nofun

theorem calm_splice (h : Calm w b killed written output) (size : ℕ) {t : Transfer}
    (ht : t ≠ .error) : Calm (w.onSplice size t) b killed written output := by
  cases t with
  | moved n => exact h.moves h.fits rfl rfl rfl rfl rfl rfl rfl nofun
  | again => exact h.moves h.fits rfl rfl rfl rfl rfl rfl rfl nofun
  | error => exact absurd rfl ht

theorem onStop_exit (w : Watcher) {memUsed : ℤ}
    (hmemory : ¬ Watcher.overMemory cfg.memLimitMb sigtrap ptraceEventExit memUsed = true) :
    w.onStop cfg.memLimitMb sigtrap ptraceEventExit memUsed = w := by
  have hforbidden : Watcher.forbidden sigtrap ptraceEventExit = false := rfl
  have hxcpu : decide (sigtrap = sigxcpu) = false := rfl
  have hsegv : decide (sigtrap = sigsegv) = false := rfl
  rw [Bool.not_eq_true] at hmemory
  simp only [Watcher.onStop, hmemory, hforbidden, hxcpu, hsegv, Bool.or_false]

theorem calm_wait (h : Calm w b killed written output) {memUsed : ℤ}
    (hmemory : ¬ Watcher.overMemory cfg.memLimitMb sigtrap ptraceEventExit memUsed = true) :
    Calm (watcherOnWait cfg w b true memUsed) (binaryOnWait b true)
      (killed || killsOnWait b true) written output := by
  cases b with
  | stopped sig event =>
    obtain ⟨rfl, rfl⟩ := h.fits
    rw [show (killed || killsOnWait (.stopped sigtrap ptraceEventExit) true) = killed from
      Bool.or_false _]
    change Calm ((w.onStop cfg.memLimitMb sigtrap ptraceEventExit memUsed).top _) .running _ _ _
    rw [onStop_exit w hmemory]
    have hrunning : Fits killed written output .running := trivial
    exact calm_top h hrunning _
  | zombie st =>
    rw [show (killed || killsOnWait (.zombie st) true) = killed from Bool.or_false _]
    cases st with
    | exited code => exact h.moves h.fits rfl rfl rfl rfl rfl rfl rfl nofun
    | signaled sig =>
      have hkilled : killed = true := h.fits
      exact { h with early := nofun, blamed := fun _ => h.blamed (.inl hkilled), ended := nofun }
    | stopped sig event => exact absurd h.fits id
  | _ =>
    rw [show (killed || killsOnWait _ true) = killed from Bool.or_false _]
    exact calm_top h h.fits _

theorem Calm.analyse (h : Calm w b killed written output) : w.analyse = .correct := by
  unfold Watcher.analyse
  rw [h.xcpu, h.memory, h.segv, if_neg Bool.false_ne_true, if_neg Bool.false_ne_true,
    if_neg h.wall]
  by_cases hcompout : w.binaryState = .compout
  · rw [if_pos hcompout]
  · have hkilled : w.binKilled = false :=
      Bool.eq_false_iff.mpr fun hkilled => hcompout (h.blamed (.inr hkilled))
    rw [if_neg hcompout, hkilled]
    rfl

theorem calm_leave (h : Calm w b killed written output) (size : ℕ) :
    Calm (w.leave size) b killed written output := by
  unfold Watcher.leave
  rw [h.analyse]
  split_ifs
  · refine { h with early := nofun, ended := fun st hst => ?_ }
    rcases hst with hst | hst
    · exact (SandboxWatcher.Pc.ended.inj hst).symm
    · cases hst
  · exact h

theorem calm_flush (h : Calm w b killed written output) (size : ℕ) {t : Transfer}
    (ht : t ≠ .error) : Calm (w.onFlush size t) b killed written output := by
  cases t with
  | moved n =>
    have hmoved : Calm { w with flushAcc := w.flushAcc + n } b killed written output := { h with }
    exact calm_leave hmoved size
  | again => exact calm_leave h size
  | error => exact absurd rfl ht

theorem calm_flushRead (h : Calm w b killed written output) (size : ℕ) {t : Transfer}
    (ht : t ≠ .error) : Calm (w.onFlushRead size t) b killed written output := by
  cases t with
  | moved n => exact calm_flush h size (t := .moved n) ht
  | again => exact { h with }
  | error => exact absurd rfl ht

theorem calm_test (h : Calm w b killed written output) (size : ℕ) :
    Calm (w.onTest size .eagain) b killed written output := by
  have htested : Calm { w with failedRead := none } b killed written output := { h with }
  exact calm_leave htested size

theorem calm_signal (h : Calm w b killed written output) {sig : Sig} (hsig : sig ∈ w.pending)
    (hwritten : sig = .usr2 → written ≠ []) :
    Calm (w.onSignal sig (killable b)) b (killed || killable b) written output := by
  cases sig with
  | alrm => exact absurd hsig h.quiet
  | usr2 =>
    have hquiet : Sig.alrm ∉ w.pending.erase .usr2 := fun hmem =>
      h.quiet (List.mem_of_mem_erase hmem)
    cases hkillable : killable b with
    | false =>
      rw [Bool.or_false]
      exact { h with quiet := hquiet }
    | true =>
      rw [Bool.or_true]
      refine { h with fits := h.fits.kill, wall := nofun, quiet := hquiet,
                      early := fun hpc => ?_, blamed := fun _ => rfl }
      exact absurd (fits_unstarted h.fits (h.early hpc).1) (hwritten rfl)

end

def Sys.Calm (output : List UInt8) (s : Sys) : Prop :=
  RunSystem.Calm s.watcher s.binary s.sigkill s.log.written output

theorem logRead_written (log : Log) (r : Runner) (outPipe : List UInt8) (o : Read) :
    (logRead log r outPipe o).written = log.written := by
  unfold logRead
  split
  · rfl
  · split_ifs <;> rfl
  · rfl
  · rfl

theorem calm_step {s : Sys} {act : Act} {output : List UInt8} (h : s.Calm output)
    (hheard : Sig.usr2 ∈ s.watcher.pending → s.log.written ≠ []) (hon : enabled cfg s act = true)
    (hordinary : ordinary cfg output s act = true) : (effect cfg s act).Calm output := by
  cases act with
  | clone outcome =>
    simp only [enabled, decide_eq_true_eq] at hon
    simp only [ordinary, unfailing, decide_eq_true_eq] at hordinary
    subst hordinary
    have hearly : watching s.watcher.pc = false := by rw [hon.2]; rfl
    exact h.moves h.fits rfl rfl rfl rfl rfl rfl rfl fun _ => ⟨hearly, (h.early hearly).1⟩
  | checkFds ok => exact h
  | poll ok => exact calm_reap h ok
  | send t => exact h
  | kill => exact calm_receive h
  | read o =>
    unfold Sys.Calm
    simp only [effect, logRead_written]
    exact h
  | setup ok =>
    simp only [ordinary, unfailing] at hordinary
    subst hordinary
    obtain ⟨call, calls, hpc⟩ := enabled_setup hon
    change RunSystem.Calm (watcherOnSetup s.watcher true) s.binary s.sigkill s.log.written output
    simp only [watcherOnSetup, hpc]
    exact calm_setup h hpc
  | fork ok =>
    simp only [ordinary, unfailing] at hordinary
    simp only [enabled, decide_eq_true_eq] at hon
    subst hordinary
    exact calm_fork h hon
  | startWatching =>
    simp only [enabled, decide_eq_true_eq] at hon
    exact calm_startWatching h hon
  | firstWait ok =>
    simp only [ordinary, unfailing] at hordinary
    subst hordinary
    have hrunning : Fits s.sigkill s.log.written output .running := trivial
    exact calm_top h hrunning _
  | splice t =>
    simp only [ordinary, unfailing, decide_eq_true_eq] at hordinary
    exact calm_splice h _ hordinary
  | wait ok memUsed =>
    simp only [ordinary, decide_eq_true_eq] at hordinary
    obtain ⟨rfl, hmemory⟩ := hordinary
    exact calm_wait h hmemory
  | flush t =>
    simp only [ordinary, unfailing, decide_eq_true_eq] at hordinary
    exact calm_flushRead h _ hordinary
  | test errno =>
    simp only [ordinary, unfailing, decide_eq_true_eq] at hordinary
    subst hordinary
    exact calm_test h _
  | handle sig =>
    simp only [enabled, decide_eq_true_eq] at hon
    exact calm_signal h hon.2 fun husr2 => hheard (husr2 ▸ hon.2)
  | alarm => cases hordinary
  | killWatcher sig => cases hordinary
  | exec =>
    simp only [enabled, decide_eq_true_eq] at hon
    exact h.sameWatcher (fits_unstarted h.fits (by rw [hon]; rfl)) fun _ _ => rfl
  | write bytes =>
    simp only [enabled, decide_eq_true_eq] at hon
    simp only [ordinary, decide_eq_true_eq] at hordinary
    have hfits : Fits s.sigkill (s.log.written ++ bytes) output s.binary := by
      rw [hon.1]
      trivial
    exact { h with fits := hfits, part := hordinary }
  | stop sig event =>
    simp only [enabled, decide_eq_true_eq] at hon
    simp only [ordinary, decide_eq_true_eq] at hordinary
    refine h.sameWatcher hordinary fun hunstarted => ?_
    rw [hon] at hunstarted
    cases hunstarted
  | exit code =>
    simp only [ordinary, decide_eq_true_eq] at hordinary
    refine h.sameWatcher hordinary.2 fun hunstarted => ?_
    rw [hordinary.1] at hunstarted
    cases hunstarted
  | die sig =>
    simp only [ordinary, decide_eq_true_eq] at hordinary
    refine h.sameWatcher hordinary.1 fun _ halive => ?_
    rw [hordinary.1] at halive
    cases halive

theorem chunk_exact {d : Descriptor} {chunk : List UInt8} (hd : d.flags = oRdwr)
    (hcr : cr ∉ chunk) (stage : ℕ) :
    ((compareCall d chunk stage).1 = 0 → Carries d (compareCall d chunk stage).2 chunk []) ∧
      ((compareCall d chunk stage).1 ≠ 0 → compared (compareCall d chunk stage).1 = .wrong ∧
        ∀ rest, text d.remaining ≠ text (chunk ++ rest)) := by
  obtain ⟨r, d', h⟩ := compareOutput_returns d chunk stage hd
  have hcall : compareCall d chunk stage = (r, d') := by rw [compareCall, h, Option.getD_some]
  rw [compareOutput_chunk d chunk stage hd] at h
  obtain ⟨hzero, hne⟩ := rounds_exact rfl hcr h
  have hnonneg := rounds_nonneg h
  rw [hcall]
  refine ⟨hzero, fun hr => ⟨?_, hne hr⟩⟩
  rw [compared, if_neg hr, if_pos (by omega)]

theorem last_exact (d : Descriptor) :
    compared (compareCall d [] (-1)).1 = if text d.remaining = [] then .correct else .wrong := by
  obtain ⟨r, d', h, hzero, hnonneg⟩ := compareOutput_last d []
  have hcall : compareCall d [] (-1) = (r, d') := by rw [compareCall, h, Option.getD_some]
  rw [hcall]
  by_cases hr : r = 0
  · rw [compared, if_pos hr, if_pos (hzero.mp hr)]
  · rw [compared, if_neg hr, if_pos (by omega), if_neg (mt hzero.mpr hr)]

def Log.compared (log : Log) : List UInt8 := (log.passed.map Prod.fst).flatten

structure Scored (cfg : Config) (r : Runner) (bytes : List UInt8) : Prop where
  same : r.compoutDetected = false → Carries (opened cfg.reference) r.fdOutputRef bytes []
  differ : r.compoutDetected = true → r.compResult = .wrong ∧
    ∀ rest, text cfg.reference ≠ text (bytes ++ rest)
  count : r.receivedBytes = bytes.length

/-- A watcher that the runner holds for dead has reported `JS_CORRECT`. -/
def Fair (r : Runner) : Prop :=
  r.spawnSucceeded = true ∧ (r.watcherAlive = false → r.watcherResult = .correct)

structure Matched (cfg : Config) (output : List UInt8) (r : Runner) (bytes : List UInt8) :
    Prop where
  fair : Fair r
  met : r.compoutDetected = true → bytes ≠ []
  scored : behindLoop r.pc = false → Scored cfg r bytes
  result : behindLoop r.pc = true →
    r.result = some (if text cfg.reference = text output then .correct else .wrong)
  zero : ∀ site, r.pc = .returned site → site.code = 0

section

variable {r r' : Runner} {bytes rest output : List UInt8}

theorem Scored.keep (h : Scored cfg r bytes) (r' : Runner)
    (hcompout : r'.compoutDetected = r.compoutDetected) (hcomp : r'.compResult = r.compResult)
    (hfd : r'.fdOutputRef = r.fdOutputRef) (hreceived : r'.receivedBytes = r.receivedBytes) :
    Scored cfg r' bytes := by
  refine ⟨?_, ?_, hreceived.trans h.count⟩
  · rw [hcompout, hfd]
    exact h.same
  · rw [hcompout, hcomp]
    exact h.differ

theorem Scored.matched (h : Scored cfg r bytes) (hin : behindLoop r.pc = false)
    (hfair : Fair r)
    (hmet : r.compoutDetected = true → bytes ≠ []) : Matched cfg output r bytes where
  fair := hfair
  met := hmet
  scored := fun _ => h
  result := fun hbehind => absurd (hin.symm.trans hbehind) Bool.false_ne_true
  zero := fun site hpc => by
    rw [hpc] at hin
    cases hin

theorem Resumes.matched (h : Resumes cfg r r') (hscored : Scored cfg r bytes)
    (hmore : r.endoffile = false) (hfair : Fair r)
    (hmet : r.compoutDetected = true → bytes ≠ []) (hpart : bytes ++ rest = output) :
    Matched cfg output r' bytes := by
  cases h with
  | poll alive =>
    exact (hscored.keep { r with pc := .poll } rfl rfl rfl rfl).matched rfl hfair hmet
  | send unsent =>
    exact (hscored.keep { r with pc := .send } rfl rfl rfl rfl).matched rfl hfair hmet
  | read more equal =>
    exact (hscored.keep { r with pc := .read } rfl rfl rfl rfl).matched rfl hfair hmet
  | finish decided dead =>
    refine ⟨hfair, hmet, nofun, fun _ => ?_, nofun⟩
    have hcompout : r.compoutDetected = true := by
      rcases decided with hend | hcompout
      · rw [hmore] at hend
        cases hend
      · exact hcompout
    obtain ⟨hwrong, hdiffer⟩ := hscored.differ hcompout
    have hreported := hfair.2 dead
    rw [← hpart, if_neg (hdiffer rest)]
    simp only [Runner.finish, hfair.1, hreported, hwrong, if_true]

theorem Scored.compareChunk (h : Scored cfg r bytes) (hsame : r.compoutDetected = false)
    {chunk : List UInt8} (hcr : cr ∉ chunk) :
    Scored cfg (r.compareChunk chunk) (bytes ++ chunk) := by
  have hcarries := h.same hsame
  obtain ⟨hzero, hne⟩ := chunk_exact hcarries.1 hcr r.compareStage
  have hcompout : (r.compareChunk chunk).compoutDetected = decide ((r.chunkCall chunk).1 ≠ 0) := by
    simp only [Runner.compareChunk, hsame, Bool.false_or]
  refine ⟨fun hequal => ?_, fun hdiffers => ?_, ?_⟩
  · rw [hcompout, decide_eq_false_iff_not, not_not] at hequal
    exact hcarries.append (hzero hequal)
  · rw [hcompout, decide_eq_true_eq] at hdiffers
    obtain ⟨hwrong, hdiffer⟩ := hne hdiffers
    refine ⟨hwrong, fun rest heq => ?_⟩
    rw [List.append_assoc] at heq
    exact hdiffer rest ((hcarries.2 (chunk ++ rest)).mp heq)
  · rw [List.length_append, ← h.count]
    rfl

theorem matched_checkLimit (h : Scored cfg r bytes) (hmore : r.endoffile = false)
    (hfair : Fair r) (hmet : r.compoutDetected = true → bytes ≠ [])
    (hpart : bytes ++ rest = output) (hlimit : overLimit cfg r.receivedBytes = false) :
    Matched cfg output (r.checkLimit cfg) bytes := by
  rw [checkLimit_top hlimit]
  exact (top_resumes r).matched h hmore hfair hmet hpart

theorem matched_onChunk (h : Scored cfg r bytes) (hsame : r.compoutDetected = false)
    (hmore : r.endoffile = false) (hfair : Fair r)
    {chunk : List UInt8} (hcr : cr ∉ chunk) (hchunk : chunk ≠ [])
    (hpart : bytes ++ chunk ++ rest = output)
    (hlimit : overLimit cfg (r.receivedBytes + chunk.length) = false) :
    Matched cfg output (r.onChunk cfg chunk) (bytes ++ chunk) := by
  have hnext := h.compareChunk hsame hcr
  have hmet : (r.compareChunk chunk).compoutDetected = true → bytes ++ chunk ≠ [] :=
    fun _ => List.append_ne_nil_of_right_ne_nil _ hchunk
  unfold Runner.onChunk
  split_ifs
  · exact (hnext.keep { r.compareChunk chunk with pc := .killMismatch } rfl rfl rfl rfl).matched rfl
      hfair hmet
  · exact matched_checkLimit hnext hmore hfair hmet hpart hlimit

theorem matched_endCall (h : Scored cfg r output) (hsame : r.compoutDetected = false)
    (hfair : Fair r) (hdead : r.watcherAlive = false) :
    Matched cfg output r.endCall.finish output := by
  have hquestion := (h.same hsame).2 []
  have hlast : compared (compareCall r.fdOutputRef [] (-1)).1 =
      if text cfg.reference = text output then .correct else .wrong := by
    rw [List.append_nil, List.append_nil] at hquestion
    rw [last_exact]
    exact if_congr hquestion.symm rfl rfl
  refine ⟨hfair, fun hcompout => ?_, nofun, fun _ => ?_, nofun⟩
  · exact absurd (hsame.symm.trans hcompout) Bool.false_ne_true
  · rw [← hlast]
    simp only [Runner.finish, Runner.endCall, hfair.1, hfair.2 hdead, if_true]

theorem Matched.behind (h : Matched cfg output r bytes) (hbehind : behindLoop r.pc = true)
    {pc : RunnerLoop.Pc} (hpc : behindLoop pc = true)
    (hzero : ∀ site, pc = .returned site → site.code = 0) :
    Matched cfg output { r with pc := pc } bytes where
  fair := h.fair
  met := h.met
  scored := fun hin => absurd (hin.symm.trans hpc) Bool.false_ne_true
  result := fun _ => h.result hbehind
  zero := hzero

theorem matched_onFlushOut (h : Matched cfg output r bytes) {blockingCount : ℕ}
    (hpc : r.pc = .flushOut blockingCount) {o : Read} (ho : o ≠ .error) :
    Matched cfg output (r.onFlushOut blockingCount o) bytes := by
  have hbehind : behindLoop r.pc = true := by rw [hpc]; rfl
  cases o with
  | bytes n => exact h.behind hbehind rfl fun _ heq => by cases heq
  | eof => exact h.behind hbehind rfl fun _ heq => by cases heq
  | again =>
    simp only [Runner.onFlushOut]
    split_ifs <;> exact h.behind hbehind rfl fun _ heq => by cases heq
  | error => exact absurd rfl ho

theorem matched_leave (h : Matched cfg output r bytes) (hpc : r.pc = .flushIn) :
    Matched cfg output (r.leave cfg) bytes := by
  unfold Runner.leave
  split_ifs
  · refine h.behind (by rw [hpc]; rfl) rfl fun site hsite => ?_
    rw [← RunnerLoop.Pc.returned.inj hsite]
    rfl
  · exact h

theorem matched_onFlushIn (h : Matched cfg output r bytes) (hpc : r.pc = .flushIn) {t : Transfer}
    (ht : t ≠ .error) : Matched cfg output (r.onFlushIn cfg t) bytes := by
  have hresult := h.result (by rw [hpc]; rfl)
  cases t with
  | moved n =>
    have hmoved : Matched cfg output { r with flushAcc := r.flushAcc + n } bytes := by
      refine ⟨h.fair, h.met, ?_, fun _ => hresult, h.zero⟩
      rw [hpc]
      nofun
    exact matched_leave hmoved hpc
  | again => exact matched_leave h hpc
  | error => exact absurd rfl ht

end

structure Ordinary (cfg : Config) (output : List UInt8) (s : Sys) : Prop where
  trusted : Trusted cfg s
  calm : s.Calm output
  matched : Matched cfg output s.runner s.log.compared
  taken : s.log.compared <+: s.log.written

section

variable {s : Sys} {act : Act} {output : List UInt8}

theorem compared_part (htrusted : Trusted cfg s) (hcalm : s.Calm output)
    (hin : behindLoop s.runner.pc = false) :
    ∃ rest, s.log.compared ++ s.outPipe ++ rest = output := by
  obtain ⟨rest, hrest⟩ := hcalm.part
  have hbytes : s.log.compared ++ s.outPipe = s.log.written :=
    (htrusted.judged.comparing hin).bytes
  exact ⟨rest, by rw [hbytes, hrest]⟩

theorem Ordinary.resumes (h : Ordinary cfg output s) (hin : behindLoop s.runner.pc = false)
    {r' : Runner} (hresumes : Resumes cfg s.runner r') :
    Matched cfg output r' s.log.compared := by
  obtain ⟨rest, hrest⟩ := compared_part h.trusted h.calm hin
  rw [List.append_assoc] at hrest
  exact hresumes.matched (h.matched.scored hin) (h.trusted.judged.comparing hin).more h.matched.fair
    h.matched.met hrest

theorem withinLimit_mono {n m : ℕ} (h : withinLimit cfg m) (hle : n ≤ m) : withinLimit cfg n := by
  unfold withinLimit at h ⊢
  omega

/-- What the runner can read never takes the output over its limit. -/
theorem limit_kept (htrusted : Trusted cfg s) (hcalm : s.Calm output)
    (hlimit : withinLimit cfg output.length) (hin : behindLoop s.runner.pc = false)
    (hcount : s.runner.receivedBytes = s.log.compared.length) {n : ℕ}
    (hn : n ≤ s.outPipe.length) : overLimit cfg (s.runner.receivedBytes + n) = false := by
  obtain ⟨rest, hrest⟩ := compared_part htrusted hcalm hin
  apply overLimit_of_within
  apply withinLimit_mono hlimit
  rw [← hrest, hcount, List.length_append, List.length_append]
  omega

theorem sane_of_ordinary (htrusted : Trusted cfg s) (hcalm : s.Calm output)
    (hlimit : withinLimit cfg output.length)
    (hcount : behindLoop s.runner.pc = false →
      s.runner.receivedBytes = s.log.compared.length)
    (hon : enabled cfg s act = true) (hordinary : ordinary cfg output s act = true) :
    sane cfg s act = true := by
  cases act with
  | poll ok =>
    simp only [ordinary, unfailing] at hordinary
    subst hordinary
    rfl
  | read o =>
    cases o with
    | bytes n =>
      simp only [RunSystem.sane, decide_eq_true_eq]
      intro hpc
      have hin : behindLoop s.runner.pc = false := by rw [hpc]; rfl
      simp only [enabled, hpc, readable, decide_eq_true_eq] at hon
      exact limit_kept htrusted hcalm hlimit hin (hcount hin) hon.2.1
    | _ => rfl
  | _ => rfl

theorem Ordinary.heard (h : Ordinary cfg output s) (hpending : Sig.usr2 ∈ s.watcher.pending) :
    s.log.written ≠ [] := by
  intro hnil
  have htaken := h.taken
  rw [hnil, List.prefix_nil] at htaken
  exact h.matched.met (h.trusted.informed (.inl hpending)) htaken

theorem compared_append (log : Log) (chunk : List UInt8) (call : ℤ) :
    { log with passed := log.passed ++ [(chunk, call)] }.compared = log.compared ++ chunk := by
  simp [Log.compared]

theorem taken_step (htrusted : Trusted cfg s) (htaken : s.log.compared <+: s.log.written) :
    (effect cfg s act).log.compared <+: (effect cfg s act).log.written := by
  cases act with
  | read o =>
    change (logRead s.log s.runner s.outPipe o).compared <+:
      (logRead s.log s.runner s.outPipe o).written
    unfold logRead
    split
    · rename_i n hpc
      have hbytes := (htrusted.judged.comparing (by rw [hpc]; rfl)).bytes
      rw [compared_append]
      refine ⟨s.outPipe.drop n, ?_⟩
      rw [List.append_assoc, List.take_append_drop]
      exact hbytes
    · split_ifs <;> exact htaken
    · exact htaken
    · exact htaken
  | write bytes => exact htaken.trans (List.prefix_append _ _)
  | _ => exact htaken

theorem matched_poll (h : Ordinary cfg output s) (hin : behindLoop s.runner.pc = false) :
    Matched cfg output (s.runner.onPoll cfg (pollResult s true)) s.log.compared := by
  obtain ⟨rest, hrest⟩ := compared_part h.trusted h.calm hin
  rw [List.append_assoc] at hrest
  cases hpc : s.watcher.pc with
  | ended st =>
    have hzero := h.calm.ended st (.inl hpc)
    have hresult : pollResult s true = .status (.exited 0) := by
      simp only [pollResult, hpc, hzero, if_true]
    rw [hresult]
    have hscored : Scored cfg (s.runner.collect (.exited 0)) s.log.compared :=
      (h.matched.scored hin).keep _ rfl rfl rfl rfl
    exact (toSend_resumes _).matched hscored (h.trusted.judged.comparing hin).more
      ⟨h.matched.fair.1, fun _ => rfl⟩ h.matched.met hrest
  | _ =>
    have hresult : pollResult s true = .unchanged := by simp only [pollResult, hpc, if_true]
    rw [hresult]
    exact h.resumes hin (toSend_resumes s.runner)

theorem matched_send (h : Ordinary cfg output s) {t : Transfer} (ht : t ≠ .error)
    (hon : enabled cfg s (.send t) = true) :
    Matched cfg output (runnerOnSend cfg s.runner t) s.log.compared := by
  simp only [enabled, decide_eq_true_eq] at hon
  rcases hon.1 with hpc | hpc
  · have hin : behindLoop s.runner.pc = false := by rw [hpc]; rfl
    obtain ⟨rest, hrest⟩ := compared_part h.trusted h.calm hin
    rw [List.append_assoc] at hrest
    rw [runnerOnSend_loop hpc]
    cases t with
    | moved n =>
      exact (check_resumes cfg _).matched ((h.matched.scored hin).keep _ rfl rfl rfl rfl)
        (h.trusted.judged.comparing hin).more h.matched.fair h.matched.met hrest
    | again => exact h.resumes hin (check_resumes cfg s.runner)
    | error => exact absurd rfl ht
  · rw [runnerOnSend_flushIn hpc]
    exact matched_onFlushIn h.matched hpc ht

theorem matched_kill (h : Ordinary cfg output s) (hin : behindLoop s.runner.pc = false) :
    Matched cfg output (s.runner.onKill cfg) s.log.compared := by
  have hjudged := h.trusted.judged
  obtain ⟨rest, hrest⟩ := compared_part h.trusted h.calm hin
  rw [List.append_assoc] at hrest
  unfold Runner.onKill
  split
  · exact h.resumes hin (check_resumes cfg s.runner)
  · rename_i hpc
    exact matched_checkLimit (h.matched.scored hin) (hjudged.comparing hin).more h.matched.fair
      h.matched.met hrest (hjudged.limited hpc)
  · rename_i hpc
    exact absurd hpc hjudged.unlimited
  · exact h.resumes hin (top_resumes s.runner)
  · exact h.matched

/-- When the runner finds `out_pipe` empty after the death of the watcher, it has
compared the whole output: the watcher waits for the exit of the binary. -/
theorem compared_all (htrusted : Trusted cfg s) (hcalm : s.Calm output) (hfair : Fair s.runner)
    (hpc : s.runner.pc = .read) (hdead : s.runner.watcherAlive = false) (hempty : s.outPipe = []) :
    s.log.compared = output := by
  have hjudged := htrusted.judged
  have hreaped := htrusted.reported hdead hfair.1 (hfair.2 hdead)
  rcases htrusted.watched.clean (.inr hreaped) with hcompout | ⟨⟨code, hexited⟩, -⟩
  · have hdiffers := htrusted.informed (.inr hcompout)
    rw [hjudged.reading hpc] at hdiffers
    cases hdiffers
  · have hfits := hcalm.fits
    rw [hexited] at hfits
    have hbytes := (hjudged.comparing (by rw [hpc]; rfl)).bytes
    rw [hempty, List.append_nil] at hbytes
    exact hbytes.trans hfits

theorem matched_bytes (h : Ordinary cfg output s) (hcr : cr ∉ output)
    (hlimit : withinLimit cfg output.length) (hpc : s.runner.pc = .read) {n : ℕ}
    (hreadable : readable s (.bytes n) = true) :
    Matched cfg output (s.runner.onChunk cfg (s.outPipe.take n))
      (s.log.compared ++ s.outPipe.take n) := by
  have hin : behindLoop s.runner.pc = false := by rw [hpc]; rfl
  have hjudged := h.trusted.judged
  obtain ⟨rest, hrest⟩ := compared_part h.trusted h.calm hin
  simp only [readable, decide_eq_true_eq] at hreadable
  have hlength : (s.outPipe.take n).length = n := by
    rw [List.length_take, Nat.min_eq_left hreadable.2.1]
  have hpart : s.log.compared ++ s.outPipe.take n ++ (s.outPipe.drop n ++ rest) = output := by
    rw [← hrest, List.append_assoc, ← List.append_assoc (s.outPipe.take n), List.take_append_drop,
      List.append_assoc]
  refine matched_onChunk (h.matched.scored hin) (hjudged.reading hpc) (hjudged.comparing hin).more
    h.matched.fair (fun hmem => hcr ?_) (fun hnil => ?_) hpart ?_
  · rw [← hpart]
    exact List.mem_append_left _ (List.mem_append_right _ hmem)
  · rw [hnil, List.length_nil] at hlength
    omega
  · rw [hlength]
    exact limit_kept h.trusted h.calm hlimit hin (h.matched.scored hin).count hreadable.2.1

theorem matched_read (h : Ordinary cfg output s) (hcr : cr ∉ output)
    (hlimit : withinLimit cfg output.length) {o : Read} (ho : o ≠ .error)
    (hon : enabled cfg s (.read o) = true) :
    Matched cfg output (effect cfg s (.read o)).runner (effect cfg s (.read o)).log.compared := by
  change Matched cfg output (runnerOnRead cfg s.runner s.outPipe o)
    (logRead s.log s.runner s.outPipe o).compared
  simp only [enabled] at hon
  split at hon
  · rename_i hpc
    simp only [runnerOnRead, hpc]
    cases o with
    | bytes n =>
      simp only [logRead, hpc, compared_append]
      exact matched_bytes h hcr hlimit hpc hon
    | eof => cases hon
    | again =>
      simp only [readable, decide_eq_true_eq] at hon
      simp only [logRead, hpc, Runner.onRead]
      split_ifs with halive
      · exact h.resumes (by rw [hpc]; rfl) (top_resumes s.runner)
      · have hdead := Bool.eq_false_iff.mpr halive
        have hcomplete := compared_all h.trusted h.calm h.matched.fair hpc hdead hon
        have hscored := h.matched.scored (by rw [hpc]; rfl)
        rw [hcomplete] at hscored
        change Matched cfg output s.runner.endCall.finish s.log.compared
        rw [hcomplete]
        exact matched_endCall hscored (h.trusted.judged.reading hpc) h.matched.fair hdead
    | error => exact absurd rfl ho
  · rename_i blockingCount hpc
    simp only [runnerOnRead, logRead, hpc]
    exact matched_onFlushOut h.matched hpc ho
  · cases hon

theorem matched_step (h : Ordinary cfg output s) (hcr : cr ∉ output)
    (hlimit : withinLimit cfg output.length) (hon : enabled cfg s act = true)
    (hordinary : ordinary cfg output s act = true) :
    Matched cfg output (effect cfg s act).runner (effect cfg s act).log.compared := by
  cases act with
  | clone outcome =>
    simp only [enabled, decide_eq_true_eq] at hon
    simp only [ordinary, unfailing, decide_eq_true_eq] at hordinary
    subst hordinary
    have hscored := h.matched.scored (by rw [hon.1]; rfl)
    exact (hscored.keep { s.runner with pc := .checkFds } rfl rfl rfl rfl).matched rfl
      h.matched.fair h.matched.met
  | checkFds ok =>
    simp only [enabled, decide_eq_true_eq] at hon
    simp only [ordinary, unfailing] at hordinary
    subst hordinary
    have hscored := h.matched.scored (by rw [hon]; rfl)
    exact (hscored.keep { s.runner with pc := .poll } rfl rfl rfl rfl).matched rfl
      h.matched.fair h.matched.met
  | poll ok =>
    simp only [enabled, decide_eq_true_eq] at hon
    simp only [ordinary, unfailing] at hordinary
    subst hordinary
    exact matched_poll h (by rw [hon.1]; rfl)
  | send t =>
    simp only [ordinary, unfailing, decide_eq_true_eq] at hordinary
    exact matched_send h hordinary hon
  | kill => exact matched_kill h (enabled_kill hon)
  | read o =>
    simp only [ordinary, unfailing, decide_eq_true_eq] at hordinary
    exact matched_read h hcr hlimit hordinary hon
  | _ => exact h.matched

theorem ordinary_step (h : Ordinary cfg output s) (hcr : cr ∉ output)
    (hlimit : withinLimit cfg output.length) (hon : enabled cfg s act = true)
    (hordinary : ordinary cfg output s act = true) : Ordinary cfg output (effect cfg s act) where
  trusted := trusted_step h.trusted hon (sane_of_ordinary h.trusted h.calm hlimit
    (fun hin => (h.matched.scored hin).count) hon hordinary)
  calm := calm_step h.calm h.heard hon hordinary
  matched := matched_step h hcr hlimit hon hordinary
  taken := taken_step h.trusted h.taken

end

theorem ordinary_start (cfg : Config) (output : List UInt8) : Ordinary cfg output (start cfg) where
  trusted := trusted_start cfg
  calm := calm_unborn
  matched := by
    have hscored : Scored cfg (entry cfg) [] := ⟨fun _ => ⟨rfl, fun _ => Iff.rfl⟩, nofun, rfl⟩
    exact hscored.matched rfl ⟨rfl, nofun⟩ nofun
  taken := List.nil_prefix

theorem text_of_not_mem {l : List UInt8} (h : cr ∉ l) : text l = l.rdropWhile (· = lf) := by
  rw [text, withoutCr_of_not_mem h]

theorem ordinary_result {s : Sys} {site : Return} {output : List UInt8}
    (h : Ordinary cfg output s) (href : cr ∉ cfg.reference) (hout : cr ∉ output)
    (hreturned : s.runner.pc = .returned site) :
    s.Returns 0 (verdict cfg.reference output) := by
  have hresult := h.matched.result (by rw [hreturned]; rfl)
  rw [text_of_not_mem href, text_of_not_mem hout] at hresult
  exact ⟨site, hreturned, h.matched.zero site hreturned, hresult⟩

theorem ordinary_all {s : Sys} {output : List UInt8} (h : Ordinary cfg output s)
    (hcorrect : s.runner.result = some .correct) : s.log.compared = output := by
  have hsound := h.trusted.sound hcorrect
  obtain ⟨code, hexited⟩ := hsound.ended
  have hfits := h.calm.fits
  rw [hexited] at hfits
  exact hsound.all.trans hfits

theorem leave_failedRead (w : Watcher) (size : ℕ) : (w.leave size).failedRead = w.failedRead := by
  unfold Watcher.leave
  split_ifs <;> rfl

theorem setup_failedRead (w : Watcher) (ok : Bool) :
    (watcherOnSetup w ok).failedRead = w.failedRead := by
  unfold watcherOnSetup
  split
  · rename_i call calls _
    unfold Watcher.onSetup
    split
    · rfl
    · cases call <;> rfl
  · rfl

theorem wait_failedRead (w : Watcher) (b : Binary) (ok : Bool) (memUsed : ℤ) :
    (watcherOnWait cfg w b ok memUsed).failedRead = w.failedRead := by
  unfold watcherOnWait
  split
  · rfl
  · rfl
  · rename_i st
    cases st <;> rfl
  · rfl

theorem receive_failedRead (w : Watcher) (sig : Sig) :
    (w.receive sig).failedRead = w.failedRead := by
  unfold Watcher.receive
  split_ifs <;> rfl

/-- Only a handler overwrites the `errno` of a read. -/
theorem undisturbed_step {s : Sys} {act : Act} (h : s.watcher.failedRead ≠ some .esrch)
    (hundisturbed : undisturbed s act = true) :
    (effect cfg s act).watcher.failedRead ≠ some .esrch := by
  cases act with
  | clone outcome => cases outcome <;> exact h
  | poll ok =>
    change (reap s.watcher ok).failedRead ≠ _
    unfold reap
    split <;> exact h
  | kill => exact (receive_failedRead s.watcher .usr2).symm ▸ h
  | setup ok => exact (setup_failedRead s.watcher ok).symm ▸ h
  | fork ok => cases ok <;> exact h
  | firstWait ok => cases ok <;> exact h
  | splice t => cases t <;> exact h
  | wait ok memUsed => exact (wait_failedRead s.watcher s.binary ok memUsed).symm ▸ h
  | flush t =>
    cases t with
    | moved n => exact (leave_failedRead { s.watcher with flushAcc := _ } _).symm ▸ h
    | again => exact fun heq => by cases heq
    | error => exact h
  | test errno =>
    cases errno with
    | eagain =>
      change (Watcher.leave { s.watcher with failedRead := none } _).failedRead ≠ _
      rw [leave_failedRead]
      nofun
    | esrch => exact fun heq => by cases heq
  | handle sig =>
    simp only [undisturbed, decide_eq_true_eq] at hundisturbed
    change (s.watcher.onSignal sig (killable s.binary)).failedRead ≠ _
    cases killable s.binary <;> cases sig <;> simp [Watcher.onSignal, hundisturbed]
  | alarm => exact (receive_failedRead s.watcher .alrm).symm ▸ h
  | _ => exact h

theorem undisturbed_of_ordinary {s : Sys} {act : Act} {output : List UInt8}
    (hordinary : ordinary cfg output s act = true) : undisturbed s act = true := by
  cases act with
  | handle sig => exact hordinary
  | _ => rfl

theorem ordinary_of_tolerated {s : Sys} {act : Act} {output : List UInt8}
    (h : s.watcher.failedRead ≠ some .esrch) (hon : enabled cfg s act = true)
    (htolerated : tolerated cfg output s act = true) (hundisturbed : undisturbed s act = true) :
    ordinary cfg output s act = true := by
  cases act with
  | handle sig => exact hundisturbed
  | test errno =>
    simp only [enabled, decide_eq_true_eq] at hon
    cases errno with
    | eagain => rfl
    | esrch => exact absurd hon.2 h
  | _ => exact htolerated

/-- When no handler gets between a read of the flush loop and its test, every run on such a
program returns 0 with the same result, and a run that accepts has compared the whole output. -/
theorem run_verdict (cfg : Config) (output : List UInt8) (s : Sys) (site : Return)
    (href : cr ∉ cfg.reference) (hout : cr ∉ output) (hlimit : withinLimit cfg output.length)
    (hrun : Reaches (step cfg)
      (fun s act => tolerated cfg output s act = true ∧ undisturbed s act = true) (start cfg) s)
    (hreturned : s.runner.pc = .returned site) :
    s.Returns 0 (verdict cfg.reference output) ∧
      (s.runner.result = some .correct → s.log.compared = output) := by
  have h : Ordinary cfg output s ∧ s.watcher.failedRead ≠ some .esrch := by
    apply hrun.invariant (fun s => Ordinary cfg output s ∧ s.watcher.failedRead ≠ some .esrch)
    · exact ⟨ordinary_start cfg output, nofun⟩
    · intro s act s' ⟨h, hintact⟩ ⟨htolerated, hundisturbed⟩ hstep
      obtain ⟨hon, -, rfl⟩ := step_cases hstep
      have hordinary := ordinary_of_tolerated hintact hon htolerated hundisturbed
      exact ⟨ordinary_step h hout hlimit hon hordinary, undisturbed_step hintact hundisturbed⟩
  exact ⟨ordinary_result h.1 href hout hreturned, ordinary_all h.1⟩

theorem run_verdict_oneByte :
    ∃ s, Reaches (step oneByte)
      (fun s act => tolerated oneByte [97] s act = true ∧ undisturbed s act = true)
      (start oneByte) s ∧ s.Returns 0 .correct ∧ s.log.compared = [97] := by
  have hloop : ∃ s, runWhere (step oneByte)
      (fun s act => tolerated oneByte [97] s act = true ∧ undisturbed s act = true)
      (start oneByte) oneByteRun = some s ∧ s.runner.pc = .flushOut 0 ∧ s.outPipe = [] ∧
        s.groupKilled = false ∧ s.runner.sent = 1 :=
    ⟨_, rfl, rfl, rfl, rfl, rfl⟩
  obtain ⟨s, hs, hpc, hempty, hlive, hsent⟩ := hloop
  have hrun := (reaches_of_runWhere hs).trans
    (reaches_done (fun _ => ⟨rfl, rfl⟩) (fun _ => ⟨rfl, rfl⟩) hpc hempty hlive
      (by rw [hsent]; rfl))
  obtain ⟨hreturns, hall⟩ := run_verdict oneByte [97] _ .done (by decide) (by decide) (by decide)
    hrun rfl
  have hcorrect : verdict oneByte.reference [97] = .correct := by decide
  rw [hcorrect] at hreturns
  obtain ⟨_, -, -, hresult⟩ := hreturns
  exact ⟨_, hrun, ⟨.done, rfl, rfl, hresult⟩, hall hresult⟩

/-- The handler of `SIGUSR2` runs when the watcher has found `in_pipe` empty and not yet looked
at `errno`: its `kill` of the binary, waited for by then, leaves `ESRCH` there. -/
def lateKill : List Act :=
  spawn ++ [.poll true, .send (.moved 1), .read .again, .splice (.moved 1), .wait true 0,
    .write [98], .exit 0, .wait true 0, .flush .again, .poll true, .read (.bytes 1), .kill,
    .handle .usr2, .test .esrch, .poll true]

theorem reaches_lateKill :
    ∃ s, Reaches (step oneByte) (fun s act => tolerated oneByte [98] s act = true)
      (start oneByte) s ∧ s.Returns 0 .runtime := by
  have hloop : ∃ s, runWhere (step oneByte) (fun s act => tolerated oneByte [98] s act = true)
      (start oneByte) lateKill = some s ∧ s.runner.pc = .flushOut 0 ∧ s.outPipe = [] ∧
        s.groupKilled = false ∧ s.runner.sent = 1 ∧ s.runner.result = some .runtime :=
    ⟨_, rfl, rfl, rfl, rfl, rfl, rfl⟩
  obtain ⟨s, hs, hpc, hempty, hlive, hsent, hresult⟩ := hloop
  have hrun := (reaches_of_runWhere hs).trans
    (reaches_done (fun _ => rfl) (fun _ => rfl) hpc hempty hlive (by rw [hsent]; rfl))
  exact ⟨_, hrun, .done, rfl, rfl, hresult⟩

theorem run_verdict_disturbed :
    ∃ s, Reaches (step oneByte) (fun s act => tolerated oneByte [98] s act = true)
      (start oneByte) s ∧ s.Returns 0 .runtime ∧ verdict oneByte.reference [98] = .wrong := by
  obtain ⟨s, hrun, hruntime⟩ := reaches_lateKill
  exact ⟨s, hrun, hruntime, by decide⟩

end KudosJudge.RunSystem
