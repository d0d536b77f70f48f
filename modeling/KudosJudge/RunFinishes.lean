import KudosJudge.EarlyKill
import KudosJudge.RunReturns

set_option autoImplicit false

namespace KudosJudge.RunSystem
open CompareOutput Results SandboxWatcher RunnerLoop Runs

variable {cfg : Config} {output : List UInt8}

section

variable {s : Sys} {act : Act}

theorem not_absent (hrun : Reaches (step cfg) (fun s act => ordinary cfg output s act = true)
    (start cfg) s) : s.watcher.pc ≠ .absent := by
  apply hrun.invariant fun s => s.watcher.pc ≠ .absent
  · exact fun h => by cases h
  · intro s act s' h hordinary hstep
    obtain ⟨hon, -, rfl⟩ := step_cases hstep
    by_cases hclone : ∃ outcome, act = .clone outcome
    · obtain ⟨outcome, rfl⟩ := hclone
      simp only [ordinary, unfailing, decide_eq_true_eq] at hordinary
      subst hordinary
      exact fun hpc => by cases hpc
    · by_cases hpoll : ∃ ok, act = .poll ok
      · obtain ⟨ok, rfl⟩ := hpoll
        rcases reap_cases s.watcher ok with hsame | ⟨st, -, -, hreap⟩
        · simp only [effect, hsame]
          exact h
        · simp only [effect, hreap]
          exact fun hpc => by cases hpc
      · have hplace : (effect cfg s act).watcher.pc = s.watcher.pc ∨
            reachable (effect cfg s act).watcher.pc = true :=
          reachable_effect (fun outcome heq => hclone ⟨outcome, heq⟩) fun ok heq => hpoll ⟨ok, heq⟩
        rcases hplace with hsame | hreachable
        · rw [hsame]
          exact h
        · intro hpc
          rw [hpc] at hreachable
          cases hreachable

structure Going (cfg : Config) (output : List UInt8) (s : Sys) : Prop where
  run : Reaches (step cfg) (fun s act => ordinary cfg output s act = true) (start cfg) s
  coherent : Coherent cfg s
  ordinary : Ordinary cfg output s
  hygienic : s.Hygienic cfg
  intact : s.watcher.failedRead ≠ some .esrch
  live : s.groupKilled = false

theorem Going.held (h : Going cfg output s)
    (hpc : s.watcher.pc = .forked ∨ s.watcher.pc = .firstWait) :
    s.binary.ended = false ∧ s.sigkill = false := by
  have hearly := h.ordinary.calm.early (by rcases hpc with hpc | hpc <;> rw [hpc] <;> rfl)
  refine ⟨?_, hearly.2.1⟩
  cases hb : s.binary with
  | zombie st =>
    rw [hb] at hearly
    cases hearly.1
  | reaped st =>
    rw [hb] at hearly
    cases hearly.1
  | _ => rfl

/-- The watcher does not leave before the whole input is through. -/
theorem Going.free (h : Going cfg output s) : ¬ Blocked cfg s := by
  intro hblocked
  have hdeaf := hblocked.deaf
  have hover := hblocked.exceeds
  obtain ⟨hsent, -, -⟩ := h.coherent.lengths
  have hgone : gone s.watcher.pc = true → False := by
    intro hgone
    obtain ⟨hall, hempty⟩ := h.hygienic.flushed hgone
    rw [hempty, List.length_nil] at hsent
    omega
  unfold deaf at hdeaf
  split at hdeaf
  · rename_i hpc
    exact not_absent h.run hpc
  · rename_i hpc
    obtain ⟨hended, hunkilled⟩ := h.held (.inl hpc)
    rw [hended, hunkilled] at hdeaf
    cases hdeaf
  · rename_i hpc
    obtain ⟨hended, hunkilled⟩ := h.held (.inr hpc)
    rw [hended, hunkilled] at hdeaf
    cases hdeaf
  · exact h.intact (of_decide_eq_true hdeaf)
  · rename_i st hpc
    exact hgone (by rw [hpc]; rfl)
  · rename_i st hpc
    exact hgone (by rw [hpc]; rfl)
  · cases hdeaf

theorem Going.ordinary_routine (h : Going cfg output s) (hon : enabled cfg s act = true)
    (hroutine : routine s act = true) : RunSystem.ordinary cfg output s act = true := by
  cases act with
  | poll ok =>
    have habsent := not_absent h.run
    have hok : ok = true := by simpa [routine, faultless, habsent] using hroutine
    exact hok
  | firstWait ok =>
    simp only [enabled, decide_eq_true_eq] at hon
    obtain ⟨hended, hunkilled⟩ := h.held (.inr hon.1)
    have hok : ok = true := by simpa [routine, faultless, hended, hunkilled] using hroutine
    exact hok
  | wait ok memUsed =>
    simp only [routine, Bool.decide_and, Bool.decide_eq_true, Bool.and_eq_true,
      decide_eq_true_eq] at hroutine
    obtain ⟨rfl, rfl⟩ := hroutine
    have hfits : Watcher.overMemory cfg.memLimitMb sigtrap ptraceEventExit 0 = false := by
      simp [Watcher.overMemory, sigtrap, sigsegv]
    simp [RunSystem.ordinary, hfits]
  | test errno =>
    simp only [enabled, decide_eq_true_eq] at hon
    cases errno with
    | eagain => rfl
    | esrch => exact absurd hon.2 h.intact
  | handle sig => cases hroutine
  | alarm => cases hroutine
  | write bytes => cases hroutine
  | stop sig event => cases hroutine
  | exit code => cases hroutine
  | die sig => cases hroutine
  | _ => exact hroutine

theorem Going.handled (h : Going cfg output s) {sig : Sig} (hpending : sig ∈ s.watcher.pending) :
    sig = .usr2 ∧ s.binary ≠ .unforked := by
  cases sig with
  | alrm => exact absurd hpending h.ordinary.calm.quiet
  | usr2 =>
    refine ⟨rfl, fun hb => h.ordinary.heard hpending ?_⟩
    exact fits_unstarted h.ordinary.calm.fits (by rw [hb]; rfl)

theorem going_start (cfg : Config) (output : List UInt8) : Going cfg output (start cfg) where
  run := .refl
  coherent := coherent_start cfg
  ordinary := ordinary_start cfg output
  hygienic := hygienic_start cfg
  intact := by simp [start, unborn]
  live := rfl

theorem going_step (h : Going cfg output s) (hcr : cr ∉ output)
    (hlimit : withinLimit cfg output.length) (hon : enabled cfg s act = true)
    (hordinary : RunSystem.ordinary cfg output s act = true) :
    Going cfg output (effect cfg s act) := by
  have hstep : step cfg s act = some (effect cfg s act) := by
    rw [step, hon, h.live]
    rfl
  have hrun : Reaches (step cfg) (fun s act => RunSystem.ordinary cfg output s act = true)
      (start cfg) (effect cfg s act) := h.run.tail ⟨act, hordinary, hstep⟩
  refine ⟨hrun, coherent_step h.coherent hon, ordinary_step h.ordinary hcr hlimit hon hordinary,
    hygienic_run (hrun.weaken fun _ _ => unfailing_of_ordinary),
    undisturbed_step h.intact (undisturbed_of_ordinary hordinary), ?_⟩
  cases act with
  | handle sig =>
    simp only [enabled, decide_eq_true_eq] at hon
    exact decide_eq_false (h.handled hon.2).2
  | _ => exact h.live

theorem going_run (hcr : cr ∉ output) (hlimit : withinLimit cfg output.length)
    (hrun : Reaches (step cfg) (fun s act => ordinary cfg output s act = true) (start cfg) s) :
    Going cfg output s := by
  apply hrun.invariant (Going cfg output) (going_start cfg output)
  intro s act s' h hordinary hstep
  obtain ⟨hon, -, rfl⟩ := step_cases hstep
  exact going_step h hcr hlimit hon hordinary

def killLeft : Bool → ℕ
  | true => 0
  | false => 10

/-- The distance, with the output that is still to be written and the kill that is still to
come. -/
def wayLeft (cfg : Config) (output : List UInt8) (s : Sys) : ℕ :=
  distance cfg s + 40000 * (output.length - s.log.written.length) + killLeft s.sigkill

def Approaches (cfg : Config) (output : List UInt8) (s : Sys) : Prop :=
  ∃ act, ordinary cfg output s act = true ∧ enabled cfg s act = true ∧
    wayLeft cfg output (effect cfg s act) < wayLeft cfg output s

theorem written_routine (hroutine : routine s act = true) :
    (effect cfg s act).log.written = s.log.written := by
  cases act with
  | read o => exact logRead_written ..
  | write bytes => cases hroutine
  | _ => rfl

theorem Nears.approaches (hnears : Nears cfg s) (h : Going cfg output s) :
    Approaches cfg output s := by
  obtain ⟨act, hroutine, hon, hless⟩ := hnears
  refine ⟨act, h.ordinary_routine hon hroutine, hon, ?_⟩
  have hkill : killLeft (effect cfg s act).sigkill ≤ killLeft s.sigkill := by
    cases hkilled : s.sigkill with
    | true => rw [sigkill_effect hkilled]
    | false => cases (effect cfg s act).sigkill <;> decide
  rw [wayLeft, wayLeft, written_routine hroutine]
  omega

theorem approaches_end {status : WaitStatus} (hwaits : s.watcher.pc = .wait)
    (hrunning : s.binary = .running) (hordinary : ordinary cfg output s act = true)
    (hon : enabled cfg s act = true)
    (heffect : effect cfg s act = { s with binary := .zombie status }) :
    Approaches cfg output s := by
  refine ⟨act, hordinary, hon, ?_⟩
  have hnew : watcherRank .wait (.zombie status) = 4 := rfl
  have hold : watcherRank .wait .running = 6 := rfl
  rw [heffect, wayLeft, wayLeft, distance, distance, hwaits, hrunning, hnew, hold]
  dsimp only
  omega

theorem approaches_handle (h : Going cfg output s) (hwaits : s.watcher.pc = .wait)
    (hrunning : s.binary = .running)
    (hunkilled : s.sigkill = false) (hpending : Sig.usr2 ∈ s.watcher.pending) :
    Approaches cfg output s := by
  have halive : s.watcher.alive = true := by rw [Watcher.alive, hwaits]
  have hon : enabled cfg s (.handle .usr2) = true := by simp [enabled, halive, hpending]
  have htested := h.coherent.testing.tested (by simp [hwaits]) (by rw [hwaits]; rfl)
  refine ⟨.handle .usr2, decide_eq_true htested, hon, ?_⟩
  have hkilled : (effect cfg s (.handle .usr2)).sigkill = true := by
    simp [effect, hrunning, killable]
  have hdistance : distance cfg (effect cfg s (.handle .usr2)) = distance cfg s := by
    have htest : testRank cfg (s.watcher.onSignal .usr2 (killable s.binary)) =
        testRank cfg s.watcher := by
      simp only [testRank, onSignal_pc, hwaits]
    simp only [distance, effect, onSignal_pc, htest]
  have hwritten : (effect cfg s (.handle .usr2)).log.written = s.log.written := rfl
  rw [wayLeft, wayLeft, hkilled, hunkilled, hdistance, hwritten]
  exact Nat.add_lt_add_left (by decide) _

theorem hungry_le (r : Runner) (hin : behindLoop r.pc = false) (outPipe outPipe' : List UInt8) :
    work r outPipe' ≤ work r outPipe + 5 := by
  have hrank := rank_le hin
  rw [work_loop hin, work_loop hin]
  split_ifs <;> omega

theorem approaches_write (h : Going cfg output s) (hin : behindLoop s.runner.pc = false)
    (hrunning : s.binary = .running)
    (hmore : s.log.written ≠ output) (hroom : s.outPipe.length < cfg.outCapacity) :
    Approaches cfg output s := by
  obtain ⟨rest, hrest⟩ := h.ordinary.calm.part
  cases rest with
  | nil => exact absurd (by rw [← hrest, List.append_nil]) hmore
  | cons b rest =>
    have hordinary : ordinary cfg output s (.write [b]) = true := by
      simp only [ordinary, decide_eq_true_eq]
      exact ⟨rest, by rw [← hrest, List.append_assoc]; rfl⟩
    have hon : enabled cfg s (.write [b]) = true := by
      simp only [enabled, decide_eq_true_eq]
      exact ⟨hrunning, by simp, hroom⟩
    refine ⟨.write [b], hordinary, hon, ?_⟩
    have hwork := hungry_le s.runner hin s.outPipe (s.outPipe ++ [b])
    have hlength := congrArg List.length hrest
    rw [List.length_append, List.length_cons] at hlength
    have hdistance : distance cfg (effect cfg s (.write [b])) ≤ distance cfg s + 20005 := by
      simp only [distance, effect, List.length_append, List.length_singleton]
      omega
    have hwritten : (effect cfg s (.write [b])).log.written.length = s.log.written.length + 1 := by
      simp only [effect, List.length_append, List.length_singleton]
    have hkill : killLeft (effect cfg s (.write [b])).sigkill = killLeft s.sigkill := rfl
    rw [wayLeft, wayLeft, hwritten, hkill]
    omega

theorem Going.inLoop (h : Going cfg output s) (hwaits : s.watcher.pc = .wait) :
    behindLoop s.runner.pc = false := by
  cases hbehind : behindLoop s.runner.pc with
  | false => rfl
  | true =>
    obtain ⟨st, hst⟩ := h.hygienic.collected (h.hygienic.behind hbehind)
    rw [hwaits] at hst
    cases hst

/-- Behind a difference no binary is left alone with a full pipe. -/
theorem Going.answered (h : Going cfg output s) (hcr : cr ∉ output)
    (hlimit : withinLimit cfg output.length)
    (hsafe : cfg.killOnCompout = true ∨ RestFits cfg output) (hwaits : s.watcher.pc = .wait)
    (hdetected : s.runner.compoutDetected = true) : ¬ Stuck cfg output s := by
  have hscored := h.ordinary.matched.scored (h.inLoop hwaits)
  have hfront : s.log.compared <+: output := h.ordinary.taken.trans h.ordinary.calm.part
  have hdiff : DiffersAtByte cfg output :=
    differsAtByte_of_text hcr hfront (hscored.differ hdetected).2
  exact (refused_run hdiff hlimit hsafe (selfExiting_run h.run)).2.1

theorem approaches_full (h : Going cfg output s) (hcr : cr ∉ output)
    (hlimit : withinLimit cfg output.length)
    (hsafe : cfg.killOnCompout = true ∨ RestFits cfg output) (hroom : 0 < cfg.outCapacity)
    (hwaits : s.watcher.pc = .wait) (hrunning : s.binary = .running)
    (hmore : s.log.written ≠ output) (hunkilled : s.sigkill = false)
    (hunheard : Sig.usr2 ∉ s.watcher.pending) (hfull : cfg.outCapacity ≤ s.outPipe.length) :
    Approaches cfg output s := by
  have hin := h.inLoop hwaits
  cases hdetected : s.runner.compoutDetected with
  | true =>
    have hnot := h.answered hcr hlimit hsafe hwaits hdetected
    have hkill : s.runner.pc = .killMismatch := by
      by_contra hunsent
      have halive : s.watcher.alive = true := by rw [Watcher.alive, hwaits]
      exact hnot ⟨hrunning, hmore, hfull, hdetected, halive, hunkilled, hunheard, hunsent⟩
    have hnears : Nears cfg s := nears_kill (by rw [hkill]; rfl)
    exact hnears.approaches h
  | false =>
    have hmoreFile := (h.ordinary.trusted.judged.comparing hin).more
    have hne : s.outPipe ≠ [] := List.length_pos_iff.mp (hroom.trans_le hfull)
    have hhungry : hungry s.runner s.outPipe = true := by
      simp [hungry, hdetected, hmoreFile, hne]
    have hover : ∀ site, s.runner.pc ≠ .returned site := by
      intro site hpc
      rw [hpc] at hin
      cases hin
    have hnears : Nears cfg s := nears_runner h.coherent hover (by simp [hwaits])
      (.inr (.inr (.inl hhungry))) (.inr (.inl ⟨hin, hhungry⟩))
    exact hnears.approaches h

theorem approaches (h : Going cfg output s) (hcr : cr ∉ output)
    (hlimit : withinLimit cfg output.length)
    (hsafe : cfg.killOnCompout = true ∨ RestFits cfg output) (hcapacity : 0 < cfg.inCapacity)
    (hroom : 0 < cfg.outCapacity) (hover : ¬ s.Over) : Approaches cfg output s := by
  by_cases hwaits : s.watcher.pc = .wait ∧ s.binary = .running
  · obtain ⟨hwaits, hrunning⟩ := hwaits
    have hin := h.inLoop hwaits
    cases hkilled : s.sigkill with
    | true =>
      have hordinary : ordinary cfg output s (.die 9) = true := by
        simp [ordinary, hkilled, SandboxWatcher.sigkill]
      exact approaches_end hwaits hrunning hordinary (by simp [enabled, hrunning, Binary.ended]) rfl
    | false =>
      by_cases hpending : Sig.usr2 ∈ s.watcher.pending
      · exact approaches_handle h hwaits hrunning hkilled hpending
      by_cases hall : s.log.written = output
      · have hordinary : ordinary cfg output s (.exit 0) = true := by
          simp [ordinary, hrunning, hall]
        exact approaches_end hwaits hrunning hordinary (by simp [enabled, hrunning]) rfl
      by_cases hspace : s.outPipe.length < cfg.outCapacity
      · exact approaches_write h hin hrunning hall hspace
      · exact approaches_full h hcr hlimit hsafe hroom hwaits hrunning hall hkilled hpending
          (Nat.not_lt.mp hspace)
  · have hrunning : s.watcher.pc = .wait → s.binary ≠ .running :=
      fun hpc hbinary => hwaits ⟨hpc, hbinary⟩
    exact (nears h.coherent hcapacity hover h.free hrunning).approaches h

/-- The runner can still return, and the program has done nothing else than an ordinary program
does. -/
def CanFinish (cfg : Config) (output : List UInt8) (s : Sys) : Prop :=
  ∃ t, Reaches (step cfg) (fun s act => ordinary cfg output s act = true) s t ∧ t.Over

theorem reaches_finish (hcr : cr ∉ output) (hlimit : withinLimit cfg output.length)
    (hsafe : cfg.killOnCompout = true ∨ RestFits cfg output) (hcapacity : 0 < cfg.inCapacity)
    (hroom : 0 < cfg.outCapacity)
    (hrun : Reaches (step cfg) (fun s act => ordinary cfg output s act = true) (start cfg) s) :
    CanFinish cfg output s := by
  have hstep : ∀ s, Going cfg output s → ¬ s.Over →
      ∃ s', Reaches (step cfg) (fun s act => ordinary cfg output s act = true) s s' ∧
        Going cfg output s' ∧ wayLeft cfg output s' < wayLeft cfg output s := by
    intro s h hover
    obtain ⟨act, hordinary, hon, hless⟩ := approaches h hcr hlimit hsafe hcapacity hroom hover
    refine ⟨effect cfg s act, .single ⟨act, hordinary, ?_⟩,
      going_step h hcr hlimit hon hordinary, hless⟩
    rw [step, hon, h.live]
    rfl
  obtain ⟨t, hrest, -, hover⟩ :=
    reaches_final (wayLeft cfg output) hstep (going_run hcr hlimit hrun)
  exact ⟨t, hrest, hover⟩

def inTrace : SandboxWatcher.Pc → Bool
  | .splice => true
  | .wait => true
  | _ => false

theorem Resumes.rounds {r r' : Runner} (h : Resumes cfg r r') (halive : r.watcherAlive = true)
    (hunread : r.compoutDetected = true) :
    behindLoop r'.pc = false ∧ killing r'.pc = false ∧ r'.pc ≠ .read := by
  cases h with
  | poll alive => exact ⟨rfl, rfl, by simp⟩
  | send unsent => exact ⟨rfl, rfl, by simp⟩
  | read more equal =>
    rw [hunread] at equal
    cases equal
  | finish decided dead =>
    rw [halive] at dead
    cases dead

theorem Going.traced (h : Going cfg output s) (halive : s.watcher.alive = true)
    (hrunning : s.binary = .running) : inTrace s.watcher.pc = true := by
  cases hpc : s.watcher.pc with
  | splice => rfl
  | wait => rfl
  | setup calls =>
    have hearly := (h.ordinary.trusted.watched.early (by rw [hpc]; rfl)).1
    rw [hrunning] at hearly
    cases hearly
  | forked =>
    have hearly := (h.ordinary.calm.early (by rw [hpc]; rfl)).1
    rw [hrunning] at hearly
    cases hearly
  | firstWait =>
    have hearly := (h.ordinary.calm.early (by rw [hpc]; rfl)).1
    rw [hrunning] at hearly
    cases hearly
  | flush =>
    obtain ⟨st, hst⟩ := h.hygienic.waited (by rw [hpc]; rfl)
    rw [hrunning] at hst
    cases hst
  | _ =>
    rw [Watcher.alive, hpc] at halive
    cases halive

end

end KudosJudge.RunSystem
