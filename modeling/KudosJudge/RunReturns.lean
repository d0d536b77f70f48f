import KudosJudge.RunDistance

set_option autoImplicit false

namespace KudosJudge.RunSystem
open CompareOutput Results SandboxWatcher RunnerLoop Runs

variable {cfg : Config}

/-- The watcher takes no more input: there is none, or it finds the binary killed or dead
before it has let it go, or `errno` overwritten in its flush loop. -/
def deaf (s : Sys) : Bool :=
  match s.watcher.pc with
  | .absent => true
  | .forked => s.binary.ended || s.sigkill
  | .firstWait => s.binary.ended || s.sigkill
  | .flush => s.watcher.failedRead = some .esrch
  | .ended _ => true
  | .reaped _ => true
  | _ => false

/-- What the watcher has not taken of the input does not fit into `in_pipe`. -/
structure Blocked (cfg : Config) (s : Sys) : Prop where
  deaf : deaf s = true
  exceeds : cfg.inCapacity + s.log.consumed.length < cfg.input.length

def Sys.Over (s : Sys) : Prop := ∃ site, s.runner.pc = .returned site

section

variable {s : Sys} {act : Act}

theorem Coherent.lengths (h : Coherent cfg s) :
    s.log.consumed.length + s.inPipe.length = s.runner.sent ∧
      s.runner.sent ≤ cfg.input.length ∧
      s.log.consumed.length = s.watcher.spliceSizeAcc + s.watcher.flushAcc := by
  have hbytes := congrArg List.length h.conserved.bytes
  have hle := h.conserved.sent_le
  rw [List.length_append, List.length_take, Nat.min_eq_left hle] at hbytes
  refine ⟨hbytes, hle, ?_⟩
  rw [h.conserved.forwarded, h.conserved.discarded, Log.consumed, List.length_append]

theorem Coherent.room (h : Coherent cfg s) (hfree : ¬ Blocked cfg s) (hdeaf : deaf s = true) :
    s.inPipe.length < cfg.inCapacity ∨ cfg.input.length ≤ s.runner.sent := by
  obtain ⟨hsent, -, -⟩ := h.lengths
  have hfits : ¬ cfg.inCapacity + s.log.consumed.length < cfg.input.length :=
    fun hover => hfree ⟨hdeaf, hover⟩
  omega

theorem nears (h : Coherent cfg s) (hcapacity : 0 < cfg.inCapacity) (hover : ¬ s.Over)
    (hfree : ¬ Blocked cfg s) (hrunning : s.watcher.pc = .wait → s.binary ≠ .running) :
    Nears cfg s := by
  have hreturned : ∀ site, s.runner.pc ≠ .returned site := fun site hpc => hover ⟨site, hpc⟩
  have hgone : deaf s = true → s.watcher.pc ≠ .unborn →
      ((∃ st, s.watcher.pc = .ended st) ∨ s.watcher.pc = .absent ∨
        s.runner.watcherAlive = false) → Nears cfg s := by
    intro hdeaf hborn hpoll
    refine nears_runner h hreturned hborn ?_ ?_
    · rcases hpoll with hended | habsent | hdead
      · exact .inl hended
      · exact .inr (.inl habsent)
      · exact .inr (.inr (.inr (.inr hdead)))
    · rcases h.room hfree hdeaf with hroom | hall
      · exact .inl hroom
      · exact .inr (.inr hall)
  cases hpc : s.watcher.pc with
  | unborn => exact nears_clone h hpc
  | absent => exact hgone (by rw [deaf, hpc]) (by simp [hpc]) (.inr (.inl hpc))
  | setup calls =>
    cases calls with
    | nil =>
      have hon : enabled cfg s (.fork true) = true := by simp [enabled, hpc]
      refine nears_of_rank rfl hon rfl le_rfl rfl ?_
      change watcherRank .forked .starting < watcherRank s.watcher.pc s.binary
      rw [hpc]
      simp [watcherRank]
    | cons call calls =>
      have hon : enabled cfg s (.setup true) = true := by simp [enabled, hpc]
      refine nears_of_rank rfl hon rfl le_rfl rfl ?_
      have hafter : (effect cfg s (.setup true)).watcher.pc = .setup calls := by
        simp only [effect, watcherOnSetup, hpc, Watcher.onSetup]
      rw [hafter, hpc]
      simp [watcherRank]
  | forked =>
    have hon : enabled cfg s .startWatching = true := by simp [enabled, hpc]
    refine nears_of_rank rfl hon rfl le_rfl rfl ?_
    change watcherRank .firstWait s.binary < watcherRank s.watcher.pc s.binary
    rw [hpc]
    cases s.binary <;> simp [watcherRank]
  | firstWait => exact nears_firstWait h hpc
  | splice => exact nears_splice h hpc
  | wait => exact nears_wait h hpc (hrunning hpc)
  | flush =>
    cases hpending : s.watcher.failedRead with
    | some errno => exact nears_test hpc hpending
    | none =>
      by_cases hempty : s.inPipe = []
      · obtain ⟨hsent, -, hcounters⟩ := h.lengths
        by_cases hall : cfg.input.length ≤ s.watcher.spliceSizeAcc + s.watcher.flushAcc
        · exact nears_flushed hpc hpending hall
        · rw [hempty, List.length_nil] at hsent
          refine nears_runner h hreturned (by simp [hpc]) ?_ (.inl ?_)
          · exact .inr (.inr (.inr (.inl (by omega))))
          · rw [hempty]
            exact hcapacity
      · exact nears_flush hpc hpending hempty
  | ended st => exact hgone (by rw [deaf, hpc]) (by simp [hpc]) (.inl ⟨st, hpc⟩)
  | reaped st =>
    exact hgone (by rw [deaf, hpc]) (by simp [hpc]) (.inr (.inr (h.seen st hpc)))

theorem top_hears (w : Watcher) (size : ℕ) :
    (w.top size).pc = .splice ∨ (w.top size).pc = .wait := by
  unfold Watcher.top
  split_ifs
  · exact .inl rfl
  · exact .inr rfl

theorem deaf_of_pc {pc : SandboxWatcher.Pc} (hpc : s.watcher.pc = pc)
    (hplace : pc = .splice ∨ pc = .wait ∨ ∃ calls, pc = .setup calls) : deaf s = false := by
  subst hpc
  rcases hplace with hpc | hpc | ⟨calls, hpc⟩ <;> rw [deaf, hpc]

theorem deaf_of_flush (hpc : s.watcher.pc = .flush)
    (hintact : s.watcher.failedRead ≠ some .esrch) : deaf s = false := by
  rw [deaf, hpc]
  exact decide_eq_false hintact

theorem free_routine (h : Coherent cfg s) (hfree : ¬ Blocked cfg s) (hon : enabled cfg s act = true)
    (hroutine : routine s act = true) : ¬ Blocked cfg (effect cfg s act) := by
  have hhears : ∀ {pc}, (effect cfg s act).watcher.pc = pc →
      (pc = .splice ∨ pc = .wait ∨ ∃ calls, pc = .setup calls) →
        ¬ Blocked cfg (effect cfg s act) := by
    intro pc hpc hplace hblocked
    have hdeaf := hblocked.deaf
    rw [deaf_of_pc hpc hplace] at hdeaf
    cases hdeaf
  have hflushes : (effect cfg s act).watcher.pc = .flush →
      (effect cfg s act).watcher.failedRead ≠ some .esrch → ¬ Blocked cfg (effect cfg s act) := by
    intro hpc hintact hblocked
    have hdeaf := hblocked.deaf
    rw [deaf_of_flush hpc hintact] at hdeaf
    cases hdeaf
  have hafter : Coherent cfg (effect cfg s act) := coherent_step h hon
  have hleaves : ∀ {w : Watcher}, (effect cfg s act).watcher = w.leave cfg.input.length →
      w.pc = .flush → w.failedRead ≠ some .esrch → ¬ Blocked cfg (effect cfg s act) := by
    intro w hwatcher hpc hintact
    rcases onFlush_pc hpc cfg.input.length .again with hplace | ⟨st, hplace⟩
    · refine hflushes ((congrArg Watcher.pc hwatcher).trans hplace) ?_
      rw [hwatcher, leave_failedRead]
      exact hintact
    · intro hblocked
      have hover := hblocked.exceeds
      obtain ⟨-, -, hcounters⟩ := hafter.lengths
      have hgone : gone (w.leave cfg.input.length).pc = true := by
        change gone (w.onFlush cfg.input.length .again).pc = true
        rw [hplace]
        rfl
      have hall := leave_gone hpc hgone
      rw [hwatcher] at hcounters
      omega
  cases act with
  | clone outcome =>
    simp only [routine, faultless, unfailing, decide_eq_true_eq] at hroutine
    subst hroutine
    exact hhears rfl (.inr (.inr ⟨_, rfl⟩))
  | checkFds ok => exact fun hblocked => hfree ⟨hblocked.deaf, hblocked.exceeds⟩
  | send t => exact fun hblocked => hfree ⟨hblocked.deaf, hblocked.exceeds⟩
  | poll ok =>
    refine fun hblocked => hfree ⟨?_, hblocked.exceeds⟩
    rcases reap_cases s.watcher ok with hsame | ⟨st, -, hst, -⟩
    · have hdeaf := hblocked.deaf
      simp only [deaf, effect, hsame] at hdeaf
      exact hdeaf
    · rw [deaf, hst]
  | kill =>
    refine fun hblocked => hfree ⟨?_, hblocked.exceeds⟩
    have hdeaf := hblocked.deaf
    simp only [deaf, effect, receive_pc, receive_failedRead] at hdeaf
    exact hdeaf
  | read o =>
    refine fun hblocked => hfree ⟨hblocked.deaf, ?_⟩
    obtain ⟨hforwarded, hdiscarded⟩ := logRead_input s.log s.runner s.outPipe o
    have hover := hblocked.exceeds
    simp only [effect, Log.consumed, hforwarded, hdiscarded] at hover
    exact hover
  | setup ok =>
    simp only [routine, faultless, unfailing] at hroutine
    subst hroutine
    obtain ⟨call, calls, hpc⟩ := enabled_setup hon
    have hsetup : (effect cfg s (.setup true)).watcher.pc = .setup calls := by
      simp only [effect, watcherOnSetup, hpc, Watcher.onSetup]
    exact hhears hsetup (.inr (.inr ⟨_, rfl⟩))
  | fork ok =>
    simp only [routine, faultless, unfailing] at hroutine
    subst hroutine
    simp only [enabled, decide_eq_true_eq] at hon
    obtain ⟨-, hunkilled⟩ := h.watched.early (by rw [hon]; rfl)
    intro hblocked
    have hdeaf := hblocked.deaf
    change (Binary.ended .starting || s.sigkill) = true at hdeaf
    rw [hunkilled] at hdeaf
    cases hdeaf
  | startWatching =>
    simp only [enabled, decide_eq_true_eq] at hon
    refine fun hblocked => hfree ⟨?_, hblocked.exceeds⟩
    have hdeaf : (s.binary.ended || s.sigkill) = true := hblocked.deaf
    rw [deaf, hon]
    exact hdeaf
  | firstWait ok =>
    simp only [enabled, decide_eq_true_eq] at hon
    cases ok with
    | true =>
      rcases top_hears s.watcher cfg.input.length with hplace | hplace
      · exact hhears hplace (.inl rfl)
      · exact hhears hplace (.inr (.inl rfl))
    | false =>
      refine fun hblocked => hfree ⟨?_, hblocked.exceeds⟩
      rw [deaf, hon.1]
      simpa [routine, faultless] using hroutine
  | splice t =>
    simp only [routine, faultless, unfailing, decide_eq_true_eq] at hroutine
    cases t with
    | error => exact absurd rfl hroutine
    | _ => exact hhears rfl (.inr (.inl rfl))
  | wait ok memUsed =>
    simp only [routine, Bool.decide_and, Bool.decide_eq_true, Bool.and_eq_true] at hroutine
    obtain ⟨rfl, -⟩ := hroutine
    have hplaces : (effect cfg s (.wait true memUsed)).watcher.pc = .splice ∨
        (effect cfg s (.wait true memUsed)).watcher.pc = .wait ∨
        (effect cfg s (.wait true memUsed)).watcher.pc = .flush := by
      simp only [effect, watcherOnWait]
      split
      · cases ‹true = false›
      · exact (top_hears _ _).imp_right .inl
      · rename_i st _ _
        cases st with
        | stopped sig event => exact (top_hears _ _).imp_right .inl
        | _ => exact .inr (.inr rfl)
      · exact (top_hears _ _).imp_right .inl
    rcases hplaces with hplace | hplace | hplace
    · exact hhears hplace (.inl rfl)
    · exact hhears hplace (.inr (.inl rfl))
    · refine hflushes hplace fun hpending => ?_
      simp only [enabled, decide_eq_true_eq] at hon
      have htested := h.testing.tested (by simp [hon]) (by rw [hon]; rfl)
      rw [show (effect cfg s (.wait true memUsed)).watcher.failedRead = s.watcher.failedRead from
        wait_failedRead .., htested] at hpending
      cases hpending
  | flush t =>
    simp only [enabled, decide_eq_true_eq] at hon
    simp only [routine, faultless, unfailing, decide_eq_true_eq] at hroutine
    cases t with
    | again => exact hflushes hon.1 fun hpending => by cases hpending
    | error => exact absurd rfl hroutine
    | moved n =>
      have hmoved : { s.watcher with flushAcc := s.watcher.flushAcc + n }.pc = .flush := hon.1
      refine hleaves rfl hmoved ?_
      exact fun hpending => by rw [show _ = none from hon.2.1] at hpending; cases hpending
  | test errno =>
    simp only [enabled, decide_eq_true_eq] at hon
    cases errno with
    | eagain =>
      have htested : { s.watcher with failedRead := none }.pc = .flush := hon.1
      exact hleaves rfl htested (by simp)
    | esrch =>
      refine fun hblocked => hfree ⟨?_, hblocked.exceeds⟩
      rw [deaf, hon.1]
      exact decide_eq_true hon.2
  | exec =>
    simp only [enabled, decide_eq_true_eq] at hon
    refine fun hblocked => hfree ⟨?_, hblocked.exceeds⟩
    have hdeaf := hblocked.deaf
    simp only [deaf, effect] at hdeaf
    rw [deaf, hon]
    exact hdeaf
  | _ => cases hroutine

theorem over_done (hover : ¬ s.Over) (hfaultless : faultless s act = true)
    {site : Return} (hreturned : (effect cfg s act).runner.pc = .returned site) :
    site = .done := by
  have hno : ∀ {r : Runner}, Within r → r.pc = .returned site → site = .done :=
    fun hwithin hpc => absurd hpc (hwithin.placed.2.2 site)
  have hsame : s.runner.pc = .returned site → site = .done := fun hpc => absurd ⟨site, hpc⟩ hover
  have hleave : ∀ {r : Runner}, (r.pc = .returned site → site = .done) →
      (r.leave cfg).pc = .returned site → site = .done := by
    intro r hr hpc
    unfold Runner.leave at hpc
    split_ifs at hpc
    · exact (RunnerLoop.Pc.returned.inj hpc).symm
    · exact hr hpc
  cases act with
  | clone outcome =>
    simp only [faultless, unfailing, decide_eq_true_eq] at hfaultless
    subst hfaultless
    cases hreturned
  | checkFds ok =>
    simp only [faultless, unfailing] at hfaultless
    subst hfaultless
    cases hreturned
  | poll ok => exact hno (onPoll_within ..) hreturned
  | send t =>
    simp only [faultless, unfailing, decide_eq_true_eq] at hfaultless
    change (runnerOnSend cfg s.runner t).pc = .returned site at hreturned
    unfold runnerOnSend at hreturned
    split_ifs at hreturned
    · exact hno (onSend_within ..) hreturned
    · cases t with
      | moved n =>
        have hmoved : { s.runner with flushAcc := s.runner.flushAcc + n }.pc = .returned site →
            site = .done := hsame
        exact hleave hmoved hreturned
      | again => exact hleave hsame hreturned
      | error => exact absurd rfl hfaultless
  | kill =>
    by_cases hin : behindLoop s.runner.pc = false
    · exact hno (onKill_within hin) hreturned
    · have hstay : s.runner.onKill cfg = s.runner := by
        unfold Runner.onKill
        split
        all_goals first
          | rfl
          | (rename_i hpc; rw [hpc] at hin; exact absurd rfl hin)
      simp only [effect, hstay] at hreturned
      exact hsame hreturned
  | read o =>
    simp only [faultless, unfailing, decide_eq_true_eq] at hfaultless
    change (runnerOnRead cfg s.runner s.outPipe o).pc = .returned site at hreturned
    unfold runnerOnRead at hreturned
    split at hreturned
    · cases o with
      | bytes n => cases hreturned
      | eof => cases hreturned
      | again =>
        simp only [Runner.onFlushOut] at hreturned
        split_ifs at hreturned
      | error => exact absurd rfl hfaultless
    · exact hno (onRead_within ..) hreturned
  | _ => exact hsame hreturned

theorem deaf_mono (hdeaf : deaf s = true) {s' : Sys} (hpc : s'.watcher.pc = s.watcher.pc)
    (hread : s.watcher.failedRead = some .esrch → s'.watcher.failedRead = some .esrch)
    (hmore : (s.binary.ended || s.sigkill) = true → (s'.binary.ended || s'.sigkill) = true) :
    deaf s' = true := by
  unfold deaf at hdeaf ⊢
  rw [hpc]
  cases hplace : s.watcher.pc with
  | forked =>
    rw [hplace] at hdeaf
    exact hmore hdeaf
  | firstWait =>
    rw [hplace] at hdeaf
    exact hmore hdeaf
  | flush =>
    rw [hplace] at hdeaf
    exact decide_eq_true (hread (of_decide_eq_true hdeaf))
  | absent => rfl
  | ended st => rfl
  | reaped st => rfl
  | _ =>
    rw [hplace] at hdeaf
    cases hdeaf

theorem blocked_step (hblocked : Blocked cfg s)
    (hfaultless : faultless s act = true) (hon : enabled cfg s act = true) :
    Blocked cfg (effect cfg s act) := by
  have hdeaf := hblocked.deaf
  have hover := hblocked.exceeds
  cases act with
  | clone outcome =>
    simp only [enabled, decide_eq_true_eq] at hon
    rw [deaf, hon.2] at hdeaf
    cases hdeaf
  | checkFds ok => exact ⟨hdeaf, hover⟩
  | send t => exact ⟨hdeaf, hover⟩
  | poll ok =>
    refine ⟨?_, hover⟩
    rcases reap_cases s.watcher ok with hsame | ⟨st, rfl, hst, hreap⟩
    · simp only [deaf, effect, hsame]
      exact hdeaf
    · have hreaped : (effect cfg s (.poll true)).watcher.pc = .reaped st := hreap
      rw [deaf, hreaped]
  | kill =>
    exact ⟨deaf_mono hdeaf (receive_pc s.watcher .usr2)
      (receive_failedRead s.watcher .usr2).trans id, hover⟩
  | read o =>
    refine ⟨hdeaf, ?_⟩
    obtain ⟨hforwarded, hdiscarded⟩ := logRead_input s.log s.runner s.outPipe o
    simp only [effect, Log.consumed, hforwarded, hdiscarded]
    exact hover
  | setup ok =>
    obtain ⟨call, calls, hpc⟩ := enabled_setup hon
    rw [deaf, hpc] at hdeaf
    cases hdeaf
  | fork ok =>
    simp only [enabled, decide_eq_true_eq] at hon
    rw [deaf, hon] at hdeaf
    cases hdeaf
  | startWatching =>
    simp only [enabled, decide_eq_true_eq] at hon
    rw [deaf, hon] at hdeaf
    exact ⟨hdeaf, hover⟩
  | firstWait ok =>
    simp only [enabled, decide_eq_true_eq] at hon
    rw [deaf, hon.1] at hdeaf
    cases ok with
    | false => exact ⟨rfl, hover⟩
    | true =>
      rcases hon.2 with ⟨hstop, hunkilled⟩ | ⟨-, hfalse⟩
      · rw [hstop, Bool.eq_false_iff.mpr (hunkilled rfl)] at hdeaf
        cases hdeaf
      · cases hfalse
  | splice t =>
    simp only [enabled, decide_eq_true_eq] at hon
    rw [deaf, hon.1] at hdeaf
    cases hdeaf
  | wait ok memUsed =>
    simp only [enabled, decide_eq_true_eq] at hon
    rw [deaf, hon] at hdeaf
    cases hdeaf
  | flush t =>
    simp only [enabled, decide_eq_true_eq] at hon
    rw [deaf_of_flush hon.1 (by simp [hon.2.1])] at hdeaf
    cases hdeaf
  | test errno =>
    simp only [enabled, decide_eq_true_eq] at hon
    cases errno with
    | eagain =>
      rw [deaf_of_flush hon.1 (by simp [hon.2])] at hdeaf
      cases hdeaf
    | esrch => exact ⟨rfl, hover⟩
  | handle sig =>
    have hread : s.watcher.failedRead = some .esrch →
        (s.watcher.onSignal sig (killable s.binary)).failedRead = some .esrch := by
      intro hpending
      cases killable s.binary <;> cases sig <;> simp [Watcher.onSignal, hpending]
    refine ⟨deaf_mono hdeaf (onSignal_pc ..) hread fun hmore => ?_, hover⟩
    change (s.binary.ended || (s.sigkill || killable s.binary)) = true
    rw [← Bool.or_assoc, hmore, Bool.true_or]
  | alarm =>
    exact ⟨deaf_mono hdeaf (receive_pc s.watcher .alrm)
      (receive_failedRead s.watcher .alrm).trans id, hover⟩
  | killWatcher sig => exact ⟨rfl, hover⟩
  | exec =>
    simp only [enabled, decide_eq_true_eq] at hon
    refine ⟨deaf_mono hdeaf rfl id fun hmore => ?_, hover⟩
    rw [hon] at hmore
    exact hmore
  | write bytes => exact ⟨hdeaf, hover⟩
  | stop sig event =>
    simp only [enabled, decide_eq_true_eq] at hon
    refine ⟨deaf_mono hdeaf rfl id fun hmore => ?_, hover⟩
    rw [hon] at hmore
    exact hmore
  | exit code => exact ⟨deaf_mono hdeaf rfl id fun _ => rfl, hover⟩
  | die sig => exact ⟨deaf_mono hdeaf rfl id fun _ => rfl, hover⟩

theorem Coherent.not_over (h : Coherent cfg s) (hblocked : Blocked cfg s)
    (hcomplete : Complete cfg s.runner) : s.runner.pc ≠ .returned .done := by
  intro hpc
  obtain ⟨hsent, -, -⟩ := h.lengths
  have hall := hcomplete hpc
  have hover := hblocked.exceeds
  have hcapacity := h.capacity
  omega

end

theorem coherent_run {s : Sys} (hrun : Reaches (step cfg) (fun _ _ => True) (start cfg) s) :
    Coherent cfg s :=
  hrun.invariant (Coherent cfg) (coherent_start cfg) fun _ _ _ h _ hstep => by
    obtain ⟨hon, -, rfl⟩ := step_cases hstep
    exact coherent_step h hon

theorem live_routine {s : Sys} {act : Act} (hlive : s.groupKilled = false)
    (hroutine : routine s act = true) : (effect cfg s act).groupKilled = false := by
  cases act with
  | handle sig => cases hroutine
  | _ => exact hlive

theorem reaches_over {s : Sys} (hcapacity : 0 < cfg.inCapacity) (h : Coherent cfg s)
    (hlive : s.groupKilled = false) (hfree : ¬ Blocked cfg s) :
    ∃ t, Reaches (step cfg) (fun s act => faultless s act = true) s t ∧ t.Over := by
  have hstep : ∀ s, (Coherent cfg s ∧ s.groupKilled = false ∧ ¬ Blocked cfg s) → ¬ s.Over →
      ∃ s', Reaches (step cfg) (fun s act => faultless s act = true) s s' ∧
        (Coherent cfg s' ∧ s'.groupKilled = false ∧ ¬ Blocked cfg s') ∧
          distance cfg s' < distance cfg s := by
    rintro s ⟨h, hlive, hfree⟩ hover
    by_cases hwaits : s.watcher.pc = .wait ∧ s.binary = .running
    · -- the program has to end before the watcher gets on
      have hon : enabled cfg s (.exit 0) = true := by simp [enabled, hwaits.2]
      refine ⟨effect cfg s (.exit 0), .single ⟨.exit 0, rfl, ?_⟩, ⟨coherent_step h hon, hlive, ?_⟩, ?_⟩
      · rw [step, hon, hlive]
        rfl
      · intro hblocked
        have hdeaf := hblocked.deaf
        rw [deaf_of_pc (s := effect cfg s (.exit 0)) hwaits.1 (.inr (.inl rfl))] at hdeaf
        cases hdeaf
      · have hrank : watcherRank s.watcher.pc s.binary = 6 := by
          rw [hwaits.1, hwaits.2, watcherRank]
        have hdistance : distance cfg (effect cfg s (.exit 0)) =
            10 * watcherRank s.watcher.pc (.zombie (.exited 0)) + testRank cfg s.watcher +
              20 * (2 * (cfg.input.length - s.runner.sent) + s.inPipe.length) +
              20000 * s.outPipe.length + work s.runner s.outPipe := rfl
        have hnew : watcherRank s.watcher.pc (.zombie (.exited 0)) = 4 := by
          rw [hwaits.1]
          rfl
        rw [hdistance, distance, hrank, hnew]
        omega
    · have hrunning : s.watcher.pc = .wait → s.binary ≠ .running :=
        fun hpc hbinary => hwaits ⟨hpc, hbinary⟩
      obtain ⟨act, hroutine, hon, hless⟩ := nears h hcapacity hover hfree hrunning
      refine ⟨effect cfg s act, .single ⟨act, faultless_of_routine hroutine, ?_⟩,
        ⟨coherent_step h hon, live_routine hlive hroutine, free_routine h hfree hon hroutine⟩, hless⟩
      rw [step, hon, hlive]
      rfl
  obtain ⟨t, hrun, -, hover⟩ := reaches_final (distance cfg) hstep ⟨h, hlive, hfree⟩
  exact ⟨t, hrun, hover⟩

/-- A blocked runner never gets to its return. -/
theorem hangs_of_blocked {s t : Sys} (h : Coherent cfg s) (hcomplete : Complete cfg s.runner)
    (hover : ¬ s.Over) (hblocked : Blocked cfg s)
    (hrest : Reaches (step cfg) (fun s act => faultless s act = true) s t) : ¬ t.Over := by
  have hstuck : (Coherent cfg t ∧ Complete cfg t.runner) ∧ Blocked cfg t ∧ ¬ t.Over := by
    apply hrest.invariant
      fun t => (Coherent cfg t ∧ Complete cfg t.runner) ∧ Blocked cfg t ∧ ¬ t.Over
    · exact ⟨⟨h, hcomplete⟩, hblocked, hover⟩
    · rintro t act t' ⟨⟨h, hcomplete⟩, hblocked, hover⟩ hfaultless hstep
      obtain ⟨hon, -, rfl⟩ := step_cases hstep
      have hcoherent := coherent_step h hon
      have hblocked' := blocked_step hblocked hfaultless hon
      have hcomplete' := complete_step hcomplete hon
      refine ⟨⟨hcoherent, hcomplete'⟩, hblocked', ?_⟩
      rintro ⟨site, hreturned⟩
      obtain rfl := over_done hover hfaultless hreturned
      exact hcoherent.not_over hblocked' hcomplete' hreturned
  exact hstuck.2.2

/-- Whatever has happened in a run so far: it can still return without a failing call exactly
if it has returned, or the watcher still takes input, or the rest of the input fits into
`in_pipe`. Otherwise the runner fills the pipe and tries for ever to write more. -/
theorem returns_iff (cfg : Config) (s : Sys) (hcapacity : 0 < cfg.inCapacity)
    (hrun : Reaches (step cfg) (fun _ _ => True) (start cfg) s) (hlive : s.groupKilled = false) :
    (∃ t, Reaches (step cfg) (fun s act => faultless s act = true) s t ∧ t.Over) ↔
      s.Over ∨ ¬ Blocked cfg s := by
  have h := coherent_run hrun
  constructor
  · rintro ⟨t, hrest, hover⟩
    by_contra hnot
    rw [not_or, not_not] at hnot
    exact hangs_of_blocked h (complete_run hrun) hnot.1 hnot.2 hrest hover
  · rintro (hover | hfree)
    · exact ⟨s, Relation.ReflTransGen.refl, hover⟩
    · exact reaches_over hcapacity h hlive hfree

def longInput : Config := { oneByte with input := List.replicate 17 7 }

theorem returns_iff_longInput :
    ∃ s, Reaches (step longInput) (fun _ _ => True) (start longInput) s ∧
      s.groupKilled = false ∧ s.watcher.pc = .ended (.exited (UInt8.ofInt (-2))) ∧
      ¬ ∃ t, Reaches (step longInput) (fun s act => faultless s act = true) s t ∧ t.Over := by
  have hloop : ∃ s, runWhere (step longInput) (fun _ _ => True) (start longInput)
      [.clone .cloned, .checkFds true, .setup false] = some s ∧ s.groupKilled = false ∧
        s.watcher.pc = .ended (.exited (UInt8.ofInt (-2))) ∧ s.runner.pc = .poll ∧
        s.log.consumed = [] :=
    ⟨_, rfl, rfl, rfl, rfl, rfl⟩
  obtain ⟨s, hs, hlive, hended, hpc, hnone⟩ := hloop
  have hrun := reaches_of_runWhere hs
  have hblocked : Blocked longInput s := by
    refine ⟨by rw [deaf, hended], ?_⟩
    rw [hnone]
    decide
  refine ⟨s, hrun, hlive, hended, fun hreturns => ?_⟩
  rcases (returns_iff longInput s (by decide) hrun hlive).mp hreturns with ⟨site, hover⟩ | hfree
  · rw [hpc] at hover
    cases hover
  · exact hfree hblocked

end KudosJudge.RunSystem
