import KudosJudge.RefusedRun
import KudosJudge.RunSignals

set_option autoImplicit false

namespace KudosJudge.RunSystem
open CompareOutput Results SandboxWatcher RunnerLoop Runs

variable {cfg : Config}

/-- The binary waits for room in a pipe that the runner does not read before the watcher ends,
and nobody is about to kill it. -/
structure Stuck (cfg : Config) (output : List UInt8) (s : Sys) : Prop where
  running : s.binary = .running
  left : s.log.written ≠ output
  full : cfg.outCapacity ≤ s.outPipe.length
  unread : s.runner.compoutDetected = true
  watched : s.watcher.alive = true
  unkilled : s.sigkill = false
  unheard : Sig.usr2 ∉ s.watcher.pending
  unsent : s.runner.pc ≠ .killMismatch

/-- The steps of a run on a program that exits by itself within its limits if its writes never
block: the alarm goes off only for a program that is stuck. -/
def selfExiting (cfg : Config) (output : List UInt8) (s : Sys) (act : Act) : Prop :=
  ordinary cfg output s act = true ∨ (act = .alarm ∧ Stuck cfg output s)

def WrongInEveryRun (cfg : Config) (output : List UInt8) : Prop :=
  ∀ s, Reaches (step cfg) (selfExiting cfg output) (start cfg) s →
    ¬ Stuck cfg output s ∧ ∀ site, s.runner.pc = .returned site → s.Returns 0 .wrong

/-- What is left of the output behind the read with the difference has room in `out_pipe`. -/
def RestFits (cfg : Config) (output : List UInt8) : Prop :=
  ∀ chunks, Cut cfg chunks → chunks.flatten <+: output →
    differs (opened cfg.reference) 0 chunks = true →
      output.length ≤ chunks.flatten.length + cfg.outCapacity

def Heard (w : Watcher) : Prop :=
  w.alive = true → Sig.usr2 ∈ w.handlers ∨ ∃ calls, w.pc = .setup calls ∧ .signalUsr2 ∈ calls

def Answered (s : Sys) : Prop :=
  s.runner.compoutDetected = true → s.runner.pc = .killMismatch ∨ Sig.usr2 ∈ s.watcher.pending ∨
    s.sigkill = true ∨ s.binary.ended = true ∨ s.watcher.alive = false

section

variable {s : Sys} {act : Act} {output : List UInt8}

theorem wait_handlers (w : Watcher) (b : Binary) (ok : Bool) (memUsed : ℤ) :
    (watcherOnWait cfg w b ok memUsed).handlers = w.handlers := by
  unfold watcherOnWait
  split
  · rfl
  · rfl
  · rename_i st
    cases st <;> rfl
  · rfl

theorem leave_handlers (w : Watcher) (size : ℕ) : (w.leave size).handlers = w.handlers := by
  unfold Watcher.leave
  split_ifs <;> rfl

theorem receive_handlers (w : Watcher) (sig : Sig) : (w.receive sig).handlers = w.handlers := by
  unfold Watcher.receive
  split_ifs <;> rfl

theorem signal_handlers (w : Watcher) (sig : Sig) (killed : Bool) :
    (w.onSignal sig killed).handlers = w.handlers := by
  cases killed <;> cases sig <;> rfl

theorem handlers_effect (hact : ∀ ok, act ≠ .setup ok) :
    (effect cfg s act).watcher.handlers = s.watcher.handlers := by
  cases act with
  | setup ok => exact absurd rfl (hact ok)
  | clone outcome => cases outcome <;> rfl
  | poll ok =>
    simp only [effect, reap]
    split <;> rfl
  | kill => exact receive_handlers ..
  | fork ok => cases ok <;> rfl
  | firstWait ok => cases ok <;> rfl
  | splice t => cases t <;> rfl
  | wait ok memUsed => exact wait_handlers ..
  | flush t =>
    cases t with
    | moved n => exact leave_handlers ..
    | _ => rfl
  | test errno =>
    cases errno with
    | eagain => exact leave_handlers { s.watcher with failedRead := none } _
    | esrch => rfl
  | handle sig => exact signal_handlers ..
  | alarm => exact receive_handlers s.watcher .alrm
  | _ => rfl

theorem alive_effect (hact : ∀ outcome, act ≠ .clone outcome) (hon : enabled cfg s act = true)
    (h : s.watcher.alive = false) : (effect cfg s act).watcher.alive = false := by
  have hgone : ∀ pc, pc = s.watcher.pc → { unborn with pc := pc }.alive = false := by
    rintro pc rfl
    exact h
  cases act with
  | clone outcome => exact absurd rfl (hact outcome)
  | poll ok =>
    simp only [effect, reap]
    split
    · rfl
    · exact h
  | kill =>
    change (s.watcher.receive .usr2).alive = false
    rw [Watcher.receive, if_neg (by rw [h]; simp)]
    exact h
  | setup ok =>
    obtain ⟨call, calls, hpc⟩ := enabled_setup hon
    cases hgone _ hpc.symm
  | fork ok =>
    simp only [enabled, decide_eq_true_eq] at hon
    cases hgone _ hon.symm
  | startWatching =>
    simp only [enabled, decide_eq_true_eq] at hon
    cases hgone _ hon.symm
  | firstWait ok =>
    simp only [enabled, decide_eq_true_eq] at hon
    cases hgone _ hon.1.symm
  | splice t =>
    simp only [enabled, decide_eq_true_eq] at hon
    cases hgone _ hon.1.symm
  | wait ok memUsed =>
    simp only [enabled, decide_eq_true_eq] at hon
    cases hgone _ hon.symm
  | flush t =>
    simp only [enabled, decide_eq_true_eq] at hon
    cases hgone _ hon.1.symm
  | test errno =>
    simp only [enabled, decide_eq_true_eq] at hon
    cases hgone _ hon.1.symm
  | handle sig =>
    simp only [enabled, decide_eq_true_eq] at hon
    rw [h] at hon
    cases hon.1
  | alarm =>
    simp only [enabled, decide_eq_true_eq] at hon
    rw [h] at hon
    cases hon.1
  | killWatcher sig =>
    simp only [enabled] at hon
    rw [h] at hon
    cases hon
  | _ => exact h

theorem ended_effect (h : s.binary.ended = true) (hon : enabled cfg s act = true)
    (hearly : unforked s.watcher.pc = true → s.binary = .unforked) :
    (effect cfg s act).binary.ended = true := by
  cases act with
  | fork ok =>
    simp only [enabled, decide_eq_true_eq] at hon
    have hb := hearly (by rw [hon]; rfl)
    rw [hb] at h
    cases h
  | firstWait ok =>
    simp only [enabled, decide_eq_true_eq] at hon
    change (binaryOnFirstWait s.binary ok).ended = true
    rcases hon.2 with ⟨hb, -⟩ | ⟨-, rfl⟩
    · rw [hb] at h
      cases h
    · cases hb : s.binary <;> rw [hb] at h <;> first | rfl | cases h
  | wait ok memUsed =>
    change (binaryOnWait s.binary ok).ended = true
    cases ok <;> cases hb : s.binary <;> rw [hb] at h <;> first | rfl | cases h
  | exec =>
    simp only [enabled, decide_eq_true_eq] at hon
    rw [hon] at h
    cases h
  | stop sig event =>
    simp only [enabled, decide_eq_true_eq] at hon
    rw [hon] at h
    cases h
  | exit code => rfl
  | die sig => rfl
  | _ => exact h

theorem heard_setup (h : Heard s.watcher) (hon : enabled cfg s (.setup true) = true) :
    Heard (watcherOnSetup s.watcher true) := by
  obtain ⟨call, calls, hpc⟩ := enabled_setup hon
  have halive : s.watcher.alive = true := by
    unfold Watcher.alive
    rw [hpc]
  have hnext : watcherOnSetup s.watcher true = { s.watcher.establish call with pc := .setup calls } := by
    simp only [watcherOnSetup, hpc, Watcher.onSetup]
  rw [hnext]
  intro _
  rcases h halive with hheard | ⟨calls', hcalls, hmem⟩
  · left
    cases call <;> first | exact hheard | exact List.mem_cons_of_mem _ hheard
  · rw [hpc, SandboxWatcher.Pc.setup.injEq] at hcalls
    subst hcalls
    rcases List.mem_cons.mp hmem with rfl | hmem
    · exact .inl List.mem_cons_self
    · exact .inr ⟨calls, rfl, hmem⟩

theorem setup_effect {calls : List SetupCall} (hpc : s.watcher.pc = .setup calls) (hne : calls ≠ [])
    (hact : ∀ ok, act ≠ .setup ok) (hon : enabled cfg s act = true)
    (hordinary : ordinary cfg output s act = true) :
    (effect cfg s act).watcher.pc = .setup calls := by
  cases act with
  | setup ok => exact absurd rfl (hact ok)
  | poll ok =>
    simp only [effect, reap, hpc]
  | kill => exact (receive_pc ..).trans hpc
  | handle sig =>
    change (s.watcher.onSignal sig (killable s.binary)).pc = _
    cases killable s.binary <;> cases sig <;> exact hpc
  | fork ok =>
    simp only [enabled, hpc, decide_eq_true_eq, SandboxWatcher.Pc.setup.injEq] at hon
    exact absurd hon hne
  | alarm => cases hordinary
  | killWatcher sig => cases hordinary
  | clone outcome => simp [enabled, hpc] at hon
  | startWatching => simp [enabled, hpc] at hon
  | firstWait ok => simp [enabled, hpc] at hon
  | splice t => simp [enabled, hpc] at hon
  | wait ok memUsed => simp [enabled, hpc] at hon
  | flush t => simp [enabled, hpc] at hon
  | test errno => simp [enabled, hpc] at hon
  | _ => exact hpc

theorem heard_step (h : Heard s.watcher) (hon : enabled cfg s act = true)
    (hordinary : ordinary cfg output s act = true) : Heard (effect cfg s act).watcher := by
  by_cases hclone : ∃ outcome, act = .clone outcome
  · obtain ⟨outcome, rfl⟩ := hclone
    simp only [ordinary, unfailing, decide_eq_true_eq] at hordinary
    subst hordinary
    refine fun _ => .inr ⟨setupCalls cfg.useERFS, rfl, ?_⟩
    cases cfg.useERFS <;> decide
  by_cases hsetup : ∃ ok, act = .setup ok
  · obtain ⟨ok, rfl⟩ := hsetup
    simp only [ordinary, unfailing] at hordinary
    subst hordinary
    exact heard_setup h hon
  · have hact : ∀ ok, act ≠ .setup ok := fun ok heq => hsetup ⟨ok, heq⟩
    intro halive
    rw [handlers_effect hact]
    have hbefore : s.watcher.alive = true := by
      by_contra hdead
      rw [Bool.not_eq_true] at hdead
      have hgone := alive_effect (fun outcome heq => hclone ⟨outcome, heq⟩) hon hdead
      rw [halive] at hgone
      cases hgone
    rcases h hbefore with hheard | ⟨calls, hpc, hmem⟩
    · exact .inl hheard
    · exact .inr ⟨calls, setup_effect hpc (List.ne_nil_of_mem hmem) hact hon hordinary, hmem⟩

theorem Refused.forked (h : Refused cfg output s) (hdetected : s.runner.compoutDetected = true) :
    unstarted s.binary = false := by
  rw [← Bool.not_eq_true]
  intro hunstarted
  have htaken := h.taken
  rw [fits_unstarted h.calm.fits hunstarted, List.prefix_nil] at htaken
  exact h.convicts.met hdetected htaken

theorem answered_kill (h : Refused cfg output s) (hheard : Heard s.watcher)
    (hdetected : s.runner.compoutDetected = true) (hon : enabled cfg s .kill = true) :
    Answered (effect cfg s .kill) := by
  intro _
  have hforked := h.forked hdetected
  by_cases halive : s.watcher.alive = true
  · have hhandler : Sig.usr2 ∈ s.watcher.handlers := by
      rcases hheard halive with hhandler | ⟨calls, hpc, -⟩
      · exact hhandler
      · have hearly := (h.trusted.watched.early (by rw [hpc]; rfl)).1
        rw [hearly] at hforked
        cases hforked
    refine .inr (.inl ?_)
    change Sig.usr2 ∈ (s.watcher.receive .usr2).pending
    rw [Watcher.receive, if_pos ⟨halive, hhandler⟩]
    exact List.mem_cons_self
  · rw [Bool.not_eq_true] at halive
    exact .inr (.inr (.inr (.inr (alive_effect (fun _ h => by cases h) hon halive))))

theorem Resumes.compout {r r' : Runner} (h : Resumes cfg r r') :
    r'.compoutDetected = r.compoutDetected := by
  cases h <;> rfl

theorem checkLimit_compout (r : Runner) :
    (r.checkLimit cfg).compoutDetected = r.compoutDetected := by
  unfold Runner.checkLimit
  split_ifs
  · rfl
  · exact (top_resumes r).compout

theorem onChunk_detects {r : Runner} (hkill : cfg.killOnCompout = true)
    (hsame : r.compoutDetected = false) {chunk : List UInt8}
    (hdetected : (r.onChunk cfg chunk).compoutDetected = true) :
    (r.onChunk cfg chunk).pc = .killMismatch := by
  unfold Runner.onChunk at hdetected ⊢
  split_ifs at hdetected ⊢ with hdiffers
  · rfl
  · rw [hkill, and_iff_left rfl, not_not] at hdiffers
    rw [checkLimit_compout] at hdetected
    simp [Runner.compareChunk, hsame, hdiffers] at hdetected

theorem onPoll_compout (r : Runner) (p : Poll) :
    (r.onPoll cfg p).compoutDetected = r.compoutDetected := by
  cases p with
  | error => exact (toSend_resumes _).compout
  | unchanged => exact (toSend_resumes _).compout
  | status st =>
    refine (toSend_resumes _).compout.trans ?_
    cases st with
    | exited code =>
      simp only [Runner.collect]
      split_ifs <;> rfl
    | _ => rfl

theorem runnerOnSend_compout (r : Runner) {t : Transfer} (ht : t ≠ .error) :
    (runnerOnSend cfg r t).compoutDetected = r.compoutDetected := by
  have hleave : ∀ r : Runner, (r.leave cfg).compoutDetected = r.compoutDetected := by
    intro r
    unfold Runner.leave
    split_ifs <;> rfl
  unfold runnerOnSend
  split_ifs
  · cases t with
    | moved n => exact (check_resumes cfg _).compout
    | again => exact (check_resumes cfg _).compout
    | error => exact absurd rfl ht
  · cases t with
    | moved n => exact hleave _
    | again => exact hleave _
    | error => exact absurd rfl ht

theorem effect_detects (hkill : cfg.killOnCompout = true) (hjudged : s.Judged cfg)
    (hon : enabled cfg s act = true) (hordinary : ordinary cfg output s act = true)
    (hsame : s.runner.compoutDetected = false)
    (hdetected : (effect cfg s act).runner.compoutDetected = true) :
    (effect cfg s act).runner.pc = .killMismatch := by
  have hno : ∀ {r : Runner}, r.compoutDetected = s.runner.compoutDetected →
      r.compoutDetected = true → False := by
    intro r heq hyes
    rw [heq, hsame] at hyes
    cases hyes
  cases act with
  | clone outcome => cases outcome <;> exact (hno rfl hdetected).elim
  | checkFds ok => cases ok <;> exact (hno rfl hdetected).elim
  | poll ok => exact (hno (onPoll_compout ..) hdetected).elim
  | send t =>
    simp only [ordinary, unfailing, decide_eq_true_eq] at hordinary
    exact (hno (runnerOnSend_compout _ hordinary) hdetected).elim
  | kill => exact (hno rfl (reports_kill hjudged hon)).elim
  | read o =>
    simp only [ordinary, unfailing, decide_eq_true_eq] at hordinary
    change (runnerOnRead cfg s.runner s.outPipe o).compoutDetected = true at hdetected
    change (runnerOnRead cfg s.runner s.outPipe o).pc = .killMismatch
    simp only [enabled] at hon
    split at hon
    · rename_i hpc
      simp only [runnerOnRead, hpc] at hdetected ⊢
      cases o with
      | bytes n => exact onChunk_detects hkill hsame hdetected
      | eof => cases hon
      | again =>
        simp only [Runner.onRead] at hdetected
        split_ifs at hdetected
        · exact (hno (top_resumes _).compout hdetected).elim
        · exact (hno rfl hdetected).elim
      | error => exact absurd rfl hordinary
    · rename_i blockingCount hpc
      simp only [runnerOnRead, hpc] at hdetected
      cases o with
      | again =>
        simp only [Runner.onFlushOut] at hdetected
        split_ifs at hdetected <;> exact (hno rfl hdetected).elim
      | error => exact absurd rfl hordinary
      | _ => exact (hno rfl hdetected).elim
    · cases hon
  | _ => exact (hno rfl hdetected).elim

theorem pending_kept (h : Refused cfg output s) (hpending : Sig.usr2 ∈ s.watcher.pending)
    (hon : enabled cfg s act = true) (hordinary : ordinary cfg output s act = true) :
    Sig.usr2 ∈ (effect cfg s act).watcher.pending ∨ (effect cfg s act).sigkill = true ∨
      (effect cfg s act).binary.ended = true := by
  by_cases hhandle : ∃ sig, act = .handle sig
  · obtain ⟨sig, rfl⟩ := hhandle
    simp only [enabled, decide_eq_true_eq] at hon
    right
    cases sig with
    | alrm => exact absurd hon.2 h.calm.quiet
    | usr2 =>
      have hforked := h.forked (h.trusted.informed (.inl hpending))
      change (s.sigkill || killable s.binary) = true ∨ s.binary.ended = true
      cases hb : s.binary with
      | unforked =>
        rw [hb] at hforked
        cases hforked
      | reaped st => exact .inr rfl
      | _ => exact .inl (Bool.or_true _)
  by_cases hkill : act = .kill
  · subst hkill
    left
    change Sig.usr2 ∈ (s.watcher.receive .usr2).pending
    unfold Watcher.receive
    split_ifs
    · exact List.mem_cons_self
    · exact hpending
  · left
    rw [pending_effect hkill (fun heq => by subst heq; cases hordinary)
      fun sig heq => hhandle ⟨sig, heq⟩]
    exact hpending

theorem sigkill_effect (h : s.sigkill = true) : (effect cfg s act).sigkill = true := by
  cases act with
  | wait ok memUsed => exact (Bool.or_eq_true ..).mpr (.inl h)
  | handle sig => exact (Bool.or_eq_true ..).mpr (.inl h)
  | _ => exact h

theorem runner_waits (hpc : s.runner.pc = .killMismatch) (hact : act ≠ .kill)
    (hon : enabled cfg s act = true) : (effect cfg s act).runner = s.runner := by
  cases act with
  | kill => exact absurd rfl hact
  | clone outcome => simp [enabled, hpc] at hon
  | checkFds ok => simp [enabled, hpc] at hon
  | poll ok => simp [enabled, hpc] at hon
  | send t => simp [enabled, hpc] at hon
  | read o => simp [enabled, hpc] at hon
  | _ => rfl

theorem answered_step (hkill : cfg.killOnCompout = true) (h : Refused cfg output s)
    (hheard : Heard s.watcher) (hanswered : Answered s) (hon : enabled cfg s act = true)
    (hordinary : ordinary cfg output s act = true) : Answered (effect cfg s act) := by
  by_cases hbefore : s.runner.compoutDetected = true
  · by_cases hact : act = .kill
    · subst hact
      exact answered_kill h hheard hbefore hon
    · intro _
      rcases hanswered hbefore with hpc | hpending | hsigkill | hended | hdead
      · left
        rw [runner_waits hpc hact hon]
        exact hpc
      · rcases pending_kept h hpending hon hordinary with hkept | hkilled | hended
        · exact .inr (.inl hkept)
        · exact .inr (.inr (.inl hkilled))
        · exact .inr (.inr (.inr (.inl hended)))
      · exact .inr (.inr (.inl (sigkill_effect hsigkill)))
      · have hearly := fun hpc => (h.trusted.watched.early hpc).1
        exact .inr (.inr (.inr (.inl (ended_effect hended hon hearly))))
      · refine .inr (.inr (.inr (.inr (alive_effect (fun outcome heq => ?_) hon hdead))))
        subst heq
        simp only [enabled, decide_eq_true_eq] at hon
        have hmarked := h.marked
        rw [Marked, hon.1, hbefore] at hmarked
        cases hmarked.2
  · rw [Bool.not_eq_true] at hbefore
    exact fun hdetected =>
      .inl (effect_detects hkill h.trusted.judged hon hordinary hbefore hdetected)

end

section

variable {s : Sys} {output : List UInt8}

theorem Refused.inLoop (h : Refused cfg output s) (halive : s.watcher.alive = true) :
    behindLoop s.runner.pc = false := by
  rw [← Bool.not_eq_true]
  intro hbehind
  have hdead := (h.convicts.behind hbehind).2
  have hreaped := h.trusted.reported hdead h.fair.1 (h.fair.2 hdead)
  unfold Watcher.alive at halive
  rw [hreaped] at halive
  cases halive

theorem Refused.not_stuck (h : Refused cfg output s) (hfits : RestFits cfg output) :
    ¬ Stuck cfg output s := by
  intro hstuck
  have hin := h.inLoop hstuck.watched
  have hdiffers : differs (opened cfg.reference) 0 s.log.chunks = true :=
    ((h.tallied hin).detected.mp hstuck.unread).resolve_left fun hne => hne rfl
  have hbytes : s.log.compared ++ s.outPipe = s.log.written :=
    (h.trusted.judged.comparing hin).bytes
  have hpart : s.log.chunks.flatten <+: output := h.taken.trans h.calm.part
  have hrest := hfits s.log.chunks h.cut hpart hdiffers
  have hfull := hstuck.full
  have hlength := congrArg List.length hbytes
  rw [List.length_append] at hlength
  change output.length ≤ s.log.compared.length + cfg.outCapacity at hrest
  exact hstuck.left (h.calm.part.eq_of_length_le (by omega))

theorem Answered.not_stuck (h : Answered s) : ¬ Stuck cfg output s := by
  intro hstuck
  rcases h hstuck.unread with hpc | hpending | hsigkill | hended | hdead
  · exact hstuck.unsent hpc
  · exact hstuck.unheard hpending
  · rw [hstuck.unkilled] at hsigkill
    cases hsigkill
  · rw [hstuck.running] at hended
    cases hended
  · rw [hstuck.watched] at hdead
    cases hdead

theorem refused_run (hdiff : DiffersAtByte cfg output) (hlimit : withinLimit cfg output.length)
    (hsafe : cfg.killOnCompout = true ∨ RestFits cfg output)
    (hrun : Reaches (step cfg) (selfExiting cfg output) (start cfg) s) :
    Refused cfg output s ∧ ¬ Stuck cfg output s ∧
      Reaches (step cfg) (fun s act => ordinary cfg output s act = true) (start cfg) s := by
  have hstuck : ∀ {s : Sys}, Refused cfg output s → (cfg.killOnCompout = true → Answered s) →
      ¬ Stuck cfg output s := by
    intro s h hanswered
    exact hsafe.elim (fun hkill => (hanswered hkill).not_stuck) h.not_stuck
  have hinv := hrun.invariant (fun s => Refused cfg output s ∧ Heard s.watcher ∧
    (cfg.killOnCompout = true → Answered s) ∧
      Reaches (step cfg) (fun s act => ordinary cfg output s act = true) (start cfg) s)
    ⟨refused_start cfg output, nofun, fun _ => nofun, .refl⟩ ?_
  · exact ⟨hinv.1, hstuck hinv.1 hinv.2.2.1, hinv.2.2.2⟩
  · rintro s act s' ⟨h, hheard, hanswered, hordinaryRun⟩ hexits hstep
    rcases hexits with hordinary | ⟨-, hstuck'⟩
    · refine ⟨?_, ?_, fun hkill => ?_, hordinaryRun.tail ⟨act, hordinary, hstep⟩⟩
      all_goals obtain ⟨hon, -, rfl⟩ := step_cases hstep
      · exact refused_step h hdiff hlimit hon hordinary
      · exact heard_step hheard hon hordinary
      · exact answered_step hkill h hheard (hanswered hkill) hon hordinary
    · exact absurd hstuck' (hstuck h hanswered)

theorem wrong_of_refused (h : Refused cfg output s)
    (hrun : Reaches (step cfg) (fun s act => ordinary cfg output s act = true) (start cfg) s)
    {site : Return} (hreturned : s.runner.pc = .returned site) : s.Returns 0 .wrong := by
  have hhygienic := hygienic_run (hrun.weaken fun _ _ => unfailing_of_ordinary)
  obtain ⟨rfl, -⟩ := hhygienic.returned site hreturned
  obtain ⟨hdetected, hdead⟩ := h.convicts.behind (by rw [hreturned]; rfl)
  have hconcluded := (result_of_run hrun).1
  rw [Concluded, hreturned] at hconcluded
  have hconclusion : conclusion s.runner = .wrong := by
    rw [conclusion, h.fair.1, h.fair.2 hdead, h.convicts.wrong hdetected]
    rfl
  exact ⟨.done, hreturned, rfl, by rw [hconcluded, hconclusion]⟩

end

/-- Between two reads: `chunks` are compared, and the runner polls the watcher. -/
structure Ready (cfg : Config) (chunks : List (List UInt8)) (s : Sys) : Prop where
  polls : s.runner.pc = .poll
  alive : s.runner.watcherAlive = true
  tallied : Tallied cfg s.runner chunks []
  written : s.log.written = chunks.flatten
  empty : s.outPipe = []
  running : s.binary = .running
  looping : s.watcher.pc = .splice ∨ s.watcher.pc = .wait
  quiet : s.watcher.pending = []
  unkilled : s.sigkill = false
  live : s.groupKilled = false

section

variable {s : Sys} {output chunk : List UInt8} {chunks : List (List UInt8)}

theorem moves_effect {act : Act} (hordinary : ordinary cfg output s act = true)
    (hon : enabled cfg s act = true) (hlive : s.groupKilled = false) :
    Moves (step cfg) (fun s act => ordinary cfg output s act = true) s (effect cfg s act) := by
  refine ⟨act, hordinary, ?_⟩
  rw [step, hon, hlive]
  rfl

def Sys.offers (s : Sys) (chunk : List UInt8) : Sys :=
  { s with
    runner := { s.runner with pc := .read }
    outPipe := s.outPipe ++ chunk
    log := { s.log with written := s.log.written ++ chunk } }

theorem reaches_offers (h : Ready cfg chunks s)
    (hsame : differs (opened cfg.reference) 0 chunks = false) (hne : chunk ≠ [])
    (hroom : chunk.length ≤ cfg.outCapacity) (hpart : chunks.flatten ++ chunk <+: output) :
    Reaches (step cfg) (fun s act => ordinary cfg output s act = true) s (s.offers chunk) := by
  have hundetected : s.runner.compoutDetected = false := by
    rw [← Bool.not_eq_true, h.tallied.detected, hsame]
    simp
  have hcheck : ∀ pc, { s.runner with pc := pc }.check = { s.runner with pc := .read } := by
    intro pc
    simp only [Runner.check, h.tallied.more, hundetected]
    rfl
  have hwrite : Moves (step cfg) (fun s act => ordinary cfg output s act = true) s
      (effect cfg s (.write chunk)) := by
    refine moves_effect ?_ ?_ h.live
    · simp only [ordinary, decide_eq_true_eq, h.written]
      exact hpart
    · simp only [enabled, decide_eq_true_eq, h.empty]
      exact ⟨h.running, hne, by simpa using hroom⟩
  have hpoll : effect cfg (effect cfg s (.write chunk)) (.poll true) =
      { effect cfg s (.write chunk) with runner := s.runner.toSend cfg } := by
    rcases h.looping with hpc | hpc
    all_goals
      simp only [effect, pollResult, reap, hpc, if_true]
      rfl
  have hpresent := h.looping
  have hpolled : Reaches (step cfg) (fun s act => ordinary cfg output s act = true) s
      { effect cfg s (.write chunk) with runner := s.runner.toSend cfg } := by
    rw [← hpoll]
    refine (Relation.ReflTransGen.single hwrite).tail (moves_effect rfl ?_ h.live)
    simp only [enabled, decide_eq_true_eq]
    refine ⟨h.polls, fun habsent => ?_⟩
    change s.watcher.pc = .absent at habsent
    rw [habsent] at hpresent
    rcases hpresent with hpc | hpc <;> cases hpc
  by_cases hunsent : s.runner.dsSentAcc < cfg.input.length
  · have hsend : s.runner.toSend cfg = { s.runner with pc := .send } := if_pos hunsent
    have hagain : effect cfg { effect cfg s (.write chunk) with
        runner := { s.runner with pc := .send } } (.send .again) = s.offers chunk := by
      simp only [effect, runnerOnSend, if_true, Runner.onSend, hcheck, Transfer.count,
        List.take_zero, List.append_nil]
      rfl
    rw [hsend] at hpolled
    refine hpolled.tail ?_
    rw [← hagain]
    exact moves_effect rfl rfl h.live
  · have hread : s.runner.toSend cfg = { s.runner with pc := .read } := by
      rw [Runner.toSend, if_neg hunsent]
      exact hcheck s.runner.pc
    rw [hread] at hpolled
    exact hpolled

theorem ready_read (hkill : cfg.killOnCompout = false) (h : Ready cfg chunks s)
    (hsame : differs (opened cfg.reference) 0 chunks = false) (hne : chunk ≠ [])
    (hsize : chunk.length ≤ 255) (hroom : chunk.length ≤ cfg.outCapacity)
    (hpart : chunks.flatten ++ chunk <+: output) (hlimit : withinLimit cfg output.length) :
    ∃ s', Reaches (step cfg) (fun s act => ordinary cfg output s act = true) s s' ∧
      Ready cfg (chunks ++ [chunk]) s' := by
  have hundetected : s.runner.compoutDetected = false := by
    rw [← Bool.not_eq_true, h.tallied.detected, hsame]
    simp
  have hpipe : (s.offers chunk).outPipe = chunk := by
    simp only [Sys.offers, h.empty, List.nil_append]
  have hpos : 1 ≤ chunk.length := List.length_pos_iff.mpr hne
  let r := { s.runner with pc := RunnerLoop.Pc.read }
  have htallied : Tallied cfg (r.compareChunk chunk) (chunks ++ [chunk]) [] :=
    (h.tallied.keep r rfl rfl rfl rfl rfl rfl).compareChunk hundetected chunk
  have hnext : r.onChunk cfg chunk = { r.compareChunk chunk with pc := .poll } := by
    have hwithin : withinLimit cfg (r.compareChunk chunk).receivedBytes := by
      refine withinLimit_mono hlimit ?_
      rw [htallied.count, List.flatten_append, List.flatten_singleton]
      exact hpart.length_le
    rw [Runner.onChunk, if_neg (by rw [hkill]; simp), checkLimit_top (overLimit_of_within hwithin),
      Runner.top]
    exact if_pos h.alive
  refine ⟨effect cfg (s.offers chunk) (.read (.bytes chunk.length)),
    (reaches_offers h hsame hne hroom hpart).tail (moves_effect rfl ?_ h.live), ?_⟩
  · change readable (s.offers chunk) (.bytes chunk.length) = true
    simp only [readable, decide_eq_true_eq, hpipe]
    exact ⟨hpos, le_refl _, hsize⟩
  · have hrunner : (effect cfg (s.offers chunk) (.read (.bytes chunk.length))).runner =
        { r.compareChunk chunk with pc := .poll } := by
      rw [← hnext]
      change r.onChunk cfg ((s.offers chunk).outPipe.take chunk.length) = r.onChunk cfg chunk
      rw [hpipe, List.take_length]
    refine ⟨by rw [hrunner], by rw [hrunner]; exact h.alive, ?_, ?_, ?_, h.running, h.looping,
      h.quiet, h.unkilled, h.live⟩
    · rw [hrunner]
      exact htallied.keep _ rfl rfl rfl rfl rfl rfl
    · rw [List.flatten_append, List.flatten_singleton, ← h.written]
      exact logRead_written ..
    · change (s.offers chunk).outPipe.drop chunk.length = []
      rw [hpipe, List.drop_length]

def spawnCalls (cfg : Config) : List Act :=
  [.clone .cloned, .checkFds true] ++
    List.replicate (setupCalls cfg.useERFS).length (.setup true) ++
    [.fork true, .startWatching, .exec, .firstWait true]

theorem ready_spawned (cfg : Config) (output : List UInt8) :
    ∃ s, Reaches (step cfg) (fun s act => ordinary cfg output s act = true) (start cfg) s ∧
      Ready cfg [] s := by
  have hspawn : ∃ s, runWhere (step cfg) (fun s act => ordinary cfg output s act = true) (start cfg)
      (spawnCalls cfg) = some s ∧ s.runner = { entry cfg with pc := .poll } ∧
        s.log.written = [] ∧ s.outPipe = [] ∧ s.binary = .running ∧
        s.watcher.pc = (if 0 < cfg.input.length then .splice else .wait) ∧
        s.watcher.pending = [] ∧ s.sigkill = false ∧ s.groupKilled = false := by
    obtain ⟨input, reference, kill, outputLimit, memLimit, useERFS, inCapacity, outCapacity,
      staleWatcher, staleComp⟩ := cfg
    cases useERFS <;> exact ⟨_, rfl, rfl, rfl, rfl, rfl, rfl, rfl, rfl, rfl⟩
  obtain ⟨s, hs, hrunner, hwritten, hempty, hrunning, hpc, hquiet, hunkilled, hlive⟩ := hspawn
  refine ⟨s, reaches_of_runWhere hs, ?_⟩
  refine ⟨by rw [hrunner], by rw [hrunner]; rfl, ?_, hwritten, hempty, hrunning, ?_, hquiet,
    hunkilled, hlive⟩
  · rw [hrunner]
    refine ⟨rfl, ?_, rfl, rfl, rfl, rfl⟩
    simp [entry, differs]
  · rw [hpc]
    split_ifs
    · exact .inl rfl
    · exact .inr rfl

theorem cut_append (h : Cut cfg (chunks ++ [chunk])) :
    Cut cfg chunks ∧ chunk ≠ [] ∧ chunk.length ≤ 255 ∧ chunk.length ≤ cfg.outCapacity :=
  ⟨fun c hc => h c (List.mem_append_left _ hc), h chunk List.mem_concat_self⟩

theorem flatten_concat (chunks : List (List UInt8)) (chunk : List UInt8) :
    (chunks ++ [chunk]).flatten = chunks.flatten ++ chunk := by
  rw [List.flatten_append, List.flatten_singleton]

theorem reaches_ready (hkill : cfg.killOnCompout = false) (hlimit : withinLimit cfg output.length)
    (hcut : Cut cfg chunks) (hpart : chunks.flatten <+: output)
    (hsame : differs (opened cfg.reference) 0 chunks = false) :
    ∃ s, Reaches (step cfg) (fun s act => ordinary cfg output s act = true) (start cfg) s ∧
      Ready cfg chunks s := by
  induction chunks using List.reverseRecOn with
  | nil => exact ready_spawned cfg output
  | append_singleton chunks chunk ih =>
    obtain ⟨hfront, hne, hsize, hroom⟩ := cut_append hcut
    rw [flatten_concat] at hpart
    rw [differs_append, Bool.or_eq_false_iff] at hsame
    obtain ⟨s, hrun, hready⟩ := ih hfront ((List.prefix_append _ _).trans hpart) hsame.1
    obtain ⟨s', hnext, hready'⟩ := ready_read hkill hready hsame.1 hne hsize hroom hpart hlimit
    exact ⟨s', hrun.trans hnext, hready'⟩

/-- The read in which the comparator meets the difference. -/
theorem exists_first_difference (h : differs (opened cfg.reference) 0 chunks = true) :
    ∃ front chunk back, chunks = front ++ [chunk] ++ back ∧
      differs (opened cfg.reference) 0 front = false ∧
      differs (opened cfg.reference) 0 (front ++ [chunk]) = true := by
  induction chunks using List.reverseRecOn with
  | nil => cases h
  | append_singleton chunks chunk ih =>
    cases hbefore : differs (opened cfg.reference) 0 chunks with
    | false => exact ⟨chunks, chunk, [], by rw [List.append_nil], hbefore, h⟩
    | true =>
      obtain ⟨front, first, back, hchunks, hfront, hfirst⟩ := ih hbefore
      refine ⟨front, first, back ++ [chunk], ?_, hfront, hfirst⟩
      rw [hchunks, List.append_assoc _ back]

/-- The binary fills the pipe with what comes next and has to wait for the alarm. -/
theorem stuck_behind_difference (h : Ready cfg chunks s)
    (hdiffers : differs (opened cfg.reference) 0 chunks = true)
    (hpart : chunks.flatten <+: output)
    (hlong : chunks.flatten.length + cfg.outCapacity < output.length) :
    ∃ s', Reaches (step cfg) (fun s act => ordinary cfg output s act = true) s s' ∧
      Stuck cfg output s' := by
  obtain ⟨rest, rfl⟩ := hpart
  rw [List.length_append] at hlong
  have hlength : (rest.take cfg.outCapacity).length = cfg.outCapacity :=
    List.length_take_of_le (by omega)
  have hdetected : s.runner.compoutDetected = true := h.tallied.detected.mpr (.inr hdiffers)
  have halive : s.watcher.alive = true := by
    unfold Watcher.alive
    rcases h.looping with hpc | hpc <;> rw [hpc]
  have hleft : chunks.flatten ++ rest.take cfg.outCapacity ≠ chunks.flatten ++ rest := by
    intro heq
    have hlengths := congrArg List.length heq
    rw [List.length_append, List.length_append, hlength] at hlengths
    omega
  have hunsent : s.runner.pc ≠ .killMismatch := by
    rw [h.polls]
    nofun
  by_cases hzero : cfg.outCapacity = 0
  · rw [hzero, List.take_zero, List.append_nil] at hleft
    refine ⟨s, .refl, h.running, by rw [h.written]; exact hleft, by omega, hdetected, halive,
      h.unkilled, by rw [h.quiet]; nofun, hunsent⟩
  · refine ⟨effect cfg s (.write (rest.take cfg.outCapacity)), .single (moves_effect ?_ ?_ h.live),
      h.running, ?_, ?_, hdetected, halive, h.unkilled, by simp [effect, h.quiet], hunsent⟩
    · simp only [ordinary, decide_eq_true_eq, h.written]
      exact (List.prefix_append_right_inj _).mpr (List.take_prefix _ _)
    · simp only [enabled, decide_eq_true_eq, h.empty]
      refine ⟨h.running, ?_, by rw [List.length_nil, hlength]; omega⟩
      intro hnil
      rw [hnil, List.length_nil] at hlength
      omega
    · change s.log.written ++ rest.take cfg.outCapacity ≠ chunks.flatten ++ rest
      rw [h.written]
      exact hleft
    · change cfg.outCapacity ≤ (s.outPipe ++ rest.take cfg.outCapacity).length
      rw [h.empty, List.nil_append, hlength]

theorem stuck_of_long (hkill : cfg.killOnCompout = false) (hlimit : withinLimit cfg output.length)
    (hcut : Cut cfg chunks) (hpart : chunks.flatten <+: output)
    (hdiffers : differs (opened cfg.reference) 0 chunks = true)
    (hlong : chunks.flatten.length + cfg.outCapacity < output.length) :
    ∃ s, Reaches (step cfg) (fun s act => ordinary cfg output s act = true) (start cfg) s ∧
      Stuck cfg output s := by
  obtain ⟨front, chunk, back, rfl, hfront, hfirst⟩ := exists_first_difference hdiffers
  have hcut' : Cut cfg (front ++ [chunk]) := fun c hc => hcut c (List.mem_append_left _ hc)
  obtain ⟨hcutFront, hne, hsize, hroom⟩ := cut_append hcut'
  have hpart' : (front ++ [chunk]).flatten <+: output := by
    rw [List.flatten_append] at hpart
    exact (List.prefix_append _ _).trans hpart
  have hlong' : (front ++ [chunk]).flatten.length + cfg.outCapacity < output.length := by
    rw [List.flatten_append, List.length_append] at hlong
    omega
  rw [flatten_concat] at hpart'
  obtain ⟨s, hrun, hready⟩ := reaches_ready hkill hlimit hcutFront
    ((List.prefix_append _ _).trans hpart') hfront
  obtain ⟨s₁, hread, hready₁⟩ := ready_read hkill hready hfront hne hsize hroom hpart' hlimit
  rw [← flatten_concat] at hpart'
  obtain ⟨s₂, hwrite, hstuck⟩ := stuck_behind_difference hready₁ hfirst hpart' hlong'
  exact ⟨s₂, (hrun.trans hread).trans hwrite, hstuck⟩

end

theorem selfExiting_run {s s' : Sys} {output : List UInt8}
    (h : Reaches (step cfg) (fun s act => ordinary cfg output s act = true) s s') :
    Reaches (step cfg) (selfExiting cfg output) s s' :=
  h.weaken fun _ _ => .inl

/-- Every run gives `JS_WRONG` and none gets stuck, exactly if the binary is killed at the
difference or what is left of the output behind it always fits into `out_pipe`. -/
theorem wrong_in_every_run_iff (cfg : Config) (output : List UInt8)
    (hlimit : withinLimit cfg output.length) (hdiff : DiffersAtByte cfg output) :
    WrongInEveryRun cfg output ↔ cfg.killOnCompout = true ∨ RestFits cfg output := by
  constructor
  · intro h
    by_contra hnot
    rw [not_or, Bool.not_eq_true] at hnot
    refine hnot.2 fun chunks hcut hpart hdiffers => ?_
    by_contra hlong
    rw [Nat.not_le] at hlong
    obtain ⟨s, hrun, hstuck⟩ := stuck_of_long hnot.1 hlimit hcut hpart hdiffers hlong
    exact (h s (selfExiting_run hrun)).1 hstuck
  · intro hsafe s hrun
    obtain ⟨hrefused, hstuck, hordinary⟩ := refused_run hdiff hlimit hsafe hrun
    exact ⟨hstuck, fun site hreturned => wrong_of_refused hrefused hordinary hreturned⟩

theorem carries_of_same {chunks : List (List UInt8)} {d : Descriptor} (hd : d.flags = oRdwr)
    (stage : ℕ) (hcr : cr ∉ chunks.flatten) (hsame : differs d stage chunks = false) :
    Carries d (advance d stage chunks) chunks.flatten [] := by
  induction chunks generalizing d stage with
  | nil => exact ⟨rfl, fun _ => Iff.rfl⟩
  | cons chunk chunks ih =>
    rw [List.flatten_cons, List.mem_append, not_or] at hcr
    rw [differs, Bool.or_eq_false_iff, bne_eq_false_iff_eq] at hsame
    have hcarries := (chunk_exact hd hcr.1 stage).1 hsame.1
    exact hcarries.append (ih (hcarries.1.trans hd) (stage + 1) hcr.2 hsame.2)

/-- Of such an output, a part that nothing can complete to the reference has a byte that
differs. -/
theorem differsAtByte_of_text {output front : List UInt8} (hcr : cr ∉ output)
    (hfront : front <+: output) (htext : ∀ rest, text cfg.reference ≠ text (front ++ rest)) :
    DiffersAtByte cfg output := by
  rintro chunks - rfl
  by_contra hsame
  rw [Bool.not_eq_true] at hsame
  have hflags : (opened cfg.reference).flags = oRdwr := rfl
  obtain ⟨-, hcarries⟩ := carries_of_same hflags 0 hcr hsame
  obtain ⟨back, hback⟩ := hfront
  have hwhole := (hcarries (advance (opened cfg.reference) 0 chunks).remaining).mpr rfl
  rw [← hback, List.append_assoc] at hwhole
  exact htext _ hwhole

def patient : Config := { oneByte with killOnCompout := false }

theorem differsAtByte_patient (n : ℕ) : DiffersAtByte patient (List.replicate (n + 1) 98) := by
  have hcr : cr ∉ List.replicate (n + 1) (98 : UInt8) := by
    intro hmem
    exact absurd (List.eq_of_mem_replicate hmem) (by decide)
  have hfront : [98] <+: List.replicate (n + 1) (98 : UInt8) := ⟨List.replicate n 98, rfl⟩
  refine differsAtByte_of_text hcr hfront fun rest heq => ?_
  have hreference : text patient.reference = [97] := by decide
  have hpart : text ([98] ++ rest) <+: 98 :: withoutCr rest := List.rdropWhile_prefix _ _
  rw [← heq, hreference, List.cons_prefix_cons] at hpart
  exact absurd hpart.1 (by decide)

theorem wrong_in_every_run_iff_two_bytes :
    ∃ s, Reaches (step patient) (selfExiting patient [98, 98]) (start patient) s ∧
      s.log.written = [98, 98] ∧ s.log.compared = [98] ∧ s.Returns 0 .wrong := by
  have hloop : ∃ s, runWhere (step patient) (fun s act => ordinary patient [98, 98] s act = true)
      (start patient) (spawn ++ [.poll true, .send (.moved 1), .read .again, .splice (.moved 1),
        .wait true 0, .write [98], .poll true, .read (.bytes 1), .write [98], .exit 0,
        .wait true 0, .flush .again, .test .eagain, .poll true, .read (.bytes 1)]) = some s ∧
        s.runner.pc = .flushOut 0 ∧ s.outPipe = [] ∧ s.groupKilled = false ∧ s.runner.sent = 1 ∧
        s.log.written = [98, 98] ∧ s.log.compared = [98] :=
    ⟨_, rfl, rfl, rfl, rfl, rfl, rfl, rfl⟩
  obtain ⟨s, hs, hpc, hempty, hlive, hsent, hwritten, hcompared⟩ := hloop
  have hrun := (reaches_of_runWhere hs).trans
    (reaches_done (fun _ => rfl) (fun _ => rfl) hpc hempty hlive (by rw [hsent]; rfl))
  have hfits : RestFits patient [98, 98] := by
    intro chunks _ _ _
    change 2 ≤ chunks.flatten.length + 16
    omega
  have hevery := (wrong_in_every_run_iff patient [98, 98] (by decide)
    (differsAtByte_patient 1)).mpr (.inr hfits)
  have hexits := selfExiting_run hrun
  exact ⟨_, hexits, hwritten, hcompared, (hevery _ hexits).2 .done rfl⟩

/-- Without the early kill a wrong answer of forty bytes ends as a wall clock timeout, and with
it a wrong answer may end as a runtime error. -/
theorem wall_timelimit_without_kill :
    DiffersAtByte patient (List.replicate 40 98) ∧
      (∃ s, Reaches (step patient) (selfExiting patient (List.replicate 40 98)) (start patient) s ∧
        s.Returns 0 .wallTimelimit) ∧
      ¬ WrongInEveryRun patient (List.replicate 40 98) ∧ DiffersAtByte oneByte [98] ∧
      ∃ s, Reaches (step oneByte) (fun s act => tolerated oneByte [98] s act = true)
        (start oneByte) s ∧ s.Returns 0 .runtime := by
  have hloop : ∃ s₀ s₁ s, runWhere (step patient)
      (fun s act => ordinary patient (List.replicate 40 98) s act = true) (start patient)
      (spawn ++ [.poll true, .send (.moved 1), .read .again, .splice (.moved 1), .wait true 0,
        .write [98], .poll true, .read (.bytes 1), .write (List.replicate 16 98)]) = some s₀ ∧
      Stuck patient (List.replicate 40 98) s₀ ∧ step patient s₀ .alarm = some s₁ ∧
      runWhere (step patient)
        (fun s act => ordinary patient (List.replicate 40 98) s act = true) s₁
        [.handle .alrm, .die 9, .wait true 0, .flush .again, .test .eagain, .poll true,
          .read (.bytes 16)] = some s ∧ s.runner.pc = .flushOut 0 ∧ s.outPipe = [] ∧
        s.groupKilled = false ∧ s.runner.sent = 1 ∧ s.runner.result = some .wallTimelimit :=
    ⟨_, _, _, rfl, ⟨rfl, by decide, by decide, rfl, rfl, rfl, by decide, by decide⟩, rfl, rfl, rfl,
      rfl, rfl, rfl, rfl⟩
  obtain ⟨s₀, s₁, s, hs₀, hstuck, halarm, hs, hpc, hempty, hlive, hsent, hresult⟩ := hloop
  have hbefore := selfExiting_run (reaches_of_runWhere hs₀)
  have hbehind := (reaches_of_runWhere hs).trans
    (reaches_done (fun _ => rfl) (fun _ => rfl) hpc hempty hlive (by rw [hsent]; rfl))
  have hrun := (hbefore.tail ⟨.alarm, .inr ⟨rfl, hstuck⟩, halarm⟩).trans
    (selfExiting_run hbehind)
  exact ⟨differsAtByte_patient 39, ⟨_, hrun, .done, rfl, rfl, hresult⟩,
    fun hevery => (hevery s₀ hbefore).1 hstuck, differsAtByte_patient 0, reaches_lateKill⟩

end KudosJudge.RunSystem
