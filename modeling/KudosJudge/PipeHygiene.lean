import KudosJudge.PipeConservation

set_option autoImplicit false

namespace KudosJudge.RunSystem
open CompareOutput Results SandboxWatcher RunnerLoop Runs

variable {cfg : Config}

/-- No call fails other than with `EAGAIN`, and nobody kills the watcher. The
`kill` calls are free to find that a process has ended, but for one of a handler whose failure
the flush loop would take for its own. -/
def unfailing : Act → Bool
  | .clone outcome => outcome = .cloned
  | .checkFds ok => ok
  | .poll ok => ok
  | .send t => t ≠ .error
  | .read o => o ≠ .error
  | .setup ok => ok
  | .fork ok => ok
  | .firstWait ok => ok
  | .splice t => t ≠ .error
  | .wait ok _ => ok
  | .flush t => t ≠ .error
  | .test errno => errno = .eagain
  | .killWatcher _ => false
  | _ => true

def behindLoop : RunnerLoop.Pc → Bool
  | .flushOut _ => true
  | .flushIn => true
  | .returned _ => true
  | _ => false

def gone : SandboxWatcher.Pc → Bool
  | .ended _ => true
  | .reaped _ => true
  | _ => false

/-- The runner is in its loop or has just left it. -/
def Within (r : Runner) : Prop :=
  behindLoop r.pc = false ∨ (r.pc = .flushOut 0 ∧ r.watcherAlive = false)

theorem Resumes.within {r r' : Runner} (h : Resumes cfg r r') : Within r' := by
  cases h with
  | poll alive => exact .inl rfl
  | send unsent => exact .inl rfl
  | read more equal => exact .inl rfl
  | finish decided dead => exact .inr ⟨rfl, dead⟩

theorem checkLimit_within (r : Runner) : Within (r.checkLimit cfg) := by
  unfold Runner.checkLimit
  split_ifs
  · exact .inl rfl
  · exact (top_resumes r).within

theorem onRead_within (r : Runner) (outPipe : List UInt8) (o : Read) :
    Within (r.onRead cfg outPipe o) := by
  cases o with
  | bytes n =>
    simp only [Runner.onRead, Runner.onChunk]
    split_ifs
    · exact .inl rfl
    · exact checkLimit_within _
  | eof => exact (top_resumes _).within
  | again =>
    simp only [Runner.onRead]
    split_ifs with halive
    · exact (top_resumes r).within
    · exact .inr ⟨rfl, Bool.eq_false_iff.mpr halive⟩
  | error =>
    simp only [Runner.onRead]
    split_ifs
    · exact .inl rfl
    · exact (top_resumes _).within

theorem onSend_within (r : Runner) (t : Transfer) : Within (r.onSend cfg t) := by
  cases t with
  | moved n => exact (check_resumes cfg _).within
  | again => exact (check_resumes cfg r).within
  | error =>
    simp only [Runner.onSend]
    split_ifs
    · exact .inl rfl
    · exact (check_resumes cfg _).within

theorem onPoll_within (r : Runner) (p : Poll) : Within (r.onPoll cfg p) := by
  cases p <;> exact (toSend_resumes _).within

theorem onKill_within {r : Runner} (h : behindLoop r.pc = false) : Within (r.onKill cfg) := by
  unfold Runner.onKill
  split
  · exact (check_resumes cfg r).within
  · exact checkLimit_within r
  · exact (top_resumes _).within
  · exact (top_resumes r).within
  · exact .inl h

structure Hygienic (cfg : Config) (r : Runner) (w : Watcher) (b : Binary)
    (inPipe outPipe : List UInt8) : Prop where
  collected : r.watcherAlive = false → ∃ st, w.pc = .reaped st
  behind : behindLoop r.pc = true → r.watcherAlive = false
  drained : r.pc = .flushIn ∨ (∃ site, r.pc = .returned site) → outPipe = []
  returned : ∀ site, r.pc = .returned site → site = .done ∧ cfg.input.length ≤ r.sent
  waited : flushing w.pc = true → ∃ st, b = .reaped st
  flushed : gone w.pc = true → r.sent = cfg.input.length ∧ inPipe = []

section

variable {r r' : Runner} {w w' : Watcher} {b b' : Binary}
  {inPipe inPipe' outPipe outPipe' : List UInt8}

theorem Within.placed (h : Within r) : (behindLoop r.pc = true → r.watcherAlive = false) ∧
    r.pc ≠ .flushIn ∧ ∀ site, r.pc ≠ .returned site := by
  rcases h with hin | ⟨hpc, hdead⟩
  · refine ⟨fun hbehind => ?_, fun heq => ?_, fun site heq => ?_⟩
    · exact absurd (hin.symm.trans hbehind) Bool.false_ne_true
    · rw [heq] at hin
      cases hin
    · rw [heq] at hin
      cases hin
  · rw [hpc]
    exact ⟨fun _ => hdead, nofun, fun _ => nofun⟩

theorem Within.hygienic (h : Within r)
    (collected : r.watcherAlive = false → ∃ st, w.pc = .reaped st)
    (waited : flushing w.pc = true → ∃ st, b = .reaped st)
    (flushed : gone w.pc = true → r.sent = cfg.input.length ∧ inPipe = []) :
    Hygienic cfg r w b inPipe outPipe := by
  obtain ⟨hbehind, hflushIn, hreturned⟩ := h.placed
  refine ⟨collected, hbehind, fun hplace => ?_, fun site heq => absurd heq (hreturned site), waited,
    flushed⟩
  rcases hplace with heq | ⟨site, heq⟩
  · exact absurd heq hflushIn
  · exact absurd heq (hreturned site)

theorem Hygienic.watching (h : Hygienic cfg r w b inPipe outPipe) (hbefore : flushing w.pc = false)
    (hafter : gone w'.pc = false) (hwaited : flushing w'.pc = true → ∃ st, b' = .reaped st) :
    Hygienic cfg r w' b' inPipe' outPipe := by
  have hcollected : r.watcherAlive = false → ∃ st, w'.pc = .reaped st := by
    intro hdead
    obtain ⟨st, hst⟩ := h.collected hdead
    rw [hst] at hbefore
    cases hbefore
  refine ⟨hcollected, h.behind, h.drained, h.returned, hwaited, fun hgone => ?_⟩
  rw [hafter] at hgone
  cases hgone

theorem not_gone {pc : SandboxWatcher.Pc} (h : flushing pc = false) : gone pc = false := by
  cases pc with
  | ended st => cases h
  | reaped st => cases h
  | _ => rfl

theorem Hygienic.onward (h : Hygienic cfg r w b inPipe outPipe) (hbefore : flushing w.pc = false)
    (hafter : flushing w'.pc = false) : Hygienic cfg r w' b' inPipe' outPipe :=
  h.watching hbefore (not_gone hafter) fun hflushing =>
    absurd (hafter.symm.trans hflushing) Bool.false_ne_true

theorem Hygienic.samePc (h : Hygienic cfg r w b inPipe outPipe) (hpc : w'.pc = w.pc) :
    Hygienic cfg r w' b inPipe outPipe :=
  ⟨by rw [hpc]; exact h.collected, h.behind, h.drained, h.returned, by rw [hpc]; exact h.waited,
    by rw [hpc]; exact h.flushed⟩

theorem Hygienic.binary (h : Hygienic cfg r w b inPipe outPipe) (hb : ∀ st, b ≠ .reaped st) :
    Hygienic cfg r w b' inPipe outPipe' := by
  have hbefore : flushing w.pc = false := by
    cases hflushing : flushing w.pc with
    | false => rfl
    | true =>
      obtain ⟨st, hst⟩ := h.waited hflushing
      exact absurd hst (hb st)
  refine ⟨h.collected, h.behind, fun hplace => ?_, h.returned, fun hnot => ?_, h.flushed⟩
  · have hdead : r.watcherAlive = false := by
      apply h.behind
      rcases hplace with hpc | ⟨site, hpc⟩ <;> rw [hpc] <;> rfl
    obtain ⟨st, hst⟩ := h.collected hdead
    rw [hst] at hbefore
    cases hbefore
  · rw [hbefore] at hnot
    cases hnot

end

theorem Hygienic.flushOut {r : Runner} {w : Watcher} {b : Binary}
    {inPipe outPipe outPipe' : List UInt8} (h : Hygienic cfg r w b inPipe outPipe)
    (hbehind : behindLoop r.pc = true) (blockingCount : ℕ) :
    Hygienic cfg { r with pc := .flushOut blockingCount } w b inPipe outPipe' where
  collected := h.collected
  behind := fun _ => h.behind hbehind
  drained := fun hplace => by rcases hplace with heq | ⟨site, heq⟩ <;> cases heq
  returned := fun _ heq => by cases heq
  waited := h.waited
  flushed := h.flushed

theorem leave_returned {r : Runner} {site : Return} (hpc : r.pc = .flushIn)
    (h : (r.leave cfg).pc = .returned site) :
    site = .done ∧ cfg.input.length ≤ (r.leave cfg).sent := by
  unfold Runner.leave at h ⊢
  split_ifs at h ⊢ with hall
  · refine ⟨(RunnerLoop.Pc.returned.inj h).symm, ?_⟩
    simp only [Runner.sent]
    omega
  · rw [hpc] at h
    cases h

theorem onFlushIn_returned {r : Runner} {t : Transfer} {site : Return} (hpc : r.pc = .flushIn)
    (ht : t ≠ .error) (h : (r.onFlushIn cfg t).pc = .returned site) :
    site = .done ∧ cfg.input.length ≤ (r.onFlushIn cfg t).sent := by
  cases t with
  | moved n => exact leave_returned hpc h
  | again => exact leave_returned hpc h
  | error => exact absurd rfl ht

def Sys.Hygienic (cfg : Config) (s : Sys) : Prop :=
  RunSystem.Hygienic cfg s.runner s.watcher s.binary s.inPipe s.outPipe

theorem hygienic_start (cfg : Config) : (start cfg).Hygienic cfg where
  collected := fun h => nomatch h
  behind := fun h => nomatch h
  drained := fun _ => rfl
  returned := fun _ h => nomatch h
  waited := fun h => nomatch h
  flushed := fun h => nomatch h

section

variable {s : Sys}

theorem top_before (w : Watcher) (size : ℕ) : flushing (w.top size).pc = false := by
  unfold Watcher.top
  split_ifs <;> rfl

theorem receive_pc (w : Watcher) (sig : Sig) : (w.receive sig).pc = w.pc := by
  unfold Watcher.receive
  split_ifs <;> rfl

theorem onSignal_pc (w : Watcher) (sig : Sig) (killed : Bool) :
    (w.onSignal sig killed).pc = w.pc := by
  cases killed <;> cases sig <;> rfl

theorem enabled_setup {ok : Bool} (h : enabled cfg s (.setup ok) = true) :
    ∃ call calls, s.watcher.pc = .setup (call :: calls) := by
  simp only [enabled] at h
  split at h
  · rename_i call calls hpc
    exact ⟨call, calls, hpc⟩
  · cases h

theorem enabled_kill (h : enabled cfg s .kill = true) : behindLoop s.runner.pc = false := by
  simp only [enabled, decide_eq_true_eq, List.mem_cons, List.not_mem_nil, or_false] at h
  rcases h with hpc | hpc | hpc | hpc <;> rw [hpc] <;> rfl

def ofBinary : Act → Bool
  | .exec => true
  | .write _ => true
  | .stop _ _ => true
  | .exit _ => true
  | .die _ => true
  | _ => false

theorem enabled_binary {act : Act} (hact : ofBinary act = true) (hon : enabled cfg s act = true)
    (st : WaitStatus) : s.binary ≠ .reaped st := by
  intro hb
  cases act with
  | exec => simp [enabled, hb] at hon
  | write bytes => simp [enabled, hb] at hon
  | stop sig event => simp [enabled, hb] at hon
  | exit code => simp [enabled, hb] at hon
  | die sig => simp [enabled, hb, Binary.ended] at hon
  | _ => cases hact

theorem hygienic_poll (h : s.Hygienic cfg) : (effect cfg s (.poll true)).Hygienic cfg := by
  have hsent : (s.runner.onPoll cfg (pollResult s true)).sent = s.runner.sent := onPoll_sent ..
  have hwithin : Within (s.runner.onPoll cfg (pollResult s true)) := onPoll_within ..
  cases hpc : s.watcher.pc with
  | ended st =>
    have hreap : (reap s.watcher true).pc = .reaped st := by simp only [reap, hpc]
    obtain ⟨hall, hempty⟩ := h.flushed (by rw [hpc]; rfl)
    exact hwithin.hygienic (fun _ => ⟨st, hreap⟩) (fun _ => h.waited (by rw [hpc]; rfl))
      (fun _ => ⟨hsent.trans hall, hempty⟩)
  | _ =>
    have hresult : pollResult s true = .unchanged := by simp only [pollResult, hpc, if_true]
    have hreap : reap s.watcher true = s.watcher := by simp only [reap, hpc]
    change Hygienic cfg (s.runner.onPoll cfg (pollResult s true)) (reap s.watcher true) s.binary
      s.inPipe s.outPipe
    rw [hreap]
    refine hwithin.hygienic ?_ h.waited fun hgone => ?_
    · rw [hresult, (show (s.runner.onPoll cfg .unchanged).watcherAlive = _ from
        (toSend_resumes _).kept.alive)]
      exact h.collected
    · exact ⟨hsent.trans (h.flushed hgone).1, (h.flushed hgone).2⟩

/-- Once the watcher is gone there is nothing left to send. -/
theorem hygienic_sent (h : s.Hygienic cfg) {t : Transfer} (hsendable : sendable cfg s t = true)
    (hgone : gone s.watcher.pc = true) :
    (runnerOnSend cfg s.runner t).sent = cfg.input.length ∧
      s.inPipe ++ (cfg.input.drop s.runner.sent).take (Transfer.count t) = [] := by
  obtain ⟨hall, hempty⟩ := h.flushed hgone
  have hcount := sendable_count hsendable
  have hzero : Transfer.count t = 0 := by omega
  rw [(kept_runnerOnSend ..).sent, hzero, hall, hempty]
  exact ⟨rfl, rfl⟩

theorem hygienic_send (h : s.Hygienic cfg) {t : Transfer} (ht : t ≠ .error)
    (hon : enabled cfg s (.send t) = true) : (effect cfg s (.send t)).Hygienic cfg := by
  simp only [enabled, decide_eq_true_eq] at hon
  obtain ⟨hpc, hsendable⟩ := hon
  have hkept : Kept _ s.runner (runnerOnSend cfg s.runner t) := kept_runnerOnSend ..
  have hcollected : (runnerOnSend cfg s.runner t).watcherAlive = false →
      ∃ st, s.watcher.pc = .reaped st := by
    rw [hkept.alive]
    exact h.collected
  rcases hpc with hpc | hpc
  · refine Within.hygienic ?_ hcollected h.waited (hygienic_sent h hsendable)
    change Within (runnerOnSend cfg s.runner t)
    rw [runnerOnSend_loop hpc]
    exact onSend_within ..
  · have hdead := h.behind (by rw [hpc]; rfl)
    refine ⟨hcollected, fun _ => hkept.alive.trans hdead, fun _ => h.drained (.inl hpc), ?_,
      h.waited, hygienic_sent h hsendable⟩
    intro site hreturned
    change (runnerOnSend cfg s.runner t).pc = _ at hreturned
    change site = .done ∧ cfg.input.length ≤ (runnerOnSend cfg s.runner t).sent
    rw [runnerOnSend_flushIn hpc] at hreturned ⊢
    exact onFlushIn_returned hpc ht hreturned

theorem hygienic_flushOut (h : s.Hygienic cfg) {o : Read} (ho : o ≠ .error) {blockingCount : ℕ}
    (hpc : s.runner.pc = .flushOut blockingCount) (hreadable : readable s o = true) :
    (effect cfg s (.read o)).Hygienic cfg := by
  have hrunner : runnerOnRead cfg s.runner s.outPipe o = s.runner.onFlushOut blockingCount o := by
    simp only [runnerOnRead, hpc]
  have hbehind : behindLoop s.runner.pc = true := by rw [hpc]; rfl
  change Hygienic cfg (runnerOnRead cfg s.runner s.outPipe o) s.watcher s.binary s.inPipe
    (s.outPipe.drop (Read.count o))
  rw [hrunner]
  cases o with
  | bytes n => exact h.flushOut hbehind 0
  | eof => cases hreadable
  | again =>
    simp only [readable, decide_eq_true_eq] at hreadable
    simp only [Runner.onFlushOut]
    split_ifs
    · refine ⟨h.collected, fun _ => h.behind hbehind, fun _ => hreadable, fun _ heq => ?_, h.waited,
        h.flushed⟩
      cases heq
    · exact h.flushOut hbehind _
  | error => exact absurd rfl ho

theorem hygienic_read (h : s.Hygienic cfg) {o : Read} (ho : o ≠ .error)
    (hon : enabled cfg s (.read o) = true) : (effect cfg s (.read o)).Hygienic cfg := by
  simp only [enabled] at hon
  split at hon
  · rename_i hpc
    have hkept : Kept 0 s.runner (runnerOnRead cfg s.runner s.outPipe o) := kept_runnerOnRead ..
    refine Within.hygienic ?_ ?_ h.waited fun hgone => ⟨?_, (h.flushed hgone).2⟩
    · change Within (runnerOnRead cfg s.runner s.outPipe o)
      simp only [runnerOnRead, hpc]
      exact onRead_within ..
    · intro hdead
      exact h.collected (hkept.alive.symm.trans hdead)
    · exact hkept.sent.trans (h.flushed hgone).1
  · rename_i hpc
    exact hygienic_flushOut h ho hpc hon
  · cases hon

theorem hygienic_wait (h : s.Hygienic cfg) {memUsed : ℤ} (hpc : s.watcher.pc = .wait) :
    (effect cfg s (.wait true memUsed)).Hygienic cfg := by
  have hbefore : flushing s.watcher.pc = false := by rw [hpc]; rfl
  change Hygienic cfg s.runner (watcherOnWait cfg s.watcher s.binary true memUsed)
    (binaryOnWait s.binary true) s.inPipe s.outPipe
  cases hb : s.binary with
  | stopped sig event => exact h.onward hbefore (top_before ..)
  | zombie st => cases st with
    | stopped sig event => exact h.onward hbefore (top_before ..)
    | _ => exact h.watching hbefore rfl fun _ => ⟨_, rfl⟩
  | _ => exact h.onward hbefore (top_before ..)

theorem leave_gone {w : Watcher} (hpc : w.pc = .flush)
    (hgone : gone (w.leave cfg.input.length).pc = true) :
    cfg.input.length ≤
      (w.leave cfg.input.length).spliceSizeAcc + (w.leave cfg.input.length).flushAcc := by
  unfold Watcher.leave at hgone ⊢
  split_ifs at hgone ⊢ with hall
  · exact hall
  · rw [hpc] at hgone
    cases hgone

theorem onFlushRead_gone {w : Watcher} (hpc : w.pc = .flush) {t : Transfer} (ht : t ≠ .error)
    (hgone : gone (w.onFlushRead cfg.input.length t).pc = true) :
    cfg.input.length ≤ (w.onFlushRead cfg.input.length t).spliceSizeAcc +
      (w.onFlushRead cfg.input.length t).flushAcc := by
  cases t with
  | moved n => exact leave_gone hpc hgone
  | again =>
    rw [Watcher.onFlushRead, hpc] at hgone
    cases hgone
  | error => exact absurd rfl ht

theorem Conserved.emptied {r : Runner} {w : Watcher} {inPipe : List UInt8} {log : Log}
    (h : Conserved cfg r w inPipe log)
    (hall : cfg.input.length ≤ w.spliceSizeAcc + w.flushAcc) :
    r.sent = cfg.input.length ∧ inPipe = [] := by
  have hbytes := congrArg List.length h.bytes
  have hle := h.sent_le
  rw [Log.consumed, List.length_append, List.length_append, List.length_take,
    ← h.forwarded, ← h.discarded] at hbytes
  exact ⟨by omega, List.eq_nil_of_length_eq_zero (by omega)⟩

theorem Hygienic.flushes {r : Runner} {w w' : Watcher} {b : Binary}
    {inPipe inPipe' outPipe : List UInt8} (h : Hygienic cfg r w b inPipe outPipe)
    (hpc : w.pc = .flush)
    (hflushed : gone w'.pc = true → r.sent = cfg.input.length ∧ inPipe' = []) :
    Hygienic cfg r w' b inPipe' outPipe := by
  have hwaited := h.waited (by rw [hpc]; rfl)
  refine ⟨fun hdead => ?_, h.behind, h.drained, h.returned, fun _ => hwaited, hflushed⟩
  obtain ⟨st, hst⟩ := h.collected hdead
  rw [hpc] at hst
  cases hst

theorem hygienic_flush (h : s.Hygienic cfg) (hconserved : s.Conserved cfg) {t : Transfer}
    (ht : t ≠ .error) (hon : enabled cfg s (.flush t) = true) :
    (effect cfg s (.flush t)).Hygienic cfg := by
  have hafter := conserved_step hconserved hon
  simp only [enabled, decide_eq_true_eq] at hon
  exact h.flushes hon.1 fun hgone => hafter.emptied (onFlushRead_gone hon.1 ht hgone)

theorem hygienic_test (h : s.Hygienic cfg) (hconserved : s.Conserved cfg)
    (hon : enabled cfg s (.test .eagain) = true) :
    (effect cfg s (.test .eagain)).Hygienic cfg := by
  have hafter := conserved_step hconserved hon
  simp only [enabled, decide_eq_true_eq] at hon
  refine h.flushes hon.1 fun hgone => hafter.emptied ?_
  exact leave_gone (w := { s.watcher with failedRead := none }) hon.1 hgone

theorem hygienic_step (h : s.Hygienic cfg) (hconserved : s.Conserved cfg) {act : Act}
    (hok : unfailing act = true) (hon : enabled cfg s act = true) :
    (effect cfg s act).Hygienic cfg := by
  cases act with
  | clone outcome =>
    simp only [unfailing, decide_eq_true_eq] at hok
    simp only [enabled, decide_eq_true_eq] at hon
    subst hok
    have hwatcher : Hygienic cfg s.runner (watcherOnClone cfg s.watcher .cloned) s.binary s.inPipe
        s.outPipe := h.onward (by rw [hon.2]; rfl) rfl
    exact Within.hygienic (.inl rfl) hwatcher.collected hwatcher.waited hwatcher.flushed
  | checkFds ok =>
    obtain rfl : ok = true := hok
    exact Within.hygienic (.inl rfl) h.collected h.waited h.flushed
  | poll ok =>
    obtain rfl : ok = true := hok
    exact hygienic_poll h
  | send t => exact hygienic_send h (by simpa [unfailing] using hok) hon
  | kill =>
    have hkept : Kept 0 s.runner (s.runner.onKill cfg) := kept_onKill ..
    have hwatcher := h.samePc (receive_pc s.watcher .usr2)
    exact (onKill_within (enabled_kill hon)).hygienic
      (fun hdead => hwatcher.collected (hkept.alive.symm.trans hdead))
      hwatcher.waited
      (fun hgone => ⟨hkept.sent.trans (hwatcher.flushed hgone).1, (hwatcher.flushed hgone).2⟩)
  | read o => exact hygienic_read h (by simpa [unfailing] using hok) hon
  | setup ok =>
    obtain rfl : ok = true := hok
    obtain ⟨call, calls, hpc⟩ := enabled_setup hon
    have hafter : flushing (watcherOnSetup s.watcher true).pc = false := by
      simp only [watcherOnSetup, hpc, Watcher.onSetup, flushing]
    exact h.onward (by rw [hpc]; rfl) hafter
  | fork ok =>
    obtain rfl : ok = true := hok
    simp only [enabled, decide_eq_true_eq] at hon
    exact h.onward (by rw [hon]; rfl) rfl
  | startWatching =>
    simp only [enabled, decide_eq_true_eq] at hon
    exact h.onward (by rw [hon]; rfl) rfl
  | firstWait ok =>
    obtain rfl : ok = true := hok
    simp only [enabled, decide_eq_true_eq] at hon
    exact h.onward (by rw [hon.1]; rfl) (top_before ..)
  | splice t =>
    simp only [enabled, decide_eq_true_eq] at hon
    cases t with
    | moved n => exact h.onward (by rw [hon.1]; rfl) rfl
    | again => exact h.onward (by rw [hon.1]; rfl) rfl
    | error => cases hok
  | wait ok memUsed =>
    obtain rfl : ok = true := hok
    simp only [enabled, decide_eq_true_eq] at hon
    exact hygienic_wait h hon
  | flush t => exact hygienic_flush h hconserved (by simpa [unfailing] using hok) hon
  | test errno =>
    simp only [unfailing, decide_eq_true_eq] at hok
    subst hok
    exact hygienic_test h hconserved hon
  | handle sig => exact h.samePc (onSignal_pc ..)
  | alarm => exact h.samePc (receive_pc s.watcher .alrm)
  | killWatcher sig => cases hok
  | exec => exact h.binary (enabled_binary rfl hon)
  | write bytes => exact h.binary (enabled_binary rfl hon)
  | stop sig event => exact h.binary (enabled_binary rfl hon)
  | exit code => exact h.binary (enabled_binary rfl hon)
  | die sig => exact h.binary (enabled_binary rfl hon)

end

theorem hygienic_run {s : Sys}
    (hrun : Reaches (step cfg) (fun _ act => unfailing act = true) (start cfg) s) :
    s.Hygienic cfg := by
  have hboth : s.Conserved cfg ∧ s.Hygienic cfg := by
    apply hrun.invariant (fun s => s.Conserved cfg ∧ s.Hygienic cfg)
    · exact ⟨conserved_start cfg, hygienic_start cfg⟩
    · intro s act s' h hok hstep
      obtain ⟨hon, -, rfl⟩ := step_cases hstep
      exact ⟨conserved_step h.1 hon, hygienic_step h.2 h.1 hok hon⟩
  exact hboth.2

/-- In a run without failing calls the input is conserved in every state, the
watcher leaves its flush loop with the whole input sent and taken, and the runner
returns with both pipes empty. -/
theorem run_leaves_pipes_empty (cfg : Config) (s : Sys)
    (hrun : Reaches (step cfg) (fun _ act => unfailing act = true) (start cfg) s) :
    s.log.forwarded ++ s.log.discarded ++ s.inPipe = cfg.input.take s.runner.sent ∧
      (gone s.watcher.pc = true → s.runner.sent = cfg.input.length ∧ s.inPipe = []) ∧
      ∀ site, s.runner.pc = .returned site → site.code = 0 → s.inPipe = [] ∧ s.outPipe = [] := by
  have hconserved := conserved_run hrun (conserved_start cfg)
  have h := hygienic_run hrun
  refine ⟨hconserved.bytes, h.flushed, fun site hreturned _ => ?_⟩
  obtain ⟨st, hst⟩ := h.collected (h.behind (by rw [hreturned]; rfl))
  exact ⟨(h.flushed (by rw [hst]; rfl)).2, h.drained (.inr ⟨site, hreturned⟩)⟩

def oneByte : Config where
  input := [7]
  reference := [97]
  killOnCompout := true
  outputSizeLimitMb := 50
  memLimitMb := 64
  useERFS := false
  inCapacity := 16
  outCapacity := 16
  staleWatcherResult := .unknown
  staleCompResult := .unknown

def spawn : List Act :=
  [.clone .cloned, .checkFds true] ++ List.replicate 15 (.setup true) ++
    [.fork true, .startWatching, .exec, .firstWait true]

def oneByteRun : List Act :=
  spawn ++ [.poll true, .send (.moved 1), .read .again, .splice (.moved 1), .wait true 0,
    .write [97], .poll true, .read (.bytes 1), .exit 0, .wait true 0, .flush .again,
    .test .eagain, .poll true, .read .again]

theorem run_leaves_pipes_empty_oneByte :
    ∃ s, Reaches (step oneByte) (fun _ act => unfailing act = true) (start oneByte) s ∧
      s.runner.pc = .returned .done ∧ s.log.forwarded = [7] ∧ s.log.written = [97] ∧
      s.inPipe = [] ∧ s.outPipe = [] := by
  have hloop : ∃ s, runWhere (step oneByte) (fun _ act => unfailing act = true) (start oneByte)
      oneByteRun = some s ∧ s.runner.pc = .flushOut 0 ∧ s.outPipe = [] ∧
        s.groupKilled = false ∧ s.runner.sent = 1 ∧ s.log.forwarded = [7] ∧
        s.log.written = [97] :=
    ⟨_, rfl, rfl, rfl, rfl, rfl, rfl, rfl⟩
  obtain ⟨s, hs, hpc, hempty, hlive, hsent, hforwarded, hwritten⟩ := hloop
  have hrun := (reaches_of_runWhere hs).trans
    (reaches_done (fun _ => rfl) (fun _ => rfl) hpc hempty hlive (by rw [hsent]; rfl))
  obtain ⟨-, -, hreturned⟩ := run_leaves_pipes_empty oneByte _ hrun
  obtain ⟨hin, hout⟩ := hreturned .done rfl rfl
  exact ⟨_, hrun, rfl, hforwarded, hwritten, hin, hout⟩

/-- The calls of the watcher whose failure ends it, and its death by a signal. -/
def fatal : Act → Bool
  | .setup ok => !ok
  | .fork ok => !ok
  | .firstWait ok => !ok
  | .splice t => t = .error
  | .wait ok _ => !ok
  | .flush t => t = .error
  | .test errno => errno = .esrch
  | .killWatcher _ => true
  | _ => false

section

variable {s : Sys} {act : Act}

theorem fatal_consumed (hfatal : fatal act = true) :
    (effect cfg s act).log.consumed = s.log.consumed := by
  cases act with
  | splice t =>
    simp only [fatal, decide_eq_true_eq] at hfatal
    subst hfatal
    simp [effect, Log.consumed, Transfer.count]
  | flush t =>
    simp only [fatal, decide_eq_true_eq] at hfatal
    subst hfatal
    simp [effect, Log.consumed, Transfer.count]
  | setup ok => rfl
  | fork ok => rfl
  | firstWait ok => rfl
  | wait ok memUsed => rfl
  | test errno => rfl
  | killWatcher sig => rfl
  | _ => cases hfatal

/-- A setup call without a check does not end the watcher when it fails. -/
theorem fatal_gone (hfatal : fatal act = true) (hon : enabled cfg s act = true)
    (hdead : (effect cfg s act).watcher.alive = false) :
    gone (effect cfg s act).watcher.pc = true := by
  cases act with
  | setup ok =>
    obtain ⟨call, calls, hpc⟩ := enabled_setup hon
    simp only [effect, watcherOnSetup, hpc, Watcher.onSetup] at hdead ⊢
    split at hdead
    · rfl
    · cases hdead
  | fork ok =>
    cases ok with
    | false => rfl
    | true => cases hfatal
  | firstWait ok =>
    cases ok with
    | false => rfl
    | true => cases hfatal
  | splice t =>
    simp only [fatal, decide_eq_true_eq] at hfatal
    subst hfatal
    rfl
  | wait ok memUsed =>
    cases ok with
    | false => simp only [effect, watcherOnWait, Watcher.exit, gone]
    | true => cases hfatal
  | flush t =>
    simp only [fatal, decide_eq_true_eq] at hfatal
    subst hfatal
    rfl
  | test errno =>
    simp only [fatal, decide_eq_true_eq] at hfatal
    subst hfatal
    rfl
  | killWatcher sig => rfl
  | _ => cases hfatal

theorem gone_step (hgone : gone s.watcher.pc = true) (hon : enabled cfg s act = true) :
    gone (effect cfg s act).watcher.pc = true ∧
      (effect cfg s act).log.consumed = s.log.consumed := by
  have hnot : ∀ pc, s.watcher.pc = pc → gone pc = true := fun pc hpc => hpc ▸ hgone
  cases act with
  | clone outcome =>
    simp only [enabled, decide_eq_true_eq] at hon
    cases hnot _ hon.2
  | checkFds ok => exact ⟨hgone, rfl⟩
  | poll ok =>
    refine ⟨?_, rfl⟩
    simp only [effect, reap]
    split
    · rfl
    · exact hgone
  | send t => exact ⟨hgone, rfl⟩
  | kill => exact ⟨(receive_pc s.watcher .usr2).symm ▸ hgone, rfl⟩
  | read o =>
    obtain ⟨hforwarded, hdiscarded⟩ := logRead_input s.log s.runner s.outPipe o
    refine ⟨hgone, ?_⟩
    change (logRead s.log s.runner s.outPipe o).consumed = _
    rw [Log.consumed, hforwarded, hdiscarded, Log.consumed]
  | setup ok =>
    obtain ⟨call, calls, hpc⟩ := enabled_setup hon
    cases hnot _ hpc
  | fork ok =>
    simp only [enabled, decide_eq_true_eq] at hon
    cases hnot _ hon
  | startWatching =>
    simp only [enabled, decide_eq_true_eq] at hon
    cases hnot _ hon
  | firstWait ok =>
    simp only [enabled, decide_eq_true_eq] at hon
    cases hnot _ hon.1
  | splice t =>
    simp only [enabled, decide_eq_true_eq] at hon
    cases hnot _ hon.1
  | wait ok memUsed =>
    simp only [enabled, decide_eq_true_eq] at hon
    cases hnot _ hon
  | flush t =>
    simp only [enabled, decide_eq_true_eq] at hon
    cases hnot _ hon.1
  | test errno =>
    simp only [enabled, decide_eq_true_eq] at hon
    cases hnot _ hon.1
  | handle sig => exact ⟨(onSignal_pc s.watcher sig _).symm ▸ hgone, rfl⟩
  | alarm => exact ⟨(receive_pc s.watcher .alrm).symm ▸ hgone, rfl⟩
  | killWatcher sig => exact ⟨rfl, rfl⟩
  | exec => exact ⟨hgone, rfl⟩
  | write bytes => exact ⟨hgone, rfl⟩
  | stop sig event => exact ⟨hgone, rfl⟩
  | exit code => exact ⟨hgone, rfl⟩
  | die sig => exact ⟨hgone, rfl⟩

def Complete (cfg : Config) (r : Runner) : Prop :=
  r.pc = .returned .done → cfg.input.length ≤ r.sent

theorem Within.complete {r : Runner} (h : Within r) : Complete cfg r :=
  fun hpc => absurd hpc (h.placed.2.2 _)

theorem complete_step (h : Complete cfg s.runner) (hon : enabled cfg s act = true) :
    Complete cfg (effect cfg s act).runner := by
  cases act with
  | clone outcome =>
    intro hpc
    cases outcome <;> cases hpc
  | checkFds ok =>
    intro hpc
    cases ok <;> cases hpc
  | poll ok => exact (onPoll_within ..).complete
  | send t =>
    simp only [enabled, decide_eq_true_eq] at hon
    change Complete cfg (runnerOnSend cfg s.runner t)
    rcases hon.1 with hpc | hpc
    · rw [runnerOnSend_loop hpc]
      exact (onSend_within ..).complete
    · rw [runnerOnSend_flushIn hpc]
      intro hreturned
      by_cases ht : t = .error
      · subst ht
        cases hreturned
      · exact (onFlushIn_returned hpc ht hreturned).2
  | kill =>
    exact (onKill_within (enabled_kill hon)).complete
  | read o =>
    change Complete cfg (runnerOnRead cfg s.runner s.outPipe o)
    unfold runnerOnRead
    split
    · intro hpc
      cases o with
      | again =>
        simp only [Runner.onFlushOut] at hpc
        split_ifs at hpc
      | _ => cases hpc
    · exact (onRead_within ..).complete
  | _ => exact h

end

theorem complete_run {s : Sys} (hrun : Reaches (step cfg) (fun _ _ => True) (start cfg) s) :
    Complete cfg s.runner :=
  hrun.invariant (fun s => Complete cfg s.runner) nofun fun _ _ _ h _ hstep => by
    obtain ⟨hon, -, rfl⟩ := step_cases hstep
    exact complete_step h hon

/-- After a fatal step of the watcher the runner returns from its last statement
with `in_pipe` empty exactly when the watcher had taken the whole input before. -/
theorem failed_run_clean_iff (cfg : Config) (s₀ s₁ s₂ : Sys) (act : Act) (site : Return)
    (hrun : Reaches (step cfg) (fun _ _ => True) (start cfg) s₀) (hfatal : fatal act = true)
    (hdie : step cfg s₀ act = some s₁) (hdead : s₁.watcher.alive = false)
    (hrest : Reaches (step cfg) (fun _ _ => True) s₁ s₂)
    (hreturned : s₂.runner.pc = .returned site) :
    (s₀.log.consumed = cfg.input → s₂.inPipe = []) ∧
      (site = .done → (s₂.inPipe = [] ↔ s₀.log.consumed = cfg.input)) := by
  obtain ⟨hon, -, rfl⟩ := step_cases hdie
  have hcomplete := complete_run hrun
  obtain ⟨⟨-, hconsumed⟩, hcomplete⟩ := hrest.invariant
    (fun s => (gone s.watcher.pc = true ∧ s.log.consumed = s₀.log.consumed) ∧
      Complete cfg s.runner)
    ⟨⟨fatal_gone hfatal hon hdead, fatal_consumed hfatal⟩, complete_step hcomplete hon⟩
    fun s act _ ⟨⟨hgone, hlog⟩, h⟩ _ hstep => by
      obtain ⟨hon, -, rfl⟩ := step_cases hstep
      obtain ⟨hgone', hlog'⟩ := gone_step hgone hon
      exact ⟨⟨hgone', hlog'.trans hlog⟩, complete_step h hon⟩
  have hconserved := conserved_run hrest
    (conserved_step (conserved_run hrun (conserved_start cfg)) hon)
  have hbytes := hconserved.bytes
  rw [hconsumed] at hbytes
  have henough : s₀.log.consumed = cfg.input → s₂.inPipe = [] := by
    intro hall
    have hlen := congrArg List.length hbytes
    rw [hall, List.length_append, List.length_take] at hlen
    exact List.eq_nil_of_length_eq_zero (by omega)
  refine ⟨henough, ?_⟩
  rintro rfl
  refine ⟨fun hempty => ?_, henough⟩
  rw [hempty, List.append_nil, List.take_of_length_le (hcomplete hreturned)] at hbytes
  exact hbytes

theorem failed_run_clean_iff_forwarded :
    ∃ s₀ s₁ s₂, Reaches (step oneByte) (fun _ _ => True) (start oneByte) s₀ ∧
      step oneByte s₀ (.wait false 0) = some s₁ ∧
      Reaches (step oneByte) (fun _ _ => True) s₁ s₂ ∧ s₂.runner.pc = .returned .done ∧
      s₀.log.consumed = [7] ∧ s₂.inPipe = [] := by
  have hbefore : ∃ s₀ s₁, runWhere (step oneByte) (fun _ _ => True) (start oneByte)
      (spawn ++ [.poll true, .send (.moved 1), .read .again, .splice (.moved 1)]) = some s₀ ∧
      step oneByte s₀ (.wait false 0) = some s₁ ∧ s₁.watcher.alive = false ∧
      s₀.log.consumed = [7] ∧ ∃ s, runWhere (step oneByte) (fun _ _ => True) s₁
        [.poll true, .read .again] = some s ∧ s.runner.pc = .flushOut 0 ∧ s.outPipe = [] ∧
        s.groupKilled = false ∧ s.runner.sent = 1 :=
    ⟨_, _, rfl, rfl, rfl, rfl, _, rfl, rfl, rfl, rfl, rfl⟩
  obtain ⟨s₀, s₁, hs₀, hdie, hdead, hconsumed, s, hs, hpc, hempty, hlive, hsent⟩ := hbefore
  have hrun := reaches_of_runWhere hs₀
  have hrest := (reaches_of_runWhere hs).trans
    (reaches_done (fun _ => trivial) (fun _ => trivial) hpc hempty hlive (by rw [hsent]; rfl))
  have hclean := failed_run_clean_iff oneByte s₀ s₁ _ (.wait false 0) .done hrun rfl hdie hdead
    hrest rfl
  exact ⟨s₀, s₁, _, hrun, hdie, hrest, rfl, hconsumed, hclean.1 hconsumed⟩

/-- The watcher fails at its first call; the runner sends the byte all the same
and returns, and nobody takes it out of `in_pipe`. -/
theorem failed_run_leaves_input :
    ∃ s₀ s₁ s₂, Reaches (step oneByte) (fun _ _ => True) (start oneByte) s₀ ∧
      step oneByte s₀ (.setup false) = some s₁ ∧ s₁.watcher.pc = .ended (.exited 254) ∧
      Reaches (step oneByte) (fun _ _ => True) s₁ s₂ ∧ s₂.runner.pc = .returned .done ∧
      s₂.inPipe = [7] := by
  have hbefore : ∃ s₀ s₁, runWhere (step oneByte) (fun _ _ => True) (start oneByte)
      [.clone .cloned, .checkFds true] = some s₀ ∧ step oneByte s₀ (.setup false) = some s₁ ∧
      s₁.watcher.pc = .ended (.exited 254) ∧ ∃ s, runWhere (step oneByte) (fun _ _ => True) s₁
        [.poll true, .send (.moved 1), .read .again] = some s ∧ s.runner.pc = .flushOut 0 ∧
        s.outPipe = [] ∧ s.groupKilled = false ∧ s.runner.sent = 1 ∧ s.inPipe = [7] :=
    ⟨_, _, rfl, rfl, rfl, _, rfl, rfl, rfl, rfl, rfl, rfl⟩
  obtain ⟨s₀, s₁, hs₀, hdie, hpc₁, s, hs, hpc, hempty, hlive, hsent, hleft⟩ := hbefore
  refine ⟨s₀, s₁, _, reaches_of_runWhere hs₀, hdie, hpc₁, (reaches_of_runWhere hs).trans
    (reaches_done (fun _ => trivial) (fun _ => trivial) hpc hempty hlive (by rw [hsent]; rfl)),
    rfl, hleft⟩

end KudosJudge.RunSystem
