import KudosJudge.RunVerdict

set_option autoImplicit false

/-!
A worker judges one submission after the other, and its two pipes are made once,
with its template process. A run begins with what the runs before have left in them.
-/
namespace KudosJudge.WorkerRuns
open CompareOutput Results SandboxWatcher RunnerLoop RunSystem Runs

structure Pipes where
  inPipe : List UInt8
  outPipe : List UInt8
deriving DecidableEq, Repr

def fresh : Pipes := ⟨[], []⟩

def begins (cfg : Config) (p : Pipes) : Sys :=
  { start cfg with inPipe := p.inPipe, outPipe := p.outPipe }

def Returned (s : Sys) : Prop := ∃ site, s.runner.pc = .returned site

def leaves (s : Sys) : Pipes := ⟨s.inPipe, s.outPipe⟩

/-- The runner has returned, and no process is left that takes from `in_pipe`. -/
def Quiet (s : Sys) : Prop := Returned s ∧ s.watcher.alive = false

abbrev History (ok : Sys → Act → Prop) (ended : Sys → Prop) :
    Pipes → List (Config × Sys) → Pipes → Prop :=
  Sessions step (fun _ => ok) begins ended leaves

/-- The run seen as one whose input begins with the bytes that were in the pipe. -/
def shiftedConfig (left : List UInt8) (cfg : Config) : Config :=
  { cfg with input := left ++ cfg.input }

def shiftedRunner (left : List UInt8) (r : Runner) : Runner :=
  { r with dsSentAcc := left.length + r.dsSentAcc }

def Shifted (left : List UInt8) (cfg : Config) (s : Sys) : Prop :=
  Conserved (shiftedConfig left cfg) (shiftedRunner left s.runner) s.watcher s.inPipe s.log

section

variable {left : List UInt8} {cfg : Config} {s : Sys} {act : Act}

theorem shiftedRunner_sent (left : List UInt8) (r : Runner) :
    (shiftedRunner left r).sent = left.length + r.sent :=
  Nat.add_assoc ..

theorem shifted_begins (cfg : Config) (p : Pipes) : Shifted p.inPipe cfg (begins cfg p) where
  bytes := (List.take_left' rfl).symm
  sent_le := by
    rw [shiftedRunner_sent, shiftedConfig, List.length_append]
    exact Nat.add_le_add_left (Nat.zero_le _) _
  forwarded := rfl
  discarded := rfl
  unflushed := fun _ => rfl

theorem Shifted.bytes_eq (h : Shifted left cfg s) :
    s.log.consumed ++ s.inPipe = left ++ cfg.input.take s.runner.sent := by
  have hbytes := h.bytes
  rw [shiftedRunner_sent, shiftedConfig, List.take_length_add_append] at hbytes
  exact hbytes

theorem Shifted.runner (h : Shifted left cfg s) {r : Runner} (hsent : r.sent = s.runner.sent) :
    Shifted left cfg { s with runner := r } := by
  apply Conserved.runner h
  rw [shiftedRunner_sent, shiftedRunner_sent, hsent]

theorem shifted_step (h : Shifted left cfg s) (hon : enabled cfg s act = true) :
    Shifted left cfg (effect cfg s act) := by
  cases act with
  | clone outcome =>
    simp only [enabled, decide_eq_true_eq] at hon
    exact (h.runner (kept_onClone ..).sent).watcher (steady_clone hon.2 outcome)
  | checkFds ok => exact h.runner (kept_onCheckFds ..).sent
  | poll ok => exact (h.runner (onPoll_sent ..)).watcher (steady_reap ..)
  | send t =>
    simp only [enabled, decide_eq_true_eq] at hon
    have hcount : Transfer.count t ≤ (shiftedConfig left cfg).input.length -
        (shiftedRunner left s.runner).sent := by
      have hcount := sendable_count hon.2
      rw [shiftedRunner_sent, shiftedConfig, List.length_append]
      omega
    have hsent : (shiftedRunner left (runnerOnSend cfg s.runner t)).sent =
        (shiftedRunner left s.runner).sent + Transfer.count t := by
      rw [shiftedRunner_sent, shiftedRunner_sent, (kept_runnerOnSend ..).sent, Nat.add_assoc]
    have hnext := Conserved.send h hcount hsent
    rw [shiftedRunner_sent, shiftedConfig, List.drop_length_add_append] at hnext
    exact hnext
  | kill => exact (h.runner (kept_onKill ..).sent).watcher (steady_receive ..)
  | read o =>
    obtain ⟨hforwarded, hdiscarded⟩ := logRead_input s.log s.runner s.outPipe o
    exact (h.runner (kept_runnerOnRead ..).sent).sameInput hforwarded hdiscarded
  | setup ok => exact h.watcher (steady_setup ..)
  | fork ok =>
    simp only [enabled, decide_eq_true_eq] at hon
    exact h.watcher (steady_fork hon ok)
  | startWatching =>
    simp only [enabled, decide_eq_true_eq] at hon
    exact h.watcher ⟨rfl, rfl, fun _ => by rw [hon]; rfl⟩
  | firstWait ok =>
    simp only [enabled, decide_eq_true_eq] at hon
    exact h.watcher (steady_firstWait hon.1 _ ok)
  | splice t =>
    simp only [enabled, decide_eq_true_eq] at hon
    obtain ⟨hacc, hflush⟩ := onSplice_counters s.watcher cfg.input.length t
    exact h.splice (by rw [hon.1]; rfl) (movable_count hon.2) hacc hflush
  | wait ok memUsed =>
    simp only [enabled, decide_eq_true_eq] at hon
    exact h.watcher (steady_wait hon ..)
  | flush t =>
    simp only [enabled, decide_eq_true_eq] at hon
    obtain ⟨hacc, hflush, hpc⟩ := onFlushRead_counters hon.1 cfg.input.length t
    exact h.flush (movable_count hon.2.2) hacc hflush hpc
  | test errno =>
    simp only [enabled, decide_eq_true_eq] at hon
    exact h.watcher (steady_test hon.1 ..)
  | handle sig => exact h.watcher (steady_signal ..)
  | alarm => exact h.watcher (steady_receive s.watcher .alrm)
  | killWatcher sig => exact h.watcher (steady_ended ..)
  | exec => exact h
  | write bytes => exact h.sameInput rfl rfl
  | stop sig event => exact h
  | exit code => exact h
  | die sig => exact h

theorem shifted_run {p : Pipes} {ok : Sys → Act → Prop}
    (hrun : Reaches (step cfg) ok (begins cfg p) s) : Shifted p.inPipe cfg s := by
  apply hrun.invariant (Shifted p.inPipe cfg) (shifted_begins cfg p)
  intro s act s' h _ hstep
  obtain ⟨hon, -, rfl⟩ := step_cases hstep
  exact shifted_step h hon

end

/-- The runner with the whole input for sent. -/
def relieved (cfg : Config) (r : Runner) : Runner :=
  { r with dsSentAcc := cfg.input.length, flushAcc := 0 }

/-- `Hygienic` without what it says of the input. -/
def Orderly (cfg : Config) (s : Sys) : Prop :=
  Hygienic cfg (relieved cfg s.runner) s.watcher s.binary [] s.outPipe

def Enough (cfg : Config) (s : Sys) : Prop :=
  gone s.watcher.pc = true → cfg.input.length ≤ s.log.consumed.length

section

variable {cfg : Config} {s : Sys} {act : Act}

theorem orderly_begins (cfg : Config) (p : Pipes) : Orderly cfg (begins cfg p) where
  collected := nofun
  behind := nofun
  drained := fun h => by rcases h with h | ⟨site, h⟩ <;> cases h
  returned := fun _ h => by cases h
  waited := nofun
  flushed := nofun

theorem Within.orderly {r : Runner} {w : Watcher} {b : Binary} {outPipe : List UInt8}
    (h : Within r) (collected : r.watcherAlive = false → ∃ st, w.pc = .reaped st)
    (waited : flushing w.pc = true → ∃ st, b = .reaped st) :
    Hygienic cfg (relieved cfg r) w b [] outPipe := by
  have hwithin : Within (relieved cfg r) := h
  exact hwithin.hygienic collected waited fun _ => ⟨rfl, rfl⟩

theorem Orderly.runner (h : Orderly cfg s) {r : Runner} {w : Watcher} {outPipe : List UInt8}
    (hwithin : Within r) (halive : r.watcherAlive = s.runner.watcherAlive)
    (hpc : w.pc = s.watcher.pc) : Hygienic cfg (relieved cfg r) w s.binary [] outPipe := by
  apply Within.orderly hwithin
  · rw [halive, hpc]
    exact h.collected
  · rw [hpc]
    exact h.waited

theorem orderly_poll (h : Orderly cfg s) : Orderly cfg (effect cfg s (.poll true)) := by
  have hwithin : Within (s.runner.onPoll cfg (pollResult s true)) := onPoll_within ..
  cases hpc : s.watcher.pc with
  | ended st =>
    have hreap : (reap s.watcher true).pc = .reaped st := by simp only [reap, hpc]
    exact Within.orderly hwithin (fun _ => ⟨st, hreap⟩) fun _ => h.waited (by rw [hpc]; rfl)
  | _ =>
    have hresult : pollResult s true = .unchanged := by simp only [pollResult, hpc, if_true]
    have hreap : reap s.watcher true = s.watcher := by simp only [reap, hpc]
    apply h.runner hwithin
    · rw [hresult]
      exact (toSend_resumes s.runner).kept.alive
    · exact congrArg SandboxWatcher.Watcher.pc hreap

theorem orderly_send (h : Orderly cfg s) {t : Transfer} (ht : t ≠ .error)
    (hon : enabled cfg s (.send t) = true) : Orderly cfg (effect cfg s (.send t)) := by
  have hkept : Kept _ s.runner (runnerOnSend cfg s.runner t) := kept_runnerOnSend ..
  simp only [enabled, decide_eq_true_eq] at hon
  rcases hon.1 with hpc | hpc
  · refine h.runner ?_ hkept.alive rfl
    change Within (runnerOnSend cfg s.runner t)
    rw [runnerOnSend_loop hpc]
    exact onSend_within ..
  · have hdead : s.runner.watcherAlive = false := h.behind (by rw [relieved, hpc]; rfl)
    have hafter : (effect cfg s (.send t)).runner = s.runner.onFlushIn cfg t :=
      runnerOnSend_flushIn hpc
    refine ⟨?_, fun _ => hkept.alive.trans hdead, fun _ => h.drained (.inl hpc), ?_, h.waited,
      fun _ => ⟨rfl, rfl⟩⟩
    · intro halive
      exact h.collected (hkept.alive.symm.trans halive)
    · intro site hsite
      rw [hafter] at hsite
      exact ⟨(onFlushIn_returned hpc ht hsite).1, le_rfl⟩

theorem orderly_read (h : Orderly cfg s) {o : Read} (ho : o ≠ .error)
    (hon : enabled cfg s (.read o) = true) : Orderly cfg (effect cfg s (.read o)) := by
  simp only [enabled] at hon
  split at hon
  · rename_i hpc
    have hrunner : (effect cfg s (.read o)).runner = s.runner.onRead cfg s.outPipe o := by
      simp only [effect, runnerOnRead, hpc]
    refine h.runner ?_ (kept_runnerOnRead ..).alive rfl
    rw [hrunner]
    exact onRead_within ..
  · rename_i blockingCount hpc
    have hbehind : behindLoop (relieved cfg s.runner).pc = true := by rw [relieved, hpc]; rfl
    have hrunner : (effect cfg s (.read o)).runner = s.runner.onFlushOut blockingCount o := by
      simp only [effect, runnerOnRead, hpc]
    unfold Orderly
    rw [hrunner]
    cases o with
    | bytes n => exact h.flushOut hbehind 0
    | eof => cases hon
    | again =>
      simp only [readable, decide_eq_true_eq] at hon
      simp only [Runner.onFlushOut]
      split_ifs
      · refine ⟨h.collected, fun _ => h.behind hbehind, fun _ => hon, fun _ heq => ?_, h.waited,
          fun _ => ⟨rfl, rfl⟩⟩
        cases heq
      · exact h.flushOut hbehind _
    | error => exact absurd rfl ho
  · cases hon

theorem orderly_wait (h : Orderly cfg s) {memUsed : ℤ} (hpc : s.watcher.pc = .wait) :
    Orderly cfg (effect cfg s (.wait true memUsed)) := by
  have hbefore : flushing s.watcher.pc = false := by rw [hpc]; rfl
  change Hygienic cfg (relieved cfg s.runner) (watcherOnWait cfg s.watcher s.binary true memUsed)
    (binaryOnWait s.binary true) [] s.outPipe
  cases hb : s.binary with
  | stopped sig event => exact h.onward hbefore (top_before ..)
  | zombie st => cases st with
    | stopped sig event => exact h.onward hbefore (top_before ..)
    | _ => exact h.watching hbefore rfl fun _ => ⟨_, rfl⟩
  | _ => exact h.onward hbefore (top_before ..)

theorem orderly_step (h : Orderly cfg s) (hok : unfailing act = true)
    (hon : enabled cfg s act = true) : Orderly cfg (effect cfg s act) := by
  cases act with
  | clone outcome =>
    simp only [unfailing, decide_eq_true_eq] at hok
    simp only [enabled, decide_eq_true_eq] at hon
    subst hok
    have hwatcher : Hygienic cfg (relieved cfg s.runner) (watcherOnClone cfg s.watcher .cloned)
        s.binary [] s.outPipe := h.onward (by rw [hon.2]; rfl) rfl
    exact Within.orderly (.inl rfl) hwatcher.collected hwatcher.waited
  | checkFds ok =>
    obtain rfl : ok = true := hok
    exact h.runner (.inl rfl) rfl rfl
  | poll ok =>
    obtain rfl : ok = true := hok
    exact orderly_poll h
  | send t => exact orderly_send h (by simpa [unfailing] using hok) hon
  | kill =>
    exact h.runner (onKill_within (enabled_kill hon)) (kept_onKill ..).alive
      (receive_pc s.watcher .usr2)
  | read o => exact orderly_read h (by simpa [unfailing] using hok) hon
  | setup ok =>
    obtain rfl : ok = true := hok
    obtain ⟨call, calls, hpc⟩ := enabled_setup hon
    have hafter : flushing (watcherOnSetup s.watcher true).pc = false := by
      simp only [watcherOnSetup, hpc, Watcher.onSetup, flushing]
    exact h.onward (by rw [hpc]; rfl) hafter
  | fork ok =>
    obtain rfl : ok = true := hok
    simp only [enabled, decide_eq_true_eq] at hon
    exact h.onward (by rw [hon]; rfl) rfl
  | startWatching =>
    simp only [enabled, decide_eq_true_eq] at hon
    exact h.onward (by rw [hon]; rfl) rfl
  | firstWait ok =>
    obtain rfl : ok = true := hok
    simp only [enabled, decide_eq_true_eq] at hon
    exact h.onward (by rw [hon.1]; rfl) (top_before ..)
  | splice t =>
    simp only [enabled, decide_eq_true_eq] at hon
    cases t with
    | moved n => exact h.onward (by rw [hon.1]; rfl) rfl
    | again => exact h.onward (by rw [hon.1]; rfl) rfl
    | error => cases hok
  | wait ok memUsed =>
    obtain rfl : ok = true := hok
    simp only [enabled, decide_eq_true_eq] at hon
    exact orderly_wait h hon
  | flush t =>
    simp only [enabled, decide_eq_true_eq] at hon
    exact h.flushes hon.1 fun _ => ⟨rfl, rfl⟩
  | test errno =>
    simp only [enabled, decide_eq_true_eq] at hon
    exact h.flushes hon.1 fun _ => ⟨rfl, rfl⟩
  | handle sig => exact h.samePc (onSignal_pc ..)
  | alarm => exact h.samePc (receive_pc s.watcher .alrm)
  | killWatcher sig => cases hok
  | exec => exact h.binary (enabled_binary rfl hon)
  | write bytes => exact h.binary (enabled_binary rfl hon)
  | stop sig event => exact h.binary (enabled_binary rfl hon)
  | exit code => exact h.binary (enabled_binary rfl hon)
  | die sig => exact h.binary (enabled_binary rfl hon)

theorem gone_unfailing (hok : unfailing act = true) (hon : enabled cfg s act = true)
    (hgone : gone (effect cfg s act).watcher.pc = true) :
    gone s.watcher.pc = true ∨ cfg.input.length ≤ (effect cfg s act).watcher.spliceSizeAcc +
      (effect cfg s act).watcher.flushAcc := by
  cases act with
  | clone outcome =>
    simp only [unfailing, decide_eq_true_eq] at hok
    subst hok
    cases hgone
  | poll ok =>
    simp only [effect, reap] at hgone
    split at hgone
    · rename_i st _ hpc
      rw [hpc]
      exact .inl rfl
    · exact .inl hgone
  | kill =>
    rw [← receive_pc s.watcher .usr2]
    exact .inl hgone
  | setup ok =>
    obtain rfl : ok = true := hok
    obtain ⟨call, calls, hpc⟩ := enabled_setup hon
    simp only [effect, watcherOnSetup, hpc, Watcher.onSetup, gone] at hgone
    cases hgone
  | fork ok =>
    obtain rfl : ok = true := hok
    cases hgone
  | startWatching => cases hgone
  | firstWait ok =>
    obtain rfl : ok = true := hok
    exact absurd hgone (Bool.eq_false_iff.mp (not_gone (top_before ..)))
  | splice t =>
    cases t with
    | error => cases hok
    | _ => cases hgone
  | wait ok memUsed =>
    obtain rfl : ok = true := hok
    have htop : gone (s.watcher.top cfg.input.length).pc = false := not_gone (top_before ..)
    simp only [effect, watcherOnWait] at hgone
    split at hgone
    · cases ‹true = false›
    · rw [Watcher.onStatus, not_gone (top_before ..)] at hgone
      cases hgone
    · rename_i st _ _
      cases st with
      | stopped sig event =>
        rw [Watcher.onStatus, not_gone (top_before ..)] at hgone
        cases hgone
      | _ => cases hgone
    · rw [htop] at hgone
      cases hgone
  | flush t =>
    simp only [enabled, decide_eq_true_eq] at hon
    exact .inr (onFlushRead_gone hon.1 (by simpa [unfailing] using hok) hgone)
  | test errno =>
    obtain rfl : errno = .eagain := by simpa [unfailing] using hok
    simp only [enabled, decide_eq_true_eq] at hon
    exact .inr (leave_gone (w := { s.watcher with failedRead := none }) hon.1 hgone)
  | handle sig =>
    rw [← onSignal_pc s.watcher sig (killable s.binary)]
    exact .inl hgone
  | alarm =>
    rw [← receive_pc s.watcher .alrm]
    exact .inl hgone
  | killWatcher sig => cases hok
  | _ => exact .inl hgone

theorem enough_step {left : List UInt8} (h : Enough cfg s) (hshifted : Shifted left cfg s)
    (hok : unfailing act = true) (hon : enabled cfg s act = true) :
    Enough cfg (effect cfg s act) := by
  intro hgone
  by_cases hbefore : gone s.watcher.pc = true
  · rw [(gone_step hbefore hon).2]
    exact h hbefore
  · have hafter := shifted_step hshifted hon
    have hall := (gone_unfailing hok hon hgone).resolve_left hbefore
    rw [Log.consumed, List.length_append, ← hafter.forwarded, ← hafter.discarded]
    exact hall

structure Unfailed (left : List UInt8) (cfg : Config) (s : Sys) : Prop where
  shifted : Shifted left cfg s
  orderly : Orderly cfg s
  enough : Enough cfg s
  complete : Complete cfg s.runner

theorem unfailed_run {p : Pipes}
    (hrun : Reaches (step cfg) (fun _ act => unfailing act = true) (begins cfg p) s) :
    Unfailed p.inPipe cfg s := by
  apply hrun.invariant (Unfailed p.inPipe cfg)
  · exact ⟨shifted_begins cfg p, orderly_begins cfg p, nofun, nofun⟩
  · intro s act s' h hok hstep
    obtain ⟨hon, -, rfl⟩ := step_cases hstep
    exact ⟨shifted_step h.shifted hon, orderly_step h.orderly hok hon,
      enough_step h.enough h.shifted hok hon, complete_step h.complete hon⟩

/-- The processes of the run are waited for. -/
def Collected (s : Sys) : Prop :=
  (∃ st, s.watcher.pc = .reaped st) ∧ ∃ st, s.binary = .reaped st

structure Behind (left : List UInt8) (cfg : Config) (s : Sys) : Prop where
  bytes : s.log.consumed ++ s.inPipe = left ++ cfg.input
  fewer : s.inPipe.length ≤ left.length
  drained : s.outPipe = []
  collected : Collected s

theorem Unfailed.behind {left : List UInt8} (h : Unfailed left cfg s) (hreturned : Returned s) :
    Behind left cfg s := by
  obtain ⟨site, hsite⟩ := hreturned
  have hdone : site = .done := (h.orderly.returned site hsite).1
  obtain ⟨st, hst⟩ := h.orderly.collected (h.orderly.behind (by rw [relieved, hsite]; rfl))
  have hbytes := h.shifted.bytes_eq
  rw [List.take_of_length_le (h.complete (hdone ▸ hsite))] at hbytes
  refine ⟨hbytes, ?_, h.orderly.drained (.inr ⟨site, hsite⟩), ⟨st, hst⟩,
    h.orderly.waited (by rw [hst]; rfl)⟩
  have hlength := congrArg List.length hbytes
  have henough := h.enough (by rw [hst]; rfl)
  rw [List.length_append, List.length_append] at hlength
  omega

end

def taken (past : List (Config × Sys)) : List UInt8 :=
  (past.map fun r => r.2.log.consumed).flatten

def inputs (past : List (Config × Sys)) : List UInt8 := (past.map fun r => r.1.input).flatten

def sentInputs (past : List (Config × Sys)) : List UInt8 :=
  (past.map fun r => r.1.input.take r.2.runner.sent).flatten

section

variable (past : List (Config × Sys)) (cfg : Config) (s : Sys)

theorem taken_snoc : taken (past ++ [(cfg, s)]) = taken past ++ s.log.consumed := by
  simp [taken]

theorem inputs_snoc : inputs (past ++ [(cfg, s)]) = inputs past ++ cfg.input := by
  simp [inputs]

theorem sentInputs_snoc :
    sentInputs (past ++ [(cfg, s)]) = sentInputs past ++ cfg.input.take s.runner.sent := by
  simp [sentInputs]

end

/-- Whatever fails: the watchers of all runs together have taken, in order, what was in
`in_pipe` at first and what the runners sent behind it, up to what is in it now. -/
theorem history_in_order (ok : Sys → Act → Prop) (p q : Pipes) (past : List (Config × Sys))
    (hhistory : History ok Quiet p past q) :
    taken past ++ q.inPipe = p.inPipe ++ sentInputs past := by
  apply hhistory.carried fun p past q => taken past ++ q.inPipe = p.inPipe ++ sentInputs past
  · exact (List.append_nil _).symm
  · intro past q cfg s h hrun _
    have hbytes : s.log.consumed ++ s.inPipe = q.inPipe ++ cfg.input.take s.runner.sent :=
      (shifted_run hrun).bytes_eq
    calc taken (past ++ [(cfg, s)]) ++ s.inPipe
        = taken past ++ (s.log.consumed ++ s.inPipe) := by rw [taken_snoc, List.append_assoc]
      _ = taken past ++ q.inPipe ++ cfg.input.take s.runner.sent := by
        rw [hbytes, List.append_assoc]
      _ = p.inPipe ++ sentInputs (past ++ [(cfg, s)]) := by
        rw [h, sentInputs_snoc, List.append_assoc]

theorem finished_behind {cfg : Config} {ok : Sys → Act → Prop} {s₀ s : Sys}
    (hrun : Reaches (step cfg) ok s₀ s) (hread : ∀ s, ok s (.read .again))
    (hsend : ∀ s, ok s (.send .again)) (hpc : s.runner.pc = .flushOut 0)
    (hempty : s.outPipe = []) (hlive : s.groupKilled = false)
    (hall : cfg.input.length ≤ s.runner.sent) :
    ∃ t, Reaches (step cfg) ok s₀ t ∧ Returned t ∧ leaves t = ⟨s.inPipe, []⟩ ∧
      t.watcher = s.watcher ∧ t.log = s.log ∧ t.runner.sent = s.runner.sent := by
  refine ⟨_, hrun.trans (reaches_done hread hsend hpc hempty hlive hall), ⟨.done, rfl⟩, ?_, rfl,
    rfl, rfl⟩
  rw [← hempty]
  rfl

def nextByte : Config := { oneByte with input := [8] }

theorem history_in_order_nextByte :
    ∃ past q, History (fun _ _ => True) Quiet fresh past q ∧ taken past ++ q.inPipe = [7, 8] ∧
      past.length = 2 ∧ taken past = [7] := by
  have hfirst : ∃ s, runWhere (step oneByte) (fun _ _ => True) (begins oneByte fresh)
      [.clone .cloned, .checkFds true, .setup false, .poll true, .send (.moved 1), .read .again] =
        some s ∧ s.runner.pc = .flushOut 0 ∧ s.outPipe = [] ∧ s.groupKilled = false ∧
        s.runner.sent = 1 ∧ s.watcher.alive = false ∧ s.inPipe = [7] ∧ s.log.consumed = [] :=
    ⟨_, rfl, rfl, rfl, rfl, rfl, rfl, rfl, rfl⟩
  obtain ⟨s, hs, hpc, hempty, hlive, hsent, hdead, hleft, hnone⟩ := hfirst
  obtain ⟨s', hrun, hreturned, hleaves, hwatcher, hlog, hsame⟩ := finished_behind
    (reaches_of_runWhere hs) (fun _ => trivial) (fun _ => trivial) hpc hempty hlive
    (by rw [hsent]; rfl)
  have hsecond : ∃ t, runWhere (step nextByte) (fun _ _ => True) (begins nextByte ⟨[7], []⟩)
      oneByteRun = some t ∧ t.runner.pc = .flushOut 0 ∧ t.outPipe = [] ∧ t.groupKilled = false ∧
        t.runner.sent = 1 ∧ t.watcher.alive = false ∧ t.log.consumed = [7] :=
    ⟨_, rfl, rfl, rfl, rfl, rfl, rfl, rfl⟩
  obtain ⟨t, ht, hpc', hempty', hlive', hsent', hdead', htaken⟩ := hsecond
  obtain ⟨t', hrun', hreturned', -, hwatcher', hlog', hsame'⟩ := finished_behind
    (reaches_of_runWhere ht) (fun _ => trivial) (fun _ => trivial) hpc' hempty' hlive'
    (by rw [hsent']; rfl)
  have hbefore : History (fun _ _ => True) Quiet fresh [(oneByte, s')] ⟨[7], []⟩ :=
    Sessions.nil.next hrun ⟨hreturned, by rw [hwatcher]; exact hdead⟩ (by rw [hleaves, hleft])
  have hhistory : History (fun _ _ => True) Quiet fresh [(oneByte, s'), (nextByte, t')]
      (leaves t') :=
    hbefore.next hrun' ⟨hreturned', by rw [hwatcher']; exact hdead'⟩ rfl
  have horder := history_in_order (fun _ _ => True) fresh _ _ hhistory
  refine ⟨_, _, hhistory, ?_, rfl, ?_⟩
  · rw [horder]
    simp only [sentInputs, List.map_cons, List.map_nil, hsame, hsame', hsent, hsent']
    rfl
  · simp only [taken, List.map_cons, List.map_nil, hlog, hlog', hnone, htaken]
    rfl

/-- Runs in which nothing fails take, in order, what was in `in_pipe` at first and their
whole inputs behind it. The bytes left over never get more, and `out_pipe` is drained. -/
structure CarriedOver (p : Pipes) (past : List (Config × Sys)) (q : Pipes) : Prop where
  order : taken past ++ q.inPipe = p.inPipe ++ inputs past
  fewer : q.inPipe.length ≤ p.inPipe.length
  drained : past ≠ [] → q.outPipe = []
  collected : ∀ r ∈ past, Collected r.2

theorem CarriedOver.snoc {p q : Pipes} {past : List (Config × Sys)} {cfg : Config} {s : Sys}
    (h : CarriedOver p past q) (hbehind : Behind q.inPipe cfg s) :
    CarriedOver p (past ++ [(cfg, s)]) (leaves s) where
  order :=
    calc taken (past ++ [(cfg, s)]) ++ s.inPipe
        = taken past ++ (s.log.consumed ++ s.inPipe) := by rw [taken_snoc, List.append_assoc]
      _ = taken past ++ q.inPipe ++ cfg.input := by rw [hbehind.bytes, List.append_assoc]
      _ = p.inPipe ++ inputs (past ++ [(cfg, s)]) := by
        rw [h.order, inputs_snoc, List.append_assoc]
  fewer := hbehind.fewer.trans h.fewer
  drained := fun _ => hbehind.drained
  collected := fun r hr => by
    rcases List.mem_append.mp hr with hr | hr
    · exact h.collected r hr
    · rw [List.mem_singleton.mp hr]
      exact hbehind.collected

theorem history_shift (p q : Pipes) (past : List (Config × Sys))
    (hhistory : History (fun _ act => unfailing act = true) Returned p past q) :
    CarriedOver p past q := by
  apply hhistory.carried CarriedOver
  · exact ⟨(List.append_nil _).symm, le_rfl, fun h => absurd rfl h,
      fun _ hr => absurd hr List.not_mem_nil⟩
  · intro past q cfg s h hrun hreturned
    exact h.snoc ((unfailed_run hrun).behind hreturned)

theorem history_shift_nextByte :
    ∃ past q, History (fun _ act => unfailing act = true) Returned ⟨[7], []⟩ past q ∧
      CarriedOver ⟨[7], []⟩ past q ∧ taken past = [7] ∧ q = ⟨[8], []⟩ := by
  have hloop : ∃ t, runWhere (step nextByte) (fun _ act => unfailing act = true)
      (begins nextByte ⟨[7], []⟩) oneByteRun = some t ∧ t.runner.pc = .flushOut 0 ∧
        t.outPipe = [] ∧ t.groupKilled = false ∧ t.runner.sent = 1 ∧ t.log.consumed = [7] ∧
        t.inPipe = [8] :=
    ⟨_, rfl, rfl, rfl, rfl, rfl, rfl, rfl⟩
  obtain ⟨t, ht, hpc, hempty, hlive, hsent, htaken, hleft⟩ := hloop
  obtain ⟨t', hrun, hreturned, hleaves, -, hlog, -⟩ := finished_behind
    (reaches_of_runWhere ht) (fun _ => rfl) (fun _ => rfl) hpc hempty hlive (by rw [hsent]; rfl)
  have hhistory : History (fun _ act => unfailing act = true) Returned ⟨[7], []⟩
      [(nextByte, t')] ⟨[8], []⟩ :=
    Sessions.nil.next hrun hreturned (by rw [hleaves, hleft])
  refine ⟨_, _, hhistory, history_shift _ _ _ hhistory, ?_, rfl⟩
  simp only [taken, List.map_cons, List.map_nil, hlog, htaken]
  rfl

/-- A submission with the output its program writes when left alone. -/
structure Job where
  cfg : Config
  output : List UInt8
  reference_plain : cr ∉ cfg.reference
  output_plain : cr ∉ output
  limited : withinLimit cfg output.length

structure Judged (job : Job) (s : Sys) : Prop where
  returns : s.Returns 0 (verdict job.cfg.reference job.output)
  input : s.log.consumed = job.cfg.input
  compared : s.log.compared <+: job.output
  complete : s.runner.result = some .correct → s.log.compared = job.output
  collected : Collected s

section

variable {job : Job} {s : Sys}

theorem ordinary_run (hrun : Reaches (step job.cfg)
    (fun s act => ordinary job.cfg job.output s act = true) (start job.cfg) s) :
    Ordinary job.cfg job.output s :=
  hrun.invariant (Ordinary job.cfg job.output) (ordinary_start job.cfg job.output)
    fun _ _ _ h hordinary hstep => by
      obtain ⟨hon, -, rfl⟩ := step_cases hstep
      exact ordinary_step h job.output_plain job.limited hon hordinary

theorem judged_of_ordinary (h : Ordinary job.cfg job.output s) (hreturned : Returned s)
    (hbehind : Behind [] job.cfg s) : Judged job s := by
  obtain ⟨site, hsite⟩ := hreturned
  have hempty : s.inPipe = [] := List.eq_nil_of_length_eq_zero (Nat.le_zero.mp hbehind.fewer)
  have hresult := h.matched.result (by rw [hsite]; rfl)
  rw [text_of_not_mem job.reference_plain, text_of_not_mem job.output_plain] at hresult
  refine ⟨⟨site, hsite, h.matched.zero site hsite, hresult⟩, ?_, h.taken.trans h.calm.part,
    fun hcorrect => ?_, hbehind.collected⟩
  · have hbytes := hbehind.bytes
    rw [hempty, List.append_nil] at hbytes
    exact hbytes
  · have hsound := h.trusted.sound hcorrect
    obtain ⟨code, hexited⟩ := hsound.ended
    have hfits := h.calm.fits
    rw [hexited] at hfits
    exact hsound.all.trans hfits

theorem judged_run (hrun : Reaches (step job.cfg)
    (fun s act => ordinary job.cfg job.output s act = true) (start job.cfg) s)
    (hreturned : Returned s) : leaves s = fresh ∧ Judged job s := by
  have hover : Reaches (step job.cfg) (fun _ act => unfailing act = true)
      (begins job.cfg fresh) s := hrun.weaken fun _ _ h => unfailing_of_ordinary h
  have hbehind : Behind [] job.cfg s := (unfailed_run hover).behind hreturned
  have hempty : s.inPipe = [] := List.eq_nil_of_length_eq_zero (Nat.le_zero.mp hbehind.fewer)
  refine ⟨?_, judged_of_ordinary (ordinary_run hrun) hreturned hbehind⟩
  rw [leaves, hempty, hbehind.drained, fresh]

end

abbrev OrdinaryHistory : Pipes → List (Job × Sys) → Pipes → Prop :=
  Sessions (fun job => step job.cfg) (fun job s act => ordinary job.cfg job.output s act = true)
    (fun job => begins job.cfg) Returned leaves

/-- However the steps within the runs interleave, a worker whose pipes were made empty
gives each submission the verdict it would get from a worker of its own. -/
theorem history_verdicts (q : Pipes) (past : List (Job × Sys))
    (hhistory : OrdinaryHistory fresh past q) : q = fresh ∧ ∀ r ∈ past, Judged r.1 r.2 := by
  apply hhistory.each (· = fresh) Judged rfl
  rintro job q s rfl hrun hreturned
  exact judged_run hrun hreturned

def oneByteJob : Job := ⟨oneByte, [97], by decide, by decide, by decide⟩

theorem history_verdicts_oneByte :
    ∃ past q, OrdinaryHistory fresh past q ∧ past.length = 2 ∧ q = fresh ∧
      ∀ r ∈ past, Judged oneByteJob r.2 := by
  have hloop : ∃ s, runWhere (step oneByte) (fun s act => ordinary oneByte [97] s act = true)
      (begins oneByte fresh) oneByteRun = some s ∧ s.runner.pc = .flushOut 0 ∧ s.outPipe = [] ∧
        s.groupKilled = false ∧ s.runner.sent = 1 ∧ s.inPipe = [] :=
    ⟨_, rfl, rfl, rfl, rfl, rfl, rfl⟩
  obtain ⟨s, hs, hpc, hempty, hlive, hsent, hleft⟩ := hloop
  obtain ⟨t, hrun, hreturned, hleaves, -, -, -⟩ := finished_behind
    (reaches_of_runWhere hs) (fun _ => rfl) (fun _ => rfl) hpc hempty hlive (by rw [hsent]; rfl)
  have hfresh : leaves t = fresh := by rw [hleaves, hleft, fresh]
  have hbefore : OrdinaryHistory fresh [(oneByteJob, t)] fresh :=
    Sessions.nil.next (k := oneByteJob) hrun hreturned hfresh
  have hhistory : OrdinaryHistory fresh [(oneByteJob, t), (oneByteJob, t)] fresh :=
    hbefore.next (k := oneByteJob) hrun hreturned hfresh
  obtain ⟨-, hjudged⟩ := history_verdicts _ _ hhistory
  refine ⟨_, _, hhistory, rfl, rfl, fun r hr => ?_⟩
  have hjob : r.1 = oneByteJob := by
    simp only [List.mem_cons, List.not_mem_nil, or_false, or_self] at hr
    rw [hr]
  exact hjob ▸ hjudged r hr

end KudosJudge.WorkerRuns
