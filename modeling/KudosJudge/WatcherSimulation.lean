import KudosJudge.RunResult
import KudosJudge.WatcherEvents

set_option autoImplicit false

namespace KudosJudge.WatcherEvents
open Results SandboxWatcher RunnerLoop RunSystem Runs

def observeWait (b : Binary) (memUsed : ℤ) : WatchEvent :=
  match b with
  | .stopped sig event => .status (.stopped sig event) memUsed
  | .zombie st => .status st memUsed
  | _ => .unchanged

def observeSignal (pc : SandboxWatcher.Pc) (sig : Sig) : List WatchEvent :=
  if present pc then [.signal sig] else if pc = .flush then [.lateSignal sig] else []

/-- What the watcher gets to see at a step of the run. -/
def observe (s : Sys) : Act → List WatchEvent
  | .startWatching => [.startWatching]
  | .firstWait ok => [.firstWait ok]
  | .splice t => [.splice t]
  | .wait ok memUsed => if ok then [observeWait s.binary memUsed] else [.waitFails]
  | .flush .again => []
  | .flush t => [.flush t]
  | .test .eagain => [.flush .again]
  | .test .esrch => [.flush .error]
  | .handle sig => observeSignal s.watcher.pc sig
  | _ => []

/-- The watchers differ in the signals that wait and in a test that is still to come only. -/
def Mirrors (w w' : Watcher) : Prop :=
  ∃ handlers pending alarmSet failedRead,
    w = { w' with handlers, pending, alarmSet, failedRead }

def settledPc : SandboxWatcher.Pc → SandboxWatcher.Pc
  | .reaped st => .ended st
  | pc => pc

def settled (w : Watcher) : Watcher := { w with pc := settledPc w.pc }

structure Early (s : Sys) (events : List WatchEvent) : Prop where
  before : unforked s.watcher.pc = true
  events : events = []
  sigkill : s.sigkill = false
  binary : s.binary = .unforked
  fresh : Mirrors { s.watcher with pc := .forked } forkedWatch.watcher

def launching : SandboxWatcher.Pc → Bool
  | .forked => true
  | .firstWait => true
  | _ => false

structure Follows (cfg : Config) (s : Sys) (events : List WatchEvent) (v : Watch) : Prop where
  run : watch cfg events = some v
  mirrors : Mirrors (settled s.watcher) v.watcher
  forked : unforked s.watcher.pc = false
  sigkill : launching s.watcher.pc = true → v.sigkilled = s.sigkill
  binary : present s.watcher.pc = true → killable s.binary = true
  waited : s.watcher.pc = .flush → killable s.binary = false
  dead : ∀ sig event, s.binary ≠ .zombie (.stopped sig event)

def Tracked (cfg : Config) (s : Sys) (events : List WatchEvent) : Prop :=
  Early s events ∨ ∃ v, Follows cfg s events v

variable {cfg : Config} {s : Sys} {events : List WatchEvent} {v : Watch} {w w' : Watcher}

theorem Mirrors.receive (h : Mirrors w w') (sig : Sig) : Mirrors (w.receive sig) w' := by
  obtain ⟨handlers, pending, alarmSet, failedRead, rfl⟩ := h
  unfold Watcher.receive
  split_ifs
  · exact ⟨_, _, _, _, rfl⟩
  · exact ⟨_, _, _, _, rfl⟩

theorem Mirrors.top (h : Mirrors w w') (size : ℕ) : Mirrors (w.top size) (w'.top size) := by
  obtain ⟨handlers, pending, alarmSet, failedRead, rfl⟩ := h
  exact ⟨_, _, _, _, rfl⟩

theorem Mirrors.splice (h : Mirrors w w') (size : ℕ) (t : Transfer) :
    Mirrors (w.onSplice size t) (w'.onSplice size t) := by
  obtain ⟨handlers, pending, alarmSet, failedRead, rfl⟩ := h
  cases t <;> exact ⟨_, _, _, _, rfl⟩

theorem Mirrors.status (h : Mirrors w w') (size : ℕ) (memLimitMb memUsed : ℤ) (st : WaitStatus) :
    Mirrors (w.onStatus size memLimitMb memUsed st) (w'.onStatus size memLimitMb memUsed st) := by
  obtain ⟨handlers, pending, alarmSet, failedRead, rfl⟩ := h
  cases st <;> exact ⟨_, _, _, _, rfl⟩

theorem Mirrors.leave (h : Mirrors w w') (size : ℕ) : Mirrors (w.leave size) (w'.leave size) := by
  obtain ⟨handlers, pending, alarmSet, failedRead, rfl⟩ := h
  unfold Watcher.leave
  split_ifs
  · exact ⟨_, _, _, _, rfl⟩
  · exact ⟨_, _, _, _, rfl⟩

theorem Mirrors.flush (h : Mirrors w w') (size : ℕ) (t : Transfer) :
    Mirrors (w.onFlush size t) (w'.onFlush size t) := by
  cases t with
  | error =>
    obtain ⟨handlers, pending, alarmSet, failedRead, rfl⟩ := h
    exact ⟨_, _, _, _, rfl⟩
  | again => exact h.leave size
  | moved n =>
    obtain ⟨handlers, pending, alarmSet, failedRead, rfl⟩ := h
    have hmoved : Mirrors
        { w' with handlers, pending, alarmSet, failedRead, flushAcc := w'.flushAcc + n }
        { w' with flushAcc := w'.flushAcc + n } := ⟨_, _, _, _, rfl⟩
    exact hmoved.leave size

theorem Mirrors.signal (h : Mirrors w w') (sig : Sig) (killed : Bool) :
    Mirrors (w.onSignal sig killed) (w'.onSignal sig killed) := by
  obtain ⟨handlers, pending, alarmSet, failedRead, rfl⟩ := h
  cases killed with
  | false => exact ⟨_, _, _, _, rfl⟩
  | true => cases sig <;> exact ⟨_, _, _, _, rfl⟩

theorem Mirrors.pc (h : Mirrors w w') : w.pc = w'.pc := by
  obtain ⟨handlers, pending, alarmSet, failedRead, rfl⟩ := h
  rfl

theorem watch_snoc {v' : Watch} {e : WatchEvent} (hrun : watch cfg events = some v)
    (hstep : watchStep cfg v e = some v') : watch cfg (events ++ [e]) = some v' := by
  unfold watch at hrun ⊢
  rw [runWhere_append, hrun]
  simp [runWhere, hstep]

theorem settled_of_unreaped (h : unreaped w.pc = true) : settled w = w := by
  have hpc : settledPc w.pc = w.pc := by
    cases hplace : w.pc with
    | reaped st =>
      rw [hplace] at h
      cases h
    | _ => rfl
  unfold settled
  rw [hpc]

theorem top_places (w : Watcher) (size : ℕ) :
    (w.top size).pc = .splice ∨ (w.top size).pc = .wait := by
  unfold Watcher.top
  split_ifs
  · exact .inl rfl
  · exact .inr rfl

theorem Mirrors.settled (h : Mirrors w w') : Mirrors (settled w) (settled w') := by
  obtain ⟨handlers, pending, alarmSet, failedRead, rfl⟩ := h
  exact ⟨_, _, _, _, rfl⟩

theorem Mirrors.trans {w'' : Watcher} (h : Mirrors w w') (h' : Mirrors w' w'') :
    Mirrors w w'' := by
  obtain ⟨handlers, pending, alarmSet, failedRead, rfl⟩ := h
  obtain ⟨handlers', pending', alarmSet', failedRead', rfl⟩ := h'
  exact ⟨_, _, _, _, rfl⟩

section

variable (h : Follows cfg s events v)
include h

theorem Follows.mirror (hpc : unreaped s.watcher.pc = true) : Mirrors s.watcher v.watcher := by
  have hmirrors := h.mirrors
  rwa [settled_of_unreaped hpc] at hmirrors

theorem Follows.unseen {s' : Sys} (hmirrors : Mirrors s'.watcher s.watcher)
    (hkill : s'.sigkill = s.sigkill) (hbinary : killable s'.binary = killable s.binary)
    (hdead : ∀ sig event, s'.binary ≠ .zombie (.stopped sig event)) :
    Follows cfg s' events v where
  run := h.run
  mirrors := hmirrors.settled.trans h.mirrors
  forked := by
    rw [hmirrors.pc]
    exact h.forked
  sigkill := by
    rw [hmirrors.pc, hkill]
    exact h.sigkill
  binary := by
    rw [hmirrors.pc, hbinary]
    exact h.binary
  waited := by
    rw [hmirrors.pc, hbinary]
    exact h.waited
  dead := hdead

theorem Follows.reap {s' : Sys} {st : WaitStatus} (hpc : s.watcher.pc = .ended st)
    (hwatcher : s'.watcher = { s.watcher with pc := .reaped st }) (hbinary : s'.binary = s.binary) :
    Follows cfg s' events v where
  run := h.run
  mirrors := by
    have hmirrors := h.mirrors
    have hsame : settled s'.watcher = settled s.watcher := by
      rw [hwatcher]
      unfold settled
      rw [hpc]
      rfl
    rwa [hsame]
  forked := by rw [hwatcher]; rfl
  sigkill := by
    rw [hwatcher]
    exact fun hno => by cases hno
  binary := by
    rw [hwatcher]
    exact fun hno => by cases hno
  waited := by
    rw [hwatcher]
    exact fun hno => by cases hno
  dead := by
    rw [hbinary]
    exact h.dead

theorem Follows.seen {s' : Sys} {v' : Watch} {e : WatchEvent} (hstep : watchStep cfg v e = some v')
    (hmirrors : Mirrors s'.watcher v'.watcher) (hreaped : unreaped s'.watcher.pc = true)
    (hforked : unforked s'.watcher.pc = false)
    (hsigkill : launching s'.watcher.pc = true → v'.sigkilled = s'.sigkill)
    (hbinary : present s'.watcher.pc = true → killable s'.binary = true)
    (hwaited : s'.watcher.pc = .flush → killable s'.binary = false)
    (hdead : ∀ sig event, s'.binary ≠ .zombie (.stopped sig event)) :
    Follows cfg s' (events ++ [e]) v' where
  run := watch_snoc h.run hstep
  mirrors := by
    rw [settled_of_unreaped hreaped]
    exact hmirrors
  forked := hforked
  sigkill := hsigkill
  binary := hbinary
  waited := hwaited
  dead := hdead

theorem follows_startWatching (hpc : s.watcher.pc = .forked) :
    ∃ v', Follows cfg (effect cfg s .startWatching) (events ++ [.startWatching]) v' := by
  have hmirror := h.mirror (by rw [hpc]; rfl)
  have hpc' : v.watcher.pc = .forked := hmirror.pc.symm.trans hpc
  refine ⟨_, h.seen (by rw [watchStep, if_pos hpc']) ?_ rfl rfl ?_ ?_ ?_ h.dead⟩
  · obtain ⟨handlers, pending, alarmSet, failedRead, heq⟩ := hmirror
    refine ⟨handlers, pending, alarmSet, failedRead, ?_⟩
    simp only [effect]
    rw [heq]
  · exact fun _ => h.sigkill (by rw [hpc]; rfl)
  · exact fun _ => h.binary (by rw [hpc]; rfl)
  · exact fun hno => by cases hno

theorem Follows.loops {s' : Sys} {v' : Watch} {e : WatchEvent}
    (hstep : watchStep cfg v e = some v') (hmirrors : Mirrors s'.watcher v'.watcher)
    (hpc : s'.watcher.pc = .splice ∨ s'.watcher.pc = .wait) (hbinary : killable s'.binary = true)
    (hdead : ∀ sig event, s'.binary ≠ .zombie (.stopped sig event)) :
    Follows cfg s' (events ++ [e]) v' := by
  refine h.seen hstep hmirrors ?_ ?_ ?_ (fun _ => hbinary) ?_ hdead
  all_goals
    rcases hpc with hpc | hpc
    all_goals
      rw [hpc]
      first
        | rfl
        | exact fun hno => by cases hno

theorem follows_firstWait (hpc : s.watcher.pc = .firstWait)
    (hon : enabled cfg s (.firstWait true) = true) :
    ∃ v', Follows cfg (effect cfg s (.firstWait true)) (events ++ [.firstWait true]) v' := by
  have hmirror := h.mirror (by rw [hpc]; rfl)
  have hpc' : v.watcher.pc = .firstWait := hmirror.pc.symm.trans hpc
  have hspared : v.sigkilled = false := by
    rw [h.sigkill (by rw [hpc]; rfl)]
    simp only [enabled, decide_eq_true_eq] at hon
    rcases hon.2 with ⟨-, hspared⟩ | ⟨-, hno⟩
    · exact Bool.eq_false_iff.mpr (hspared trivial)
    · cases hno
  have hstep : watchStep cfg v (.firstWait true) =
      some { v with watcher := v.watcher.top cfg.input.length } := by
    rw [watchStep, if_pos ⟨hpc', fun _ => hspared⟩]
    rfl
  exact ⟨_, h.loops hstep (hmirror.top _) (top_places _ _) rfl (fun _ _ hno => by cases hno)⟩

theorem follows_splice (hpc : s.watcher.pc = .splice) {t : Transfer} (ht : t ≠ .error) :
    ∃ v', Follows cfg (effect cfg s (.splice t)) (events ++ [.splice t]) v' := by
  have hmirror := h.mirror (by rw [hpc]; rfl)
  have hpc' : v.watcher.pc = .splice := hmirror.pc.symm.trans hpc
  have hbinary := h.binary (by rw [hpc]; rfl)
  have hnext : (s.watcher.onSplice cfg.input.length t).pc = .wait := by
    cases t with
    | error => exact absurd rfl ht
    | again => rfl
    | moved n => rfl
  have hstep : watchStep cfg v (.splice t) =
      some { v with watcher := v.watcher.onSplice cfg.input.length t } := by
    rw [watchStep, if_pos hpc']
  refine ⟨_, h.seen hstep (hmirror.splice _ t) ?_ ?_ ?_ (fun _ => hbinary) ?_ h.dead⟩
  all_goals
    simp only [effect]
    rw [hnext]
    first
      | rfl
      | exact fun hno => by cases hno

/-- A turn of the flush loop. -/
theorem follows_flush (hpc : s.watcher.pc = .flush) {s' : Sys} {t : Transfer}
    (hw : Mirrors w s.watcher) (hwatcher : s'.watcher = w.onFlush cfg.input.length t)
    (hbinary : s'.binary = s.binary) : ∃ v', Follows cfg s' (events ++ [.flush t]) v' := by
  have hmirror := hw.trans (h.mirror (by rw [hpc]; rfl))
  have hpc' : v.watcher.pc = .flush := hmirror.pc.symm.trans (hw.pc.trans hpc)
  have hwaited := h.waited hpc
  have hnext : s'.watcher.pc = .flush ∨ ∃ st, s'.watcher.pc = .ended st := by
    rw [hwatcher]
    cases t with
    | error => exact .inr ⟨_, rfl⟩
    | again =>
      simp only [Watcher.onFlush, Watcher.leave]
      split_ifs
      · exact .inr ⟨_, rfl⟩
      · exact .inl (hw.pc.trans hpc)
    | moved n =>
      simp only [Watcher.onFlush, Watcher.leave]
      split_ifs
      · exact .inr ⟨_, rfl⟩
      · exact .inl (hw.pc.trans hpc)
  have hstep : watchStep cfg v (.flush t) =
      some { v with watcher := v.watcher.onFlush cfg.input.length t } := by
    rw [watchStep, if_pos hpc']
  have hdead := h.dead
  rw [← hbinary] at hwaited hdead
  refine ⟨_, h.seen hstep (hwatcher ▸ hmirror.flush _ t) ?_ ?_ ?_ ?_ (fun _ => hwaited) hdead⟩
  all_goals
    rcases hnext with hnext | ⟨st, hnext⟩
    all_goals
      rw [hnext]
      first
        | rfl
        | exact fun hno => by cases hno

theorem follows_wait (hpc : s.watcher.pc = .wait) (memUsed : ℤ) :
    ∃ v', Follows cfg (effect cfg s (.wait true memUsed))
      (events ++ [observeWait s.binary memUsed]) v' := by
  have hmirror := h.mirror (by rw [hpc]; rfl)
  have hpc' : v.watcher.pc = .wait := hmirror.pc.symm.trans hpc
  have hbinary := h.binary (by rw [hpc]; rfl)
  have hstatus : ∀ st, watchStep cfg v (.status st memUsed) = some { v with
      watcher := v.watcher.onStatus cfg.input.length cfg.memLimitMb memUsed st } := by
    intro st
    rw [watchStep, if_pos hpc']
  have hunchanged : watchStep cfg v .unchanged =
      some { v with watcher := v.watcher.top cfg.input.length } := by
    rw [watchStep, if_pos hpc']
  have hdead := h.dead
  cases hb : s.binary with
  | stopped sig event =>
    refine ⟨_, h.loops (hstatus (.stopped sig event)) ?_ ?_ ?_ ?_⟩
    · simp only [effect, watcherOnWait, hb]
      exact hmirror.status _ _ _ _
    · simp only [effect, watcherOnWait, hb]
      exact top_places _ _
    · simp [effect, binaryOnWait, hb, killable]
    · simp [effect, binaryOnWait, hb]
  | zombie st =>
    have hmirrors : Mirrors (effect cfg s (.wait true memUsed)).watcher
        (v.watcher.onStatus cfg.input.length cfg.memLimitMb memUsed st) := by
      simp only [effect, watcherOnWait, hb]
      exact hmirror.status _ _ _ _
    have hnext : (effect cfg s (.wait true memUsed)).watcher.pc = .flush := by
      cases st with
      | stopped sig event => exact absurd hb (hdead sig event)
      | exited code => simp [effect, watcherOnWait, hb, Watcher.onStatus]
      | signaled sig => simp [effect, watcherOnWait, hb, Watcher.onStatus]
    refine ⟨_, h.seen (hstatus st) hmirrors ?_ ?_ ?_ ?_ ?_ ?_⟩
    · rw [hnext]
      rfl
    · rw [hnext]
      rfl
    · rw [hnext]
      exact fun hno => by cases hno
    · rw [hnext]
      exact fun hno => by cases hno
    · simp [effect, binaryOnWait, hb, killable]
    · simp [effect, binaryOnWait, hb]
  | _ =>
    rw [hb] at hbinary
    refine ⟨_, h.loops hunchanged ?_ ?_ ?_ ?_⟩
    · simp only [effect, watcherOnWait, hb]
      exact hmirror.top _
    · simp only [effect, watcherOnWait, hb]
      exact top_places _ _
    · simpa [effect, binaryOnWait, hb] using hbinary
    · simp [effect, binaryOnWait, hb]

theorem follows_handle (halive : s.watcher.alive = true) (sig : Sig) :
    ∃ v', Follows cfg (effect cfg s (.handle sig))
      (events ++ observeSignal s.watcher.pc sig) v' := by
  have hforked := h.forked
  have hpc : present s.watcher.pc = true ∨ s.watcher.pc = .flush := by
    cases hplace : s.watcher.pc <;>
      simp_all [Watcher.alive, present, unforked]
  have hreaped : unreaped s.watcher.pc = true := by
    cases hplace : s.watcher.pc <;> simp_all [Watcher.alive, unreaped]
  have hmirror := h.mirror hreaped
  have hsame : (effect cfg s (.handle sig)).watcher.pc = s.watcher.pc := onSignal_pc ..
  rcases hpc with hpc | hpc
  · have hbinary := h.binary hpc
    have hpc' : present v.watcher.pc = true := by
      rw [← hmirror.pc]
      exact hpc
    have hstep : watchStep cfg v (.signal sig) =
        some { v with watcher := v.watcher.onSignal sig true, sigkilled := true } := by
      rw [watchStep, if_pos hpc']
    rw [observeSignal, if_pos hpc]
    refine ⟨_, h.seen hstep ?_ ?_ ?_ ?_ ?_ ?_ h.dead⟩
    · simp only [effect, hbinary]
      exact hmirror.signal sig true
    · rw [hsame]
      exact hreaped
    · rw [hsame]
      exact hforked
    · simp [effect, hbinary]
    · exact fun _ => hbinary
    · rw [hsame]
      intro hflush
      rw [hflush] at hpc
      cases hpc
  · have hbinary := h.waited hpc
    have hpc' : v.watcher.pc = .flush := hmirror.pc.symm.trans hpc
    have hstep : watchStep cfg v (.lateSignal sig) =
        some { v with watcher := v.watcher.onSignal sig false } := by
      rw [watchStep, if_pos hpc']
    have hobserve : observeSignal s.watcher.pc sig = [.lateSignal sig] := by
      rw [hpc]
      rfl
    rw [hobserve]
    refine ⟨_, h.seen hstep ?_ ?_ ?_ ?_ ?_ ?_ h.dead⟩
    · simp only [effect, hbinary]
      exact hmirror.signal sig false
    · rw [hsame]
      exact hreaped
    · rw [hsame]
      exact hforked
    · rw [hsame, hpc]
      exact fun hno => by cases hno
    · rw [hsame, hpc]
      exact fun hno => by cases hno
    · exact fun _ => hbinary

end

theorem Early.unseen {s' : Sys} (h : Early s events) (hforked : unforked s'.watcher.pc = true)
    (hsigkill : s'.sigkill = s.sigkill) (hbinary : s'.binary = s.binary)
    (hfresh : Mirrors { s'.watcher with pc := .forked } { s.watcher with pc := .forked }) :
    Early s' events where
  before := hforked
  events := h.events
  sigkill := hsigkill.trans h.sigkill
  binary := hbinary.trans h.binary
  fresh := hfresh.trans h.fresh

theorem Mirrors.refl (w : Watcher) : Mirrors w w := ⟨_, _, _, _, rfl⟩

theorem mirrors_receive (w : Watcher) (sig : Sig) :
    Mirrors { w.receive sig with pc := .forked } { w with pc := .forked } := by
  unfold Watcher.receive
  split_ifs <;> exact ⟨_, _, _, _, rfl⟩

theorem unforked_receive {w : Watcher} (h : unforked w.pc = true) (sig : Sig) :
    unforked (w.receive sig).pc = true := by
  rw [receive_pc]
  exact h

theorem Early.setup (h : Early s events) (hon : enabled cfg s (.setup true) = true) :
    Early (effect cfg s (.setup true)) events := by
  obtain ⟨call, calls, hpc⟩ := enabled_setup hon
  have hwatcher : (effect cfg s (.setup true)).watcher =
      { s.watcher.establish call with pc := .setup calls } := by
    simp only [effect, watcherOnSetup, hpc]
    rfl
  apply h.unseen
  · rw [hwatcher]
    rfl
  · rfl
  · rfl
  · rw [hwatcher]
    cases call <;> exact ⟨_, _, _, _, rfl⟩

theorem follows_fork (h : Early s events) : Follows cfg (effect cfg s (.fork true)) [] forkedWatch where
  run := rfl
  mirrors := h.fresh
  forked := rfl
  sigkill := fun _ => h.sigkill.symm
  binary := fun _ => rfl
  waited := fun hno => by cases hno
  dead := fun _ _ hno => by cases hno

theorem Early.step (h : Early s events) {act : Act} (hok : unfailing act = true)
    (hon : enabled cfg s act = true) : Tracked cfg (effect cfg s act) (events ++ observe s act) := by
  have hpc := h.before
  have hsilent : ∀ s' : Sys, Early s' events → Tracked cfg s' (events ++ []) := by
    intro s' hearly
    rw [List.append_nil]
    exact .inl hearly
  have hwatcher : ∀ s' : Sys, s'.watcher = s.watcher → s'.sigkill = s.sigkill →
      s'.binary = s.binary → Tracked cfg s' (events ++ []) := by
    intro s' hsame hsigkill hbinary
    refine hsilent s' (h.unseen ?_ hsigkill hbinary ?_)
    · rw [hsame]
      exact hpc
    · rw [hsame]
      exact .refl _
  cases act with
  | clone outcome =>
    simp only [unfailing, decide_eq_true_eq] at hok
    subst hok
    exact hsilent _ (h.unseen rfl rfl rfl (.refl _))
  | checkFds ok => exact hwatcher _ rfl rfl rfl
  | send t => exact hwatcher _ rfl rfl rfl
  | read o => exact hwatcher _ rfl rfl rfl
  | poll ok =>
    obtain rfl : ok = true := hok
    refine hwatcher _ ?_ rfl rfl
    change reap s.watcher true = s.watcher
    cases hplace : s.watcher.pc with
    | ended st =>
      rw [hplace] at hpc
      cases hpc
    | _ => simp [reap, hplace]
  | kill =>
    exact hsilent _ (h.unseen (unforked_receive hpc .usr2) rfl rfl (mirrors_receive _ _))
  | alarm =>
    refine hsilent _ (h.unseen (unforked_receive hpc .alrm) rfl rfl ?_)
    have hcleared : Mirrors
        { s.watcher.receive .alrm with pc := .forked, alarmSet := false }
        { s.watcher.receive .alrm with pc := .forked } := ⟨_, _, _, _, rfl⟩
    exact hcleared.trans (mirrors_receive _ _)
  | setup ok =>
    obtain rfl : ok = true := hok
    exact hsilent _ (h.setup hon)
  | fork ok =>
    obtain rfl : ok = true := hok
    rw [h.events]
    exact .inr ⟨_, follows_fork h⟩
  | handle sig =>
    have hnone : observeSignal s.watcher.pc sig = [] := by
      cases hplace : s.watcher.pc <;> simp_all [unforked, observeSignal, present]
    rw [observe, hnone]
    have hbinary : killable s.binary = false := by
      rw [h.binary]
      rfl
    refine hsilent _ (h.unseen ?_ ?_ rfl ?_)
    · change unforked (s.watcher.onSignal sig (killable s.binary)).pc = true
      rw [onSignal_pc]
      exact hpc
    · simp [effect, hbinary]
    · simp only [effect, hbinary]
      exact ⟨_, _, _, _, rfl⟩
  | killWatcher sig => cases hok
  | startWatching =>
    simp only [enabled, decide_eq_true_eq] at hon
    rw [hon] at hpc
    cases hpc
  | firstWait ok =>
    simp only [enabled, decide_eq_true_eq] at hon
    rw [hon.1] at hpc
    cases hpc
  | splice t =>
    simp only [enabled, decide_eq_true_eq] at hon
    rw [hon.1] at hpc
    cases hpc
  | wait ok memUsed =>
    simp only [enabled, decide_eq_true_eq] at hon
    rw [hon] at hpc
    cases hpc
  | flush t =>
    simp only [enabled, decide_eq_true_eq] at hon
    rw [hon.1] at hpc
    cases hpc
  | test errno =>
    simp only [enabled, decide_eq_true_eq] at hon
    rw [hon.1] at hpc
    cases hpc
  | exec => exact absurd h.binary (enabled_forked rfl hon)
  | write bytes => exact absurd h.binary (enabled_forked rfl hon)
  | stop sig event => exact absurd h.binary (enabled_forked rfl hon)
  | exit code => exact absurd h.binary (enabled_forked rfl hon)
  | die sig => exact absurd h.binary (enabled_forked rfl hon)

theorem killable_binary {act : Act} (hact : ofBinary act = true)
    (hon : enabled cfg s act = true) : killable s.binary = true := by
  have hforked := enabled_forked hact hon
  have hwaited := enabled_binary hact hon
  cases hb : s.binary with
  | unforked => exact absurd hb hforked
  | reaped st => exact absurd hb (hwaited st)
  | _ => rfl

theorem Follows.step (h : Follows cfg s events v) {act : Act} (hok : unfailing act = true)
    (hon : enabled cfg s act = true) : Tracked cfg (effect cfg s act) (events ++ observe s act) := by
  have hforked := h.forked
  have hsilent : ∀ s' : Sys, Follows cfg s' events v → Tracked cfg s' (events ++ []) := by
    intro s' hfollows
    rw [List.append_nil]
    exact .inr ⟨v, hfollows⟩
  have hbinary : ofBinary act = true → ∀ b : Binary, killable b = true →
      (∀ sig event, b ≠ .zombie (.stopped sig event)) →
      Tracked cfg { s with binary := b } (events ++ []) := by
    intro hact b hb hdead
    apply hsilent
    exact h.unseen (.refl _) rfl (hb.trans (killable_binary hact hon).symm) hdead
  cases act with
  | clone outcome =>
    simp only [enabled, decide_eq_true_eq] at hon
    rw [hon.2] at hforked
    cases hforked
  | checkFds ok => exact hsilent _ (h.unseen (.refl _) rfl rfl h.dead)
  | send t => exact hsilent _ (h.unseen (.refl _) rfl rfl h.dead)
  | read o => exact hsilent _ (h.unseen (.refl _) rfl rfl h.dead)
  | poll ok =>
    obtain rfl : ok = true := hok
    apply hsilent
    cases hpc : s.watcher.pc with
    | ended st =>
      refine h.reap hpc ?_ rfl
      simp [effect, RunSystem.reap, hpc]
    | _ =>
      refine h.unseen ?_ rfl rfl h.dead
      simp only [effect, RunSystem.reap, hpc]
      exact .refl _
  | kill =>
    exact hsilent _ (h.unseen ((Mirrors.refl s.watcher).receive .usr2) rfl rfl h.dead)
  | alarm =>
    refine hsilent _ (h.unseen ?_ rfl rfl h.dead)
    have hcleared : Mirrors { s.watcher.receive .alrm with alarmSet := false }
        (s.watcher.receive .alrm) := ⟨_, _, _, _, rfl⟩
    exact hcleared.trans ((Mirrors.refl s.watcher).receive .alrm)
  | setup ok =>
    obtain ⟨call, calls, hpc⟩ := enabled_setup hon
    rw [hpc] at hforked
    cases hforked
  | fork ok =>
    simp only [enabled, decide_eq_true_eq] at hon
    rw [hon] at hforked
    cases hforked
  | startWatching =>
    simp only [enabled, decide_eq_true_eq] at hon
    exact .inr (follows_startWatching h hon)
  | firstWait ok =>
    obtain rfl : ok = true := hok
    have hpc := hon
    simp only [enabled, decide_eq_true_eq] at hpc
    exact .inr (follows_firstWait h hpc.1 hon)
  | splice t =>
    simp only [enabled, decide_eq_true_eq] at hon
    exact .inr (follows_splice h hon.1 (by simpa [unfailing] using hok))
  | wait ok memUsed =>
    obtain rfl : ok = true := hok
    simp only [enabled, decide_eq_true_eq] at hon
    exact .inr (follows_wait h hon memUsed)
  | flush t =>
    simp only [enabled, decide_eq_true_eq] at hon
    cases t with
    | again => exact hsilent _ (h.unseen ⟨_, _, _, _, rfl⟩ rfl rfl h.dead)
    | moved n => exact .inr (follows_flush h hon.1 (.refl _) rfl rfl)
    | error => exact .inr (follows_flush h hon.1 (.refl _) rfl rfl)
  | test errno =>
    simp only [enabled, decide_eq_true_eq] at hon
    have htested : Mirrors { s.watcher with failedRead := none } s.watcher := ⟨_, _, _, _, rfl⟩
    cases errno with
    | eagain => exact .inr (follows_flush h hon.1 htested rfl rfl)
    | esrch => exact .inr (follows_flush h hon.1 htested rfl rfl)
  | handle sig =>
    simp only [enabled, decide_eq_true_eq] at hon
    exact .inr (follows_handle h hon.1 sig)
  | killWatcher sig => cases hok
  | exec => exact hbinary rfl _ rfl (fun _ _ hno => by cases hno)
  | write bytes => exact hsilent _ (h.unseen (.refl _) rfl rfl h.dead)
  | stop sig event => exact hbinary rfl _ rfl (fun _ _ hno => by cases hno)
  | exit code => exact hbinary rfl _ rfl (fun _ _ hno => by cases hno)
  | die sig => exact hbinary rfl _ rfl (fun _ _ hno => by cases hno)

/-- Runs without failing calls, with what their watcher observed. -/
def Observed (cfg : Config) (s : Sys) (events : List WatchEvent) : Prop :=
  Reaches (recordStep (step cfg) observe) (fun _ act => unfailing act = true) (start cfg, [])
    (s, events)

theorem tracked_run (hrun : Observed cfg s events) : Tracked cfg s events := by
  apply hrun.invariant (fun p => Tracked cfg p.1 p.2)
  · exact .inl ⟨rfl, rfl, rfl, rfl, _, _, _, _, rfl⟩
  · intro p act p' h hok hstep
    obtain ⟨hnext, hevents⟩ := recordStep_cases hstep
    obtain ⟨hon, -, hstate⟩ := step_cases hnext
    rw [hevents, hstate]
    rcases h with hearly | ⟨v, hfollows⟩
    · exact hearly.step hok hon
    · exact hfollows.step hok hon

theorem observe_unfailed {act : Act} (hok : unfailing act = true) :
    ∀ e ∈ observe s act, failing e = false := by
  intro e hmem
  cases act with
  | startWatching =>
    rw [observe, List.mem_singleton] at hmem
    rw [hmem]
    rfl
  | firstWait ok =>
    obtain rfl : ok = true := hok
    rw [observe, List.mem_singleton] at hmem
    rw [hmem]
    rfl
  | splice t =>
    rw [observe, List.mem_singleton] at hmem
    rw [hmem]
    simpa [unfailing, failing] using hok
  | wait ok memUsed =>
    obtain rfl : ok = true := hok
    rw [observe, if_pos rfl, List.mem_singleton] at hmem
    rw [hmem]
    cases s.binary <;> rfl
  | flush t =>
    cases t with
    | again => cases hmem
    | moved n =>
      rw [observe, List.mem_singleton] at hmem
      · rw [hmem]
        rfl
      · exact fun hno => by cases hno
    | error => cases hok
  | test errno =>
    obtain rfl : errno = .eagain := by simpa [unfailing] using hok
    rw [observe, List.mem_singleton] at hmem
    rw [hmem]
    rfl
  | handle sig =>
    simp only [observe, observeSignal] at hmem
    split_ifs at hmem
    · rw [List.mem_singleton] at hmem
      rw [hmem]
      rfl
    · rw [List.mem_singleton] at hmem
      rw [hmem]
      rfl
    · cases hmem
  | _ => cases hmem

theorem unfailed_run (hrun : Observed cfg s events) : Unfailed events := by
  apply hrun.invariant (fun p => Unfailed p.2)
  · exact fun _ hmem => by cases hmem
  · intro p act p' h hok hstep
    obtain ⟨-, hevents⟩ := recordStep_cases hstep
    rw [hevents]
    intro e hmem
    rcases List.mem_append.mp hmem with hpast | hnew
    · exact h e hpast
    · exact observe_unfailed hok e hnew

/-- The watcher that a run leaves behind has lived through the events of the run. -/
theorem watch_of_run (hrun : Observed cfg s events) {st : WaitStatus}
    (hreaped : s.watcher.pc = .reaped st) :
    ∃ v, watch cfg events = some v ∧ v.watcher.pc = .ended st := by
  rcases tracked_run hrun with hearly | ⟨v, hfollows⟩
  · have hpc := hearly.before
    rw [hreaped] at hpc
    cases hpc
  · refine ⟨v, hfollows.run, ?_⟩
    rw [← hfollows.mirrors.pc]
    change settledPc s.watcher.pc = .ended st
    rw [hreaped]
    rfl

end KudosJudge.WatcherEvents
