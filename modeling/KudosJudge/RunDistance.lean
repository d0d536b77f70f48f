import KudosJudge.RunCoherence

set_option autoImplicit false

namespace KudosJudge.RunSystem
open CompareOutput Results SandboxWatcher RunnerLoop Runs

variable {cfg : Config}

def watcherRank : SandboxWatcher.Pc → Binary → ℕ
  | .unborn, _ => 40
  | .setup calls, _ => 20 + calls.length
  | .forked, _ => 19
  | .firstWait, .starting => 18
  | .firstWait, _ => 17
  | .splice, .stopped _ _ => 9
  | .wait, .stopped _ _ => 8
  | .splice, .running => 7
  | .wait, .running => 6
  | .splice, _ => 5
  | .wait, _ => 4
  | .flush, _ => 3
  | .ended _, _ => 2
  | .absent, _ => 1
  | .reaped _, _ => 0

/-- Behind the loop, in it without a watcher, or with one. -/
def phase (r : Runner) : ℕ :=
  match r.pc with
  | .returned _ => 0
  | .flushIn => 1
  | .flushOut _ => 2
  | _ => if r.watcherAlive then 4 else 3

def readRank : RunnerLoop.Pc → ℕ
  | .read => 0
  | .send => 1
  | .killSend => 1
  | .poll => 2
  | .killMismatch => 4
  | .flushOut blockingCount => 10001 - blockingCount
  | _ => 3

def sendRank : RunnerLoop.Pc → ℕ
  | .send => 0
  | .poll => 1
  | .killMismatch => 3
  | .read => 4
  | .killSend => 5
  | .flushOut blockingCount => 10001 - blockingCount
  | _ => 2

/-- The next read gets on: it finds output, or ends the loop. -/
def hungry (r : Runner) (outPipe : List UInt8) : Bool :=
  !r.watcherAlive || (!outPipe.isEmpty && !r.compoutDetected && !r.endoffile)

/-- The weight of a place covers the 10001 reads of the first flush loop. -/
def work (r : Runner) (outPipe : List UInt8) : ℕ :=
  20000 * phase r + if hungry r outPipe then readRank r.pc else sendRank r.pc

/-- A turn of the flush loop: the watcher reads on as long as input is missing. -/
def testRank (cfg : Config) (w : Watcher) : ℕ :=
  match w.pc, w.failedRead with
  | .flush, none => 1
  | .flush, some _ => if cfg.input.length ≤ w.spliceSizeAcc + w.flushAcc then 0 else 2
  | _, _ => 0

def distance (cfg : Config) (s : Sys) : ℕ :=
  10 * watcherRank s.watcher.pc s.binary + testRank cfg s.watcher +
    20 * (2 * (cfg.input.length - s.runner.sent) + s.inPipe.length) +
    20000 * s.outPipe.length + work s.runner s.outPipe

theorem testRank_le (cfg : Config) (w : Watcher) : testRank cfg w ≤ 2 := by
  unfold testRank
  split
  · decide
  · split_ifs <;> decide
  · decide

theorem testRank_receive (w : Watcher) (sig : Sig) :
    testRank cfg (w.receive sig) = testRank cfg w := by
  unfold Watcher.receive
  split_ifs <;> rfl

section

variable {r : Runner} {outPipe : List UInt8}

theorem work_loop (hin : behindLoop r.pc = false) :
    work r outPipe = 20000 * (if r.watcherAlive then 4 else 3) +
      if hungry r outPipe then readRank r.pc else sendRank r.pc := by
  have hphase : phase r = if r.watcherAlive then 4 else 3 := by
    cases hpc : r.pc with
    | flushOut blockingCount =>
      rw [hpc] at hin
      cases hin
    | flushIn =>
      rw [hpc] at hin
      cases hin
    | returned site =>
      rw [hpc] at hin
      cases hin
    | _ => simp only [phase, hpc]
  rw [work, hphase]

theorem work_goTo {pc : RunnerLoop.Pc} (hin : behindLoop r.pc = false) (hpc : behindLoop pc = false)
    (hhungry : hungry r outPipe = true → readRank pc < readRank r.pc)
    (hsated : hungry r outPipe = false → sendRank pc < sendRank r.pc) :
    work { r with pc := pc } outPipe < work r outPipe := by
  have hpc' : behindLoop { r with pc := pc }.pc = false := hpc
  rw [work_loop hpc', work_loop hin]
  change _ + (if hungry r outPipe then readRank pc else sendRank pc) < _
  cases hh : hungry r outPipe with
  | true => exact Nat.add_lt_add_left (hhungry hh) _
  | false => exact Nat.add_lt_add_left (hsated hh) _

theorem work_finish (r : Runner) (outPipe : List UInt8) : work r.finish outPipe = 50001 := by
  have hsame : work r.finish outPipe = 20000 * 2 + if hungry r.finish outPipe then 10001 else 10001 :=
    rfl
  rw [hsame, ite_self]

theorem loop_le_work (outPipe : List UInt8) (hin : behindLoop r.pc = false) :
    60000 ≤ work r outPipe := by
  rw [work_loop hin]
  split_ifs <;> omega

theorem alive_of_sated (h : hungry r outPipe = false) : r.watcherAlive = true := by
  simp only [hungry, Bool.or_eq_false_iff, Bool.not_eq_false'] at h
  exact h.1

theorem work_check (hin : behindLoop r.pc = false)
    (hhungry : hungry r outPipe = true → 1 ≤ readRank r.pc)
    (hsated : hungry r outPipe = false → 5 ≤ sendRank r.pc) :
    work r.check outPipe < work r outPipe := by
  unfold Runner.check
  split_ifs with hdecided halive
  · refine work_goTo hin rfl (fun hh => ?_) fun hh => (by decide : 1 < 5).trans_le (hsated hh)
    simp only [hungry, halive, Bool.not_true, Bool.false_or, Bool.and_eq_true,
      Bool.not_eq_true'] at hh
    rw [hh.2, hh.1.2] at hdecided
    cases hdecided
  · have hle := loop_le_work outPipe hin
    rw [work_finish]
    omega
  · exact work_goTo hin rfl hhungry hsated

theorem work_toSend (hin : behindLoop r.pc = false)
    (hhungry : hungry r outPipe = true → 2 ≤ readRank r.pc)
    (hsated : hungry r outPipe = false →
      1 ≤ sendRank r.pc ∧ (r.dsSentAcc < cfg.input.length ∨ 5 ≤ sendRank r.pc)) :
    work (r.toSend cfg) outPipe < work r outPipe := by
  unfold Runner.toSend
  split_ifs with hunsent
  · exact work_goTo hin rfl hhungry fun hh => (hsated hh).1
  · exact work_check hin (fun hh => (Nat.le_succ 1).trans (hhungry hh)) fun hh =>
      (hsated hh).2.resolve_left hunsent

theorem work_top (hin : behindLoop r.pc = false)
    (hhungry : hungry r outPipe = true → 3 ≤ readRank r.pc)
    (hsated : hungry r outPipe = false → 2 ≤ sendRank r.pc) :
    work (r.top cfg) outPipe < work r outPipe := by
  unfold Runner.top
  split_ifs with halive
  · exact work_goTo hin rfl hhungry hsated
  · refine work_toSend hin (fun hh => (Nat.le_succ 2).trans (hhungry hh)) fun hh => ?_
    exact absurd (alive_of_sated hh) halive

theorem work_checkLimit (hin : behindLoop r.pc = false)
    (hhungry : hungry r outPipe = true → 4 ≤ readRank r.pc)
    (hsated : hungry r outPipe = false → 3 ≤ sendRank r.pc) :
    work (r.checkLimit cfg) outPipe < work r outPipe := by
  unfold Runner.checkLimit
  split_ifs
  · exact work_goTo hin rfl hhungry hsated
  · exact work_top hin (fun hh => (Nat.le_succ 3).trans (hhungry hh)) fun hh =>
      (Nat.le_succ 2).trans (hsated hh)

theorem work_onKill (hkill : killing r.pc = true) :
    work (r.onKill cfg) outPipe < work r outPipe := by
  have hin : behindLoop r.pc = false := by
    cases hpc : r.pc with
    | flushOut blockingCount =>
      rw [hpc] at hkill
      cases hkill
    | returned site =>
      rw [hpc] at hkill
      cases hkill
    | flushIn =>
      rw [hpc] at hkill
      cases hkill
    | _ => rfl
  unfold Runner.onKill
  split
  · rename_i hpc
    exact work_check hin (fun _ => by rw [hpc]; decide) fun _ => by rw [hpc]; decide
  · rename_i hpc
    exact work_checkLimit hin (fun _ => by rw [hpc]; decide) fun _ => by rw [hpc]; decide
  · rename_i hpc
    have htop : work ({ r with compResult := .outputlimit }.top cfg) outPipe <
        work { r with compResult := .outputlimit } outPipe :=
      work_top hin (fun _ => by simp only [hpc]; decide) fun _ => by simp only [hpc]; decide
    exact htop
  · rename_i hpc
    exact work_top hin (fun _ => by rw [hpc]; decide) fun _ => by rw [hpc]; decide
  · rename_i hsend hmismatch hlimit hread
    cases hpc : r.pc with
    | killSend => exact (hsend hpc).elim
    | killMismatch => exact (hmismatch hpc).elim
    | killLimit => exact (hlimit hpc).elim
    | killRead => exact (hread hpc).elim
    | _ =>
      rw [hpc] at hkill
      cases hkill

theorem rank_le (hin : behindLoop r.pc = false) : readRank r.pc ≤ 5 ∧ sendRank r.pc ≤ 5 := by
  cases hpc : r.pc with
  | flushOut blockingCount =>
    rw [hpc] at hin
    cases hin
  | returned site =>
    rw [hpc] at hin
    cases hin
  | _ => decide

theorem work_within (outPipe : List UInt8) (h : Within r) :
    work r outPipe ≤ 20000 * (if r.watcherAlive then 4 else 3) + 5 := by
  rcases h with hin | ⟨hpc, -⟩
  · have hrank := rank_le hin
    rw [work_loop hin]
    split_ifs <;> omega
  · have hsame : work r outPipe = 20000 * 2 + if hungry r outPipe then 10001 else 10001 := by
      simp only [work, phase, readRank, sendRank, hpc]
    rw [hsame, ite_self]
    split_ifs <;> omega

theorem work_moved {r' : Runner} {outPipe' : List UInt8} (hin : behindLoop r.pc = false)
    (hwithin : Within r') (halive : r'.watcherAlive = r.watcherAlive) :
    work r' outPipe' ≤ work r outPipe + 5 := by
  have hnew := work_within outPipe' hwithin
  rw [halive] at hnew
  rw [work_loop hin]
  omega

theorem work_dead {r' : Runner} (hin : behindLoop r.pc = false) (halive : r.watcherAlive = true)
    (hwithin : Within r') (hdead : r'.watcherAlive = false) :
    work r' outPipe < work r outPipe := by
  have hnew := work_within outPipe hwithin
  rw [hdead] at hnew
  rw [work_loop hin, halive]
  simp only [if_true]
  simp only [Bool.false_eq_true, if_false] at hnew
  omega

end

/-- No call fails that can succeed. -/
def faultless (s : Sys) : Act → Bool
  | .poll ok => ok ∨ s.watcher.pc = .absent
  | .firstWait ok => ok ∨ s.binary.ended ∨ s.sigkill
  | .test _ => true
  | act => unfailing act

/-- Such steps of runner and watcher; no signal arrives, and the binary does no more than its
`execvpe`. -/
def routine (s : Sys) : Act → Bool
  | .wait ok memUsed => ok ∧ memUsed = 0
  | .handle _ => false
  | .alarm => false
  | .write _ => false
  | .stop _ _ => false
  | .exit _ => false
  | .die _ => false
  | act => faultless s act

theorem faultless_of_routine {s : Sys} {act : Act} (h : routine s act = true) :
    faultless s act = true := by
  cases act with
  | wait ok memUsed =>
    simp only [routine, Bool.decide_and, Bool.decide_eq_true, Bool.and_eq_true] at h
    exact h.1
  | handle sig => cases h
  | alarm => cases h
  | write bytes => cases h
  | stop sig event => cases h
  | exit code => cases h
  | die sig => cases h
  | _ => exact h

def Nears (cfg : Config) (s : Sys) : Prop :=
  ∃ act, routine s act = true ∧ enabled cfg s act = true ∧
    distance cfg (effect cfg s act) < distance cfg s

section

variable {s : Sys}

theorem nears_of_work {act : Act} (hroutine : routine s act = true)
    (hon : enabled cfg s act = true)
    (hpc : (effect cfg s act).watcher.pc = s.watcher.pc)
    (htest : testRank cfg (effect cfg s act).watcher = testRank cfg s.watcher)
    (hbinary : (effect cfg s act).binary = s.binary)
    (hsent : (effect cfg s act).runner.sent = s.runner.sent)
    (hin : (effect cfg s act).inPipe = s.inPipe) (hout : (effect cfg s act).outPipe = s.outPipe)
    (hwork : work (effect cfg s act).runner s.outPipe < work s.runner s.outPipe) :
    Nears cfg s := by
  refine ⟨act, hroutine, hon, ?_⟩
  rw [distance, distance, hpc, htest, hbinary, hsent, hin, hout]
  omega

theorem nears_checkFds (hpc : s.runner.pc = .checkFds) : Nears cfg s := by
  have hon : enabled cfg s (.checkFds true) = true := by simp [enabled, hpc]
  refine nears_of_work rfl hon rfl rfl rfl rfl rfl rfl ?_
  change work { s.runner with pc := .poll } s.outPipe < _
  refine work_goTo (by rw [hpc]; rfl) rfl (fun _ => ?_) fun _ => ?_
  · rw [hpc]
    decide
  · rw [hpc]
    decide

theorem nears_kill (hkill : killing s.runner.pc = true) : Nears cfg s := by
  have hon : enabled cfg s .kill = true := (enabled_kill_killing s).trans hkill
  exact nears_of_work rfl hon (receive_pc s.watcher .usr2) (testRank_receive s.watcher .usr2) rfl
    (kept_onKill ..).sent rfl rfl (work_onKill hkill)

theorem nears_poll (h : Coherent cfg s) (hpc : s.runner.pc = .poll)
    (hgo : (∃ st, s.watcher.pc = .ended st) ∨ s.watcher.pc = .absent ∨
      hungry s.runner s.outPipe = true ∨ s.runner.dsSentAcc < cfg.input.length) :
    Nears cfg s := by
  have hin : behindLoop s.runner.pc = false := by rw [hpc]; rfl
  have halive := h.placed.polling (by rw [hpc]; rfl)
  have hend : ∀ r' : Runner, r'.sent = s.runner.sent → r'.watcherAlive = false → Within r' →
      work r' s.outPipe < work s.runner s.outPipe := fun r' _ hdead hwithin =>
    work_dead hin halive hwithin hdead
  by_cases habsent : s.watcher.pc = .absent
  · have hon : enabled cfg s (.poll false) = true := by simp [enabled, hpc]
    have hroutine : routine s (.poll false) = true := by simp [routine, faultless, habsent]
    refine nears_of_work hroutine hon ?_ ?_ rfl (onPoll_sent ..) rfl rfl ?_
    · simp [effect, reap, habsent]
    · simp [effect, reap]
    · exact hend _ (onPoll_sent ..) ((toSend_resumes _).kept.alive) (onPoll_within ..)
  · have hon : enabled cfg s (.poll true) = true := by simp [enabled, hpc, habsent]
    rcases reap_cases s.watcher true with hsame | ⟨st, -, hst, hreap⟩
    · have hended : ∀ st, s.watcher.pc ≠ .ended st := by
        intro st hst
        have hpc' : (reap s.watcher true).pc = .reaped st := by simp only [reap, hst]
        rw [hsame, hst] at hpc'
        cases hpc'
      have hresult : pollResult s true = .unchanged := by
        unfold pollResult
        rw [if_pos rfl]
        split
        · rename_i st hst
          exact absurd hst (hended st)
        · rfl
      refine nears_of_work rfl hon ?_ ?_ rfl (onPoll_sent ..) rfl rfl ?_
      · simp only [effect, hsame]
      · simp only [effect, hsame]
      · change work (s.runner.onPoll cfg (pollResult s true)) s.outPipe < _
        rw [hresult]
        refine work_toSend hin (fun _ => by rw [hpc]; decide) fun hsated => ⟨by rw [hpc]; decide, ?_⟩
        rcases hgo with ⟨st, hst⟩ | hplace | hhungry | hunsent
        · exact absurd hst (hended st)
        · exact absurd hplace habsent
        · rw [hsated] at hhungry
          cases hhungry
        · exact .inl hunsent
    · refine ⟨.poll true, rfl, hon, ?_⟩
      have hreaped : (effect cfg s (.poll true)).watcher.pc = .reaped st := hreap
      have hsent : (effect cfg s (.poll true)).runner.sent = s.runner.sent := onPoll_sent ..
      have hwork := hend _ hsent (poll_collects cfg hst) (onPoll_within ..)
      have htest := testRank_le cfg (effect cfg s (.poll true)).watcher
      rw [distance, distance, hreaped, hsent, hst]
      change 10 * 0 + _ + 20 * (_ + s.inPipe.length) + 20000 * s.outPipe.length +
        work (effect cfg s (.poll true)).runner s.outPipe < 10 * 2 + _ + _ + _ + _
      omega

theorem nears_moved {pc : RunnerLoop.Pc} (hpc : s.runner.pc = pc) (hplace : pc = .send ∨ pc = .flushIn)
    (hunsent : s.runner.sent < cfg.input.length) (hroom : s.inPipe.length < cfg.inCapacity)
    (hwork : work (runnerOnSend cfg s.runner (.moved 1)) s.outPipe ≤ work s.runner s.outPipe + 5) :
    Nears cfg s := by
  have hsendable : sendable cfg s (.moved 1) = true := by
    change movable (min (cfg.input.length - s.runner.sent) (cfg.inCapacity - s.inPipe.length))
      transferSize (.moved 1) = true
    have hmin : 1 ≤ min (cfg.input.length - s.runner.sent) (cfg.inCapacity - s.inPipe.length) := by
      omega
    exact decide_eq_true ⟨le_rfl, hmin, by decide⟩
  have hon : enabled cfg s (.send (.moved 1)) = true := by
    subst hpc
    simp [enabled, hplace, hsendable]
  refine ⟨.send (.moved 1), rfl, hon, ?_⟩
  have hsent : (effect cfg s (.send (.moved 1))).runner.sent = s.runner.sent + 1 :=
    (kept_runnerOnSend ..).sent
  have hlength : (effect cfg s (.send (.moved 1))).inPipe.length = s.inPipe.length + 1 := by
    simp only [effect, Transfer.count, List.length_append, List.length_take, List.length_drop]
    omega
  have hdistance : distance cfg (effect cfg s (.send (.moved 1))) =
      10 * watcherRank s.watcher.pc s.binary + testRank cfg s.watcher +
        20 * (2 * (cfg.input.length - (s.runner.sent + 1)) + (s.inPipe.length + 1)) +
        20000 * s.outPipe.length + work (runnerOnSend cfg s.runner (.moved 1)) s.outPipe := by
    rw [distance, hsent, hlength]
    rfl
  rw [hdistance, distance]
  omega

theorem nears_send (h : Coherent cfg s) (hpc : s.runner.pc = .send)
    (hgo : s.inPipe.length < cfg.inCapacity ∨ hungry s.runner s.outPipe = true) : Nears cfg s := by
  have hin : behindLoop s.runner.pc = false := by rw [hpc]; rfl
  by_cases hroom : s.inPipe.length < cfg.inCapacity
  · have hunsent : s.runner.sent < cfg.input.length := by
      have hsending := h.placed.sending hpc
      have hflush := h.placed.unflushed hin
      unfold Runner.sent
      omega
    refine nears_moved hpc (.inl rfl) hunsent hroom ?_
    rw [runnerOnSend_loop hpc]
    exact work_moved hin (onSend_within ..) (kept_onSend ..).alive
  · have hhungry := hgo.resolve_left hroom
    have hon : enabled cfg s (.send .again) = true := by
      simp [enabled, hpc, sendable, movable]
    refine nears_of_work rfl hon rfl rfl rfl (kept_runnerOnSend ..).sent (List.append_nil _) rfl ?_
    change work (runnerOnSend cfg s.runner .again) s.outPipe < _
    rw [runnerOnSend_loop hpc]
    refine work_check hin (fun _ => by rw [hpc]; decide) fun hsated => ?_
    rw [hsated] at hhungry
    cases hhungry

theorem nears_bytes (hon : enabled cfg s (.read (.bytes 1)) = true) (hne : s.outPipe ≠ [])
    (hwork : work (runnerOnRead cfg s.runner s.outPipe (.bytes 1)) (s.outPipe.drop 1) <
      work s.runner s.outPipe + 20000) : Nears cfg s := by
  refine ⟨.read (.bytes 1), rfl, hon, ?_⟩
  have hsent : (effect cfg s (.read (.bytes 1))).runner.sent = s.runner.sent :=
    (kept_runnerOnRead ..).sent
  have hlength : (s.outPipe.drop 1).length + 1 = s.outPipe.length := by
    have hpos := List.length_pos_iff.mpr hne
    rw [List.length_drop]
    omega
  have hdistance : distance cfg (effect cfg s (.read (.bytes 1))) =
      10 * watcherRank s.watcher.pc s.binary + testRank cfg s.watcher +
        20 * (2 * (cfg.input.length - s.runner.sent) + s.inPipe.length) +
        20000 * (s.outPipe.drop 1).length +
        work (runnerOnRead cfg s.runner s.outPipe (.bytes 1)) (s.outPipe.drop 1) := by
    rw [distance, hsent]
    rfl
  rw [hdistance, distance]
  omega

theorem readable_one (hne : s.outPipe ≠ []) : readable s (.bytes 1) = true := by
  have hpos := List.length_pos_iff.mpr hne
  exact decide_eq_true ⟨le_rfl, hpos, by decide⟩

theorem nears_read (hpc : s.runner.pc = .read) : Nears cfg s := by
  have hin : behindLoop s.runner.pc = false := by rw [hpc]; rfl
  by_cases hempty : s.outPipe = []
  · have hon : enabled cfg s (.read .again) = true := by simp [enabled, hpc, readable, hempty]
    refine nears_of_work rfl hon rfl rfl rfl (kept_runnerOnRead ..).sent rfl rfl ?_
    change work (runnerOnRead cfg s.runner s.outPipe .again) s.outPipe < _
    simp only [runnerOnRead, hpc, Runner.onRead]
    split_ifs with halive
    · refine work_top hin (fun hhungry => ?_) fun _ => by rw [hpc]; decide
      simp only [hungry, halive, hempty, Bool.not_true, Bool.false_or, List.isEmpty_nil,
        Bool.false_and] at hhungry
      cases hhungry
    · have hle := loop_le_work s.outPipe hin
      rw [work_finish]
      omega
  · have hon : enabled cfg s (.read (.bytes 1)) = true := by
      simp only [enabled, hpc]
      exact readable_one hempty
    refine nears_bytes hon hempty ?_
    have hmoved : work (s.runner.onRead cfg s.outPipe (.bytes 1)) (s.outPipe.drop 1) ≤
        work s.runner s.outPipe + 5 := work_moved hin (onRead_within ..) (kept_onRead ..).alive
    simp only [runnerOnRead, hpc]
    omega

theorem work_flushOut {r : Runner} {outPipe : List UInt8} {blockingCount : ℕ}
    (hpc : r.pc = .flushOut blockingCount) : work r outPipe = 40000 + (10001 - blockingCount) := by
  simp only [work, phase, hpc, readRank, sendRank, ite_self]

theorem nears_flushOut {blockingCount : ℕ} (hpc : s.runner.pc = .flushOut blockingCount) :
    Nears cfg s := by
  by_cases hempty : s.outPipe = []
  · have hon : enabled cfg s (.read .again) = true := by simp [enabled, hpc, readable, hempty]
    refine nears_of_work rfl hon rfl rfl rfl (kept_runnerOnRead ..).sent rfl rfl ?_
    change work (runnerOnRead cfg s.runner s.outPipe .again) s.outPipe < _
    rw [work_flushOut hpc]
    simp only [runnerOnRead, hpc, Runner.onFlushOut]
    split_ifs with hgiven
    · simp only [work, phase, readRank, sendRank]
      split_ifs <;> omega
    · rw [work_flushOut rfl]
      omega
  · have hon : enabled cfg s (.read (.bytes 1)) = true := by
      simp only [enabled, hpc]
      exact readable_one hempty
    refine nears_bytes hon hempty ?_
    rw [work_flushOut hpc]
    simp only [runnerOnRead, hpc, Runner.onFlushOut]
    rw [work_flushOut rfl]
    omega

theorem nears_flushIn (hpc : s.runner.pc = .flushIn)
    (hroom : s.runner.sent < cfg.input.length → s.inPipe.length < cfg.inCapacity) :
    Nears cfg s := by
  have hold : 20000 ≤ work s.runner s.outPipe := by
    simp only [work, phase, hpc]
    omega
  by_cases hunsent : s.runner.sent < cfg.input.length
  · refine nears_moved hpc (.inr rfl) hunsent (hroom hunsent) ?_
    rw [runnerOnSend_flushIn hpc]
    simp only [Runner.onFlushIn, Runner.leave]
    split_ifs
    · simp only [work, phase, readRank, sendRank]
      split_ifs <;> omega
    · have hsame : work { s.runner with flushAcc := s.runner.flushAcc + 1 } s.outPipe =
          work s.runner s.outPipe := rfl
      exact hsame.le.trans (Nat.le_add_right _ 5)
  · have hon : enabled cfg s (.send .again) = true := by
      simp [enabled, hpc, sendable, movable]
    refine nears_of_work rfl hon rfl rfl rfl (kept_runnerOnSend ..).sent (List.append_nil _) rfl ?_
    change work (runnerOnSend cfg s.runner .again) s.outPipe < _
    rw [runnerOnSend_flushIn hpc]
    have hall : s.runner.flushAcc + s.runner.dsSentAcc ≥ cfg.input.length := by
      unfold Runner.sent at hunsent
      omega
    simp only [Runner.onFlushIn, Runner.leave, if_pos hall]
    have hnew : work { s.runner with pc := .returned .done } s.outPipe ≤ 3 := by
      simp only [work, phase, readRank, sendRank]
      split_ifs <;> omega
    exact hnew.trans_lt (by omega)

theorem nears_runner (h : Coherent cfg s) (hreturned : ∀ site, s.runner.pc ≠ .returned site)
    (hborn : s.watcher.pc ≠ .unborn)
    (hpoll : (∃ st, s.watcher.pc = .ended st) ∨ s.watcher.pc = .absent ∨
      hungry s.runner s.outPipe = true ∨ s.runner.sent < cfg.input.length ∨
      s.runner.watcherAlive = false)
    (hsend : s.inPipe.length < cfg.inCapacity ∨
      (behindLoop s.runner.pc = false ∧ hungry s.runner s.outPipe = true) ∨
      cfg.input.length ≤ s.runner.sent) : Nears cfg s := by
  cases hpc : s.runner.pc with
  | clone => exact absurd (h.cloning.mp hpc) hborn
  | checkFds => exact nears_checkFds hpc
  | poll =>
    have hflush := h.placed.unflushed (by rw [hpc]; rfl)
    have halive := h.placed.polling (by rw [hpc]; rfl)
    refine nears_poll h hpc ?_
    rcases hpoll with hended | habsent | hhungry | hunsent | hdead
    · exact .inl hended
    · exact .inr (.inl habsent)
    · exact .inr (.inr (.inl hhungry))
    · unfold Runner.sent at hunsent
      exact .inr (.inr (.inr (by omega)))
    · rw [hdead] at halive
      cases halive
  | send =>
    have hsending := h.placed.sending hpc
    refine nears_send h hpc ?_
    rcases hsend with hroom | ⟨-, hhungry⟩ | hall
    · exact .inl hroom
    · exact .inr hhungry
    · unfold Runner.sent at hall
      have hflush := h.placed.unflushed (by rw [hpc]; rfl)
      omega
  | read => exact nears_read hpc
  | flushOut blockingCount => exact nears_flushOut hpc
  | flushIn =>
    refine nears_flushIn hpc fun hunsent => ?_
    rcases hsend with hroom | ⟨hin, -⟩ | hall
    · exact hroom
    · rw [hpc] at hin
      cases hin
    · omega
  | returned site => exact absurd hpc (hreturned site)
  | _ => exact nears_kill (by rw [hpc]; rfl)

theorem nears_of_rank {act : Act} (hroutine : routine s act = true)
    (hon : enabled cfg s act = true) (hrunner : (effect cfg s act).runner = s.runner)
    (hin : (effect cfg s act).inPipe.length ≤ s.inPipe.length)
    (hout : (effect cfg s act).outPipe = s.outPipe)
    (hrank : watcherRank (effect cfg s act).watcher.pc (effect cfg s act).binary <
      watcherRank s.watcher.pc s.binary) : Nears cfg s := by
  refine ⟨act, hroutine, hon, ?_⟩
  have htest := testRank_le cfg (effect cfg s act).watcher
  rw [distance, distance, hrunner, hout]
  omega

theorem nears_clone (h : Coherent cfg s) (hunborn : s.watcher.pc = .unborn) : Nears cfg s := by
  have hpc : s.runner.pc = .clone := h.cloning.mpr hunborn
  have hon : enabled cfg s (.clone .cloned) = true := by simp [enabled, hpc, hunborn]
  refine ⟨.clone .cloned, rfl, hon, ?_⟩
  have hcalls : (setupCalls cfg.useERFS).length ≤ 16 := by
    unfold setupCalls
    split_ifs <;> decide
  have hwork : work { s.runner with pc := .checkFds } s.outPipe ≤ work s.runner s.outPipe + 5 :=
    work_moved (by rw [hpc]; rfl) (.inl rfl) rfl
  have hdistance : distance cfg (effect cfg s (.clone .cloned)) =
      10 * (20 + (setupCalls cfg.useERFS).length) +
        testRank cfg (effect cfg s (.clone .cloned)).watcher +
        20 * (2 * (cfg.input.length - s.runner.sent) + s.inPipe.length) +
        20000 * s.outPipe.length + work { s.runner with pc := .checkFds } s.outPipe := rfl
  have htest := testRank_le cfg (effect cfg s (.clone .cloned)).watcher
  have hrank : watcherRank s.watcher.pc s.binary = 40 := by
    rw [hunborn, watcherRank]
  rw [hdistance, distance, hrank]
  omega

theorem rank_top (w : Watcher) (size : ℕ) : watcherRank (w.top size).pc .running ≤ 7 := by
  unfold Watcher.top
  split_ifs <;> simp [watcherRank]

theorem nears_firstWait (h : Coherent cfg s) (hpc : s.watcher.pc = .firstWait) : Nears cfg s := by
  have hheld := h.begun (.inr hpc)
  have hfails : (s.binary.ended || s.sigkill) = true →
      enabled cfg s (.firstWait false) = true → Nears cfg s := by
    intro hforced hon
    have hroutine : routine s (.firstWait false) = true := by
      simpa [routine, faultless] using hforced
    refine nears_of_rank hroutine hon rfl le_rfl rfl ?_
    change watcherRank (.ended _) _ < watcherRank s.watcher.pc s.binary
    rw [hpc]
    cases s.binary <;> simp [watcherRank]
  cases hb : s.binary with
  | starting =>
    have hon : enabled cfg s .exec = true := by simp [enabled, hb]
    refine nears_of_rank rfl hon rfl le_rfl rfl ?_
    change watcherRank s.watcher.pc .execStop < watcherRank s.watcher.pc s.binary
    rw [hpc, hb]
    decide
  | execStop =>
    cases hkilled : s.sigkill with
    | true =>
      apply hfails
      · rw [hkilled, Bool.or_true]
      · simp [enabled, hpc, hb]
    | false =>
      have hon : enabled cfg s (.firstWait true) = true := by simp [enabled, hpc, hb, hkilled]
      refine nears_of_rank rfl hon rfl le_rfl rfl ?_
      have htop := rank_top s.watcher cfg.input.length
      change watcherRank (s.watcher.top cfg.input.length).pc .running <
        watcherRank s.watcher.pc s.binary
      rw [hpc, hb]
      exact htop.trans_lt (by decide)
  | zombie st =>
    apply hfails
    · rw [hb]
      rfl
    · simp [enabled, hpc, hb, Binary.ended]
  | _ =>
    rw [hb] at hheld
    cases hheld

theorem nears_wait (h : Coherent cfg s) (hpc : s.watcher.pc = .wait)
    (hrunning : s.binary ≠ .running) : Nears cfg s := by
  have htraced := h.watching (.inr hpc)
  have hon : enabled cfg s (.wait true 0) = true := by simp [enabled, hpc]
  refine nears_of_rank rfl hon rfl le_rfl rfl ?_
  change watcherRank (watcherOnWait cfg s.watcher s.binary true 0).pc (binaryOnWait s.binary true) <
    watcherRank s.watcher.pc s.binary
  cases hb : s.binary with
  | running => exact absurd hb hrunning
  | stopped sig event =>
    have htop := rank_top (s.watcher.onStop cfg.memLimitMb sig event 0) cfg.input.length
    rw [hpc]
    simp only [watcherOnWait, binaryOnWait, Watcher.onStatus]
    exact htop.trans_lt (by simp [watcherRank])
  | zombie st =>
    rw [hb] at htraced
    rw [hpc]
    cases st with
    | stopped sig event => cases htraced
    | _ => simp [watcherOnWait, Watcher.onStatus, watcherRank]
  | _ =>
    rw [hb] at htraced
    cases htraced

theorem nears_splice (h : Coherent cfg s) (hpc : s.watcher.pc = .splice) : Nears cfg s := by
  have htraced := h.watching (.inl hpc)
  have hon : enabled cfg s (.splice .again) = true := by simp [enabled, hpc, movable]
  refine nears_of_rank rfl hon rfl le_rfl rfl ?_
  change watcherRank .wait s.binary < watcherRank s.watcher.pc s.binary
  rw [hpc]
  cases hb : s.binary with
  | running => simp [watcherRank]
  | stopped sig event => simp [watcherRank]
  | zombie st => simp [watcherRank]
  | _ =>
    rw [hb] at htraced
    cases htraced

/-- The closing flush goes on as long as there is something in the pipe. -/
theorem nears_flush (hpc : s.watcher.pc = .flush) (htested : s.watcher.failedRead = none)
    (hne : s.inPipe ≠ []) : Nears cfg s := by
  have hpos := List.length_pos_iff.mpr hne
  have hon : enabled cfg s (.flush (.moved 1)) = true := by
    simp only [enabled, hpc, htested, movable, decide_eq_true_eq]
    exact ⟨trivial, trivial, le_rfl, hpos, by decide⟩
  refine ⟨.flush (.moved 1), rfl, hon, ?_⟩
  have hrank : watcherRank (effect cfg s (.flush (.moved 1))).watcher.pc s.binary ≤ 3 := by
    change watcherRank (s.watcher.onFlush cfg.input.length (.moved 1)).pc s.binary ≤ 3
    rcases onFlush_pc hpc cfg.input.length (.moved 1) with hplace | ⟨st, hplace⟩
    · rw [hplace, watcherRank]
    · rw [hplace, watcherRank]
      decide
  have hlength : (s.inPipe.drop 1).length + 1 = s.inPipe.length := by
    rw [List.length_drop]
    omega
  have htest := testRank_le cfg (effect cfg s (.flush (.moved 1))).watcher
  have hdistance : distance cfg (effect cfg s (.flush (.moved 1))) =
      10 * watcherRank (effect cfg s (.flush (.moved 1))).watcher.pc s.binary +
        testRank cfg (effect cfg s (.flush (.moved 1))).watcher +
        20 * (2 * (cfg.input.length - s.runner.sent) + (s.inPipe.drop 1).length) +
        20000 * s.outPipe.length + work s.runner s.outPipe := rfl
  have hold : watcherRank s.watcher.pc s.binary = 3 := by
    rw [hpc, watcherRank]
  rw [hdistance, distance, hold]
  omega

theorem nears_flushed (hpc : s.watcher.pc = .flush) (htested : s.watcher.failedRead = none)
    (hall : cfg.input.length ≤ s.watcher.spliceSizeAcc + s.watcher.flushAcc) : Nears cfg s := by
  have hon : enabled cfg s (.flush .again) = true := by simp [enabled, hpc, htested, movable]
  refine ⟨.flush .again, rfl, hon, ?_⟩
  have hold : testRank cfg s.watcher = 1 := by simp only [testRank, hpc, htested]
  have hnew : testRank cfg (effect cfg s (.flush .again)).watcher = 0 := by
    simp only [effect, Watcher.onFlushRead, testRank, hpc, if_pos hall]
  have hdistance : distance cfg (effect cfg s (.flush .again)) =
      10 * watcherRank s.watcher.pc s.binary +
        testRank cfg (effect cfg s (.flush .again)).watcher +
        20 * (2 * (cfg.input.length - s.runner.sent) + s.inPipe.length) +
        20000 * s.outPipe.length + work s.runner s.outPipe := rfl
  rw [hdistance, distance, hold, hnew]
  omega

theorem nears_test {errno : Errno} (hpc : s.watcher.pc = .flush)
    (hpending : s.watcher.failedRead = some errno) : Nears cfg s := by
  have hon : enabled cfg s (.test errno) = true := by simp [enabled, hpc, hpending]
  have hended : ∀ {st}, (effect cfg s (.test errno)).watcher.pc = .ended st → Nears cfg s := by
    intro st hst
    refine nears_of_rank rfl hon rfl le_rfl rfl ?_
    rw [hst, hpc]
    change watcherRank (.ended st) s.binary < watcherRank .flush s.binary
    simp [watcherRank]
  cases errno with
  | esrch => exact hended rfl
  | eagain =>
    by_cases hall : s.watcher.spliceSizeAcc + s.watcher.flushAcc ≥ cfg.input.length
    · apply hended
      change (Watcher.leave { s.watcher with failedRead := none } cfg.input.length).pc = _
      rw [Watcher.leave, if_pos hall]
      rfl
    · have hstays : s.watcher.onTest cfg.input.length .eagain =
          { s.watcher with failedRead := none } := if_neg hall
      refine ⟨.test .eagain, rfl, hon, ?_⟩
      have hold : testRank cfg s.watcher = 2 := by
        simp only [testRank, hpc, hpending, if_neg hall]
      have hnew : testRank cfg (effect cfg s (.test .eagain)).watcher = 1 := by
        simp only [effect, hstays, testRank, hpc]
      have hplace : (effect cfg s (.test .eagain)).watcher.pc = s.watcher.pc := by
        simp only [effect, hstays]
      have hdistance : distance cfg (effect cfg s (.test .eagain)) =
          10 * watcherRank (effect cfg s (.test .eagain)).watcher.pc s.binary +
            testRank cfg (effect cfg s (.test .eagain)).watcher +
            20 * (2 * (cfg.input.length - s.runner.sent) + s.inPipe.length) +
            20000 * s.outPipe.length + work s.runner s.outPipe := rfl
      rw [hdistance, distance, hold, hnew, hplace]
      omega

end

end KudosJudge.RunSystem
