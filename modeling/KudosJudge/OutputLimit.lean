import KudosJudge.RunResult
import KudosJudge.RunVerdict

set_option autoImplicit false

namespace KudosJudge.RunSystem
open CompareOutput Results SandboxWatcher RunnerLoop Runs

variable {cfg : Config}

/-- The comparator, called on one chunk after the other, reports a difference. -/
def differs : Descriptor → ℕ → List (List UInt8) → Bool
  | _, _, [] => false
  | d, stage, chunk :: chunks =>
    (compareCall d chunk stage).1 != 0 || differs (compareCall d chunk stage).2 (stage + 1) chunks

def advance : Descriptor → ℕ → List (List UInt8) → Descriptor
  | d, _, [] => d
  | d, stage, chunk :: chunks => advance (compareCall d chunk stage).2 (stage + 1) chunks

theorem advance_append (chunks : List (List UInt8)) (chunk : List UInt8) (d : Descriptor)
    (stage : ℕ) :
    advance d stage (chunks ++ [chunk]) =
      (compareCall (advance d stage chunks) chunk (stage + chunks.length : ℕ)).2 := by
  induction chunks generalizing d stage with
  | nil => rfl
  | cons c chunks ih =>
    simp only [List.cons_append, advance, ih, List.length_cons]
    rw [Nat.add_right_comm, Nat.add_assoc]

theorem differs_append (chunks : List (List UInt8)) (chunk : List UInt8) (d : Descriptor)
    (stage : ℕ) :
    differs d stage (chunks ++ [chunk]) = (differs d stage chunks ||
      (compareCall (advance d stage chunks) chunk (stage + chunks.length : ℕ)).1 != 0) := by
  induction chunks generalizing d stage with
  | nil => exact Bool.or_comm ..
  | cons c chunks ih =>
    simp only [List.cons_append, differs, advance, ih, List.length_cons, Bool.or_assoc]
    rw [Nat.add_right_comm, Nat.add_assoc]

/-- The transfers of the runner that fail. -/
def transferFailures (_ : Sys) : Act → List Act
  | .send .error => [.send .error]
  | .read .error => [.read .error]
  | _ => []

/-- In the loop, after the comparison of `chunks`. -/
structure Tallied (cfg : Config) (r : Runner) (chunks : List (List UInt8)) (failures : List Act) :
    Prop where
  more : r.endoffile = false
  detected : r.compoutDetected = true ↔
    failures ≠ [] ∨ differs (opened cfg.reference) 0 chunks = true
  reference : r.fdOutputRef = advance (opened cfg.reference) 0 chunks
  stage : r.compareStage = chunks.length
  count : r.receivedBytes = chunks.flatten.length
  undecided : r.result = none

/-- The mark stands for a difference in a chunk that is over the limit. -/
def Sealed (cfg : Config) (comp : SandboxResult) (chunks : List (List UInt8))
    (failures : List Act) : Prop :=
  comp = .outputlimit ↔ failures = [] ∧ differs (opened cfg.reference) 0 chunks = true ∧
    overLimit cfg chunks.flatten.length = true

def Marked (cfg : Config) (r : Runner) (chunks : List (List UInt8)) (failures : List Act) : Prop :=
  match r.pc with
  | .clone => Tallied cfg r chunks failures ∧ r.compoutDetected = false
  | .checkFds => Tallied cfg r chunks failures ∧ r.compoutDetected = false
  | .read => Tallied cfg r chunks failures ∧ r.compoutDetected = false
  | .killMismatch => Tallied cfg r chunks failures ∧ failures = [] ∧ r.compResult ≠ .outputlimit
  | .killLimit =>
    Tallied cfg r chunks failures ∧ failures = [] ∧ overLimit cfg chunks.flatten.length = true
  | .flushOut _ => Sealed cfg r.compResult chunks failures
  | .flushIn => Sealed cfg r.compResult chunks failures
  | .returned .done => Sealed cfg r.compResult chunks failures
  | .returned .outPipeError => failures ≠ []
  | .returned .inPipeError => failures ≠ []
  | .returned _ => r.result = none ∧ differs (opened cfg.reference) 0 chunks = false
  | _ => Tallied cfg r chunks failures ∧
      (r.compoutDetected = true → Sealed cfg r.compResult chunks failures)

section

variable {r r' : Runner} {chunks : List (List UInt8)} {failures : List Act}

theorem compared_unlimited (nequal : ℤ) : compared nequal ≠ .outputlimit := by
  unfold compared
  split_ifs <;> decide

theorem Tallied.keep (h : Tallied cfg r chunks failures) (r' : Runner)
    (hmore : r'.endoffile = r.endoffile) (hcompout : r'.compoutDetected = r.compoutDetected)
    (hfd : r'.fdOutputRef = r.fdOutputRef) (hstage : r'.compareStage = r.compareStage)
    (hcount : r'.receivedBytes = r.receivedBytes) (hresult : r'.result = r.result) :
    Tallied cfg r' chunks failures where
  more := hmore.trans h.more
  detected := hcompout ▸ h.detected
  reference := hfd.trans h.reference
  stage := hstage.trans h.stage
  count := hcount.trans h.count
  undecided := hresult.trans h.undecided

theorem Tallied.unfailed (h : Tallied cfg r chunks failures) (hsame : r.compoutDetected = false) :
    failures = [] ∧ differs (opened cfg.reference) 0 chunks = false := by
  have hnot := mt h.detected.mpr (by rw [hsame]; decide)
  rw [not_or, not_not, Bool.not_eq_true] at hnot
  exact hnot

theorem Tallied.sealed (h : Tallied cfg r chunks failures) (hcompout : r.compoutDetected = true)
    (hmark : r.compResult = .outputlimit ↔
      failures = [] ∧ overLimit cfg chunks.flatten.length = true) :
    Sealed cfg r.compResult chunks failures := by
  refine hmark.trans ⟨fun ⟨hnone, hover⟩ => ⟨hnone, ?_, hover⟩, fun hall => ⟨hall.1, hall.2.2⟩⟩
  exact (h.detected.mp hcompout).resolve_left (not_not.mpr hnone)

theorem Resumes.marked (h : Resumes cfg r r') (htallied : Tallied cfg r chunks failures)
    (hsealed : r.compoutDetected = true → Sealed cfg r.compResult chunks failures) :
    Marked cfg r' chunks failures := by
  cases h with
  | poll alive => exact ⟨htallied.keep _ rfl rfl rfl rfl rfl rfl, hsealed⟩
  | send unsent => exact ⟨htallied.keep _ rfl rfl rfl rfl rfl rfl, hsealed⟩
  | read more equal => exact ⟨htallied.keep _ rfl rfl rfl rfl rfl rfl, equal⟩
  | finish decided dead =>
    rcases decided with hend | hcompout
    · rw [htallied.more] at hend
      cases hend
    · exact hsealed hcompout

theorem Tallied.compareChunk (h : Tallied cfg r chunks failures) (hsame : r.compoutDetected = false)
    (chunk : List UInt8) : Tallied cfg (r.compareChunk chunk) (chunks ++ [chunk]) failures := by
  obtain ⟨hnone, hequal⟩ := h.unfailed hsame
  have hcall : r.chunkCall chunk =
      compareCall (advance (opened cfg.reference) 0 chunks) chunk (0 + chunks.length : ℕ) := by
    rw [Runner.chunkCall, h.reference, h.stage, Nat.zero_add]
  refine ⟨h.more, ?_, ?_, ?_, ?_, h.undecided⟩
  · rw [differs_append, hequal, ← hcall]
    simp [Runner.compareChunk, hsame, hnone]
  · rw [advance_append, ← hcall]
    rfl
  · rw [List.length_append, ← h.stage]
    rfl
  · rw [List.flatten_append, List.length_append, ← h.count, List.flatten_singleton]
    rfl

theorem marked_checkLimit (h : Tallied cfg r chunks failures) (hnone : failures = [])
    (hcomp : r.compResult ≠ .outputlimit) : Marked cfg (r.checkLimit cfg) chunks failures := by
  cases hlimit : overLimit cfg r.receivedBytes with
  | false =>
    rw [checkLimit_top hlimit]
    rw [h.count] at hlimit
    refine (top_resumes r).marked h fun hcompout => h.sealed hcompout ?_
    refine ⟨fun hmark => absurd hmark hcomp, fun hover => ?_⟩
    exact absurd (hlimit.symm.trans hover.2) Bool.false_ne_true
  | true =>
    rw [Runner.checkLimit, hlimit, if_pos rfl]
    rw [h.count] at hlimit
    exact ⟨h.keep _ rfl rfl rfl rfl rfl rfl, hnone, hlimit⟩

theorem marked_onChunk (h : Tallied cfg r chunks failures) (hsame : r.compoutDetected = false)
    (chunk : List UInt8) : Marked cfg (r.onChunk cfg chunk) (chunks ++ [chunk]) failures := by
  have hnext := h.compareChunk hsame chunk
  have hnone := (h.unfailed hsame).1
  unfold Runner.onChunk
  split_ifs
  · exact ⟨hnext.keep _ rfl rfl rfl rfl rfl rfl, hnone, compared_unlimited _⟩
  · exact marked_checkLimit hnext hnone (compared_unlimited _)

theorem Tallied.pipeError (h : Tallied cfg r chunks failures) (act : Act) :
    Tallied cfg { r with compResult := .pipeError, compoutDetected := true } chunks
      (failures ++ [act]) where
  more := h.more
  detected := by simp
  reference := h.reference
  stage := h.stage
  count := h.count
  undecided := h.undecided

theorem sealed_pipeError (act : Act) : Sealed cfg .pipeError chunks (failures ++ [act]) := by
  simp [Sealed]

theorem Marked.quiet {s : Sys} {act : Act} (h : Marked cfg r chunks failures)
    (hquiet : transferFailures s act = []) :
    Marked cfg r chunks (failures ++ transferFailures s act) := by
  rw [hquiet, List.append_nil]
  exact h

theorem marked_onSend (h : Tallied cfg r chunks failures)
    (hsealed : r.compoutDetected = true → Sealed cfg r.compResult chunks failures) (s : Sys)
    (t : Transfer) :
    Marked cfg (r.onSend cfg t) chunks (failures ++ transferFailures s (.send t)) := by
  cases t with
  | moved n =>
    refine Marked.quiet ?_ rfl
    exact (check_resumes cfg _).marked (h.keep _ rfl rfl rfl rfl rfl rfl) hsealed
  | again =>
    refine Marked.quiet ?_ rfl
    exact (check_resumes cfg r).marked h hsealed
  | error =>
    have hfailed := h.pipeError (.send .error)
    have hmark : Sealed cfg .pipeError chunks (failures ++ [.send .error]) := sealed_pipeError _
    simp only [Runner.onSend]
    split_ifs
    · exact ⟨hfailed.keep _ rfl rfl rfl rfl rfl rfl, fun _ => hmark⟩
    · exact (check_resumes cfg _).marked hfailed fun _ => hmark

theorem marked_endCall (h : Tallied cfg r chunks failures) (hsame : r.compoutDetected = false) :
    Marked cfg r.endCall.finish chunks failures := by
  obtain ⟨-, hequal⟩ := h.unfailed hsame
  have hcomp : r.endCall.compResult ≠ .outputlimit := compared_unlimited _
  change Sealed cfg r.endCall.compResult chunks failures
  refine ⟨fun hmark => absurd hmark hcomp, fun hall => ?_⟩
  rw [hequal] at hall
  cases hall.2.1

theorem marked_readError (h : Tallied cfg r chunks failures) (outPipe : List UInt8) :
    Marked cfg (r.onRead cfg outPipe .error) chunks (failures ++ [.read .error]) := by
  have hfailed := h.pipeError (.read .error)
  have hmark : Sealed cfg .pipeError chunks (failures ++ [.read .error]) := sealed_pipeError _
  simp only [Runner.onRead]
  split_ifs
  · exact ⟨hfailed.keep _ rfl rfl rfl rfl rfl rfl, fun _ => hmark⟩
  · exact (top_resumes _).marked hfailed fun _ => hmark

theorem marked_onPoll (h : Tallied cfg r chunks failures)
    (hsealed : r.compoutDetected = true → Sealed cfg r.compResult chunks failures) (p : Poll) :
    Marked cfg (r.onPoll cfg p) chunks failures := by
  cases p with
  | error => exact (toSend_resumes _).marked (h.keep _ rfl rfl rfl rfl rfl rfl) hsealed
  | unchanged => exact (toSend_resumes r).marked h hsealed
  | status st =>
    have hcollect : Tallied cfg (r.collect st) chunks failures ∧
        ((r.collect st).compoutDetected = true →
          Sealed cfg (r.collect st).compResult chunks failures) := by
      cases st with
      | exited code =>
        simp only [Runner.collect]
        split_ifs <;> exact ⟨h.keep _ rfl rfl rfl rfl rfl rfl, hsealed⟩
      | signaled sig => exact ⟨h.keep _ rfl rfl rfl rfl rfl rfl, hsealed⟩
      | stopped sig event => exact ⟨h.keep _ rfl rfl rfl rfl rfl rfl, hsealed⟩
    exact (toSend_resumes _).marked hcollect.1 hcollect.2

theorem marked_onKill (h : Marked cfg r chunks failures) :
    Marked cfg (r.onKill cfg) chunks failures := by
  unfold Runner.onKill
  split
  · rename_i hpc
    rw [Marked, hpc] at h
    exact (check_resumes cfg r).marked h.1 h.2
  · rename_i hpc
    rw [Marked, hpc] at h
    exact marked_checkLimit h.1 h.2.1 h.2.2
  · rename_i hpc
    rw [Marked, hpc] at h
    have hkept : Tallied cfg { r with compResult := .outputlimit } chunks failures :=
      h.1.keep _ rfl rfl rfl rfl rfl rfl
    refine (top_resumes _).marked hkept fun hcompout => hkept.sealed hcompout ?_
    exact ⟨fun _ => h.2, fun _ => rfl⟩
  · rename_i hpc
    rw [Marked, hpc] at h
    exact (top_resumes r).marked h.1 h.2
  · exact h

theorem marked_onFlushOut {blockingCount : ℕ} (h : Sealed cfg r.compResult chunks failures)
    (s : Sys) (o : Read) : Marked cfg (r.onFlushOut blockingCount o) chunks
      (failures ++ transferFailures s (.read o)) := by
  cases o with
  | error => exact List.append_ne_nil_of_right_ne_nil _ (List.cons_ne_nil _ _)
  | again =>
    refine Marked.quiet ?_ rfl
    simp only [Runner.onFlushOut]
    split_ifs <;> exact h
  | bytes n =>
    exact Marked.quiet h rfl
  | eof =>
    exact Marked.quiet h rfl

theorem marked_leave (hpc : r.pc = .flushIn) (h : Sealed cfg r.compResult chunks failures) :
    Marked cfg (r.leave cfg) chunks failures := by
  unfold Runner.leave
  split_ifs
  · exact h
  · rw [Marked, hpc]
    exact h

theorem marked_onFlushIn (hpc : r.pc = .flushIn) (h : Sealed cfg r.compResult chunks failures)
    (s : Sys) (t : Transfer) : Marked cfg (r.onFlushIn cfg t) chunks
      (failures ++ transferFailures s (.send t)) := by
  cases t with
  | error => exact List.append_ne_nil_of_right_ne_nil _ (List.cons_ne_nil _ _)
  | again =>
    exact Marked.quiet (marked_leave hpc h) rfl
  | moved n =>
    refine Marked.quiet ?_ rfl
    have hmoved : { r with flushAcc := r.flushAcc + n }.pc = .flushIn := hpc
    exact marked_leave hmoved h

end

def Log.chunks (log : Log) : List (List UInt8) := log.passed.map Prod.fst

section

variable {s : Sys} {failures : List Act}

theorem marked_read (h : Marked cfg s.runner s.log.chunks failures) {o : Read}
    (hon : enabled cfg s (.read o) = true) :
    Marked cfg (effect cfg s (.read o)).runner (effect cfg s (.read o)).log.chunks
      (failures ++ transferFailures s (.read o)) := by
  change Marked cfg (runnerOnRead cfg s.runner s.outPipe o)
    (logRead s.log s.runner s.outPipe o).chunks (failures ++ transferFailures s (.read o))
  cases hpc : s.runner.pc with
  | flushOut blockingCount =>
    rw [Marked, hpc] at h
    simp only [runnerOnRead, logRead, hpc]
    exact marked_onFlushOut h s o
  | read =>
    rw [Marked, hpc] at h
    obtain ⟨htallied, hsame⟩ := h
    simp only [enabled, hpc] at hon
    simp only [runnerOnRead, logRead, hpc]
    cases o with
    | bytes n =>
      refine Marked.quiet ?_ rfl
      have hchunks : Log.chunks { s.log with passed := s.log.passed ++
          [(s.outPipe.take n, (s.runner.chunkCall (s.outPipe.take n)).1)] } =
            s.log.chunks ++ [s.outPipe.take n] := List.map_append
      rw [hchunks]
      exact marked_onChunk htallied hsame (s.outPipe.take n)
    | eof => cases hon
    | again =>
      refine Marked.quiet ?_ rfl
      simp only [Runner.onRead]
      split_ifs
      · exact (top_resumes s.runner).marked htallied fun hcompout =>
          absurd (hsame.symm.trans hcompout) Bool.false_ne_true
      · exact marked_endCall htallied hsame
    | error => exact marked_readError htallied s.outPipe
  | _ =>
    simp only [enabled, hpc] at hon
    cases hon

theorem marked_send (h : Marked cfg s.runner s.log.chunks failures) {t : Transfer}
    (hon : enabled cfg s (.send t) = true) :
    Marked cfg (effect cfg s (.send t)).runner s.log.chunks
      (failures ++ transferFailures s (.send t)) := by
  change Marked cfg (runnerOnSend cfg s.runner t) s.log.chunks
    (failures ++ transferFailures s (.send t))
  simp only [enabled, decide_eq_true_eq] at hon
  rcases hon.1 with hpc | hpc
  · rw [runnerOnSend_loop hpc]
    rw [Marked, hpc] at h
    exact marked_onSend h.1 h.2 s t
  · rw [runnerOnSend_flushIn hpc]
    rw [Marked, hpc] at h
    exact marked_onFlushIn hpc h s t

theorem marked_step {act : Act} (h : Marked cfg s.runner s.log.chunks failures)
    (hon : enabled cfg s act = true) :
    Marked cfg (effect cfg s act).runner (effect cfg s act).log.chunks
      (failures ++ transferFailures s act) := by
  cases act with
  | send t => exact marked_send h hon
  | read o => exact marked_read h hon
  | clone outcome =>
    simp only [enabled, decide_eq_true_eq] at hon
    rw [Marked, hon.1] at h
    refine Marked.quiet ?_ rfl
    cases outcome with
    | noTemplate => exact ⟨h.1.undecided, (h.1.unfailed h.2).2⟩
    | failed => exact ⟨h.1.keep _ rfl rfl rfl rfl rfl rfl, h.2⟩
    | cloned => exact ⟨h.1.keep _ rfl rfl rfl rfl rfl rfl, h.2⟩
  | checkFds ok =>
    simp only [enabled, decide_eq_true_eq] at hon
    rw [Marked, hon] at h
    refine Marked.quiet ?_ rfl
    cases ok with
    | false => exact ⟨h.1.undecided, (h.1.unfailed h.2).2⟩
    | true =>
      exact ⟨h.1.keep _ rfl rfl rfl rfl rfl rfl, fun hcompout =>
        absurd (h.2.symm.trans hcompout) Bool.false_ne_true⟩
  | poll ok =>
    simp only [enabled, decide_eq_true_eq] at hon
    rw [Marked, hon.1] at h
    exact Marked.quiet (marked_onPoll h.1 h.2 _) rfl
  | kill =>
    exact Marked.quiet (marked_onKill h) rfl
  | _ => exact Marked.quiet h rfl

end

def quiet (s : Sys) (act : Act) : Prop := transferFailures s act = []

instance (s : Sys) (act : Act) : Decidable (quiet s act) :=
  inferInstanceAs (Decidable (transferFailures s act = []))

end KudosJudge.RunSystem
