import KudosJudge.OutputLimit

set_option autoImplicit false

namespace KudosJudge.RunSystem
open CompareOutput Results SandboxWatcher RunnerLoop Runs

variable {cfg : Config}

/-- Reads the runner can make one after the other. -/
def Cut (cfg : Config) (chunks : List (List UInt8)) : Prop :=
  ∀ chunk ∈ chunks, chunk ≠ [] ∧ chunk.length ≤ 255 ∧ chunk.length ≤ cfg.outCapacity

/-- However the output is cut into reads, the comparator meets a byte that differs. -/
def DiffersAtByte (cfg : Config) (output : List UInt8) : Prop :=
  ∀ chunks, Cut cfg chunks → chunks.flatten = output →
    differs (opened cfg.reference) 0 chunks = true

theorem chunkCall_spec {d : Descriptor} (hd : d.flags = oRdwr) (chunk : List UInt8) (stage : ℕ) :
    0 ≤ (compareCall d chunk stage).1 ∧ (compareCall d chunk stage).2.flags = oRdwr := by
  obtain ⟨r, d', h⟩ := compareOutput_returns d chunk stage hd
  have hcall : compareCall d chunk stage = (r, d') := by rw [compareCall, h, Option.getD_some]
  rw [compareOutput_chunk d chunk stage hd] at h
  rw [hcall]
  exact ⟨rounds_nonneg h, (rounds_flags h).trans hd⟩

theorem advance_flags (chunks : List (List UInt8)) {d : Descriptor} (hd : d.flags = oRdwr)
    (stage : ℕ) : (advance d stage chunks).flags = oRdwr := by
  induction chunks generalizing d stage with
  | nil => exact hd
  | cons chunk chunks ih => exact ih (chunkCall_spec hd chunk stage).2 (stage + 1)

section

variable {r r' : Runner} {chunks : List (List UInt8)} {failures : List Act}

theorem Marked.tallied (h : Marked cfg r chunks failures) (hin : behindLoop r.pc = false) :
    Tallied cfg r chunks failures := by
  unfold Marked at h
  split at h
  case h_6 _ hpc | h_7 hpc | h_8 hpc | h_9 hpc | h_10 hpc | h_11 _ hpc =>
    rw [hpc] at hin
    cases hin
  all_goals exact h.1

/-- After the comparison of `bytes`: a difference is held for a wrong answer, and only a
difference leads out of the loop. -/
structure Convicts (r : Runner) (bytes : List UInt8) : Prop where
  wrong : r.compoutDetected = true → r.compResult = .wrong
  met : r.compoutDetected = true → bytes ≠ []
  behind : behindLoop r.pc = true → r.compoutDetected = true ∧ r.watcherAlive = false

variable {bytes : List UInt8}

theorem Convicts.keep (h : Convicts r bytes) (hin : behindLoop r'.pc = true → behindLoop r.pc = true)
    (hcompout : r'.compoutDetected = r.compoutDetected) (hcomp : r'.compResult = r.compResult)
    (hdead : r'.watcherAlive = r.watcherAlive) : Convicts r' bytes := by
  refine ⟨?_, ?_, ?_⟩
  · rw [hcompout, hcomp]
    exact h.wrong
  · rw [hcompout]
    exact h.met
  · rw [hcompout, hdead]
    exact fun hbehind => h.behind (hin hbehind)

theorem Resumes.convicts (h : Resumes cfg r r') (hmore : r.endoffile = false)
    (hwrong : r.compoutDetected = true → r.compResult = .wrong)
    (hmet : r.compoutDetected = true → bytes ≠ []) : Convicts r' bytes := by
  cases h with
  | poll alive => exact ⟨hwrong, hmet, nofun⟩
  | send unsent => exact ⟨hwrong, hmet, nofun⟩
  | read more equal => exact ⟨hwrong, hmet, nofun⟩
  | finish decided dead =>
    refine ⟨hwrong, hmet, fun _ => ⟨decided.resolve_left fun hend => ?_, dead⟩⟩
    rw [hmore] at hend
    cases hend

theorem convicts_checkLimit (hmore : r.endoffile = false)
    (hwrong : r.compoutDetected = true → r.compResult = .wrong)
    (hmet : r.compoutDetected = true → bytes ≠ [])
    (hlimit : overLimit cfg r.receivedBytes = false) : Convicts (r.checkLimit cfg) bytes := by
  rw [checkLimit_top hlimit]
  exact (top_resumes r).convicts hmore hwrong hmet

theorem convicts_onChunk (h : Tallied cfg r chunks failures) (hsame : r.compoutDetected = false)
    {chunk : List UInt8} (hchunk : chunk ≠ [])
    (hlimit : overLimit cfg (r.receivedBytes + chunk.length) = false) :
    Convicts (r.onChunk cfg chunk) (bytes ++ chunk) := by
  have hflags : r.fdOutputRef.flags = oRdwr := by
    rw [h.reference]
    exact advance_flags chunks rfl 0
  have hnonneg : 0 ≤ (r.chunkCall chunk).1 := (chunkCall_spec hflags chunk r.compareStage).1
  have hwrong : (r.compareChunk chunk).compoutDetected = true →
      (r.compareChunk chunk).compResult = .wrong := by
    intro hdetected
    simp only [Runner.compareChunk, hsame, Bool.false_or, decide_eq_true_eq] at hdetected
    simp only [Runner.compareChunk, compared]
    rw [if_neg hdetected, if_pos (by omega)]
  have hmet : (r.compareChunk chunk).compoutDetected = true → bytes ++ chunk ≠ [] :=
    fun _ => List.append_ne_nil_of_right_ne_nil _ hchunk
  unfold Runner.onChunk
  split_ifs
  · exact ⟨hwrong, hmet, fun hbehind => by cases hbehind⟩
  · exact convicts_checkLimit h.more hwrong hmet hlimit

theorem convicts_onFlushOut (h : Convicts r bytes) {blockingCount : ℕ}
    (hpc : r.pc = .flushOut blockingCount) (o : Read) (ho : o ≠ .error) :
    Convicts (r.onFlushOut blockingCount o) bytes := by
  have hbehind : behindLoop r.pc = true := by rw [hpc]; rfl
  cases o with
  | error => exact absurd rfl ho
  | again =>
    simp only [Runner.onFlushOut]
    split_ifs <;> exact h.keep (fun _ => hbehind) rfl rfl rfl
  | _ => exact h.keep (fun _ => hbehind) rfl rfl rfl

theorem convicts_leave (h : Convicts r bytes) (hpc : r.pc = .flushIn) :
    Convicts (r.leave cfg) bytes := by
  have hbehind : behindLoop r.pc = true := by rw [hpc]; rfl
  unfold Runner.leave
  split_ifs
  · exact h.keep (fun _ => hbehind) rfl rfl rfl
  · exact h

theorem convicts_onFlushIn (h : Convicts r bytes) (hpc : r.pc = .flushIn) {t : Transfer}
    (ht : t ≠ .error) : Convicts (r.onFlushIn cfg t) bytes := by
  cases t with
  | error => exact absurd rfl ht
  | again => exact convicts_leave h hpc
  | moved n =>
    have hmoved : Convicts { r with flushAcc := r.flushAcc + n } bytes := h.keep id rfl rfl rfl
    exact convicts_leave hmoved hpc

end

structure Refused (cfg : Config) (output : List UInt8) (s : Sys) : Prop where
  trusted : Trusted cfg s
  calm : s.Calm output
  marked : Marked cfg s.runner s.log.chunks []
  fair : Fair s.runner
  convicts : Convicts s.runner s.log.compared
  taken : s.log.compared <+: s.log.written
  cut : Cut cfg s.log.chunks
  room : s.outPipe.length ≤ cfg.outCapacity

section

variable {s : Sys} {act : Act} {output : List UInt8}

theorem quiet_of_ordinary (h : ordinary cfg output s act = true) :
    transferFailures s act = [] := by
  cases act with
  | send t =>
    simp only [ordinary, unfailing, decide_eq_true_eq] at h
    cases t with
    | error => exact absurd rfl h
    | _ => rfl
  | read o =>
    simp only [ordinary, unfailing, decide_eq_true_eq] at h
    cases o with
    | error => exact absurd rfl h
    | _ => rfl
  | _ => rfl

theorem Refused.tallied (h : Refused cfg output s) (hin : behindLoop s.runner.pc = false) :
    Tallied cfg s.runner s.log.chunks [] :=
  h.marked.tallied hin

theorem Refused.heard (h : Refused cfg output s) (hpending : Sig.usr2 ∈ s.watcher.pending) :
    s.log.written ≠ [] := by
  intro hnil
  have htaken := h.taken
  rw [hnil, List.prefix_nil] at htaken
  exact h.convicts.met (h.trusted.informed (.inl hpending)) htaken

theorem Kept.fair {n : ℕ} {r r' : Runner} (h : Kept n r r') (hfair : Fair r) : Fair r' := by
  unfold Fair
  rw [h.spawned, h.alive, h.reported]
  exact hfair

theorem fair_step (h : Refused cfg output s) (hordinary : ordinary cfg output s act = true) :
    Fair (effect cfg s act).runner := by
  by_cases hpoll : ∃ ok, act = .poll ok
  · obtain ⟨ok, rfl⟩ := hpoll
    simp only [ordinary, unfailing] at hordinary
    subst hordinary
    change Fair (s.runner.onPoll cfg (pollResult s true))
    cases hpc : s.watcher.pc with
    | ended st =>
      have hzero := h.calm.ended st (.inl hpc)
      have hresult : pollResult s true = .status (.exited 0) := by
        simp only [pollResult, hpc, hzero, if_true]
      have hcollected : Fair (s.runner.collect (.exited 0)) := ⟨h.fair.1, fun _ => rfl⟩
      rw [hresult]
      exact (toSend_resumes _).kept.fair hcollected
    | _ =>
      have hresult : pollResult s true = .unchanged := by simp only [pollResult, hpc, if_true]
      rw [hresult]
      exact (toSend_resumes s.runner).kept.fair h.fair
  · obtain ⟨n, hkept⟩ := kept_effect s fun ok hact => hpoll ⟨ok, hact⟩
    exact hkept.fair h.fair

theorem cut_step (h : Refused cfg output s) (hon : enabled cfg s act = true) :
    Cut cfg (effect cfg s act).log.chunks := by
  cases act with
  | read o =>
    change Cut cfg (logRead s.log s.runner s.outPipe o).chunks
    unfold logRead
    split
    · rename_i n hpc
      simp only [enabled, hpc, readable, decide_eq_true_eq] at hon
      have hlength : (s.outPipe.take n).length = n := List.length_take_of_le hon.2.1
      have hroom := h.room
      intro chunk hmem
      rw [Log.chunks, List.map_append, List.mem_append] at hmem
      rcases hmem with hmem | hmem
      · exact h.cut chunk hmem
      · obtain rfl : chunk = s.outPipe.take n := List.mem_singleton.mp hmem
        refine ⟨fun hnil => ?_, ?_, ?_⟩
        · rw [hnil, List.length_nil] at hlength
          omega
        · rw [hlength]
          exact hon.2.2
        · rw [hlength]
          omega
    · split_ifs <;> exact h.cut
    · exact h.cut
    · exact h.cut
  | _ => exact h.cut

theorem room_step (h : Refused cfg output s) (hon : enabled cfg s act = true) :
    (effect cfg s act).outPipe.length ≤ cfg.outCapacity := by
  cases act with
  | read o =>
    have hroom := h.room
    change (s.outPipe.drop (Read.count o)).length ≤ cfg.outCapacity
    rw [List.length_drop]
    omega
  | write bytes =>
    simp only [enabled, decide_eq_true_eq] at hon
    change (s.outPipe ++ bytes).length ≤ cfg.outCapacity
    rw [List.length_append]
    exact hon.2.2
  | _ => exact h.room

/-- The end call is not made: the whole output is compared by then, and it differs. -/
theorem Refused.no_endCall (h : Refused cfg output s) (hdiff : DiffersAtByte cfg output)
    (hpc : s.runner.pc = .read) (hempty : s.outPipe = []) : s.runner.watcherAlive = true := by
  by_contra hdead
  rw [Bool.not_eq_true] at hdead
  have hall := compared_all h.trusted h.calm h.fair hpc hdead hempty
  have hsame := h.trusted.judged.reading hpc
  have hequal := ((h.tallied (by rw [hpc]; rfl)).unfailed hsame).2
  rw [hdiff s.log.chunks h.cut hall] at hequal
  cases hequal

theorem convicts_read (h : Refused cfg output s) (hdiff : DiffersAtByte cfg output)
    (hlimit : withinLimit cfg output.length) {o : Read} (ho : o ≠ .error)
    (hon : enabled cfg s (.read o) = true) :
    Convicts (effect cfg s (.read o)).runner (effect cfg s (.read o)).log.compared := by
  change Convicts (runnerOnRead cfg s.runner s.outPipe o)
    (logRead s.log s.runner s.outPipe o).compared
  simp only [enabled] at hon
  split at hon
  · rename_i hpc
    have hin : behindLoop s.runner.pc = false := by rw [hpc]; rfl
    have htallied := h.tallied hin
    simp only [runnerOnRead, hpc]
    cases o with
    | bytes n =>
      simp only [readable, decide_eq_true_eq] at hon
      have hlength : (s.outPipe.take n).length = n := List.length_take_of_le hon.2.1
      simp only [logRead, hpc, compared_append]
      refine convicts_onChunk htallied (h.trusted.judged.reading hpc) (fun hnil => ?_) ?_
      · rw [hnil, List.length_nil] at hlength
        omega
      · rw [hlength]
        exact limit_kept h.trusted h.calm hlimit hin htallied.count hon.2.1
    | eof => cases hon
    | again =>
      simp only [readable, decide_eq_true_eq] at hon
      simp only [logRead, hpc, Runner.onRead, h.no_endCall hdiff hpc hon, if_true]
      exact (top_resumes s.runner).convicts htallied.more h.convicts.wrong h.convicts.met
    | error => exact absurd rfl ho
  · rename_i blockingCount hpc
    simp only [runnerOnRead, logRead, hpc]
    exact convicts_onFlushOut h.convicts hpc o ho
  · cases hon

theorem convicts_send (h : Refused cfg output s) {t : Transfer} (ht : t ≠ .error)
    (hon : enabled cfg s (.send t) = true) :
    Convicts (runnerOnSend cfg s.runner t) s.log.compared := by
  simp only [enabled, decide_eq_true_eq] at hon
  rcases hon.1 with hpc | hpc
  · have htallied := h.tallied (by rw [hpc]; rfl)
    rw [runnerOnSend_loop hpc]
    cases t with
    | moved n =>
      exact (check_resumes cfg _).convicts htallied.more h.convicts.wrong h.convicts.met
    | again => exact (check_resumes cfg _).convicts htallied.more h.convicts.wrong h.convicts.met
    | error => exact absurd rfl ht
  · rw [runnerOnSend_flushIn hpc]
    exact convicts_onFlushIn h.convicts hpc ht

theorem convicts_kill (h : Refused cfg output s) (hin : behindLoop s.runner.pc = false) :
    Convicts (s.runner.onKill cfg) s.log.compared := by
  have hjudged := h.trusted.judged
  have hmore := (h.tallied hin).more
  unfold Runner.onKill
  split
  · exact (check_resumes cfg _).convicts hmore h.convicts.wrong h.convicts.met
  · rename_i hpc
    exact convicts_checkLimit hmore h.convicts.wrong h.convicts.met (hjudged.limited hpc)
  · rename_i hpc
    exact absurd hpc hjudged.unlimited
  · exact (top_resumes s.runner).convicts hmore h.convicts.wrong h.convicts.met
  · exact h.convicts

theorem convicts_poll (h : Refused cfg output s) (hpc : s.runner.pc = .poll) (p : Poll) :
    Convicts (s.runner.onPoll cfg p) s.log.compared := by
  have hmore := (h.tallied (by rw [hpc]; rfl)).more
  cases p with
  | error => exact (toSend_resumes _).convicts hmore h.convicts.wrong h.convicts.met
  | unchanged => exact (toSend_resumes _).convicts hmore h.convicts.wrong h.convicts.met
  | status st =>
    refine (toSend_resumes _).convicts ?_ ?_ ?_
    all_goals
      cases st with
      | exited code =>
        simp only [Runner.collect]
        split_ifs <;> first | exact hmore | exact h.convicts.wrong | exact h.convicts.met
      | _ => first | exact hmore | exact h.convicts.wrong | exact h.convicts.met

theorem convicts_step (h : Refused cfg output s) (hdiff : DiffersAtByte cfg output)
    (hlimit : withinLimit cfg output.length) (hon : enabled cfg s act = true)
    (hordinary : ordinary cfg output s act = true) :
    Convicts (effect cfg s act).runner (effect cfg s act).log.compared := by
  cases act with
  | clone outcome =>
    simp only [ordinary, unfailing, decide_eq_true_eq] at hordinary
    subst hordinary
    exact h.convicts.keep (fun hbehind => by cases hbehind) rfl rfl rfl
  | checkFds ok =>
    simp only [ordinary, unfailing] at hordinary
    subst hordinary
    exact h.convicts.keep (fun hbehind => by cases hbehind) rfl rfl rfl
  | poll ok =>
    simp only [enabled, decide_eq_true_eq] at hon
    exact convicts_poll h hon.1 _
  | send t =>
    simp only [ordinary, unfailing, decide_eq_true_eq] at hordinary
    exact convicts_send h hordinary hon
  | kill => exact convicts_kill h (enabled_kill hon)
  | read o =>
    simp only [ordinary, unfailing, decide_eq_true_eq] at hordinary
    exact convicts_read h hdiff hlimit hordinary hon
  | _ => exact h.convicts

theorem refused_step (h : Refused cfg output s) (hdiff : DiffersAtByte cfg output)
    (hlimit : withinLimit cfg output.length) (hon : enabled cfg s act = true)
    (hordinary : ordinary cfg output s act = true) : Refused cfg output (effect cfg s act) where
  trusted := trusted_step h.trusted hon (sane_of_ordinary h.trusted h.calm hlimit
    (fun hin => (h.tallied hin).count) hon hordinary)
  calm := calm_step h.calm h.heard hon hordinary
  marked := by
    have hmarked := marked_step h.marked hon
    rwa [quiet_of_ordinary hordinary, List.append_nil] at hmarked
  fair := fair_step h hordinary
  convicts := convicts_step h hdiff hlimit hon hordinary
  taken := taken_step h.trusted h.taken
  cut := cut_step h hon
  room := room_step h hon

end

theorem refused_start (cfg : Config) (output : List UInt8) : Refused cfg output (start cfg) where
  trusted := trusted_start cfg
  calm := calm_unborn
  marked := by
    refine ⟨⟨rfl, ?_, rfl, rfl, rfl, rfl⟩, rfl⟩
    simp [start, entry, Log.chunks, differs]
  fair := ⟨rfl, nofun⟩
  convicts := ⟨nofun, nofun, nofun⟩
  taken := List.nil_prefix
  cut := nofun
  room := Nat.zero_le _

end KudosJudge.RunSystem
