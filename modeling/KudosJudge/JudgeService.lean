import KudosJudge.JudgeSession
import KudosJudge.QueueRaces

set_option autoImplicit false

/-!
The accept loop, the queue and the loops of `queue_worker_main` in one system: a connection is
pushed, handed to a worker, received, decoded, served and answered, while the other workers
are anywhere in the same.
-/
namespace KudosJudge.JudgeService
open CText ConnectionQueue InterfaceDecode InterfaceReceive JudgeSession JudgeWorkers LinkedCells
open ClientForge Results Runs WorkerServe

structure Peer where
  received : List RecvResult
  behind : Memory

inductive Message where
  | unreceived
  | undecoded
  | unserved
  | judge (r : Request)
deriving DecidableEq, Repr

/-- What the worker has in hand after `jug_int_receive` and `jug_int_decode`. Feeds by
reference, for which the submission has no file names, are left out. -/
def Peer.message (peer : Peer) : Option Message :=
  match jugIntReceive peer.received with
  | .waiting => none
  | .null => some .unreceived
  | .buffer body =>
    match jugIntDecode (body.str ++ 0 :: peer.behind) with
    | .fault => none
    | .ret _ => some .undecoded
    | .ok request =>
      if request.type = reqTypeJudge then
        if request.input.type = feedtypeData ∧ request.output.type = feedtypeData then
          some (.judge (requestOf request))
        else none
      else some .unserved

def Message.answer : Message → Option Verdict
  | .unreceived => some .internal
  | .undecoded => some .accepted
  | .unserved => none
  | .judge _ => none

/-- `holds` is the connection of a worker between its pop and `jug_int_free_connection`, and
`served` records what was sent on each connection. -/
structure Service (n : ℕ) where
  queue : Queue n
  judge : Judge
  holds : Fin n → Option Connection
  served : List (Connection × Option Verdict)

inductive Act (n : ℕ) where
  | queue (act : ConnectionQueue.Action n)
  | receive (w : Fin n)
  | judge (w : Fin n) (act : JudgeWorkers.Act)

variable {n : ℕ}

def Service.ends (s : Service n) (w : Fin n) (c : Connection) (v : Option Verdict) : Service n :=
  { s with holds := Function.update s.holds w none, served := s.served ++ [(c, v)] }

def replied : Option (Current × Stage) → JudgeWorkers.Act → Option Verdict
  | some (_, .reply v), .go => some v
  | _, _ => none

def serviceStep (world : World) (peers : Connection → Peer) (s : Service n) :
    Act n → Option (Service n)
  | .queue (.semWait w) =>
    if s.holds w = none then
      (ConnectionQueue.step s.queue (.semWait w)).map fun q => { s with queue := q }
    else none
  | .queue (.pop w) =>
    (ConnectionQueue.step s.queue (.pop w)).map fun q =>
      { s with queue := q, holds := Function.update s.holds w (q.popped.getLastD none) }
  | .queue act => (ConnectionQueue.step s.queue act).map fun q => { s with queue := q }
  | .receive w =>
    match s.holds w, (s.judge.workers w).current with
    | some c, none =>
      match (peers c).message with
      | none => none
      | some (.judge r) =>
        (judgeStep world s.judge (w, .receive r)).map fun j => { s with judge := j }
      | some m => some (s.ends w c m.answer)
    | _, _ => none
  | .judge w act =>
    match s.holds w with
    | none => none
    | some c =>
      if (s.judge.workers w).current.isSome then
        (judgeStep world s.judge (w, act)).map fun j =>
          match replied (s.judge.workers w).current act with
          | none => { s with judge := j }
          | some v => Service.ends { s with judge := j } w c (some v)
      else none

/-- Without `races`, no pop takes the last entry from under a push. -/
def allowed (world : World) (peers : Connection → Peer) (perfect races : Bool) (s : Service n) :
    Act n → Bool
  | .queue act => races || orderly s.queue act
  | .receive w =>
    match s.holds w with
    | none => true
    | some c =>
      match (peers c).message with
      | some (.judge r) => plain world r
      | _ => true
  | .judge w act => JudgeWorkers.allowed world perfect s.judge (w, act)

def boot (n : ℕ) (files : Files) : Service n :=
  ⟨queueInit n, JudgeWorkers.boot files, fun _ => none, []⟩

def Answered (world : World) (perfect : Bool) : Option Message → Option Verdict → Prop
  | none, _ => False
  | some (.judge r), v => ∃ verdict, v = some verdict ∧ Right world perfect r verdict
  | some m, v => v = m.answer

inductive Stepped (world : World) (peers : Connection → Peer) (s : Service n) :
    Act n → Service n → Prop where
  | queue {act : ConnectionQueue.Action n} {q : Queue n} (hstep : step s.queue act = some q)
      (hpop : ∀ w, act ≠ .pop w) (hwait : ∀ w, act = .semWait w → s.holds w = none) :
      Stepped world peers s (.queue act) { s with queue := q }
  | pop {w : Fin n} {q : Queue n} (hstep : step s.queue (.pop w) = some q) :
      Stepped world peers s (.queue (.pop w))
        { s with queue := q, holds := Function.update s.holds w (q.popped.getLastD none) }
  | receive {w : Fin n} {c : Connection} {r : Request} {j : Judge} (hholds : s.holds w = some c)
      (hnone : (s.judge.workers w).current = none) (hmessage : (peers c).message = some (.judge r))
      (hstep : judgeStep world s.judge (w, .receive r) = some j) :
      Stepped world peers s (.receive w) { s with judge := j }
  | dismiss {w : Fin n} {c : Connection} {m : Message} (hholds : s.holds w = some c)
      (hnone : (s.judge.workers w).current = none) (hmessage : (peers c).message = some m)
      (hother : ∀ r, m ≠ .judge r) : Stepped world peers s (.receive w) (s.ends w c m.answer)
  | work {w : Fin n} {c : Connection} {act : JudgeWorkers.Act} {j : Judge}
      {current : Current × Stage} (hholds : s.holds w = some c)
      (hcurrent : (s.judge.workers w).current = some current)
      (hreply : replied (some current) act = none)
      (hstep : judgeStep world s.judge (w, act) = some j) :
      Stepped world peers s (.judge w act) { s with judge := j }
  | reply {w : Fin n} {c : Connection} {c' : Current} {v : Verdict} {j : Judge}
      (hholds : s.holds w = some c) (hcurrent : (s.judge.workers w).current = some (c', .reply v))
      (hstep : judgeStep world s.judge (w, .go) = some j) :
      Stepped world peers s (.judge w .go) (Service.ends { s with judge := j } w c (some v))

section

variable {world : World} {peers : Connection → Peer} {perfect races : Bool} {s s' : Service n}
  {act : Act n}

theorem replied_eq_some {current : Option (Current × Stage)} {act : JudgeWorkers.Act} {v : Verdict}
    (h : replied current act = some v) : act = .go ∧ ∃ c, current = some (c, .reply v) := by
  unfold replied at h
  split at h
  · rename_i c _
    cases h
    exact ⟨rfl, c, rfl⟩
  · cases h

theorem stepped (h : serviceStep world peers s act = some s') : Stepped world peers s act s' := by
  cases act with
  | queue act =>
    cases act with
    | semWait w =>
      simp only [serviceStep] at h
      split_ifs at h with hnone
      obtain ⟨q, hstep, rfl⟩ := Option.map_eq_some_iff.mp h
      refine .queue hstep (fun w => by simp) fun w' heq => ?_
      cases heq
      exact hnone
    | pop w =>
      obtain ⟨q, hstep, rfl⟩ := Option.map_eq_some_iff.mp h
      exact .pop hstep
    | _ =>
      obtain ⟨q, hstep, rfl⟩ := Option.map_eq_some_iff.mp h
      exact .queue hstep (fun w => by simp) fun w heq => by cases heq
  | receive w =>
    simp only [serviceStep] at h
    split at h
    · rename_i c hholds hnone
      split at h
      · cases h
      · rename_i r hmessage
        obtain ⟨j, hstep, rfl⟩ := Option.map_eq_some_iff.mp h
        exact .receive hholds hnone hmessage hstep
      · rename_i m hother hmessage
        cases h
        exact .dismiss hholds hnone hmessage fun r heq => hother r heq
    · cases h
  | judge w act =>
    simp only [serviceStep] at h
    split at h
    · cases h
    · rename_i c hholds
      split_ifs at h with hsome
      obtain ⟨current, hcurrent⟩ := Option.isSome_iff_exists.mp hsome
      obtain ⟨j, hstep, hnext⟩ := Option.map_eq_some_iff.mp h
      rw [hcurrent] at hnext
      cases hreplied : replied (some current) act with
      | none =>
        rw [hreplied] at hnext
        cases hnext
        exact .work hholds hcurrent hreplied hstep
      | some v =>
        obtain ⟨rfl, c', hcurrent'⟩ := replied_eq_some hreplied
        rw [hreplied] at hnext
        cases hnext
        rw [hcurrent'] at hcurrent
        exact .reply hholds hcurrent hstep

theorem queue_stepped (h : Stepped world peers s act s') :
    s'.queue = s.queue ∨ ∃ act', act = .queue act' ∧ step s.queue act' = some s'.queue := by
  cases h with
  | queue hstep hpop hwait => exact .inr ⟨_, rfl, hstep⟩
  | pop hstep => exact .inr ⟨_, rfl, hstep⟩
  | receive hholds hnone hmessage hstep => exact .inl rfl
  | dismiss hholds hnone hmessage hother => exact .inl rfl
  | work hholds hcurrent hreply hstep => exact .inl rfl
  | reply hholds hcurrent hstep => exact .inl rfl

theorem judge_stepped (h : Stepped world peers s act s')
    (hallowed : allowed world peers perfect races s act = true) :
    s'.judge = s.judge ∨ Moves (judgeStep world)
      (fun j a => JudgeWorkers.allowed world perfect j a = true) s.judge s'.judge := by
  cases h with
  | queue hstep hpop hwait => exact .inl rfl
  | pop hstep => exact .inl rfl
  | receive hholds hnone hmessage hstep =>
    simp only [allowed, hholds, hmessage] at hallowed
    refine .inr ⟨_, ?_, hstep⟩
    simp only [JudgeWorkers.allowed, smooth, Bool.or_true, Bool.true_and]
    exact hallowed
  | dismiss hholds hnone hmessage hother => exact .inl rfl
  | work hholds hcurrent hreply hstep => exact .inr ⟨_, hallowed, hstep⟩
  | reply hholds hcurrent hstep => exact .inr ⟨_, hallowed, hstep⟩

def Service.inHand (s : Service n) : List Connection := (List.finRange n).filterMap s.holds

/-- Each connection that a worker got is answered or in one worker's hands, and that worker is
at its request. -/
structure Kept (world : World) (peers : Connection → Peer) (perfect : Bool) (s : Service n) :
    Prop where
  waiting : ∀ w ∈ s.queue.granted, s.holds w = none
  idle : ∀ w, s.holds w = none → (s.judge.workers w).current = none
  own : ∀ (w : Fin n) c stage, (s.judge.workers w).current = some (c, stage) →
    ∃ connection, s.holds w = some connection ∧
      (peers connection).message = some (.judge c.request)
  given : (handed s.queue).Perm (s.served.map Prod.fst ++ s.inHand)
  right : ∀ p ∈ s.served, Answered world perfect (peers p.1).message p.2
  others : ∀ w : ℕ, n ≤ w → (s.judge.workers w).current = none

theorem inHand_given (f : Fin n → Option Connection) {w : Fin n} (hnone : f w = none)
    (c : Connection) : ((List.finRange n).filterMap (Function.update f w (some c))).Perm
      (c :: (List.finRange n).filterMap f) := by
  have hmem : w ∈ List.finRange n := List.mem_finRange w
  have hsplit := List.perm_cons_erase hmem
  have hrest : ((List.finRange n).erase w).filterMap (Function.update f w (some c)) =
      ((List.finRange n).erase w).filterMap f := by
    refine List.filterMap_congr fun x hx => Function.update_of_ne ?_ ..
    rintro rfl
    exact (List.nodup_finRange n).not_mem_erase hx
  have hleft := hsplit.filterMap (Function.update f w (some c))
  have hright := hsplit.filterMap f
  rw [List.filterMap_cons_some (Function.update_self ..), hrest] at hleft
  rw [List.filterMap_cons_none hnone] at hright
  exact hleft.trans (hright.symm.cons c)

theorem inHand_taken (f : Fin n → Option Connection) {w : Fin n} {c : Connection}
    (hsome : f w = some c) : ((List.finRange n).filterMap f).Perm
      (c :: (List.finRange n).filterMap (Function.update f w none)) := by
  have hback := inHand_given (Function.update f w none) (Function.update_self w none f) c
  have hsame : Function.update (Function.update f w none) w (some c) = f := by
    rw [Function.update_idem, ← hsome, Function.update_eq_self]
  rw [hsame] at hback
  exact hback

theorem step_kept {q q' : Queue n} {act : ConnectionQueue.Action n}
    (hstep : step q act = some q') (hpop : ∀ w, act ≠ .pop w) :
    q'.popped = q.popped ∧ ∀ w ∈ q'.granted, w ∈ q.granted ∨ act = .semWait w := by
  cases act with
  | pop w => exact absurd rfl (hpop w)
  | semWait w =>
    simp only [step] at hstep
    split_ifs at hstep
    cases hstep
    refine ⟨rfl, fun w' hw' => ?_⟩
    rcases Finset.mem_insert.mp hw' with rfl | hold
    · exact .inr rfl
    · exact .inl hold
  | _ =>
    simp only [step] at hstep
    split at hstep <;> first
      | cases hstep
        exact ⟨rfl, fun _ hw => .inl hw⟩
      | cases hstep

theorem step_popped {q q' : Queue n} {w : Fin n} (hstep : step q (.pop w) = some q') :
    w ∈ q.granted ∧ q'.granted = q.granted.erase w ∧
      ∃ result, q'.popped = q.popped ++ [result] := by
  simp only [step] at hstep
  split_ifs at hstep with hgranted
  split at hstep
  · cases hstep
  · rename_i q'' result hresult
    cases hstep
    have hsame : q''.granted = q.granted ∧ q''.popped = q.popped := by
      unfold queuePopConnection at hresult
      split at hresult
      · cases hresult
        exact ⟨rfl, rfl⟩
      · split at hresult <;> cases hresult
        exact ⟨rfl, rfl⟩
    refine ⟨hgranted, ?_, result, ?_⟩
    · simp only [hsame.1]
    · simp only [hsame.2]

theorem kept_queue (h : Kept world peers perfect s) {act : ConnectionQueue.Action n} {q : Queue n}
    (hstep : step s.queue act = some q) (hpop : ∀ w, act ≠ .pop w)
    (hwait : ∀ w, act = .semWait w → s.holds w = none) :
    Kept world peers perfect { s with queue := q } := by
  obtain ⟨hpopped, hgranted⟩ := step_kept hstep hpop
  refine ⟨fun w hw => ?_, h.idle, h.own, ?_, h.right, h.others⟩
  · rcases hgranted w hw with hbefore | hwaits
    · exact h.waiting w hbefore
    · exact hwait w hwaits
  · have hsame : handed q = handed s.queue := by rw [handed, handed, hpopped]
    rw [hsame]
    exact h.given

theorem kept_pop (h : Kept world peers perfect s) {w : Fin n} {q : Queue n}
    (hstep : step s.queue (.pop w) = some q) : Kept world peers perfect
      { s with queue := q, holds := Function.update s.holds w (q.popped.getLastD none) } := by
  obtain ⟨hgranted, herased, result, hpopped⟩ := step_popped hstep
  have hfree := h.waiting w hgranted
  have hlast : q.popped.getLastD none = result := by
    rw [hpopped, List.getLastD_concat]
  have hnone := h.idle w hfree
  have hhanded : handed q = handed s.queue ++ result.toList := by
    rw [handed, handed, hpopped, List.reduceOption_append, List.reduceOption_singleton]
  rw [hlast]
  refine ⟨fun w' hw' => ?_, fun w' hw' => ?_, fun w' c stage hcurrent => ?_, ?_, h.right,
    h.others⟩
  · rw [herased, Finset.mem_erase] at hw'
    exact (Function.update_of_ne hw'.1 ..).trans (h.waiting w' hw'.2)
  · by_cases hw : w' = w
    · rw [hw]
      exact hnone
    · exact h.idle w' ((Function.update_of_ne hw ..).symm.trans hw')
  · have hw : w' ≠ w := by
      rintro rfl
      rw [hnone] at hcurrent
      cases hcurrent
    obtain ⟨connection, hholds, hmessage⟩ := h.own w' c stage hcurrent
    exact ⟨connection, (Function.update_of_ne hw ..).trans hholds, hmessage⟩
  · change (handed q).Perm (s.served.map Prod.fst ++
      (List.finRange n).filterMap (Function.update s.holds w result))
    rw [hhanded]
    cases result with
    | none =>
      rw [← hfree, Function.update_eq_self, hfree, Option.toList_none, List.append_nil]
      exact h.given
    | some c =>
      have hgiven := inHand_given s.holds hfree c
      refine (h.given.append_right [c]).trans ?_
      rw [List.append_assoc]
      exact (List.perm_append_comm.trans hgiven.symm).append_left _

theorem advance_request {files files' : Files} {w : ℕ} {k k' : Worker} {act : JudgeWorkers.Act}
    {c : Current} {stage : Stage} (hcurrent : k.current = some (c, stage))
    (hreply : replied (some (c, stage)) act = none)
    (hstep : advance world w files k act = some (files', k')) :
    ∃ c' stage', k'.current = some (c', stage') ∧ c'.request = c.request := by
  have hgo : ∀ (c' : Current) (stage' : Stage), k' = k.goTo c' stage' →
      c'.request = c.request → ∃ c' stage', k'.current = some (c', stage') ∧
        c'.request = c.request := by
    rintro c' stage' rfl hrequest
    exact ⟨c', stage', rfl, hrequest⟩
  unfold advance at hstep
  split at hstep <;> rename_i hnow <;> rw [hcurrent] at hnow <;> try cases hnow
  · cases hstep
    exact hgo _ _ rfl rfl
  · cases hstep
    exact hgo _ _ rfl rfl
  · split_ifs at hstep <;> cases hstep
    · exact hgo _ _ rfl rfl
    · exact ⟨_, _, rfl, rfl⟩
  · cases hstep
    exact hgo _ _ rfl rfl
  · cases hstep
    exact hgo _ _ rfl rfl
  · cases hstep
    exact hgo _ _ rfl rfl
  · split at hstep <;> cases hstep <;> exact hgo _ _ rfl rfl
  · split_ifs at hstep <;> cases hstep <;> exact hgo _ _ rfl rfl
  · cases hstep
    exact hgo _ _ rfl rfl
  · split at hstep
    · split_ifs at hstep <;> cases hstep <;> exact hgo _ _ rfl rfl
    · cases hstep
      exact hgo _ _ rfl rfl
  · split_ifs at hstep
    cases hstep
    exact ⟨_, _, hcurrent, rfl⟩
  · obtain ⟨s', -, hnext⟩ := Option.map_eq_some_iff.mp hstep
    cases hnext
    exact hgo _ _ rfl rfl
  · split at hstep <;> cases hstep
    exact ⟨_, _, rfl, rfl⟩
  · cases hstep
    exact hgo _ _ rfl rfl
  · cases hstep
    exact hgo _ _ rfl rfl
  · cases hstep
    exact hgo _ _ rfl rfl
  · cases hreply
  · cases hstep

theorem kept_judge (h : Kept world peers perfect s) {w : Fin n} {c : Connection}
    {act : JudgeWorkers.Act} {j : Judge} (hholds : s.holds w = some c)
    (hstep : judgeStep world s.judge (w, act) = some j)
    (hafter : ∀ c' stage, (j.workers w).current = some (c', stage) →
      (peers c).message = some (.judge c'.request)) :
    Kept world peers perfect { s with judge := j } := by
  obtain ⟨-, -, hothers⟩ := judgeStep_cases hstep
  have hframe : ∀ w' : Fin n, w' ≠ w → j.workers w' = s.judge.workers w' := fun w' hw =>
    hothers w' fun heq => hw (Fin.ext heq)
  refine ⟨h.waiting, fun w' hw' => ?_, fun w' c' stage hcurrent => ?_, h.given, h.right,
    fun w' hw' => ?_⟩
  · have hw : w' ≠ w := by
      rintro rfl
      rw [hholds] at hw'
      cases hw'
    exact (congrArg Worker.current (hframe w' hw)).trans (h.idle w' hw')
  · by_cases hw : w' = w
    · subst hw
      exact ⟨c, hholds, hafter c' stage hcurrent⟩
    · exact h.own w' c' stage ((congrArg Worker.current (hframe w' hw)).symm.trans hcurrent)
  · have hw : w' ≠ w := fun heq => absurd w.isLt (Nat.not_lt.mpr (heq ▸ hw'))
    exact (congrArg Worker.current (hothers w' hw)).trans (h.others w' hw')

theorem kept_receive (h : Kept world peers perfect s) {w : Fin n} {c : Connection} {r : Request}
    {j : Judge} (hholds : s.holds w = some c) (hnone : (s.judge.workers w).current = none)
    (hmessage : (peers c).message = some (.judge r))
    (hstep : judgeStep world s.judge (w, .receive r) = some j) :
    Kept world peers perfect { s with judge := j } := by
  refine kept_judge h hholds hstep fun c' stage hcurrent => ?_
  obtain ⟨-, hnext, -⟩ := judgeStep_cases hstep
  simp only [advance, hnone, Option.some.injEq, Prod.mk.injEq] at hnext
  rw [← hnext.2, Option.some.injEq, Prod.mk.injEq] at hcurrent
  rw [hmessage, ← hcurrent.1]

theorem kept_work (h : Kept world peers perfect s) {w : Fin n} {c : Connection}
    {act : JudgeWorkers.Act} {j : Judge} {current : Current × Stage} (hholds : s.holds w = some c)
    (hcurrent : (s.judge.workers w).current = some current)
    (hreply : replied (some current) act = none)
    (hstep : judgeStep world s.judge (w, act) = some j) :
    Kept world peers perfect { s with judge := j } := by
  obtain ⟨c₁, stage⟩ := current
  obtain ⟨c₂, stage₂, hnext, hrequest⟩ :=
    advance_request hcurrent hreply (judgeStep_cases hstep).2.1
  refine kept_judge h hholds hstep fun c' stage' hcurrent' => ?_
  rw [hnext, Option.some.injEq, Prod.mk.injEq] at hcurrent'
  obtain ⟨connection, hown, hmessage⟩ := h.own w c₁ stage hcurrent
  obtain rfl : c = connection := Option.some.inj (hholds.symm.trans hown)
  rw [hmessage, ← hcurrent'.1, hrequest]

theorem kept_ends (h : Kept world peers perfect s) {w : Fin n} {c : Connection}
    {v : Option Verdict} (hholds : s.holds w = some c) (hnone : (s.judge.workers w).current = none)
    (hright : Answered world perfect (peers c).message v) :
    Kept world peers perfect (s.ends w c v) := by
  refine ⟨fun w' hw' => ?_, fun w' hw' => ?_, fun w' c' stage hcurrent => ?_, ?_, ?_, h.others⟩
  · by_cases hw : w' = w
    · rw [hw]
      exact Function.update_self ..
    · exact (Function.update_of_ne hw ..).trans (h.waiting w' hw')
  · by_cases hw : w' = w
    · rw [hw]
      exact hnone
    · exact h.idle w' ((Function.update_of_ne hw ..).symm.trans hw')
  · have hw : w' ≠ w := by
      rintro rfl
      have hsome : (s.judge.workers w').current = some (c', stage) := hcurrent
      rw [hnone] at hsome
      cases hsome
    obtain ⟨connection, hown, hmessage⟩ := h.own w' c' stage hcurrent
    exact ⟨connection, (Function.update_of_ne hw ..).trans hown, hmessage⟩
  · have htaken : s.inHand.Perm (c :: (s.ends w c v).inHand) := inHand_taken s.holds hholds
    have hserved : (s.ends w c v).served.map Prod.fst = s.served.map Prod.fst ++ [c] := by
      rw [Service.ends, List.map_append, List.map_singleton]
    rw [hserved, List.append_assoc]
    exact h.given.trans (htaken.append_left _)
  · intro p hp
    rcases List.mem_append.mp hp with hp | hp
    · exact h.right p hp
    · rw [List.mem_singleton.mp hp]
      exact hright

theorem kept_reply (h : Kept world peers perfect s) {w : Fin n} {c : Connection} {c' : Current}
    {v : Verdict} {j : Judge} (hholds : s.holds w = some c)
    (hcurrent : (s.judge.workers w).current = some (c', .reply v))
    (hright : Right world perfect c'.request v)
    (hstep : judgeStep world s.judge (w, .go) = some j) :
    Kept world peers perfect (Service.ends { s with judge := j } w c (some v)) := by
  obtain ⟨-, hnext, -⟩ := judgeStep_cases hstep
  simp only [advance, hcurrent, Option.some.injEq, Prod.mk.injEq] at hnext
  have hnone : (j.workers w).current = none := by rw [← hnext.2]
  have hjudged : Kept world peers perfect { s with judge := j } := by
    refine kept_judge h hholds hstep fun c₁ stage heq => ?_
    rw [hnone] at heq
    cases heq
  obtain ⟨connection, hown, hmessage⟩ := h.own w c' _ hcurrent
  obtain rfl : c = connection := Option.some.inj (hholds.symm.trans hown)
  refine kept_ends hjudged hholds hnone ?_
  rw [hmessage]
  exact ⟨v, rfl, hright⟩

theorem answered_answer {m : Message} (hother : ∀ r, m ≠ .judge r) :
    Answered world perfect (some m) m.answer := by
  cases m with
  | judge r => exact absurd rfl (hother r)
  | _ => rfl

theorem kept_step (h : Kept world peers perfect s)
    (hserves : ∀ w, Serves world w perfect s.judge.files (s.judge.workers w))
    (hstep : Stepped world peers s act s') : Kept world peers perfect s' := by
  cases hstep with
  | queue hstep hpop hwait => exact kept_queue h hstep hpop hwait
  | pop hstep => exact kept_pop h hstep
  | receive hholds hnone hmessage hstep => exact kept_receive h hholds hnone hmessage hstep
  | dismiss hholds hnone hmessage hother =>
    refine kept_ends h hholds hnone ?_
    rw [hmessage]
    exact answered_answer hother
  | work hholds hcurrent hreply hstep => exact kept_work h hholds hcurrent hreply hstep
  | reply hholds hcurrent hstep =>
    exact kept_reply h hholds hcurrent ((hserves _).ready _ _ hcurrent) hstep

structure Steady (world : World) (peers : Connection → Peer) (perfect : Bool) (s : Service n) :
    Prop where
  together : Together world perfect s.judge
  kept : Kept world peers perfect s

theorem steady_step (h : Steady world peers perfect s)
    (hallowed : allowed world peers perfect races s act = true)
    (hstep : serviceStep world peers s act = some s') : Steady world peers perfect s' := by
  refine ⟨?_, kept_step h.kept h.together.serves (stepped hstep)⟩
  rcases judge_stepped (stepped hstep) hallowed with hsame | ⟨a, hok, hnext⟩
  · rw [hsame]
    exact h.together
  · exact together_step h.together hok hnext

end

def silent : Connection → Peer := fun _ => ⟨[.error], []⟩

/-- The steps that accept nothing new, and on which no pop races with a push. -/
def closing (world : World) (peers : Connection → Peer) (perfect : Bool) (s : Service n)
    (act : Act n) : Prop :=
  allowed world peers perfect false s act = true ∧ ∀ c entry, act ≠ .queue (.create c entry)

/-- The requests that can be answered: received, and with a run that can be finished. -/
def Answerable (world : World) (peer : Peer) : Prop :=
  ∃ m, peer.message = some m ∧ ∀ r, m = .judge r → plain world r = true ∧ Fitting world r

def pushWeight : Push → ℕ
  | .created _ => 7
  | .looked _ _ => 6
  | .linked _ => 5
  | .tailed => 4
  | .idle => 0

def Service.distance (s : Service n) : ℕ :=
  pushWeight s.queue.push + 3 * s.queue.workSemaphore + 2 * s.queue.granted.card +
    s.inHand.length

structure Closing (world : World) (peers : Connection → Peer) (perfect : Bool)
    (pushed : List Connection) (s : Service n) : Prop where
  steady : Steady world peers perfect s
  queue : ∃ cells, Inv s.queue cells
  pushed : s.queue.pushed = pushed

section

variable {world : World} {peers : Connection → Peer} {perfect : Bool} {s s' : Service n}
  {pushed : List Connection}

theorem step_pushed {q q' : Queue n} {act : ConnectionQueue.Action n}
    (hstep : step q act = some q') (hcreate : ∀ c entry, act ≠ .create c entry) :
    q'.pushed = q.pushed := by
  cases act with
  | create c entry => exact absurd rfl (hcreate c entry)
  | pop w =>
    simp only [step] at hstep
    split_ifs at hstep
    split at hstep
    · cases hstep
    · rename_i q'' result hresult
      cases hstep
      unfold queuePopConnection at hresult
      split at hresult
      · cases hresult
        rfl
      · split at hresult <;> cases hresult
        rfl
  | semWait w =>
    simp only [step] at hstep
    split_ifs at hstep
    cases hstep
    rfl
  | _ =>
    simp only [step] at hstep
    split at hstep <;> first
      | cases hstep
        rfl
      | cases hstep

theorem closing_run (h : Closing world peers perfect pushed s)
    (hrun : Reaches (serviceStep world peers) (closing world peers perfect) s s') :
    Closing world peers perfect pushed s' := by
  apply hrun.invariant (Closing world peers perfect pushed) h
  rintro s act s' h ⟨hallowed, hcreate⟩ hstep
  refine ⟨steady_step h.steady hallowed hstep, ?_, ?_⟩
  · obtain ⟨cells, hinv⟩ := h.queue
    rcases queue_stepped (stepped hstep) with hsame | ⟨act', rfl, hnext⟩
    · rw [hsame]
      exact ⟨cells, hinv⟩
    · exact inv_step hinv hallowed hnext
  · rcases queue_stepped (stepped hstep) with hsame | ⟨act', rfl, hnext⟩
    · rw [hsame]
      exact h.pushed
    · exact (step_pushed hnext fun c entry heq => hcreate c entry (heq ▸ rfl)).trans h.pushed

def Service.Quiet (s : Service n) : Prop :=
  s.queue.push = .idle ∧ s.queue.workSemaphore = 0 ∧ s.queue.granted = ∅ ∧ s.inHand = []

theorem Closing.answered (h : Closing world peers perfect pushed s) (hquiet : s.Quiet) :
    (s.served.map Prod.fst).Perm pushed := by
  obtain ⟨hidle, hsemaphore, hgranted, hnone⟩ := hquiet
  obtain ⟨cells, hinv⟩ := h.queue
  have hcount := hinv.count
  rw [hidle, hsemaphore, hgranted, Finset.card_empty] at hcount
  obtain rfl := List.length_eq_zero_iff.mp hcount
  have hfacts := hinv.facts
  rw [hidle] at hfacts
  have hordered := hfacts.2
  simp only [Ordered, List.map_nil, List.append_nil] at hordered
  have hhanded : handed s.queue = s.queue.pushed := by
    rw [handed, hordered, List.reduceOption, List.filterMap_map, Function.id_comp]
    exact List.filterMap_some
  have hgiven := h.steady.kept.given
  rw [hnone, List.append_nil, hhanded, h.pushed] at hgiven
  exact hgiven.symm

theorem Closing.accepted (h : Closing world peers perfect pushed s)
    (hidle : s.queue.push = .idle) {w : Fin n} {c : Connection} (hholds : s.holds w = some c) :
    c ∈ pushed := by
  obtain ⟨cells, hinv⟩ := h.queue
  have hfacts := hinv.facts
  rw [hidle] at hfacts
  have hordered := hfacts.2
  simp only [Ordered, List.map_nil, List.append_nil] at hordered
  have hhand : c ∈ s.inHand := List.mem_filterMap.mpr ⟨w, List.mem_finRange w, hholds⟩
  have hhanded : c ∈ handed s.queue :=
    h.steady.kept.given.mem_iff.mpr (List.mem_append_right _ hhand)
  have hpopped : some c ∈ s.queue.pushed.map some := by
    rw [← hordered]
    exact List.mem_append_left _ (List.reduceOption_mem_iff.mp hhanded)
  obtain ⟨c', hc', heq⟩ := List.mem_map.mp hpopped
  rw [← h.pushed, ← Option.some.inj heq]
  exact hc'

end

end KudosJudge.JudgeService
