import KudosJudge.Library.Runs
import Mathlib.Algebra.Ring.Nat
import Mathlib.Data.List.Basic
import Mathlib.Logic.Function.Basic

set_option autoImplicit false

/-!
The exchange over `template_shm` in `runner.c`: `n` workers in
`jug_runner_template_clone`, the template's main loop and the handler of `SIGUSR1`
that interrupts it. Each access to the segment is one step, a failed test of a
spin loop is none. The segment has room for whatever is written to it.
-/
namespace KudosJudge.TemplateHandshake
open Runs

abbrev Payload := List UInt8
abbrev Pid := BitVec 32

inductive Flag where
  | init
  | notReady
  | start
  | ready
  | ok
deriving DecidableEq, Repr

inductive Worker where
  | idle
  | lock (payload : Payload)
  | awaitStart (payload : Payload)
  | kill (payload : Payload)
  | awaitReady (payload : Payload)
  | writeLength (payload : Payload)
  | writePayload (payload : Payload)
  | sendPayload (payload : Payload)
  | awaitPid (payload : Payload)
  | readLength (payload : Payload)
  | readPid (payload : Payload) (length : ℕ)
  | acknowledge (payload : Payload) (pid : Pid)
  | unlock (payload : Payload) (pid : Pid)
deriving DecidableEq, Repr

inductive Handler where
  | enter
  | awaitPayload
  | readLength
  | readPayload (length : ℕ)
  | clone (payload : Payload)
  | writeLength (pid : Pid)
  | writePid (pid : Pid)
  | announce (pid : Pid)
  | awaitDone
  | leave
deriving DecidableEq, Repr

inductive MainLoop where
  | attach
  | top
  | asleep
deriving DecidableEq, Repr

/-- `sent`, `cloned` and `returned` record the requests signalled, the clones made
with what they were given and the pid written for them, and the calls that returned. -/
structure State (n : ℕ) where
  flag : Flag
  length : ℕ
  area : ℕ → UInt8
  mutex : Option (Fin n)
  pending : Bool
  main : MainLoop
  handler : Option Handler
  worker : Fin n → Worker
  countSubmissions : ℕ
  countSubmissionsSuccess : ℕ
  sent : List (Fin n × Payload)
  cloned : List (Payload × Pid)
  returned : List (Fin n × Payload × Pid)

def templateInit (n : ℕ) (length : ℕ) (area : ℕ → UInt8) : State n :=
  ⟨.init, length, area, none, false, .attach, none, fun _ => .idle, 0, 0, [], [], []⟩

def memcpy (area : ℕ → UInt8) (bytes : List UInt8) (k : ℕ) : UInt8 :=
  (bytes[k]?).getD (area k)

def fetch (area : ℕ → UInt8) (length : ℕ) : List UInt8 :=
  (List.range length).map area

def pidBytes (pid : Pid) : List UInt8 :=
  [UInt8.ofNat pid.toNat, UInt8.ofNat (pid.toNat / 2 ^ 8), UInt8.ofNat (pid.toNat / 2 ^ 16),
    UInt8.ofNat (pid.toNat / 2 ^ 24)]

def bytesPid : List UInt8 → Pid
  | [a, b, c, d] =>
    BitVec.ofNat 32 (a.toNat + 2 ^ 8 * b.toNat + 2 ^ 16 * c.toNat + 2 ^ 24 * d.toNat)
  | _ => 0

def pidReturn : Option Pid → Pid
  | some pid => pid
  | none => -2

inductive Action (n : ℕ) where
  | call (w : Fin n) (payload : Payload)
  | lock (w : Fin n)
  | killFails (w : Fin n)
  | worker (w : Fin n)
  | main
  | deliver
  | handler
  | clone (pid : Option Pid)
  | noStack
deriving DecidableEq, Repr

variable {n : ℕ}

def State.goto (s : State n) (w : Fin n) (pc : Worker) : State n :=
  { s with worker := Function.update s.worker w pc }

def workerStep (s : State n) (w : Fin n) : Worker → Option (State n)
  | .idle => none
  | .lock _ => none
  | .awaitStart payload =>
    if s.flag = .start then some (s.goto w (.kill payload)) else none
  | .kill payload =>
    some { s.goto w (.awaitReady payload) with
      pending := true
      sent := s.sent ++ [(w, payload)] }
  | .awaitReady payload =>
    if s.flag = .ready then some (s.goto w (.writeLength payload)) else none
  | .writeLength payload =>
    some { s.goto w (.writePayload payload) with length := payload.length }
  | .writePayload payload =>
    some { s.goto w (.sendPayload payload) with area := memcpy s.area payload }
  | .sendPayload payload => some { s.goto w (.awaitPid payload) with flag := .ok }
  | .awaitPid payload =>
    if s.flag = .ready then some (s.goto w (.readLength payload)) else none
  | .readLength payload => some (s.goto w (.readPid payload s.length))
  | .readPid payload length =>
    some (s.goto w (.acknowledge payload (bytesPid (fetch s.area length))))
  | .acknowledge payload pid =>
    some { s.goto w (.unlock payload pid) with
      flag := .ok
      countSubmissionsSuccess := s.countSubmissionsSuccess + 1 }
  | .unlock payload pid =>
    some { s.goto w .idle with
      mutex := none
      returned := s.returned ++ [(w, payload, pid)] }

def handlerStep (s : State n) : Handler → Option (State n)
  | .enter => some { s with flag := .ready, handler := some .awaitPayload }
  | .awaitPayload =>
    if s.flag = .ok then some { s with handler := some .readLength } else none
  | .readLength => some { s with handler := some (.readPayload s.length) }
  | .readPayload length => some { s with handler := some (.clone (fetch s.area length)) }
  | .clone _ => none
  | .writeLength pid => some { s with length := 4, handler := some (.writePid pid) }
  | .writePid pid =>
    some { s with area := memcpy s.area (pidBytes pid), handler := some (.announce pid) }
  | .announce _ => some { s with flag := .ready, handler := some .awaitDone }
  | .awaitDone => if s.flag = .ok then some { s with handler := some .leave } else none
  | .leave => some { s with flag := .ready, handler := none }

/-- The main loop runs while the handler does not; the handler cuts its sleep short. -/
def mainStep (s : State n) : State n :=
  match s.main with
  | .attach => { s with flag := .notReady, main := .top }
  | .top => { s with flag := .start, main := .asleep }
  | .asleep => { s with main := .top }

/-- The handler that finds no room for the stack of the clone returns at once. -/
def step (s : State n) : Action n → Option (State n)
  | .call w payload => if s.worker w = .idle then some (s.goto w (.lock payload)) else none
  | .lock w =>
    match s.worker w, s.mutex with
    | .lock payload, none =>
      some { s.goto w (.awaitStart payload) with
        mutex := some w
        countSubmissions := s.countSubmissions + 1 }
    | _, _ => none
  | .killFails w =>
    match s.worker w with
    | .kill _ => some { s.goto w .idle with mutex := none }
    | _ => none
  | .worker w => workerStep s w (s.worker w)
  | .main => if s.handler = none then some (mainStep s) else none
  | .deliver =>
    if s.handler = none ∧ s.pending = true then
      some { s with handler := some .enter, pending := false }
    else none
  | .handler =>
    match s.handler with
    | none => none
    | some pc => handlerStep s pc
  | .clone pid =>
    match s.handler with
    | some (.clone payload) =>
      some { s with
        handler := some (.writeLength (pidReturn pid))
        cloned := s.cloned ++ [(payload, pidReturn pid)] }
    | _ => none
  | .noStack =>
    match s.handler with
    | some (.clone _) => some { s with handler := none }
    | _ => none

theorem fetch_memcpy (area : ℕ → UInt8) (bytes : List UInt8) :
    fetch (memcpy area bytes) bytes.length = bytes := by
  apply List.ext_getElem
  · simp [fetch]
  · intro k _ hk
    simp [fetch, memcpy, hk]

theorem bytesPid_pidBytes (pid : Pid) : bytesPid (pidBytes pid) = pid := by
  have hlt := pid.isLt
  apply BitVec.eq_of_toNat_eq
  simp only [pidBytes, bytesPid, BitVec.toNat_ofNat, UInt8.toNat_ofNat']
  omega

section

variable (s : State n)

/-- The calls that returned account for the requests and the clones, but for
`sent` and `cloned`. -/
def Balanced (sent : List (Fin n × Payload)) (cloned : List (Payload × Pid)) : Prop :=
  s.sent = s.returned.map (fun r => (r.1, r.2.1)) ++ sent ∧
    s.cloned = s.returned.map Prod.snd ++ cloned

def Contains (bytes : List UInt8) : Prop :=
  s.length = bytes.length ∧ fetch s.area bytes.length = bytes

/-- The handler is not running, or is past the reply to the last request. -/
def Ended : Prop :=
  s.pending = false ∧
    (s.handler = none ∨ s.flag = .ok ∧ (s.handler = some .awaitDone ∨ s.handler = some .leave))

def Called : Prop :=
  s.pending = true ∧ s.handler = none ∧ s.flag = .start ∨
    s.pending = false ∧ s.handler = some .enter ∧ s.flag = .start ∨
    s.pending = false ∧ s.handler = some .awaitPayload ∧ s.flag = .ready

def Listening : Prop :=
  s.pending = false ∧ s.handler = some .awaitPayload ∧ s.flag = .ready

def Answered (pid : Pid) : Prop :=
  s.pending = false ∧ s.handler = some .awaitDone ∧ s.flag = .ready ∧ Contains s (pidBytes pid)

/-- From the worker's `'K'` to the handler's answer. `lost` says whether the
handler may have returned without one. -/
def Handled (lost : Prop) (w : Fin n) (payload : Payload) : Option Handler → Prop
  | none => lost ∧ s.flag ≠ .ready ∧ Balanced s [(w, payload)] []
  | some .enter => False
  | some .awaitPayload => s.flag = .ok ∧ Contains s payload ∧ Balanced s [(w, payload)] []
  | some .readLength => s.flag = .ok ∧ Contains s payload ∧ Balanced s [(w, payload)] []
  | some (.readPayload length) =>
    s.flag = .ok ∧ Contains s payload ∧ length = payload.length ∧ Balanced s [(w, payload)] []
  | some (.clone read) => s.flag = .ok ∧ read = payload ∧ Balanced s [(w, payload)] []
  | some (.writeLength pid) => s.flag = .ok ∧ Balanced s [(w, payload)] [(payload, pid)]
  | some (.writePid pid) =>
    s.flag = .ok ∧ s.length = 4 ∧ Balanced s [(w, payload)] [(payload, pid)]
  | some (.announce pid) =>
    s.flag = .ok ∧ Contains s (pidBytes pid) ∧ Balanced s [(w, payload)] [(payload, pid)]
  | some .awaitDone =>
    ∃ pid, s.flag = .ready ∧ Contains s (pidBytes pid) ∧
      Balanced s [(w, payload)] [(payload, pid)]
  | some .leave => False

/-- What a worker that holds the mutex may count on. -/
def Held (lost : Prop) (w : Fin n) : Worker → Prop
  | .idle => False
  | .lock _ => False
  | .awaitStart _ => Ended s ∧ Balanced s [] []
  | .kill _ => s.pending = false ∧ s.handler = none ∧ s.flag = .start ∧ Balanced s [] []
  | .awaitReady payload => Called s ∧ Balanced s [(w, payload)] []
  | .writeLength payload => Listening s ∧ Balanced s [(w, payload)] []
  | .writePayload payload =>
    Listening s ∧ s.length = payload.length ∧ Balanced s [(w, payload)] []
  | .sendPayload payload => Listening s ∧ Contains s payload ∧ Balanced s [(w, payload)] []
  | .awaitPid payload => s.pending = false ∧ Handled s lost w payload s.handler
  | .readLength payload => ∃ pid, Answered s pid ∧ Balanced s [(w, payload)] [(payload, pid)]
  | .readPid payload length =>
    length = 4 ∧ ∃ pid, Answered s pid ∧ Balanced s [(w, payload)] [(payload, pid)]
  | .acknowledge payload pid => Answered s pid ∧ Balanced s [(w, payload)] [(payload, pid)]
  | .unlock payload pid => Ended s ∧ Balanced s [(w, payload)] [(payload, pid)]

def Locked (lost : Prop) : Option (Fin n) → Prop
  | none => Ended s ∧ Balanced s [] []
  | some w => Held s lost w (s.worker w)

end

def Worker.outside : Worker → Bool
  | .idle => true
  | .lock _ => true
  | _ => false

structure Inv (lost : Prop) (s : State n) : Prop where
  single : ∀ w, s.mutex ≠ some w → (s.worker w).outside
  locked : Locked s lost s.mutex

/-- Until the template attaches nobody has moved the flag. -/
def Fresh (s : State n) : Prop :=
  s.main = .attach → s.flag = .init ∧ s.handler = none

variable {s s' : State n} {lost : Prop} {w : Fin n}

theorem Inv.mutex_of_inside (h : Inv lost s) (hin : (s.worker w).outside = false) :
    s.mutex = some w := by
  by_contra hmutex
  have hout := h.single w hmutex
  rw [hin] at hout
  cases hout

theorem Inv.held (h : Inv lost s) (hin : (s.worker w).outside = false) :
    Held s lost w (s.worker w) := by
  have hlocked := h.locked
  rw [h.mutex_of_inside hin] at hlocked
  exact hlocked

theorem Inv.goto (h : Inv lost s) {pc : Worker} (hmutex : s'.mutex = some w)
    (hworker : s'.worker = Function.update s.worker w pc) (hother : ∀ v, v ≠ w → s.mutex ≠ some v)
    (hheld : Held s' lost w pc) : Inv lost s' where
  single := by
    intro v hv
    have hne : v ≠ w := by
      rintro rfl
      exact hv hmutex
    rw [hworker, Function.update_of_ne hne]
    exact h.single v (hother v hne)
  locked := by
    rw [hmutex]
    change Held s' lost w (s'.worker w)
    rw [hworker, Function.update_self]
    exact hheld

theorem Inv.advance (h : Inv lost s) {pc : Worker} (hin : (s.worker w).outside = false)
    (hmutex : s'.mutex = s.mutex) (hworker : s'.worker = Function.update s.worker w pc)
    (hheld : Held s' lost w pc) : Inv lost s' := by
  have hw := h.mutex_of_inside hin
  apply h.goto (hmutex.trans hw) hworker ?_ hheld
  intro v hne heq
  rw [hw, Option.some.injEq] at heq
  exact hne heq.symm

theorem Inv.release (h : Inv lost s) (hin : (s.worker w).outside = false)
    (hfree : s'.mutex = none) (hworker : s'.worker = Function.update s.worker w .idle)
    (hended : Ended s') (hbalanced : Balanced s' [] []) : Inv lost s' where
  single := by
    intro v _
    rw [hworker]
    by_cases hne : v = w
    · subst hne
      rw [Function.update_self]
      rfl
    · rw [Function.update_of_ne hne]
      apply h.single v
      rw [h.mutex_of_inside hin, ne_eq, Option.some.injEq]
      exact fun heq => hne heq.symm
  locked := by
    rw [hfree]
    exact ⟨hended, hbalanced⟩

theorem Ended.of_start (h : Ended s) (hflag : s.flag = .start) :
    s.pending = false ∧ s.handler = none := by
  obtain ⟨hpending, hnone | ⟨hok, -⟩⟩ := h
  · exact ⟨hpending, hnone⟩
  · rw [hflag] at hok
    cases hok

theorem Called.of_ready (h : Called s) (hflag : s.flag = .ready) : Listening s := by
  obtain ⟨-, -, hstart⟩ | ⟨-, -, hstart⟩ | hready := h
  · rw [hflag] at hstart
    cases hstart
  · rw [hflag] at hstart
    cases hstart
  · exact hready

theorem Handled.of_ready {payload : Payload} (h : Handled s lost w payload s.handler)
    (hflag : s.flag = .ready) : s.handler = some .awaitDone ∧
      ∃ pid, Contains s (pidBytes pid) ∧ Balanced s [(w, payload)] [(payload, pid)] := by
  cases hh : s.handler with
  | none => simp [hh, Handled, hflag] at h
  | some pc =>
    cases pc with
    | awaitDone =>
      rw [hh] at h
      obtain ⟨pid, -, hcontains, hbalanced⟩ := h
      exact ⟨rfl, pid, hcontains, hbalanced⟩
    | _ => simp [hh, Handled, hflag] at h

theorem inv_workerStep (h : Inv lost s) (hstep : workerStep s w (s.worker w) = some s') :
    Inv lost s' := by
  have hheld : (s.worker w).outside = false → Held s lost w (s.worker w) := h.held
  have hadvance : (s.worker w).outside = false → ∀ pc, s'.mutex = s.mutex →
      s'.worker = Function.update s.worker w pc → Held s' lost w pc → Inv lost s' :=
    fun hin pc hmutex hworker hnew => h.advance hin hmutex hworker hnew
  cases hpc : s.worker w with
  | idle => simp [hpc, workerStep] at hstep
  | lock payload => simp [hpc, workerStep] at hstep
  | awaitStart payload =>
    simp only [hpc, workerStep, Option.ite_none_right_eq_some, Option.some.injEq] at hstep
    obtain ⟨hflag, rfl⟩ := hstep
    rw [hpc] at hheld hadvance
    obtain ⟨hended, hbalanced⟩ := hheld rfl
    obtain ⟨hpending, hhandler⟩ := hended.of_start hflag
    exact hadvance rfl _ rfl rfl ⟨hpending, hhandler, hflag, hbalanced⟩
  | kill payload =>
    simp only [hpc, workerStep, Option.some.injEq] at hstep
    subst hstep
    rw [hpc] at hheld hadvance
    obtain ⟨hpending, hhandler, hflag, hsent, hcloned⟩ := hheld rfl
    refine hadvance rfl _ rfl rfl ⟨.inl ⟨rfl, hhandler, hflag⟩, ?_, hcloned⟩
    change s.sent ++ [(w, payload)] = s.returned.map _ ++ [(w, payload)]
    rw [hsent, List.append_nil]
  | awaitReady payload =>
    simp only [hpc, workerStep, Option.ite_none_right_eq_some, Option.some.injEq] at hstep
    obtain ⟨hflag, rfl⟩ := hstep
    rw [hpc] at hheld hadvance
    obtain ⟨hcalled, hbalanced⟩ := hheld rfl
    exact hadvance rfl _ rfl rfl ⟨hcalled.of_ready hflag, hbalanced⟩
  | writeLength payload =>
    simp only [hpc, workerStep, Option.some.injEq] at hstep
    subst hstep
    rw [hpc] at hheld hadvance
    obtain ⟨hlistening, hbalanced⟩ := hheld rfl
    exact hadvance rfl _ rfl rfl ⟨hlistening, rfl, hbalanced⟩
  | writePayload payload =>
    simp only [hpc, workerStep, Option.some.injEq] at hstep
    subst hstep
    rw [hpc] at hheld hadvance
    obtain ⟨hlistening, hlength, hbalanced⟩ := hheld rfl
    exact hadvance rfl _ rfl rfl
      ⟨hlistening, ⟨hlength, fetch_memcpy s.area payload⟩, hbalanced⟩
  | sendPayload payload =>
    simp only [hpc, workerStep, Option.some.injEq] at hstep
    subst hstep
    rw [hpc] at hheld hadvance
    obtain ⟨⟨hpending, hhandler, hflag⟩, hcontains, hbalanced⟩ := hheld rfl
    refine hadvance rfl _ rfl rfl ⟨hpending, ?_⟩
    change Handled _ lost w payload s.handler
    rw [hhandler]
    exact ⟨rfl, hcontains, hbalanced⟩
  | awaitPid payload =>
    simp only [hpc, workerStep, Option.ite_none_right_eq_some, Option.some.injEq] at hstep
    obtain ⟨hflag, rfl⟩ := hstep
    rw [hpc] at hheld hadvance
    obtain ⟨hpending, hhandled⟩ := hheld rfl
    obtain ⟨hhandler, pid, hcontains, hbalanced⟩ := hhandled.of_ready hflag
    exact hadvance rfl _ rfl rfl ⟨pid, ⟨hpending, hhandler, hflag, hcontains⟩, hbalanced⟩
  | readLength payload =>
    simp only [hpc, workerStep, Option.some.injEq] at hstep
    subst hstep
    rw [hpc] at hheld hadvance
    obtain ⟨pid, hanswered, hbalanced⟩ := hheld rfl
    exact hadvance rfl _ rfl rfl ⟨hanswered.2.2.2.1, pid, hanswered, hbalanced⟩
  | readPid payload length =>
    simp only [hpc, workerStep, Option.some.injEq] at hstep
    subst hstep
    rw [hpc] at hheld hadvance
    obtain ⟨rfl, pid, hanswered, hbalanced⟩ := hheld rfl
    refine hadvance rfl _ rfl rfl ?_
    have hfetch : fetch s.area 4 = pidBytes pid := hanswered.2.2.2.2
    rw [hfetch, bytesPid_pidBytes]
    exact ⟨hanswered, hbalanced⟩
  | acknowledge payload pid =>
    simp only [hpc, workerStep, Option.some.injEq] at hstep
    subst hstep
    rw [hpc] at hheld hadvance
    obtain ⟨⟨hpending, hhandler, -⟩, hbalanced⟩ := hheld rfl
    exact hadvance rfl _ rfl rfl ⟨⟨hpending, .inr ⟨rfl, .inl hhandler⟩⟩, hbalanced⟩
  | unlock payload pid =>
    simp only [hpc, workerStep, Option.some.injEq] at hstep
    subst hstep
    have hin : (s.worker w).outside = false := by rw [hpc]; rfl
    rw [hpc] at hheld
    obtain ⟨hended, hsent, hcloned⟩ := hheld rfl
    refine h.release hin rfl rfl hended ⟨?_, ?_⟩
    · change s.sent = (s.returned ++ [(w, payload, pid)]).map _ ++ []
      rw [hsent, List.map_append, List.append_nil]
      rfl
    · change s.cloned = (s.returned ++ [(w, payload, pid)]).map Prod.snd ++ []
      rw [hcloned, List.map_append, List.append_nil]
      rfl

theorem Inv.template (h : Inv lost s) (hmutex : s'.mutex = s.mutex)
    (hworker : s'.worker = s.worker)
    (hfree : Ended s ∧ Balanced s [] [] → Ended s' ∧ Balanced s' [] [])
    (hheld : ∀ w pc, Held s lost w pc → Held s' lost w pc) : Inv lost s' where
  single := by
    rw [hmutex, hworker]
    exact h.single
  locked := by
    have hlocked := h.locked
    rw [hmutex]
    cases hm : s.mutex with
    | none =>
      rw [hm] at hlocked
      exact hfree hlocked
    | some w =>
      rw [hm] at hlocked
      change Held s' lost w (s'.worker w)
      rw [hworker]
      exact hheld w _ hlocked

theorem handlerStep_frame {pc : Handler} (hstep : handlerStep s pc = some s') :
    s'.mutex = s.mutex ∧ s'.worker = s.worker ∧ s'.main = s.main := by
  cases pc with
  | clone read => cases hstep
  | _ =>
    simp only [handlerStep, Option.ite_none_right_eq_some, Option.some.injEq] at hstep
    first
      | (subst hstep; exact ⟨rfl, rfl, rfl⟩)
      | (obtain ⟨-, rfl⟩ := hstep; exact ⟨rfl, rfl, rfl⟩)

section

variable {pc : Handler} (hpc : s.handler = some pc) (hstep : handlerStep s pc = some s')
include hpc hstep

theorem ended_handlerStep {sent : List (Fin n × Payload)} {cloned : List (Payload × Pid)}
    (h : Ended s ∧ Balanced s sent cloned) : Ended s' ∧ Balanced s' sent cloned := by
  obtain ⟨⟨hpending, hended⟩, hbalanced⟩ := h
  rw [hpc] at hended
  rcases hended with hnone | ⟨hflag, hdone | hleave⟩
  · cases hnone
  · cases hdone
    rw [handlerStep, if_pos hflag, Option.some.injEq] at hstep
    subst hstep
    exact ⟨⟨hpending, .inr ⟨hflag, .inr rfl⟩⟩, hbalanced⟩
  · cases hleave
    rw [handlerStep, Option.some.injEq] at hstep
    subst hstep
    exact ⟨⟨hpending, .inl rfl⟩, hbalanced⟩

theorem called_handlerStep {sent : List (Fin n × Payload)} {cloned : List (Payload × Pid)}
    (h : Called s ∧ Balanced s sent cloned) : Called s' ∧ Balanced s' sent cloned := by
  obtain ⟨hcalled, hbalanced⟩ := h
  rw [Called, hpc] at hcalled
  rcases hcalled with ⟨-, hnone, -⟩ | ⟨hpending, henter, -⟩ | ⟨-, hawait, hready⟩
  · cases hnone
  · cases henter
    rw [handlerStep, Option.some.injEq] at hstep
    subst hstep
    exact ⟨.inr (.inr ⟨hpending, rfl, rfl⟩), hbalanced⟩
  · cases hawait
    simp [handlerStep, hready] at hstep

theorem not_listening_of_handlerStep : ¬ Listening s := by
  rintro ⟨-, hhandler, hflag⟩
  rw [hpc, Option.some.injEq] at hhandler
  subst hhandler
  simp [handlerStep, hflag] at hstep

theorem not_answered_of_handlerStep {pid : Pid} : ¬ Answered s pid := by
  rintro ⟨-, hhandler, hflag, -⟩
  rw [hpc, Option.some.injEq] at hhandler
  subst hhandler
  simp [handlerStep, hflag] at hstep

theorem handled_handlerStep {payload : Payload} (h : Handled s lost w payload (some pc)) :
    s'.pending = s.pending ∧ Handled s' lost w payload s'.handler := by
  cases pc with
  | enter => exact h.elim
  | awaitPayload =>
    rw [handlerStep, if_pos h.1, Option.some.injEq] at hstep
    subst hstep
    exact ⟨rfl, h⟩
  | readLength =>
    rw [handlerStep, Option.some.injEq] at hstep
    subst hstep
    obtain ⟨hflag, hcontains, hbalanced⟩ := h
    exact ⟨rfl, hflag, hcontains, hcontains.1, hbalanced⟩
  | readPayload length =>
    rw [handlerStep, Option.some.injEq] at hstep
    subst hstep
    obtain ⟨hflag, hcontains, rfl, hbalanced⟩ := h
    exact ⟨rfl, hflag, hcontains.2, hbalanced⟩
  | clone read => cases hstep
  | writeLength pid =>
    rw [handlerStep, Option.some.injEq] at hstep
    subst hstep
    exact ⟨rfl, h.1, rfl, h.2⟩
  | writePid pid =>
    rw [handlerStep, Option.some.injEq] at hstep
    subst hstep
    obtain ⟨hflag, hlength, hbalanced⟩ := h
    exact ⟨rfl, hflag, ⟨hlength, fetch_memcpy s.area (pidBytes pid)⟩, hbalanced⟩
  | announce pid =>
    rw [handlerStep, Option.some.injEq] at hstep
    subst hstep
    exact ⟨rfl, pid, rfl, h.2⟩
  | awaitDone =>
    obtain ⟨pid, hflag, -⟩ := h
    simp [handlerStep, hflag] at hstep
  | leave => exact h.elim

theorem held_handlerStep {stage : Worker} (h : Held s lost w stage) : Held s' lost w stage := by
  cases stage with
  | idle => exact h
  | lock payload => exact h
  | awaitStart payload => exact ended_handlerStep hpc hstep h
  | kill payload =>
    have hnone := h.2.1
    rw [hpc] at hnone
    cases hnone
  | awaitReady payload => exact called_handlerStep hpc hstep h
  | writeLength payload => exact (not_listening_of_handlerStep hpc hstep h.1).elim
  | writePayload payload => exact (not_listening_of_handlerStep hpc hstep h.1).elim
  | sendPayload payload => exact (not_listening_of_handlerStep hpc hstep h.1).elim
  | awaitPid payload =>
    obtain ⟨hpending, hhandled⟩ := h
    rw [hpc] at hhandled
    obtain ⟨hsame, hnext⟩ := handled_handlerStep hpc hstep hhandled
    exact ⟨hsame.trans hpending, hnext⟩
  | readLength payload =>
    obtain ⟨pid, hanswered, -⟩ := h
    exact (not_answered_of_handlerStep hpc hstep hanswered).elim
  | readPid payload length =>
    obtain ⟨-, pid, hanswered, -⟩ := h
    exact (not_answered_of_handlerStep hpc hstep hanswered).elim
  | acknowledge payload pid => exact (not_answered_of_handlerStep hpc hstep h.1).elim
  | unlock payload pid => exact ended_handlerStep hpc hstep h

theorem inv_handlerStep (h : Inv lost s) : Inv lost s' := by
  obtain ⟨hmutex, hworker, -⟩ := handlerStep_frame hstep
  exact h.template hmutex hworker (ended_handlerStep hpc hstep)
    (fun _ _ => held_handlerStep hpc hstep)

end

theorem mainStep_flag (hfresh : Fresh s) :
    (mainStep s).flag = s.flag ∨ (mainStep s).flag = .start ∨
      s.flag = .init ∧ (mainStep s).flag = .notReady := by
  unfold mainStep
  split
  · rename_i hmain
    exact .inr (.inr ⟨(hfresh hmain).1, rfl⟩)
  · exact .inr (.inl rfl)
  · exact .inl rfl

theorem mainStep_start (hfresh : Fresh s) (hflag : s.flag = .start) :
    (mainStep s).flag = .start := by
  rcases mainStep_flag hfresh with hsame | hstart | ⟨hinit, -⟩
  · rw [hsame, hflag]
  · exact hstart
  · rw [hflag] at hinit
    cases hinit

theorem mainStep_not_ready (hfresh : Fresh s) (hflag : s.flag ≠ .ready) :
    (mainStep s).flag ≠ .ready := by
  rcases mainStep_flag hfresh with hsame | hstart | ⟨-, hnot⟩
  · rw [hsame]
    exact hflag
  · rw [hstart]
    decide
  · rw [hnot]
    decide

theorem mainStep_frame (s : State n) : ∃ flag main, mainStep s = { s with flag, main } := by
  unfold mainStep
  split
  · exact ⟨_, _, rfl⟩
  · exact ⟨_, _, rfl⟩
  · exact ⟨_, _, rfl⟩

/-- The main loop writes `'S'` only where no worker waits for another flag to stay. -/
theorem inv_mainStep (h : Inv lost s) (hfresh : Fresh s) (hnone : s.handler = none) :
    Inv lost (mainStep s) := by
  have hstart := mainStep_start hfresh
  have hready := mainStep_not_ready hfresh
  obtain ⟨flag, main, heq⟩ := mainStep_frame s
  rw [heq] at hstart hready ⊢
  refine h.template rfl rfl ?_ ?_
  · rintro ⟨⟨hpending, -⟩, hbalanced⟩
    exact ⟨⟨hpending, .inl hnone⟩, hbalanced⟩
  · intro w stage hheld
    cases stage with
    | idle => exact hheld
    | lock payload => exact hheld
    | awaitStart payload => exact ⟨⟨hheld.1.1, .inl hnone⟩, hheld.2⟩
    | kill payload =>
      obtain ⟨hpending, -, hflag, hbalanced⟩ := hheld
      exact ⟨hpending, hnone, hstart hflag, hbalanced⟩
    | awaitReady payload =>
      obtain ⟨hcalled, hbalanced⟩ := hheld
      rw [Called, hnone] at hcalled
      rcases hcalled with ⟨hpending, -, hflag⟩ | ⟨-, hsome, -⟩ | ⟨-, hsome, -⟩
      · exact ⟨.inl ⟨hpending, hnone, hstart hflag⟩, hbalanced⟩
      · cases hsome
      · cases hsome
    | awaitPid payload =>
      obtain ⟨hpending, hhandled⟩ := hheld
      rw [hnone] at hhandled
      obtain ⟨hlost, hflag, hbalanced⟩ := hhandled
      refine ⟨hpending, ?_⟩
      change Handled _ lost w payload s.handler
      rw [hnone]
      exact ⟨hlost, hready hflag, hbalanced⟩
    | unlock payload pid => exact ⟨⟨hheld.1.1, .inl hnone⟩, hheld.2⟩
    | _ => simp [Held, Listening, Answered, hnone] at hheld

theorem inv_deliver (h : Inv lost s) (hnone : s.handler = none) (hpending : s.pending = true) :
    Inv lost { s with handler := some .enter, pending := false } := by
  refine h.template rfl rfl ?_ ?_
  · rintro ⟨⟨hno, -⟩, -⟩
    rw [hpending] at hno
    cases hno
  · intro w stage hheld
    cases stage with
    | awaitReady payload =>
      obtain ⟨hcalled, hbalanced⟩ := hheld
      rw [Called, hnone] at hcalled
      rcases hcalled with ⟨-, -, hflag⟩ | ⟨-, hsome, -⟩ | ⟨-, hsome, -⟩
      · exact ⟨.inr (.inl ⟨rfl, rfl, hflag⟩), hbalanced⟩
      · cases hsome
      · cases hsome
    | _ => simp [Held, Ended, Listening, Answered, hpending] at hheld

/-- At the clone the handler has read the payload of the worker that waits for it. -/
theorem Held.of_clone {stage : Worker} (h : Held s lost w stage) {read : Payload}
    (hclone : s.handler = some (.clone read)) : stage = .awaitPid read ∧ s.pending = false ∧
      s.flag = .ok ∧ Balanced s [(w, read)] [] := by
  cases stage with
  | awaitPid payload =>
    obtain ⟨hpending, hhandled⟩ := h
    rw [hclone] at hhandled
    obtain ⟨hflag, rfl, hbalanced⟩ := hhandled
    exact ⟨rfl, hpending, hflag, hbalanced⟩
  | _ => simp [Held, Ended, Called, Listening, Answered, hclone] at h

theorem Inv.awaitPid_of_clone (h : Inv lost s) {read : Payload}
    (hclone : s.handler = some (.clone read)) :
    ∃ w, s.mutex = some w ∧ s.worker w = .awaitPid read := by
  have hlocked := h.locked
  cases hm : s.mutex with
  | none => simp [hm, Locked, Ended, hclone] at hlocked
  | some w =>
    rw [hm] at hlocked
    exact ⟨w, rfl, (Held.of_clone hlocked hclone).1⟩

theorem inv_clone (h : Inv lost s) {read : Payload} (hclone : s.handler = some (.clone read))
    (pid : Pid) : Inv lost { s with
      handler := some (.writeLength pid)
      cloned := s.cloned ++ [(read, pid)] } := by
  refine h.template rfl rfl ?_ ?_
  · rintro ⟨⟨-, hended⟩, -⟩
    simp [hclone] at hended
  · intro w stage hheld
    obtain ⟨rfl, hpending, hflag, hsent, hcloned⟩ := hheld.of_clone hclone
    refine ⟨hpending, hflag, hsent, ?_⟩
    change s.cloned ++ [(read, pid)] = s.returned.map Prod.snd ++ [(read, pid)]
    rw [hcloned, List.append_nil]

theorem inv_noStack (h : Inv lost s) {read : Payload} (hclone : s.handler = some (.clone read))
    (hlost : lost) : Inv lost { s with handler := none } := by
  refine h.template rfl rfl ?_ ?_
  · rintro ⟨⟨-, hended⟩, -⟩
    simp [hclone] at hended
  · intro w stage hheld
    obtain ⟨rfl, hpending, hflag, hbalanced⟩ := hheld.of_clone hclone
    refine ⟨hpending, hlost, ?_, hbalanced⟩
    change s.flag ≠ .ready
    rw [hflag]
    decide

theorem inv_templateInit (length : ℕ) (area : ℕ → UInt8) : Inv lost (templateInit n length area) where
  single := fun _ _ => rfl
  locked := ⟨⟨rfl, .inl rfl⟩, rfl, rfl⟩

theorem inv_call (h : Inv lost s) (hidle : s.worker w = .idle) (payload : Payload) :
    Inv lost (s.goto w (.lock payload)) where
  single := by
    intro v hv
    change (Function.update s.worker w (.lock payload) v).outside
    by_cases hne : v = w
    · rw [hne, Function.update_self]
      rfl
    · rw [Function.update_of_ne hne]
      exact h.single v hv
  locked := by
    have hlocked := h.locked
    change Locked (s.goto w (.lock payload)) lost s.mutex
    cases hm : s.mutex with
    | none =>
      rw [hm] at hlocked
      exact hlocked
    | some v =>
      rw [hm] at hlocked
      have hne : v ≠ w := by
        rintro rfl
        rw [Locked, hidle] at hlocked
        exact hlocked
      change Held s lost v (Function.update s.worker w (.lock payload) v)
      rw [Function.update_of_ne hne]
      exact hlocked

theorem inv_step (h : Inv lost s) (hfresh : Fresh s) {a : Action n}
    (hlost : a = .noStack → lost) (hstep : step s a = some s') : Inv lost s' := by
  cases a with
  | call w payload =>
    simp only [step, Option.ite_none_right_eq_some, Option.some.injEq] at hstep
    obtain ⟨hidle, rfl⟩ := hstep
    exact inv_call h hidle payload
  | lock w =>
    simp only [step] at hstep
    split at hstep
    · rename_i payload hpc hmutex
      cases hstep
      have hlocked := h.locked
      rw [hmutex] at hlocked
      refine h.goto rfl rfl ?_ hlocked
      intro v _
      rw [hmutex]
      exact fun heq => by cases heq
    · cases hstep
  | killFails w =>
    simp only [step] at hstep
    split at hstep
    · rename_i payload hpc
      cases hstep
      have hin : (s.worker w).outside = false := by rw [hpc]; rfl
      have hheld := h.held hin
      rw [hpc] at hheld
      obtain ⟨hpending, hhandler, -, hbalanced⟩ := hheld
      exact h.release hin rfl rfl ⟨hpending, .inl hhandler⟩ hbalanced
    · cases hstep
  | worker w => exact inv_workerStep h hstep
  | main =>
    simp only [step, Option.ite_none_right_eq_some, Option.some.injEq] at hstep
    obtain ⟨hnone, rfl⟩ := hstep
    exact inv_mainStep h hfresh hnone
  | deliver =>
    simp only [step, Option.ite_none_right_eq_some, Option.some.injEq] at hstep
    obtain ⟨⟨hnone, hpending⟩, rfl⟩ := hstep
    exact inv_deliver h hnone hpending
  | handler =>
    simp only [step] at hstep
    split at hstep
    · cases hstep
    · rename_i pc hpc
      exact inv_handlerStep hpc hstep h
  | clone pid =>
    simp only [step] at hstep
    split at hstep
    · rename_i read hclone
      cases hstep
      exact inv_clone h hclone _
    · cases hstep
  | noStack =>
    simp only [step] at hstep
    split at hstep
    · rename_i read hclone
      cases hstep
      exact inv_noStack h hclone (hlost rfl)
    · cases hstep

theorem Fresh.of_running (hfresh : Fresh s) {pc : Handler} (hpc : s.handler = some pc)
    (hmain : s'.main = s.main) : Fresh s' := by
  intro hattach
  rw [hmain] at hattach
  have hnone := (hfresh hattach).2
  rw [hpc] at hnone
  cases hnone

theorem Inv.start_of_pending (h : Inv lost s) (hpending : s.pending = true) :
    s.flag = .start := by
  have hlocked := h.locked
  cases hm : s.mutex with
  | none => simp [hm, Locked, Ended, hpending] at hlocked
  | some w =>
    rw [hm, Locked] at hlocked
    cases hpc : s.worker w with
    | awaitReady payload =>
      rw [hpc] at hlocked
      rcases hlocked.1 with ⟨-, -, hflag⟩ | ⟨hno, -, -⟩ | ⟨hno, -, -⟩
      · exact hflag
      · rw [hpending] at hno
        cases hno
      · rw [hpending] at hno
        cases hno
    | _ => simp [hpc, Held, Ended, Listening, Answered, hpending] at hlocked

theorem fresh_workerStep (h : Inv lost s) (hfresh : Fresh s)
    (hstep : workerStep s w (s.worker w) = some s') : Fresh s' := by
  have hheld : (s.worker w).outside = false → Held s lost w (s.worker w) := h.held
  cases hpc : s.worker w with
  | idle => simp [hpc, workerStep] at hstep
  | lock payload => simp [hpc, workerStep] at hstep
  | sendPayload payload =>
    rw [hpc] at hheld
    have hhandler := (hheld rfl).1.2.1
    simp only [hpc, workerStep, Option.some.injEq] at hstep
    subst hstep
    exact hfresh.of_running hhandler rfl
  | acknowledge payload pid =>
    rw [hpc] at hheld
    have hhandler := (hheld rfl).1.2.1
    simp only [hpc, workerStep, Option.some.injEq] at hstep
    subst hstep
    exact hfresh.of_running hhandler rfl
  | _ =>
    simp only [hpc, workerStep, Option.ite_none_right_eq_some, Option.some.injEq] at hstep
    first
      | (subst hstep; exact hfresh)
      | (obtain ⟨-, rfl⟩ := hstep; exact hfresh)

theorem fresh_step (h : Inv lost s) (hfresh : Fresh s) {a : Action n}
    (hstep : step s a = some s') : Fresh s' := by
  cases a with
  | call w payload =>
    simp only [step, Option.ite_none_right_eq_some, Option.some.injEq] at hstep
    obtain ⟨-, rfl⟩ := hstep
    exact hfresh
  | lock w =>
    simp only [step] at hstep
    split at hstep
    · cases hstep
      exact hfresh
    · cases hstep
  | killFails w =>
    simp only [step] at hstep
    split at hstep
    · cases hstep
      exact hfresh
    · cases hstep
  | worker w => exact fresh_workerStep h hfresh hstep
  | main =>
    simp only [step, Option.ite_none_right_eq_some, Option.some.injEq] at hstep
    obtain ⟨-, rfl⟩ := hstep
    intro hattach
    unfold mainStep at hattach
    split at hattach <;> cases hattach
  | deliver =>
    simp only [step, Option.ite_none_right_eq_some, Option.some.injEq] at hstep
    obtain ⟨⟨-, hpending⟩, rfl⟩ := hstep
    intro hattach
    have hinit := (hfresh hattach).1
    rw [h.start_of_pending hpending] at hinit
    cases hinit
  | handler =>
    simp only [step] at hstep
    split at hstep
    · cases hstep
    · rename_i pc hpc
      exact hfresh.of_running hpc (handlerStep_frame hstep).2.2
  | clone pid =>
    simp only [step] at hstep
    split at hstep
    · rename_i read hclone
      cases hstep
      exact hfresh.of_running hclone rfl
    · cases hstep
  | noStack =>
    simp only [step] at hstep
    split at hstep
    · rename_i read hclone
      cases hstep
      exact hfresh.of_running hclone rfl
    · cases hstep

theorem inv_reaches {length : ℕ} {area : ℕ → UInt8} {ok : State n → Action n → Prop}
    (hrun : Reaches step ok (templateInit n length area) s)
    (hlost : ∀ s, ok s .noStack → lost) : Inv lost s ∧ Fresh s := by
  refine hrun.invariant (fun s => Inv lost s ∧ Fresh s)
    ⟨inv_templateInit length area, fun _ => ⟨rfl, rfl⟩⟩ ?_
  intro s a s' h hok hstep
  refine ⟨inv_step h.1 h.2 ?_ hstep, fresh_step h.1 h.2 hstep⟩
  rintro rfl
  exact hlost s hok

def Worker.writes : Worker → Bool
  | .writeLength _ => true
  | .writePayload _ => true
  | _ => false

/-- The handler has been told of a payload and has not copied it yet. -/
def mayRead (s : State n) : Bool :=
  match s.handler with
  | some .awaitPayload => s.flag = .ok
  | some .readLength => true
  | some (.readPayload _) => true
  | _ => false

/-- Requests, clones and returns correspond one to one and in order, up to the
request of the worker that holds the mutex. -/
structure Exact (s : State n) : Prop where
  delivered : ∀ read, s.handler = some (.clone read) →
    ∃ w, s.mutex = some w ∧ s.worker w = .awaitPid read
  accounted : Balanced s [] [] ∨ ∃ w payload, s.mutex = some w ∧
    (Balanced s [(w, payload)] [] ∨ ∃ pid, Balanced s [(w, payload)] [(payload, pid)])
  apart : ∀ w, (s.worker w).writes → s.mutex = some w ∧ mayRead s = false

/-- Without a failed allocation every request sent so far can still be answered. -/
def Answerable (s : State n) : Prop :=
  ∃ s', Reaches step (fun _ a => a ≠ .noStack) s s' ∧ s'.sent = s.sent ∧
    s'.returned.map (fun r => (r.1, r.2.1)) = s.sent

theorem Handled.balanced {payload : Payload} {handler : Option Handler}
    (h : Handled s lost w payload handler) : Balanced s [(w, payload)] [] ∨
      ∃ pid, Balanced s [(w, payload)] [(payload, pid)] := by
  match handler, h with
  | none, h => exact .inl h.2.2
  | some .awaitPayload, h => exact .inl h.2.2
  | some .readLength, h => exact .inl h.2.2
  | some (.readPayload _), h => exact .inl h.2.2.2
  | some (.clone _), h => exact .inl h.2.2
  | some (.writeLength pid), h => exact .inr ⟨pid, h.2⟩
  | some (.writePid pid), h => exact .inr ⟨pid, h.2.2⟩
  | some (.announce pid), h => exact .inr ⟨pid, h.2.2⟩
  | some .awaitDone, ⟨pid, _, _, h⟩ => exact .inr ⟨pid, h⟩

theorem Held.balanced {stage : Worker} (h : Held s lost w stage) : Balanced s [] [] ∨
    ∃ payload, Balanced s [(w, payload)] [] ∨
      ∃ pid, Balanced s [(w, payload)] [(payload, pid)] := by
  cases stage with
  | idle => exact h.elim
  | lock payload => exact h.elim
  | awaitStart payload => exact .inl h.2
  | kill payload => exact .inl h.2.2.2
  | awaitReady payload => exact .inr ⟨payload, .inl h.2⟩
  | writeLength payload => exact .inr ⟨payload, .inl h.2⟩
  | writePayload payload => exact .inr ⟨payload, .inl h.2.2⟩
  | sendPayload payload => exact .inr ⟨payload, .inl h.2.2⟩
  | awaitPid payload => exact .inr ⟨payload, h.2.balanced⟩
  | readLength payload =>
    obtain ⟨pid, -, hbalanced⟩ := h
    exact .inr ⟨payload, .inr ⟨pid, hbalanced⟩⟩
  | readPid payload length =>
    obtain ⟨-, pid, -, hbalanced⟩ := h
    exact .inr ⟨payload, .inr ⟨pid, hbalanced⟩⟩
  | acknowledge payload pid => exact .inr ⟨payload, .inr ⟨pid, h.2⟩⟩
  | unlock payload pid => exact .inr ⟨payload, .inr ⟨pid, h.2⟩⟩

theorem Listening.not_mayRead (h : Listening s) : mayRead s = false := by
  simp [mayRead, h.2.1, h.2.2]

theorem Inv.exact (h : Inv lost s) : Exact s where
  delivered := fun _ hclone => h.awaitPid_of_clone hclone
  accounted := by
    have hlocked := h.locked
    cases hm : s.mutex with
    | none =>
      rw [hm] at hlocked
      exact .inl hlocked.2
    | some w =>
      rw [hm] at hlocked
      rcases Held.balanced hlocked with hnone | ⟨payload, hsome⟩
      · exact .inl hnone
      · exact .inr ⟨w, payload, rfl, hsome⟩
  apart := by
    intro w hwrites
    have hin : (s.worker w).outside = false := by
      cases hpc : s.worker w <;> simp_all [Worker.writes, Worker.outside]
    refine ⟨h.mutex_of_inside hin, ?_⟩
    have hheld := h.held hin
    cases hpc : s.worker w with
    | writeLength payload =>
      rw [hpc] at hheld
      exact hheld.1.not_mayRead
    | writePayload payload =>
      rw [hpc] at hheld
      exact hheld.1.not_mayRead
    | _ => simp [hpc, Worker.writes] at hwrites

def Worker.signalled : Worker → Bool
  | .idle => false
  | .lock _ => false
  | .awaitStart _ => false
  | .kill _ => false
  | _ => true

/-- How many steps the answer to a signalled request is away. -/
def remaining : Worker → Option Handler → ℕ
  | .awaitReady _, none => 19
  | .awaitReady _, some .enter => 18
  | .awaitReady _, some _ => 17
  | .writeLength _, _ => 16
  | .writePayload _, _ => 15
  | .sendPayload _, _ => 14
  | .awaitPid _, some .awaitPayload => 13
  | .awaitPid _, some .readLength => 12
  | .awaitPid _, some (.readPayload _) => 11
  | .awaitPid _, some (.clone _) => 10
  | .awaitPid _, some (.writeLength _) => 9
  | .awaitPid _, some (.writePid _) => 8
  | .awaitPid _, some (.announce _) => 7
  | .awaitPid _, _ => 6
  | .readLength _, _ => 5
  | .readPid _ _, _ => 4
  | .acknowledge _ _, _ => 3
  | .unlock _ _, _ => 2
  | _, _ => 0

def nextAction (w : Fin n) : Worker → Option Handler → Action n
  | .awaitReady _, none => .deliver
  | .awaitReady _, some .enter => .handler
  | .awaitPid _, some (.clone _) => .clone none
  | .awaitPid _, some .awaitDone => .worker w
  | .awaitPid _, _ => .handler
  | _, _ => .worker w

def Advances (s : State n) (w : Fin n) : Prop :=
  ∃ s', step s (nextAction w (s.worker w) s.handler) = some s' ∧ s'.sent = s.sent ∧
    (s'.returned.map (fun r => (r.1, r.2.1)) = s.sent ∨
      s'.mutex = some w ∧ (s'.worker w).signalled ∧
        remaining (s'.worker w) s'.handler < remaining (s.worker w) s.handler)

theorem advances_of_step {stage : Worker} {handler : Option Handler}
    (hstage : s.worker w = stage) (hhandler : s.handler = handler)
    (hstep : step s (nextAction w stage handler) = some s') (hsent : s'.sent = s.sent)
    (hmutex : s'.mutex = some w) (hsignalled : (s'.worker w).signalled)
    (hless : remaining (s'.worker w) s'.handler < remaining stage handler) : Advances s w := by
  subst hstage hhandler
  exact ⟨s', hstep, hsent, .inr ⟨hmutex, hsignalled, hless⟩⟩

section

variable (hmutex : s.mutex = some w)
include hmutex

theorem advances_awaitPid {payload : Payload} (hpc : s.worker w = .awaitPid payload)
    (hheld : Handled s False w payload s.handler) : Advances s w := by
  cases hh : s.handler with
  | none => simp [hh, Handled] at hheld
  | some pc =>
    rw [hh] at hheld
    cases pc with
    | enter => exact hheld.elim
    | leave => exact hheld.elim
    | awaitDone =>
      obtain ⟨pid, hflag, -⟩ := hheld
      apply advances_of_step hpc hh
      · simp [nextAction, step, hpc, workerStep, hflag]
        rfl
      · rfl
      · exact hmutex
      · simp [State.goto, Worker.signalled]
      · simp [State.goto, remaining]
    | _ =>
      apply advances_of_step hpc hh
      · simp [nextAction, step, hh, handlerStep, hheld.1]
        rfl
      · rfl
      · exact hmutex
      · simp [hpc, Worker.signalled]
      · simp [hpc, remaining]

theorem advances_awaitReady {payload : Payload} (hpc : s.worker w = .awaitReady payload)
    (hcalled : Called s) : Advances s w := by
  rcases hcalled with ⟨hpending, hh, -⟩ | ⟨-, hh, -⟩ | ⟨-, hh, hflag⟩
  · apply advances_of_step hpc hh
    · simp [nextAction, step, hh, hpending]
      rfl
    · rfl
    · exact hmutex
    · simp [hpc, Worker.signalled]
    · simp [hpc, remaining]
  · apply advances_of_step hpc hh
    · simp [nextAction, step, hh, handlerStep]
      rfl
    · rfl
    · exact hmutex
    · simp [hpc, Worker.signalled]
    · simp [hpc, remaining]
  · apply advances_of_step hpc hh
    · simp [nextAction, step, hpc, workerStep, hflag]
      rfl
    · rfl
    · exact hmutex
    · simp [State.goto, Worker.signalled]
    · simp [State.goto, remaining]

theorem advances_of_held (hsignalled : (s.worker w).signalled)
    (hheld : Held s False w (s.worker w)) : Advances s w := by
  cases hpc : s.worker w with
  | idle => simp [hpc, Worker.signalled] at hsignalled
  | lock payload => simp [hpc, Worker.signalled] at hsignalled
  | awaitStart payload => simp [hpc, Worker.signalled] at hsignalled
  | kill payload => simp [hpc, Worker.signalled] at hsignalled
  | awaitReady payload =>
    rw [hpc] at hheld
    exact advances_awaitReady hmutex hpc hheld.1
  | awaitPid payload =>
    rw [hpc] at hheld
    exact advances_awaitPid hmutex hpc hheld.2
  | sendPayload payload =>
    rw [hpc] at hheld
    have hh := hheld.1.2.1
    apply advances_of_step hpc hh
    · simp [nextAction, step, hpc, workerStep]
      rfl
    · rfl
    · exact hmutex
    · simp [State.goto, Worker.signalled]
    · simp [State.goto, hh, remaining]
  | unlock payload pid =>
    rw [hpc] at hheld
    obtain ⟨-, hsent, -⟩ := hheld
    refine ⟨{ s.goto w .idle with
      mutex := none
      returned := s.returned ++ [(w, payload, pid)] }, ?_, rfl, .inl ?_⟩
    · simp [nextAction, step, hpc, workerStep]
    · change (s.returned ++ [(w, payload, pid)]).map _ = s.sent
      rw [hsent, List.map_append]
      rfl
  | _ =>
    apply advances_of_step hpc rfl
    · simp [nextAction, step, hpc, workerStep]
      rfl
    · rfl
    · exact hmutex
    · simp [State.goto, Worker.signalled]
    · simp [State.goto, remaining]

end

theorem nextAction_ne_noStack (stage : Worker) (handler : Option Handler) :
    nextAction w stage handler ≠ .noStack := by
  unfold nextAction
  split <;> simp

theorem Inv.answerable_of_signalled (h : Inv False s) (hfresh : Fresh s)
    (hmutex : s.mutex = some w) (hsignalled : (s.worker w).signalled) : Answerable s := by
  -- induction on the number of steps that remain
  induction hr : remaining (s.worker w) s.handler using Nat.strongRecOn generalizing s with
  | _ r ih =>
    have hheld : Held s False w (s.worker w) := by
      have hlocked := h.locked
      rw [hmutex] at hlocked
      exact hlocked
    obtain ⟨s', hstep, hsent, hdone | ⟨hmutex', hsignalled', hless⟩⟩ :=
      advances_of_held hmutex hsignalled hheld
    · have hmove := Relation.ReflTransGen.single
        (r := Moves step (fun _ a => a ≠ Action.noStack)) ⟨_, nextAction_ne_noStack _ _, hstep⟩
      exact ⟨s', hmove, hsent, hdone⟩
    · have hnot := nextAction_ne_noStack (w := w) (s.worker w) s.handler
      have hinv := inv_step h hfresh (fun heq => (hnot heq).elim) hstep
      obtain ⟨t, hrun, hsent', hall⟩ :=
        ih _ (hr ▸ hless) hinv (fresh_step h hfresh hstep) hmutex' hsignalled' rfl
      exact ⟨t, Relation.ReflTransGen.head ⟨_, hnot, hstep⟩ hrun, hsent'.trans hsent,
        hall.trans hsent⟩

theorem Inv.answerable (h : Inv False s) (hfresh : Fresh s) : Answerable s := by
  have hidle : Balanced s [] [] → Answerable s := by
    rintro ⟨hsent, -⟩
    rw [List.append_nil] at hsent
    exact ⟨s, Relation.ReflTransGen.refl, rfl, hsent.symm⟩
  have hlocked := h.locked
  cases hm : s.mutex with
  | none =>
    rw [hm] at hlocked
    exact hidle hlocked.2
  | some w =>
    rw [hm, Locked] at hlocked
    cases hpc : s.worker w with
    | idle => simp [hpc, Held] at hlocked
    | lock payload => simp [hpc, Held] at hlocked
    | awaitStart payload =>
      rw [hpc] at hlocked
      exact hidle hlocked.2
    | kill payload =>
      rw [hpc] at hlocked
      exact hidle hlocked.2.2.2
    | _ =>
      apply h.answerable_of_signalled hfresh hm
      rw [hpc]
      rfl

/-- The handshake for any number of workers, whatever the segment held before: each
request reaches one clone with its own payload and comes back with the pid of that clone. -/
theorem template_handshake {length : ℕ} {area : ℕ → UInt8}
    (hrun : Reaches step (fun _ _ => True) (templateInit n length area) s) :
    Exact s ∧ (Reaches step (fun _ a => a ≠ .noStack) (templateInit n length area) s →
      Answerable s) := by
  constructor
  · exact (inv_reaches hrun (fun _ _ => trivial)).1.exact
  · intro hstacked
    obtain ⟨hinv, hfresh⟩ := inv_reaches hstacked (fun _ hne => hne rfl)
    exact hinv.answerable hfresh

def twoRequests : List (Action 2) :=
  [.call 0 [7, 8], .main, .main, .call 1 [9], .lock 0, .worker 0, .worker 0, .main, .main,
    .deliver, .handler, .worker 0, .worker 0, .worker 0, .worker 0, .handler, .handler, .handler,
    .clone (some 41), .handler, .handler, .handler, .worker 0, .worker 0, .worker 0, .worker 0,
    .worker 0, .lock 1, .handler, .handler, .main, .main, .worker 1, .worker 1, .deliver,
    .handler, .worker 1, .worker 1, .worker 1, .worker 1, .handler, .handler, .handler,
    .clone none, .handler, .handler, .handler, .worker 1, .worker 1, .worker 1, .worker 1,
    .worker 1]

theorem template_handshake_two : ∃ s : State 2, s.returned = [(0, [7, 8], 41), (1, [9], -2)] ∧
    s.cloned = [([7, 8], 41), ([9], -2)] ∧ Exact s ∧ Answerable s := by
  have hrun : ∃ s : State 2, runWhere step (fun _ a => a ≠ .noStack)
      (templateInit 2 0 (fun _ => 0)) twoRequests = some s ∧
        s.returned = [(0, [7, 8], 41), (1, [9], -2)] ∧ s.cloned = [([7, 8], 41), ([9], -2)] :=
    ⟨_, rfl, rfl, rfl⟩
  obtain ⟨s, hs, hreturned, hcloned⟩ := hrun
  have hreach := reaches_of_runWhere hs
  obtain ⟨hexact, hanswerable⟩ := template_handshake (hreach.weaken (fun _ _ _ => trivial))
  exact ⟨s, hreturned, hcloned, hexact, hanswerable hreach⟩

end KudosJudge.TemplateHandshake
