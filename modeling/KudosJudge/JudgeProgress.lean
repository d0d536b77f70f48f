import KudosJudge.JudgeWorkers
import KudosJudge.RunFinishes

set_option autoImplicit false

namespace KudosJudge.JudgeWorkers
open CompareOutput Results RunnerLoop RunSystem Runs WorkerServe FeedFiles WorkerRuns

/-- The answer of the template to the worker that holds the mutex. -/
def unlocks (j : Judge) (a : ℕ × Act) : Prop := j.mutex = some a.1 ∧ a.2 = .call (.clone .cloned)

/-- The steps of worker `w`, and the end of another's request to the template. -/
def alone (world : World) (perfect : Bool) (w : ℕ) (j : Judge) (a : ℕ × Act) : Prop :=
  (a.1 = w ∨ unlocks j a) ∧ allowed world perfect j a = true

def working (world : World) (perfect : Bool) (w : ℕ) (j : Judge) (a : ℕ × Act) : Prop :=
  alone world perfect w j a ∧
    ∃ c stage, (j.workers w).current = some (c, stage) ∧ ∀ v, stage ≠ .reply v

/-- The holder of the mutex is about to ask for its clone. -/
def Locked (j : Judge) : Prop :=
  ∀ w, j.mutex = some w → ∃ c cfg s, (j.workers w).current = some (c, .running cfg s) ∧
    s.runner.pc = .clone

/-- The binary is killed at a difference, or what is left of its output behind one has room in
`out_pipe`. -/
def Fitting (world : World) (r : Request) : Prop :=
  world.base.killOnCompout = true ∨ ∀ binary, world.compiler r.sourcecode = some binary →
    RestFits { world.base with reference := r.output } (world.program binary r.input)

def rank : Stage → ℕ
  | .storeInput => 14
  | .storeOutput => 13
  | .makeDir => 12
  | .writeText => 11
  | .unlinkBinary => 10
  | .readText => 9
  | .writeBinary _ => 8
  | .statBinary => 7
  | .unlinkText => 6
  | .openFeeds => 5
  | .running _ _ => 4
  | .removeBinary _ => 3
  | .removeInput _ => 2
  | .removeOutput _ => 1
  | .reply _ => 0

def Later (k : Worker) (c : Current) (stage : Stage) (k' : Worker) : Prop :=
  ∃ c' stage', k'.current = some (c', stage') ∧ k'.replies = k.replies ∧
    c'.request = c.request ∧ rank stage' < rank stage

section

variable {world : World} {perfect : Bool} {w : ℕ} {j : Judge} {c : Current}

def free : Act → Bool
  | .lock => false
  | .call (.clone _) => false
  | _ => true

theorem mutexStep_free {act : Act} (hfree : free act = true) (mutex : Option ℕ) :
    mutexStep mutex w act = some mutex := by
  unfold mutexStep
  split
  · cases hfree
  · cases hfree
  · cases hfree
  · rfl

def Proceeds (world : World) (perfect : Bool) (w : ℕ) (j : Judge) (c : Current) (stage : Stage) :
    Prop :=
  ∃ act files' k', free act = true ∧ allowed world perfect j (w, act) = true ∧
    advance world w j.files (j.workers w) act = some (files', k') ∧
    Later (j.workers w) c stage k'

theorem later_goTo {k : Worker} {stage : Stage} (c' : Current) (stage' : Stage)
    (hrequest : c'.request = c.request) (hless : rank stage' < rank stage) :
    Later k c stage (k.goTo c' stage') :=
  ⟨c', stage', rfl, rfl, hrequest, hless⟩

theorem allowed_go (world : World) (perfect : Bool) (w : ℕ) (j : Judge) :
    allowed world perfect j (w, .go) = true := by
  cases perfect <;> rfl

theorem proceeds_go {stage : Stage} (files' : Files) (stage' : Stage)
    (hless : rank stage' < rank stage)
    (hstep : advance world w j.files (j.workers w) .go =
      some (files', (j.workers w).goTo c stage')) : Proceeds world perfect w j c stage :=
  ⟨.go, _, _, rfl, allowed_go world perfect w j, hstep, later_goTo c stage' rfl hless⟩

theorem allowed_stored (now : ℤ) : allowed world perfect j (w, .store now .stored) = true := by
  cases perfect <;> rfl

theorem proceeds_makeDir (hcurrent : (j.workers w).current = some (c, .makeDir)) :
    Proceeds world perfect w j c .makeDir := by
  refine ⟨.mkdir true, j.files,
    { j.workers w with current := some (c, .writeText), dirMade := true }, rfl, ?_, ?_,
    ⟨c, .writeText, rfl, rfl, rfl, by decide⟩⟩
  · cases perfect <;> rfl
  · simp [advance, hcurrent]

theorem proceeds_writeBinary {source : Option (List UInt8)}
    (hcurrent : (j.workers w).current = some (c, .writeBinary source)) :
    Proceeds world perfect w j c (.writeBinary source) := by
  cases hmade : source.bind world.compiler with
  | none =>
    refine proceeds_go j.files .statBinary (by simp [rank]) ?_
    simp only [advance, hcurrent, hmade]
  | some out =>
    refine proceeds_go (write j.files (bin world w) out) .statBinary (by simp [rank]) ?_
    simp only [advance, hcurrent, hmade]

theorem proceeds_statBinary (hcurrent : (j.workers w).current = some (c, .statBinary)) :
    Proceeds world perfect w j c .statBinary := by
  by_cases hmissing : j.files (bin world w) = none
  · refine proceeds_go j.files (.reply .compileError) (by decide) ?_
    simp only [advance, hcurrent, hmissing, if_true]
  · refine proceeds_go j.files .unlinkText (by decide) ?_
    simp only [advance, hcurrent, hmissing, if_false]

theorem proceeds_openFeeds (herfs : perfect = true → world.base.useERFS = false)
    (hcurrent : (j.workers w).current = some (c, .openFeeds)) :
    Proceeds world perfect w j c .openFeeds := by
  have hallowed : allowed world perfect j (w, .openFeeds true true .unknown .unknown) = true := by
    cases perfect with
    | false => rfl
    | true => simp [allowed, smooth, herfs rfl]
  cases hinput : opens world j.files true c.inputFilename with
  | none =>
    refine ⟨.openFeeds true true .unknown .unknown, j.files,
      (j.workers w).goTo c (.removeBinary .internal), rfl, hallowed, ?_,
      later_goTo _ _ rfl (by decide)⟩
    simp only [advance, hcurrent, hinput]
  | some input =>
    cases hreference : opens world j.files true c.outputFilename with
    | none =>
      refine ⟨.openFeeds true true .unknown .unknown, j.files,
        (j.workers w).goTo c (.removeBinary .internal), rfl, hallowed, ?_,
        later_goTo _ _ rfl (by decide)⟩
      simp only [advance, hcurrent, hinput, hreference]
    | some reference =>
      cases hjail : world.base.useERFS with
      | true =>
        refine ⟨.openFeeds true true .unknown .unknown, j.files,
          (j.workers w).goTo c (.removeBinary .internal), rfl, hallowed, ?_,
          later_goTo _ _ rfl (by decide)⟩
        simp only [advance, hcurrent, hinput, hreference, hjail, if_true]
      | false =>
        refine ⟨.openFeeds true true .unknown .unknown, j.files,
          (j.workers w).goTo c (.running (config world input reference .unknown .unknown)
            (begins (config world input reference .unknown .unknown) (j.workers w).pipes)),
          rfl, hallowed, ?_, later_goTo _ _ rfl (by simp [rank])⟩
        simp only [advance, hcurrent, hinput, hreference, hjail, Bool.false_eq_true, if_false]

theorem proceeds {stage : Stage} (herfs : perfect = true → world.base.useERFS = false)
    (hcurrent : (j.workers w).current = some (c, stage))
    (hrunning : ∀ cfg s, stage ≠ .running cfg s) (hreply : ∀ v, stage ≠ .reply v) :
    Proceeds world perfect w j c stage := by
  cases stage with
  | storeInput =>
    refine ⟨.store 0 .stored,
      store j.files (feedFilename world.root ⟨w, 0, .input⟩) c.request.input .stored,
      (j.workers w).goTo { c with inputFilename := feedFile w 0 .input .stored } .storeOutput,
      rfl, allowed_stored 0, ?_, later_goTo _ _ rfl (by decide)⟩
    simp only [advance, hcurrent]
  | storeOutput =>
    refine ⟨.store 0 .stored,
      store j.files (feedFilename world.root ⟨w, 0, .output⟩) c.request.output .stored,
      (j.workers w).goTo { c with outputFilename := feedFile w 0 .output .stored } .makeDir,
      rfl, allowed_stored 0, ?_, later_goTo _ _ rfl (by decide)⟩
    simp only [advance, hcurrent]
  | makeDir => exact proceeds_makeDir hcurrent
  | writeText =>
    refine ⟨.text .stored, store j.files (text world w) c.request.sourcecode .stored,
      (j.workers w).goTo c .unlinkBinary, rfl, ?_, ?_, later_goTo _ _ rfl (by decide)⟩
    · cases perfect <;> rfl
    · simp only [advance, hcurrent, if_true]
  | unlinkBinary =>
    refine proceeds_go (unlink j.files (bin world w)) .readText (by decide) ?_
    simp only [advance, hcurrent]
  | readText =>
    refine proceeds_go j.files (.writeBinary (j.files (text world w))) (by simp [rank]) ?_
    simp only [advance, hcurrent]
  | writeBinary source => exact proceeds_writeBinary hcurrent
  | statBinary => exact proceeds_statBinary hcurrent
  | unlinkText =>
    refine proceeds_go (unlink j.files (text world w)) .openFeeds (by decide) ?_
    simp only [advance, hcurrent]
  | openFeeds => exact proceeds_openFeeds herfs hcurrent
  | running cfg s => exact absurd rfl (hrunning cfg s)
  | removeBinary v =>
    refine proceeds_go (unlink j.files (bin world w)) (.removeInput v) (by simp [rank]) ?_
    simp only [advance, hcurrent]
  | removeInput v =>
    refine proceeds_go (removeByName world j.files c.inputFilename) (.removeOutput v)
      (by simp [rank]) ?_
    simp only [advance, hcurrent]
  | removeOutput v =>
    refine proceeds_go (removeByName world j.files c.outputFilename) (.reply v)
      (by simp [rank]) ?_
    simp only [advance, hcurrent]
  | reply v => exact absurd rfl (hreply v)

theorem moves {act : Act} {mutex' : Option ℕ} {files' : Files} {k' : Worker} {stage : Stage}
    (hcurrent : (j.workers w).current = some (c, stage)) (hreply : ∀ v, stage ≠ .reply v)
    (hallowed : allowed world perfect j (w, act) = true)
    (hmutex : mutexStep j.mutex w act = some mutex')
    (hstep : advance world w j.files (j.workers w) act = some (files', k')) :
    ∃ j', Moves (judgeStep world) (working world perfect w) j j' ∧ j'.files = files' ∧
      j'.mutex = mutex' ∧ j'.workers w = k' := by
  have hnext : judgeStep world j (w, act) =
      some ⟨files', mutex', Function.update j.workers w k'⟩ := by
    rw [judgeStep, hmutex, Option.bind_some, hstep, Option.map_some]
  exact ⟨_, ⟨(w, act), ⟨⟨.inl rfl, hallowed⟩, c, stage, hcurrent, hreply⟩, hnext⟩, rfl, rfl,
    Function.update_self ..⟩

theorem runner_clones {cfg : Config} {s : Sys} {act : RunSystem.Act} (hpc : s.runner.pc = .clone)
    (hclone : ∀ outcome, act ≠ .clone outcome) (hon : enabled cfg s act = true) :
    (effect cfg s act).runner = s.runner := by
  cases act with
  | clone outcome => exact absurd rfl (hclone outcome)
  | checkFds ok => simp [enabled, hpc] at hon
  | poll ok => simp [enabled, hpc] at hon
  | send t => simp [enabled, hpc] at hon
  | kill => simp [enabled, hpc] at hon
  | read o => simp [enabled, hpc] at hon
  | _ => rfl

theorem advance_cloning {files files' : Files} {k k' : Worker} {act : Act} {cfg : Config} {s : Sys}
    (hcurrent : k.current = some (c, .running cfg s)) (hpc : s.runner.pc = .clone)
    (hfree : free act = true) (h : advance world w files k act = some (files', k')) :
    ∃ s', k'.current = some (c, .running cfg s') ∧ s'.runner.pc = .clone := by
  cases act with
  | lock => cases hfree
  | call act =>
    simp only [advance, hcurrent] at h
    obtain ⟨s', hstep, hnext⟩ := Option.map_eq_some_iff.mp h
    cases hnext
    obtain ⟨hon, -, rfl⟩ := step_cases hstep
    refine ⟨_, rfl, ?_⟩
    rw [runner_clones hpc (fun outcome heq => by cases heq; cases hfree) hon, hpc]
  | go => simp [advance, hcurrent, hpc] at h
  | _ => simp [advance, hcurrent] at h

theorem locked_step {j' : Judge} {a : ℕ × Act} (h : Locked j)
    (hstep : judgeStep world j a = some j') : Locked j' := by
  obtain ⟨w, act⟩ := a
  obtain ⟨hmutex, hadvance, hothers⟩ := judgeStep_cases hstep
  have hother : ∀ w', w' ≠ w → j.mutex = some w' →
      ∃ c cfg s, (j'.workers w').current = some (c, .running cfg s) ∧ s.runner.pc = .clone := by
    intro w' hw hheld
    rw [hothers w' hw]
    exact h w' hheld
  intro w' hheld
  cases hfree : free act with
  | true =>
    rw [mutexStep_free hfree, Option.some.injEq] at hmutex
    rw [← hmutex] at hheld
    by_cases hw : w' = w
    · subst hw
      obtain ⟨c, cfg, s, hcurrent, hpc⟩ := h w' hheld
      obtain ⟨s', hcurrent', hpc'⟩ := advance_cloning hcurrent hpc hfree hadvance
      exact ⟨c, cfg, s', hcurrent', hpc'⟩
    · exact hother w' hw hheld
  | false =>
    unfold free at hfree
    split at hfree
    · obtain ⟨hsame, c, cfg, s, hcurrent, hpc⟩ := advance_lock hadvance
      simp only [mutexStep] at hmutex
      split_ifs at hmutex
      obtain rfl : w = w' := Option.some.inj ((Option.some.inj hmutex).trans hheld)
      exact ⟨c, cfg, s, by rw [hsame, hcurrent], hpc⟩
    · rename_i outcome
      cases outcome with
      | noTemplate =>
        simp only [mutexStep] at hmutex
        split_ifs at hmutex with hown
        rw [← Option.some.inj hmutex] at hheld
        exact hother w' (fun hw => hown (hw ▸ hheld)) hheld
      | _ =>
        simp only [mutexStep] at hmutex
        split_ifs at hmutex
        rw [← Option.some.inj hmutex] at hheld
        cases hheld
    · cases hfree

theorem locked_reachable {files : Files} {ok : Judge → ℕ × Act → Prop}
    (hrun : Reaches (judgeStep world) ok (boot files) j) : Locked j :=
  hrun.invariant Locked (fun _ hheld => by cases hheld) fun _ _ _ h _ hstep => locked_step h hstep

structure Together (world : World) (perfect : Bool) (j : Judge) : Prop where
  serves : ∀ w, Serves world w perfect j.files (j.workers w)
  locked : Locked j

theorem together_step {j' : Judge} {a : ℕ × Act} (h : Together world perfect j)
    (hallowed : allowed world perfect j a = true) (hstep : judgeStep world j a = some j') :
    Together world perfect j' :=
  ⟨serves_judgeStep h.serves hallowed hstep, locked_step h.locked hstep⟩

theorem together_alone {j' : Judge} (h : Together world perfect j)
    (hrun : Reaches (judgeStep world) (alone world perfect w) j j') : Together world perfect j' :=
  hrun.invariant (Together world perfect) h fun _ _ _ h hallowed hstep =>
    together_step h hallowed.2 hstep

theorem together_working {j' : Judge} (h : Together world perfect j)
    (hrun : Reaches (judgeStep world) (working world perfect w) j j') : Together world perfect j' :=
  together_alone h (hrun.weaken fun _ _ => And.left)

theorem step_cloned {files : Files} {k : Worker} {cfg : Config} {s : Sys}
    (h : Serves world w perfect files k) (hcurrent : k.current = some (c, .running cfg s))
    (hpc : s.runner.pc = .clone) : ∃ s', step cfg s (.clone .cloned) = some s' := by
  obtain ⟨-, binary, ⟨hmade, -⟩, ⟨watcherResult, compResult, rfl⟩, hrun⟩ := h.ready c _ hcurrent
  have hplain := h.plain c _ hcurrent
  simp only [plain, hmade, Bool.and_eq_true, decide_eq_true_eq] at hplain
  have hlimit : withinLimit (config world c.request.input c.request.output watcherResult compResult)
      (world.program binary c.request.input).length := hplain.2.2
  have hgoing := going_run hplain.2.1 hlimit hrun
  have hon : enabled (config world c.request.input c.request.output watcherResult compResult) s
      (.clone .cloned) = true := by
    simp only [enabled, hpc, hgoing.coherent.cloning.mp hpc, and_self, decide_true]
  exact ⟨_, by rw [step, hon, hgoing.live]; rfl⟩

theorem allowed_cloned {cfg : Config} {s : Sys}
    (hcurrent : (j.workers w).current = some (c, .running cfg s)) :
    allowed world perfect j (w, .call (.clone .cloned)) = true := by
  simp only [allowed, smooth, Bool.or_true, Bool.true_and, hcurrent]
  rfl

theorem allowed_lock : allowed world perfect j (w, .lock) = true := by
  cases perfect <;> rfl

/-- A worker that is about to ask for its clone gets the mutex, behind one answer at most. -/
theorem reaches_lock (h : Together world perfect j) {cfg : Config} {s : Sys}
    (hcurrent : (j.workers w).current = some (c, .running cfg s)) (hpc : s.runner.pc = .clone) :
    ∃ j', Reaches (judgeStep world) (working world perfect w) j j' ∧ j'.mutex = some w ∧
      j'.files = j.files ∧ j'.workers w = j.workers w := by
  have hlock : ∀ j : Judge, j.mutex = none →
      (j.workers w).current = some (c, .running cfg s) →
      ∃ j', Moves (judgeStep world) (working world perfect w) j j' ∧ j'.files = j.files ∧
        j'.mutex = some w ∧ j'.workers w = j.workers w := by
    intro j hmutex hcurrent
    have hnext : advance world w j.files (j.workers w) .lock = some (j.files, j.workers w) := by
      simp only [advance, hcurrent, hpc, if_true]
    exact moves hcurrent (fun _ => Stage.noConfusion) allowed_lock
      (by rw [hmutex]; rfl) hnext
  cases hmutex : j.mutex with
  | none =>
    obtain ⟨j', hmoves, hfiles, hheld, hk⟩ := hlock j hmutex hcurrent
    exact ⟨j', .single hmoves, hheld, hfiles, hk⟩
  | some w' =>
    by_cases hw : w' = w
    · subst hw
      exact ⟨j, .refl, hmutex, rfl, rfl⟩
    · -- the holder has its answer first
      obtain ⟨c', cfg', s', hcurrent', hpc'⟩ := h.locked w' hmutex
      obtain ⟨u, hcloned⟩ := step_cloned (h.serves w') hcurrent' hpc'
      let j₁ : Judge := ⟨j.files, none,
        Function.update j.workers w' ((j.workers w').goTo c' (.running cfg' u))⟩
      have hnext : judgeStep world j (w', .call (.clone .cloned)) = some j₁ := by
        simp only [judgeStep, mutexStep, hmutex, if_true, Option.bind_some, advance, hcurrent',
          hcloned, Option.map_some, j₁]
      have hsame : j₁.workers w = j.workers w := Function.update_of_ne (Ne.symm hw) ..
      obtain ⟨j', hmoves, hfiles, hheld, hk⟩ := hlock j₁ rfl (by rw [hsame]; exact hcurrent)
      have hanswer : Moves (judgeStep world) (working world perfect w) j j₁ :=
        ⟨(w', .call (.clone .cloned)), ⟨⟨.inr ⟨hmutex, rfl⟩, allowed_cloned hcurrent'⟩, c, _,
          hcurrent, fun _ => Stage.noConfusion⟩, hnext⟩
      exact ⟨j', (Relation.ReflTransGen.single hanswer).tail hmoves, hheld, hfiles, hk.trans hsame⟩

theorem reaches_calls (h : Together world perfect j) {cfg : Config} {s s' : Sys}
    (hcurrent : (j.workers w).current = some (c, .running cfg s))
    (hrun : Reaches (step cfg) (fun s act => ordinary cfg
      (world.program ((j.files (bin world w)).getD []) cfg.input) s act = true) s s') :
    ∃ j', Reaches (judgeStep world) (working world perfect w) j j' ∧ j'.files = j.files ∧
      (j'.workers w).current = some (c, .running cfg s') ∧
      (j'.workers w).replies = (j.workers w).replies := by
  induction hrun with
  | refl => exact ⟨j, .refl, rfl, hcurrent, rfl⟩
  | @tail t u _ hmove ih =>
    obtain ⟨j₁, hreach, hfiles, hcurrent₁, hreplies⟩ := ih
    obtain ⟨act, hordinary, hstep⟩ := hmove
    -- only in front of the clone another worker can be in the way
    have hready : ∃ j₂ mutex', Reaches (judgeStep world) (working world perfect w) j₁ j₂ ∧
        j₂.files = j₁.files ∧ j₂.workers w = j₁.workers w ∧
        mutexStep j₂.mutex w (.call act) = some mutex' := by
      by_cases hclone : ∃ outcome, act = .clone outcome
      · obtain ⟨outcome, rfl⟩ := hclone
        simp only [ordinary, unfailing, decide_eq_true_eq] at hordinary
        subst hordinary
        obtain ⟨hon, -, -⟩ := step_cases hstep
        simp only [enabled, decide_eq_true_eq] at hon
        obtain ⟨j₂, hreach₂, hheld, hfiles₂, hk⟩ :=
          reaches_lock (together_working h hreach) hcurrent₁ hon.1
        exact ⟨j₂, none, hreach₂, hfiles₂, hk, by rw [hheld]; simp only [mutexStep, if_true]⟩
      · have hfree : free (.call act) = true := by
          cases act <;> first | rfl | exact absurd ⟨_, rfl⟩ hclone
        exact ⟨j₁, j₁.mutex, .refl, rfl, rfl, mutexStep_free hfree _⟩
    obtain ⟨j₂, mutex', hreach₂, hfiles₂, hk₂, hmutex⟩ := hready
    rw [← hk₂] at hcurrent₁ hreplies
    have hallowed : allowed world perfect j₂ (w, .call act) = true := by
      rw [← hfiles, ← hfiles₂] at hordinary
      simp only [allowed, smooth, Bool.or_true, Bool.true_and, hcurrent₁]
      exact hordinary
    have hnext : advance world w j₂.files (j₂.workers w) (.call act) =
        some (j₂.files, (j₂.workers w).goTo c (.running cfg u)) := by
      simp only [advance, hcurrent₁, hstep, Option.map_some]
    obtain ⟨j₃, hmoves, hfiles₃, -, hk⟩ :=
      moves hcurrent₁ (fun _ => Stage.noConfusion) hallowed hmutex hnext
    refine ⟨j₃, (hreach.trans hreach₂).tail hmoves, hfiles₃.trans (hfiles₂.trans hfiles), ?_, ?_⟩
    · rw [hk, Worker.goTo]
    · rw [hk, Worker.goTo]
      exact hreplies

theorem finish_config {r : Request} {output : List UInt8} (watcherResult compResult : SandboxResult)
    (hcr : cr ∉ output) (hlimit : withinLimit world.base output.length)
    (hsafe : world.base.killOnCompout = true ∨
      RestFits { world.base with reference := r.output } output)
    (hcapacity : 0 < world.base.inCapacity) (hroom : 0 < world.base.outCapacity) {s : Sys}
    (hrun : Reaches (step (config world r.input r.output watcherResult compResult))
      (fun s act => ordinary (config world r.input r.output watcherResult compResult) output s act)
      (start (config world r.input r.output watcherResult compResult)) s) :
    CanFinish (config world r.input r.output watcherResult compResult) output s := by
  refine reaches_finish hcr ?_ ?_ ?_ ?_ hrun
  · exact hlimit
  · exact hsafe
  · exact hcapacity
  · exact hroom

theorem reaches_removeBinary (h : Together world perfect j)
    (hcapacity : 0 < world.base.inCapacity) (hroom : 0 < world.base.outCapacity)
    (hfitting : Fitting world c.request) {cfg : Config} {s : Sys}
    (hcurrent : (j.workers w).current = some (c, .running cfg s)) :
    ∃ j', Reaches (judgeStep world) (working world perfect w) j j' ∧
      ∃ v, (j'.workers w).current = some (c, .removeBinary v) ∧
        (j'.workers w).replies = (j.workers w).replies := by
  obtain ⟨-, binary, ⟨hmade, hfile⟩, ⟨watcherResult, compResult, rfl⟩, hrun⟩ :=
    (h.serves w).ready c _ hcurrent
  have hplain := (h.serves w).plain c _ hcurrent
  simp only [plain, hmade, Bool.and_eq_true, decide_eq_true_eq] at hplain
  obtain ⟨-, hcr, hlimit⟩ := hplain
  have hsafe := hfitting.imp id fun hfits => hfits binary hmade
  obtain ⟨t, hrest, site, hreturned⟩ := finish_config watcherResult compResult hcr hlimit hsafe
    hcapacity hroom hrun
  rw [← Option.getD_some (a := binary) (b := []), ← hfile] at hrest
  obtain ⟨j₁, hcalls, -, hcurrent₁, hreplies⟩ := reaches_calls h hcurrent hrest
  have hback : advance world w j₁.files (j₁.workers w) .go = some (j₁.files,
      { j₁.workers w with
        current := some (c, .removeBinary (runVerdict site t.runner.result))
        pipes := leaves t }) := by
    simp only [advance, hcurrent₁, hreturned]
  obtain ⟨j₂, hmoves, -, -, hk⟩ :=
    moves hcurrent₁ (fun _ => Stage.noConfusion) (allowed_go world perfect w j₁) rfl hback
  refine ⟨j₂, hcalls.tail hmoves, runVerdict site t.runner.result, ?_, ?_⟩
  · rw [hk]
  · rw [hk]
    exact hreplies

theorem reaches_last (h : Together world perfect j)
    (hcapacity : 0 < world.base.inCapacity) (hroom : 0 < world.base.outCapacity)
    (herfs : perfect = true → world.base.useERFS = false) (hfitting : Fitting world c.request)
    {stage : Stage} (hcurrent : (j.workers w).current = some (c, stage)) :
    ∃ j', Reaches (judgeStep world) (working world perfect w) j j' ∧
      ∃ c' v, (j'.workers w).current = some (c', .reply v) ∧ c'.request = c.request ∧
        (j'.workers w).replies = (j.workers w).replies := by
  let rest : Judge → ℕ := fun j => ((j.workers w).current.map fun p => rank p.2).getD 0
  let underway : Judge → Prop := fun j' =>
    Together world perfect j' ∧ (j'.workers w).replies = (j.workers w).replies ∧
      ∃ c' stage, (j'.workers w).current = some (c', stage) ∧ c'.request = c.request
  have hstep : ∀ j, underway j → ¬ (∃ c v, (j.workers w).current = some (c, .reply v)) →
      ∃ j', Reaches (judgeStep world) (working world perfect w) j j' ∧ underway j' ∧
        rest j' < rest j := by
    rintro j ⟨h, hreplies, c', stage, hcurrent, hrequest⟩ hend
    by_cases hrunning : ∃ cfg s, stage = .running cfg s
    · obtain ⟨cfg, s, rfl⟩ := hrunning
      obtain ⟨j', hreach, v, hcurrent', hsame⟩ :=
        reaches_removeBinary h hcapacity hroom (hrequest ▸ hfitting) hcurrent
      refine ⟨j', hreach, ⟨together_working h hreach, hsame.trans hreplies, c', _, hcurrent',
        hrequest⟩, ?_⟩
      simp only [rest, hcurrent, hcurrent', Option.map_some, Option.getD_some, rank]
      decide
    · have hreply : ∀ v, stage ≠ .reply v := fun v heq => hend ⟨c', v, heq ▸ hcurrent⟩
      obtain ⟨act, files', k', hfree, hallowed, hnext, c'', stage', hcurrent', hsame, hrequest',
        hless⟩ :=
        proceeds herfs hcurrent (fun cfg s heq => hrunning ⟨cfg, s, heq⟩) hreply
      obtain ⟨j', hmoves, -, -, rfl⟩ :=
        moves hcurrent hreply hallowed (mutexStep_free hfree _) hnext
      refine ⟨j', .single hmoves, ⟨together_working h (.single hmoves), hsame.trans hreplies, c'',
        stage', hcurrent', hrequest'.trans hrequest⟩, ?_⟩
      simp only [rest, hcurrent, hcurrent', Option.map_some, Option.getD_some]
      exact hless
  obtain ⟨j', hreach, ⟨-, hreplies, c', stage', hcurrent', hrequest⟩, c'', v, hlast⟩ :=
    reaches_final rest hstep (s := j) ⟨h, rfl, c, stage, hcurrent, rfl⟩
  refine ⟨j', hreach, c', v, ?_, hrequest, hreplies⟩
  rw [hcurrent', Option.some.injEq, Prod.mk.injEq] at hlast
  rw [hcurrent', hlast.2]

theorem reaches_reply (h : Together world perfect j)
    (hcapacity : 0 < world.base.inCapacity) (hroom : 0 < world.base.outCapacity)
    (herfs : perfect = true → world.base.useERFS = false) (hfitting : Fitting world c.request)
    {stage : Stage} (hcurrent : (j.workers w).current = some (c, stage)) :
    ∃ j', Reaches (judgeStep world) (alone world perfect w) j j' ∧
      ∃ v, (j'.workers w).replies = (j.workers w).replies ++ [(c.request, v)] := by
  obtain ⟨j₁, hreach, c', v, hlast, hrequest, hreplies⟩ :=
    reaches_last h hcapacity hroom herfs hfitting hcurrent
  have hreply : judgeStep world j₁ (w, .go) = some ⟨j₁.files, j₁.mutex,
      Function.update j₁.workers w { j₁.workers w with
        current := none, replies := (j₁.workers w).replies ++ [(c'.request, v)] }⟩ := by
    simp only [judgeStep, mutexStep, Option.bind_some, advance, hlast, Option.map_some]
  refine ⟨_, (hreach.weaken fun _ _ => And.left).tail
    ⟨(w, .go), ⟨.inl rfl, allowed_go world perfect w j₁⟩, hreply⟩, v, ?_⟩
  simp only [Function.update_self, hreplies, hrequest]

theorem together_reachable {files : Files}
    (hrun : Reaches (judgeStep world) (fun j a => allowed world perfect j a = true) (boot files) j) :
    Together world perfect j :=
  ⟨serves_reachable hrun, locked_reachable hrun⟩

end

end KudosJudge.JudgeWorkers
