import KudosJudge.FeedFiles
import KudosJudge.WorkerRuns
import Mathlib.Logic.Function.Basic

set_option autoImplicit false

/-!
The workers of the queue, each from a request to its reply, over the one RAM file system and
the one template process. A step is one call of one worker on these files, a call inside the run
it has begun, or its reply; the steps of different workers interleave freely, and
`template_pipe_mutex` lets one at a time ask the template for a clone.
-/
namespace KudosJudge.JudgeWorkers
open CompareOutput Results RunnerLoop RunSystem Runs WorkerServe FeedFiles WorkerRuns

abbrev Files := List UInt8 → Option (List UInt8)

def write (files : Files) (path content : List UInt8) : Files :=
  Function.update files path (some content)

def unlink (files : Files) (path : List UInt8) : Files := Function.update files path none

/-- A request of type `JUDGE` with both feeds by value. -/
structure Request where
  input : List UInt8
  output : List UInt8
  sourcecode : List UInt8
deriving DecidableEq, Repr

/-- What the workers share: the RAM file system, the language with the id `c` (a compiled
one) with what its command makes of a source, what the programs it makes write for an input,
and the limits of a run. -/
structure World where
  root : List UInt8
  extCompile : List UInt8
  compiler : List UInt8 → Option (List UInt8)
  program : List UInt8 → List UInt8 → List UInt8
  base : Config

/-- `fopen` with `w+`, and `fputs`; `written` is what gets into the file when it fails. -/
inductive Storing where
  | openFails
  | writeFails (written : List UInt8)
  | stored
deriving DecidableEq, Repr

def store (files : Files) (path content : List UInt8) : Storing → Files
  | .openFails => files
  | .writeFails written => write files path written
  | .stored => write files path content

structure Current where
  request : Request
  inputFilename : Option FeedFile
  outputFilename : Option FeedFile

/-- The next call, in the order of `queue_worker_serv`. From `makeDir` to `unlinkText` it is one
of `lang_process`, and the compiler reads the text before it writes the binary. -/
inductive Stage where
  | storeInput
  | storeOutput
  | makeDir
  | writeText
  | unlinkBinary
  | readText
  | writeBinary (text : Option (List UInt8))
  | statBinary
  | unlinkText
  | openFeeds
  | running (cfg : Config) (s : Sys)
  | removeBinary (verdict : Verdict)
  | removeInput (verdict : Verdict)
  | removeOutput (verdict : Verdict)
  | reply (verdict : Verdict)

/-- `dirMade` is `lang_workspace_inited`. A worker without a current request waits for a
connection. -/
structure Worker where
  current : Option (Current × Stage)
  dirMade : Bool
  pipes : Pipes
  received : List Request
  replies : List (Request × Verdict)

/-- `mutex` is the worker that holds `template_pipe_mutex`. -/
structure Judge where
  files : Files
  mutex : Option ℕ
  workers : ℕ → Worker

inductive Act where
  | receive (r : Request)
  | store (now : ℤ) (outcome : Storing)
  | mkdir (ok : Bool)
  | text (outcome : Storing)
  | openFeeds (input output : Bool) (watcherResult compResult : SandboxResult)
  | lock
  | call (act : RunSystem.Act)
  | go

def Worker.goTo (k : Worker) (c : Current) (stage : Stage) : Worker :=
  { k with current := some (c, stage) }

section

variable (world : World) (w : ℕ)

def feedFile (now : ℤ) (tag : FeedTag) : Storing → Option FeedFile
  | .stored => some ⟨w, now, tag⟩
  | _ => none

def text : List UInt8 := textFilename world.root world.extCompile w

def bin : List UInt8 := binFilename world.root w

/-- `open`; the name `NULL` and a missing file fail. -/
def opens (files : Files) (ok : Bool) : Option FeedFile → Option (List UInt8)
  | none => none
  | some file => if ok then files (feedFilename world.root file) else none

def removeByName (files : Files) : Option FeedFile → Files
  | none => files
  | some file => unlink files (feedFilename world.root file)

def config (input reference : List UInt8) (watcherResult compResult : SandboxResult) : Config :=
  { world.base with
    input := input
    reference := reference
    staleWatcherResult := watcherResult
    staleCompResult := compResult }

def runVerdict (site : Return) (result : Option SandboxResult) : Verdict :=
  if site.code ≠ 0 then .internal else resultVerdict (result.getD .unknown)

def advance (files : Files) (k : Worker) (act : Act) : Option (Files × Worker) :=
  match k.current, act with
  | none, .receive r =>
    some (files, { k with
      current := some (⟨r, none, none⟩, .storeInput)
      received := k.received ++ [r] })
  | some (c, .storeInput), .store now outcome =>
    some (store files (feedFilename world.root ⟨w, now, .input⟩) c.request.input outcome,
      k.goTo { c with inputFilename := feedFile w now .input outcome } .storeOutput)
  | some (c, .storeOutput), .store now outcome =>
    some (store files (feedFilename world.root ⟨w, now, .output⟩) c.request.output outcome,
      k.goTo { c with outputFilename := feedFile w now .output outcome } .makeDir)
  | some (c, .makeDir), .mkdir ok =>
    if !k.dirMade && !ok then some (files, k.goTo c (.reply .internal))
    else some (files, { k with current := some (c, .writeText), dirMade := true })
  | some (c, .writeText), .text outcome =>
    some (store files (text world w) c.request.sourcecode outcome,
      k.goTo c (if outcome = .stored then .unlinkBinary else .reply .internal))
  | some (c, .unlinkBinary), .go => some (unlink files (bin world w), k.goTo c .readText)
  | some (c, .readText), .go => some (files, k.goTo c (.writeBinary (files (text world w))))
  | some (c, .writeBinary text), .go =>
    match text.bind world.compiler with
    | none => some (files, k.goTo c .statBinary)
    | some out => some (write files (bin world w) out, k.goTo c .statBinary)
  | some (c, .statBinary), .go =>
    if files (bin world w) = none then some (files, k.goTo c (.reply .compileError))
    else some (files, k.goTo c .unlinkText)
  | some (c, .unlinkText), .go => some (unlink files (text world w), k.goTo c .openFeeds)
  | some (c, .openFeeds), .openFeeds inputOk outputOk watcherResult compResult =>
    match opens world files inputOk c.inputFilename,
      opens world files outputOk c.outputFilename with
    | some input, some reference =>
      if world.base.useERFS then some (files, k.goTo c (.removeBinary .internal))
      else
        let cfg := config world input reference watcherResult compResult
        some (files, k.goTo c (.running cfg (begins cfg k.pipes)))
    | _, _ => some (files, k.goTo c (.removeBinary .internal))
  | some (_, .running _ s), .lock => if s.runner.pc = .clone then some (files, k) else none
  | some (c, .running cfg s), .call act =>
    (step cfg s act).map fun s' => (files, k.goTo c (.running cfg s'))
  | some (c, .running _ s), .go =>
    match s.runner.pc with
    | .returned site =>
      some (files, { k with
        current := some (c, .removeBinary (runVerdict site s.runner.result))
        pipes := leaves s })
    | _ => none
  | some (c, .removeBinary v), .go => some (unlink files (bin world w), k.goTo c (.removeInput v))
  | some (c, .removeInput v), .go =>
    some (removeByName world files c.inputFilename, k.goTo c (.removeOutput v))
  | some (c, .removeOutput v), .go =>
    some (removeByName world files c.outputFilename, k.goTo c (.reply v))
  | some (c, .reply v), .go =>
    some (files, { k with current := none, replies := k.replies ++ [(c.request, v)] })
  | _, _ => none

end

theorem advance_lock {world : World} {w : ℕ} {files files' : Files} {k k' : Worker}
    (h : advance world w files k .lock = some (files', k')) :
    k' = k ∧ ∃ c cfg s, k.current = some (c, .running cfg s) ∧ s.runner.pc = .clone := by
  cases hcurrent : k.current with
  | none => simp [advance, hcurrent] at h
  | some p =>
    obtain ⟨c, stage⟩ := p
    cases stage with
    | running cfg s =>
      simp only [advance, hcurrent] at h
      split_ifs at h with hpc
      cases h
      exact ⟨rfl, c, cfg, s, rfl, hpc⟩
    | _ => simp [advance, hcurrent] at h

/-- `jug_runner_template_clone` locks behind its test of `template_pid`, and unlocks with the
answer of the template. -/
def mutexStep (mutex : Option ℕ) (w : ℕ) : Act → Option (Option ℕ)
  | .lock => if mutex = none then some (some w) else none
  | .call (.clone .noTemplate) => if mutex = some w then none else some mutex
  | .call (.clone _) => if mutex = some w then some none else none
  | _ => some mutex

def judgeStep (world : World) (j : Judge) (a : ℕ × Act) : Option Judge :=
  (mutexStep j.mutex a.1 a.2).bind fun mutex =>
    (advance world a.1 j.files (j.workers a.1) a.2).map fun next =>
      ⟨next.1, mutex, Function.update j.workers a.1 next.2⟩

theorem judgeStep_cases {world : World} {j j' : Judge} {w : ℕ} {act : Act}
    (h : judgeStep world j (w, act) = some j') :
    mutexStep j.mutex w act = some j'.mutex ∧
      advance world w j.files (j.workers w) act = some (j'.files, j'.workers w) ∧
      ∀ w', w' ≠ w → j'.workers w' = j.workers w' := by
  obtain ⟨mutex, hmutex, hnext⟩ := Option.bind_eq_some_iff.mp h
  obtain ⟨next, hadvance, rfl⟩ := Option.map_eq_some_iff.mp hnext
  simp only [Function.update_self]
  exact ⟨hmutex, hadvance, fun w' hw => Function.update_of_ne hw ..⟩

def idle : Worker := ⟨none, false, fresh, [], []⟩

def boot (files : Files) : Judge := ⟨files, none, fun _ => idle⟩

/-- The texts of the request and of the program's output are free of carriage returns, and
the output keeps to its limit. -/
def plain (world : World) (r : Request) : Bool :=
  decide (cr ∉ r.output) && match world.compiler r.sourcecode with
    | none => true
    | some binary => decide (cr ∉ world.program binary r.input ∧
      withinLimit world.base (world.program binary r.input).length)

def smooth (world : World) : Act → Bool
  | .store _ outcome => outcome = .stored
  | .mkdir ok => ok
  | .text outcome => outcome = .stored
  | .openFeeds input output _ _ => input ∧ output ∧ ¬ world.base.useERFS
  | _ => true

/-- The requests are plain and the programs ordinary; with `perfect`, no call outside the runs
fails either. -/
def allowed (world : World) (perfect : Bool) (j : Judge) (a : ℕ × Act) : Bool :=
  (!perfect || smooth world a.2) &&
    match a.2, (j.workers a.1).current with
    | .receive r, _ => plain world r
    | .call act, some (_, .running cfg s) =>
      ordinary cfg (world.program ((j.files (bin world a.1)).getD []) cfg.input) s act
    | _, _ => true

def deserved (world : World) (r : Request) : Verdict :=
  match world.compiler r.sourcecode with
  | none => .compileError
  | some binary => resultVerdict (verdict r.output (world.program binary r.input))

def Right (world : World) (perfect : Bool) (r : Request) (v : Verdict) : Prop :=
  v = deserved world r ∨ (perfect = false ∧ v = .internal)

section

variable {world : World} {w : ℕ} {files : Files}

@[simp] theorem write_self (files : Files) (path content : List UInt8) :
    write files path content path = some content := Function.update_self ..

@[simp] theorem unlink_self (files : Files) (path : List UInt8) : unlink files path path = none :=
  Function.update_self ..

theorem write_of_ne {path path' : List UInt8} (h : path' ≠ path) (content : List UInt8) :
    write files path content path' = files path' := Function.update_of_ne h ..

theorem unlink_of_ne {path path' : List UInt8} (h : path' ≠ path) :
    unlink files path path' = files path' := Function.update_of_ne h ..

theorem store_of_ne {path path' : List UInt8} (h : path' ≠ path) (content : List UInt8)
    (outcome : Storing) : store files path content outcome path' = files path' := by
  cases outcome with
  | openFails => rfl
  | writeFails written => exact write_of_ne h written
  | stored => exact write_of_ne h content

/-- The name of a feed of this worker, whose file holds `content`. -/
def Feed (world : World) (w : ℕ) (perfect : Bool) (files : Files) (tag : FeedTag)
    (content : List UInt8) : Option FeedFile → Prop
  | none => perfect = false
  | some file => file.workerId = w ∧ file.tag = tag ∧
      files (feedFilename world.root file) = some content

def Feeds (world : World) (w : ℕ) (perfect : Bool) (files : Files) (c : Current) : Prop :=
  Feed world w perfect files .input c.request.input c.inputFilename ∧
    Feed world w perfect files .output c.request.output c.outputFilename

def Built (world : World) (w : ℕ) (files : Files) (c : Current) (binary : List UInt8) : Prop :=
  world.compiler c.request.sourcecode = some binary ∧ files (bin world w) = some binary

/-- What is true of the worker's own files, and of its run, in front of a call. -/
def Ready (world : World) (w : ℕ) (perfect : Bool) (files : Files) (c : Current) :
    Stage → Prop
  | .storeInput => True
  | .storeOutput => Feed world w perfect files .input c.request.input c.inputFilename
  | .makeDir => Feeds world w perfect files c
  | .writeText => Feeds world w perfect files c
  | .unlinkBinary => Feeds world w perfect files c ∧
      files (text world w) = some c.request.sourcecode
  | .readText => Feeds world w perfect files c ∧
      files (text world w) = some c.request.sourcecode ∧ files (bin world w) = none
  | .writeBinary text => Feeds world w perfect files c ∧ text = some c.request.sourcecode ∧
      files (bin world w) = none
  | .statBinary => Feeds world w perfect files c ∧
      files (bin world w) = world.compiler c.request.sourcecode
  | .unlinkText => Feeds world w perfect files c ∧ ∃ binary, Built world w files c binary
  | .openFeeds => Feeds world w perfect files c ∧ ∃ binary, Built world w files c binary
  | .running cfg s => Feeds world w perfect files c ∧ ∃ binary, Built world w files c binary ∧
      (∃ watcherResult compResult,
        cfg = config world c.request.input c.request.output watcherResult compResult) ∧
      Reaches (step cfg) (fun s act => ordinary cfg (world.program binary c.request.input) s act)
        (start cfg) s
  | .removeBinary v => Right world perfect c.request v
  | .removeInput v => Right world perfect c.request v
  | .removeOutput v => Right world perfect c.request v
  | .reply v => Right world perfect c.request v

def Pending : Option (Current × Stage) → List Request
  | none => []
  | some (c, _) => [c.request]

def Named (w : ℕ) (c : Current) : Prop :=
  ∀ file, c.inputFilename = some file ∨ c.outputFilename = some file → file.workerId = w

/-- Each request received has got its one reply, or is in work. -/
structure Serves (world : World) (w : ℕ) (perfect : Bool) (files : Files) (k : Worker) : Prop where
  order : k.received = k.replies.map Prod.fst ++ Pending k.current
  right : ∀ p ∈ k.replies, Right world perfect p.1 p.2
  pipes : k.pipes = fresh
  plain : ∀ c stage, k.current = some (c, stage) → plain world c.request = true
  named : ∀ c stage, k.current = some (c, stage) → Named w c
  ready : ∀ c stage, k.current = some (c, stage) → Ready world w perfect files c stage

theorem owns_feed {tag : FeedTag} {file : FeedFile} (hworker : file.workerId = w)
    (htag : file.tag = tag) : Owns world.root w (feedFilename world.root file) := by
  have hfile : file = ⟨w, file.now, tag⟩ := by rw [← hworker, ← htag]
  rw [hfile]
  exact .feed _ _

theorem owns_text : Owns world.root w (text world w) := .lang _

theorem owns_bin : Owns world.root w (bin world w) := .lang _

theorem Ready.congr {perfect : Bool} {c : Current} {stage : Stage} {files' : Files}
    (h : Ready world w perfect files c stage)
    (hsame : ∀ path, Owns world.root w path → files' path = files path) :
    Ready world w perfect files' c stage := by
  have hfeed : ∀ {tag content} {file : Option FeedFile},
      Feed world w perfect files tag content file →
        Feed world w perfect files' tag content file := by
    intro tag content file hfeed
    cases file with
    | none => exact hfeed
    | some file =>
      refine ⟨hfeed.1, hfeed.2.1, ?_⟩
      rw [hsame _ (owns_feed hfeed.1 hfeed.2.1)]
      exact hfeed.2.2
  have htext : files' (text world w) = files (text world w) := hsame _ owns_text
  have hbin : files' (bin world w) = files (bin world w) := hsame _ owns_bin
  cases stage with
  | storeInput => trivial
  | storeOutput => exact hfeed h
  | makeDir => exact ⟨hfeed h.1, hfeed h.2⟩
  | writeText => exact ⟨hfeed h.1, hfeed h.2⟩
  | unlinkBinary => exact ⟨⟨hfeed h.1.1, hfeed h.1.2⟩, htext.trans h.2⟩
  | readText => exact ⟨⟨hfeed h.1.1, hfeed h.1.2⟩, htext.trans h.2.1, hbin.trans h.2.2⟩
  | writeBinary content => exact ⟨⟨hfeed h.1.1, hfeed h.1.2⟩, h.2.1, hbin.trans h.2.2⟩
  | statBinary => exact ⟨⟨hfeed h.1.1, hfeed h.1.2⟩, hbin.trans h.2⟩
  | unlinkText =>
    obtain ⟨hfeeds, binary, hmade, hfile⟩ := h
    exact ⟨⟨hfeed hfeeds.1, hfeed hfeeds.2⟩, binary, hmade, hbin.trans hfile⟩
  | openFeeds =>
    obtain ⟨hfeeds, binary, hmade, hfile⟩ := h
    exact ⟨⟨hfeed hfeeds.1, hfeed hfeeds.2⟩, binary, hmade, hbin.trans hfile⟩
  | running cfg s =>
    obtain ⟨hfeeds, binary, ⟨hmade, hfile⟩, hrun⟩ := h
    exact ⟨⟨hfeed hfeeds.1, hfeed hfeeds.2⟩, binary, ⟨hmade, hbin.trans hfile⟩, hrun⟩
  | removeBinary v => exact h
  | removeInput v => exact h
  | removeOutput v => exact h
  | reply v => exact h

variable {perfect : Bool} {c : Current}

theorem Feed.congr {tag : FeedTag} {content : List UInt8} {file : Option FeedFile} {files' : Files}
    (h : Feed world w perfect files tag content file)
    (hsame : ∀ f : FeedFile, f.tag = tag →
      files' (feedFilename world.root f) = files (feedFilename world.root f)) :
    Feed world w perfect files' tag content file := by
  cases file with
  | none => exact h
  | some f => exact ⟨h.1, h.2.1, (hsame f h.2.1).trans h.2.2⟩

theorem Feeds.lang {files' : Files} (h : Feeds world w perfect files c) {ext : List UInt8}
    (hsame : ∀ path, path ≠ LangProcess.submissionPath (langWorkspace world.root) w ext →
      files' path = files path) : Feeds world w perfect files' c := by
  have hfeed : ∀ f : FeedFile, files' (feedFilename world.root f) =
      files (feedFilename world.root f) :=
    fun f => hsame _ (feedFilename_ne_submissionPath world.root f w ext)
  exact ⟨h.1.congr fun f _ => hfeed f, h.2.congr fun f _ => hfeed f⟩

theorem feed_stored {outcome : Storing} (hok : perfect = true → outcome = .stored) (now : ℤ)
    (tag : FeedTag) (content : List UInt8) :
    Feed world w perfect (store files (feedFilename world.root ⟨w, now, tag⟩) content outcome) tag
      content (feedFile w now tag outcome) := by
  have hfailed : outcome ≠ .stored → perfect = false := fun hne =>
    Bool.eq_false_iff.mpr fun hperfect => hne (hok hperfect)
  cases outcome with
  | openFails => exact hfailed nofun
  | writeFails written => exact hfailed nofun
  | stored => exact ⟨rfl, rfl, write_self ..⟩

theorem text_ne_bin : text world w ≠ bin world w :=
  textFilename_ne_binFilename world.root world.extCompile w

theorem ready_storeOutput (now : ℤ) {outcome : Storing}
    (hok : perfect = true → outcome = .stored) :
    Ready world w perfect (store files (feedFilename world.root ⟨w, now, .input⟩) c.request.input
      outcome) { c with inputFilename := feedFile w now .input outcome } .storeOutput :=
  feed_stored hok now .input c.request.input

theorem ready_makeDir (h : Ready world w perfect files c .storeOutput) (now : ℤ)
    {outcome : Storing} (hok : perfect = true → outcome = .stored) :
    Ready world w perfect (store files (feedFilename world.root ⟨w, now, .output⟩)
      c.request.output outcome) { c with outputFilename := feedFile w now .output outcome }
      .makeDir := by
  have hinput : Feed world w perfect files .input c.request.input c.inputFilename := h
  refine ⟨hinput.congr fun f htag => store_of_ne (fun heq => ?_) _ _,
    feed_stored hok now .output c.request.output⟩
  have htags := feedFilename_tag world.root heq
  rw [htag] at htags
  cases htags

theorem ready_unlinkBinary (h : Ready world w perfect files c .writeText) :
    Ready world w perfect (store files (text world w) c.request.sourcecode .stored) c
      .unlinkBinary :=
  ⟨h.lang fun _ hne => store_of_ne hne _ _, write_self ..⟩

theorem ready_readText (h : Ready world w perfect files c .unlinkBinary) :
    Ready world w perfect (unlink files (bin world w)) c .readText :=
  ⟨h.1.lang fun _ hne => unlink_of_ne hne, (unlink_of_ne text_ne_bin).trans h.2, unlink_self ..⟩

theorem ready_statBinary {source : Option (List UInt8)}
    (h : Ready world w perfect files c (.writeBinary source)) :
    (∀ out, source.bind world.compiler = some out →
      Ready world w perfect (write files (bin world w) out) c .statBinary) ∧
    (source.bind world.compiler = none → Ready world w perfect files c .statBinary) := by
  obtain ⟨hfeeds, rfl, hgone⟩ := h
  refine ⟨fun out hout => ⟨hfeeds.lang fun _ hne => write_of_ne hne _, ?_⟩, fun hnone => ?_⟩
  · rw [write_self]
    exact hout.symm
  · exact ⟨hfeeds, hgone.trans hnone.symm⟩

theorem ready_unlinkText (h : Ready world w perfect files c .statBinary)
    (hstat : files (bin world w) ≠ none) : Ready world w perfect files c .unlinkText := by
  obtain ⟨binary, hbinary⟩ := Option.ne_none_iff_exists'.mp hstat
  exact ⟨h.1, binary, h.2.symm.trans hbinary, hbinary⟩

theorem right_compileError (h : Ready world w perfect files c .statBinary)
    (hstat : files (bin world w) = none) : Right world perfect c.request .compileError := by
  left
  rw [deserved, ← h.2, hstat]

theorem ready_openFeeds (h : Ready world w perfect files c .unlinkText) :
    Ready world w perfect (unlink files (text world w)) c .openFeeds := by
  obtain ⟨hfeeds, binary, hmade, hfile⟩ := h
  exact ⟨hfeeds.lang fun _ hne => unlink_of_ne hne, binary, hmade,
    (unlink_of_ne (Ne.symm text_ne_bin)).trans hfile⟩

theorem opens_feed {tag : FeedTag} {content : List UInt8} {file : Option FeedFile}
    (h : Feed world w perfect files tag content file) (ok : Bool) :
    (∀ found, opens world files ok file = some found → found = content) ∧
      (opens world files ok file = none → perfect = true → ok = false) := by
  cases file with
  | none =>
    refine ⟨nofun, fun _ hperfect => ?_⟩
    rw [Feed, hperfect] at h
    cases h
  | some f =>
    simp only [opens, h.2.2]
    cases ok with
    | true => exact ⟨fun found hfound => (Option.some.inj hfound).symm, nofun⟩
    | false => exact ⟨nofun, fun _ _ => rfl⟩

theorem ready_running (h : Ready world w perfect files c .openFeeds)
    {watcherResult compResult : SandboxResult} {input reference : List UInt8}
    (hinput : input = c.request.input) (hreference : reference = c.request.output) :
    Ready world w perfect files c (.running (config world input reference watcherResult compResult)
      (begins (config world input reference watcherResult compResult) fresh)) := by
  obtain ⟨hfeeds, binary, hbuilt⟩ := h
  rw [hinput, hreference]
  exact ⟨hfeeds, binary, hbuilt, ⟨watcherResult, compResult, rfl⟩, .refl⟩

theorem ready_call {cfg : Config} {s s' : Sys} {act : RunSystem.Act}
    (h : Ready world w perfect files c (.running cfg s))
    (hordinary : ordinary cfg (world.program ((files (bin world w)).getD []) cfg.input) s act =
      true)
    (hstep : step cfg s act = some s') : Ready world w perfect files c (.running cfg s') := by
  obtain ⟨hfeeds, binary, hbuilt, ⟨watcherResult, compResult, rfl⟩, hrun⟩ := h
  rw [hbuilt.2] at hordinary
  exact ⟨hfeeds, binary, hbuilt, ⟨watcherResult, compResult, rfl⟩,
    hrun.tail ⟨act, hordinary, hstep⟩⟩

theorem right_run {cfg : Config} {s : Sys} {site : Return} (hplain : plain world c.request = true)
    (h : Ready world w perfect files c (.running cfg s))
    (hreturned : s.runner.pc = .returned site) :
    Right world perfect c.request (runVerdict site s.runner.result) ∧ leaves s = fresh := by
  obtain ⟨-, binary, hbuilt, ⟨watcherResult, compResult, rfl⟩, hrun⟩ := h
  simp only [plain, hbuilt.1, Bool.and_eq_true, decide_eq_true_eq] at hplain
  let job : Job := ⟨config world c.request.input c.request.output watcherResult compResult,
    world.program binary c.request.input, hplain.1, hplain.2.1, hplain.2.2⟩
  have hrun' : Reaches (step job.cfg) (fun s act => ordinary job.cfg job.output s act = true)
      (start job.cfg) s := hrun
  obtain ⟨hempty, hjudged⟩ := judged_run hrun' ⟨site, hreturned⟩
  refine ⟨.inl ?_, hempty⟩
  obtain ⟨site', hsite', hcode, hresult⟩ := hjudged.returns
  rw [hreturned] at hsite'
  cases hsite'
  rw [runVerdict, if_neg (not_not.mpr hcode), hresult, deserved, hbuilt.1]
  rfl

variable {k k' : Worker} {files' : Files} {act : Act}

theorem store_frame {path path' content : List UInt8} {outcome : Storing}
    (howns : Owns world.root w path) (hnot : ¬ Owns world.root w path') :
    store files path content outcome path' = files path' :=
  store_of_ne (fun heq : path' = path => hnot (heq ▸ howns)) _ _

theorem unlink_frame {path path' : List UInt8} (howns : Owns world.root w path)
    (hnot : ¬ Owns world.root w path') : unlink files path path' = files path' :=
  unlink_of_ne fun heq : path' = path => hnot (heq ▸ howns)

theorem removeByName_frame {file : Option FeedFile} {path : List UInt8}
    (hfile : ∀ f, file = some f → f.workerId = w) (hnot : ¬ Owns world.root w path) :
    removeByName world files file path = files path := by
  cases file with
  | none => rfl
  | some f => exact unlink_frame (owns_feed (hfile f rfl) rfl) hnot

theorem advance_frame (h : advance world w files k act = some (files', k'))
    (hnamed : ∀ c stage, k.current = some (c, stage) → Named w c) {path : List UInt8}
    (hnot : ¬ Owns world.root w path) : files' path = files path := by
  unfold advance at h
  split at h
  · cases h
    rfl
  · cases h
    exact store_frame (.feed _ _) hnot
  · cases h
    exact store_frame (.feed _ _) hnot
  · split_ifs at h <;> (cases h; rfl)
  · cases h
    exact store_frame owns_text hnot
  · cases h
    exact unlink_frame owns_bin hnot
  · cases h
    rfl
  · split at h
    · cases h
      rfl
    · cases h
      exact write_of_ne (fun heq : path = bin world w => hnot (heq ▸ owns_bin)) _
  · split_ifs at h <;> (cases h; rfl)
  · cases h
    exact unlink_frame owns_text hnot
  · split at h
    · split_ifs at h <;> (cases h; rfl)
    · cases h
      rfl
  · split_ifs at h
    cases h
    rfl
  · obtain ⟨s', -, hnext⟩ := Option.map_eq_some_iff.mp h
    cases hnext
    rfl
  · split at h
    · cases h
      rfl
    · cases h
  · cases h
    exact unlink_frame owns_bin hnot
  · rename_i c v hcurrent
    cases h
    exact removeByName_frame (fun f hf => hnamed c _ hcurrent f (.inl hf)) hnot
  · rename_i c v hcurrent
    cases h
    exact removeByName_frame (fun f hf => hnamed c _ hcurrent f (.inr hf)) hnot
  · cases h
    rfl
  · cases h

theorem Serves.goTo (h : Serves world w perfect files k) {stage stage' : Stage} {c' : Current}
    (hcurrent : k.current = some (c, stage)) (hrequest : c'.request = c.request)
    (hnamed : Named w c') (hready : Ready world w perfect files' c' stage') :
    Serves world w perfect files' (k.goTo c' stage') where
  order := by
    have horder := h.order
    rw [hcurrent] at horder
    simp only [Worker.goTo, Pending, hrequest]
    exact horder
  right := h.right
  pipes := h.pipes
  plain := fun c₁ stage₁ heq => by
    cases heq
    rw [hrequest]
    exact h.plain c stage hcurrent
  named := fun c₁ stage₁ heq => by
    cases heq
    exact hnamed
  ready := fun c₁ stage₁ heq => by
    cases heq
    exact hready

theorem named_feed {stage : Stage} (h : Serves world w perfect files k)
    (hcurrent : k.current = some (c, stage)) (now : ℤ) (tag : FeedTag) (outcome : Storing) :
    Named w { c with inputFilename := feedFile w now tag outcome } ∧
      Named w { c with outputFilename := feedFile w now tag outcome } := by
  have hnew : ∀ file, feedFile w now tag outcome = some file → file.workerId = w := by
    intro file hfile
    cases outcome <;> cases hfile
    rfl
  have hold := h.named c stage hcurrent
  refine ⟨fun file hfile => ?_, fun file hfile => ?_⟩
  · rcases hfile with hfile | hfile
    · exact hnew file hfile
    · exact hold file (.inr hfile)
  · rcases hfile with hfile | hfile
    · exact hold file (.inl hfile)
    · exact hnew file hfile

theorem right_internal {ok : Bool} (hok : perfect = true → ok = true) (hfails : ok = false)
    (r : Request) : Right world perfect r .internal := by
  refine .inr ⟨Bool.eq_false_iff.mpr fun hperfect => ?_, rfl⟩
  rw [hok hperfect] at hfails
  cases hfails

theorem serves_receive (h : Serves world w perfect files k) (hcurrent : k.current = none)
    {r : Request} (hplain : plain world r = true) :
    Serves world w perfect files { k with
      current := some (⟨r, none, none⟩, .storeInput), received := k.received ++ [r] } where
  order := by
    have horder := h.order
    rw [hcurrent, Pending, List.append_nil] at horder
    rw [horder]
    rfl
  right := h.right
  pipes := h.pipes
  plain := fun c stage heq => by
    cases heq
    exact hplain
  named := fun c stage heq => by
    cases heq
    rintro file (hfile | hfile) <;> cases hfile
  ready := fun c stage heq => by
    cases heq
    trivial

theorem serves_reply (h : Serves world w perfect files k) {v : Verdict}
    (hcurrent : k.current = some (c, .reply v)) :
    Serves world w perfect files { k with
      current := none, replies := k.replies ++ [(c.request, v)] } where
  order := by
    have horder := h.order
    rw [hcurrent] at horder
    simp only [horder, Pending, List.map_append, List.map_cons, List.map_nil, List.append_nil]
  right := fun p hp => by
    rcases List.mem_append.mp hp with hp | hp
    · exact h.right p hp
    · rw [List.mem_singleton.mp hp]
      exact h.ready c _ hcurrent
  pipes := h.pipes
  plain := fun c stage heq => by cases heq
  named := fun c stage heq => by cases heq
  ready := fun c stage heq => by cases heq

theorem serves_openFeeds (h : Serves world w perfect files k)
    (hcurrent : k.current = some (c, .openFeeds)) {inputOk outputOk : Bool}
    {watcherResult compResult : SandboxResult}
    (hok : perfect = true → smooth world (.openFeeds inputOk outputOk watcherResult compResult))
    (hstep : advance world w files k (.openFeeds inputOk outputOk watcherResult compResult) =
      some (files', k')) : Serves world w perfect files' k' := by
  have hready := h.ready c _ hcurrent
  have hnamed := h.named c _ hcurrent
  obtain ⟨hinput, hoFails⟩ := opens_feed hready.1.1 inputOk
  obtain ⟨hreference, hrFails⟩ := opens_feed hready.1.2 outputOk
  simp only [smooth, decide_eq_true_eq] at hok
  have hinternal : ∀ ok : Bool, (perfect = true → ok = true) → ok = false →
      Serves world w perfect files (k.goTo c (.removeBinary .internal)) :=
    fun ok hsmooth hfails => h.goTo hcurrent rfl hnamed (right_internal hsmooth hfails _)
  simp only [advance, hcurrent] at hstep
  split at hstep
  · rename_i input reference hi hr
    split_ifs at hstep with herfs
    · cases hstep
      exact hinternal (!world.base.useERFS) (fun hperfect => by simpa using (hok hperfect).2.2)
        (by rw [herfs]; rfl)
    · cases hstep
      rw [h.pipes]
      exact h.goTo hcurrent rfl hnamed (ready_running hready (hinput _ hi) (hreference _ hr))
  · rename_i hnot
    cases hstep
    cases hi : opens world files inputOk c.inputFilename with
    | none =>
      by_cases hperfect : perfect = true
      · exact hinternal inputOk (fun hp => (hok hp).1) (hoFails hi hperfect)
      · exact h.goTo hcurrent rfl hnamed (.inr ⟨Bool.eq_false_iff.mpr hperfect, rfl⟩)
    | some input =>
      cases hr : opens world files outputOk c.outputFilename with
      | none =>
        by_cases hperfect : perfect = true
        · exact hinternal outputOk (fun hp => (hok hp).2.1) (hrFails hr hperfect)
        · exact h.goTo hcurrent rfl hnamed (.inr ⟨Bool.eq_false_iff.mpr hperfect, rfl⟩)
      | some reference => exact absurd hr (hnot input reference hi)

theorem serves_run (h : Serves world w perfect files k) {cfg : Config} {s : Sys} {site : Return}
    (hcurrent : k.current = some (c, .running cfg s)) (hreturned : s.runner.pc = .returned site) :
    Serves world w perfect files { k with
      current := some (c, .removeBinary (runVerdict site s.runner.result))
      pipes := leaves s } := by
  obtain ⟨hright, hempty⟩ := right_run (h.plain c _ hcurrent) (h.ready c _ hcurrent) hreturned
  have hnext : Serves world w perfect files
      (k.goTo c (.removeBinary (runVerdict site s.runner.result))) :=
    h.goTo hcurrent rfl (h.named c _ hcurrent) hright
  exact ⟨hnext.order, hnext.right, hempty, hnext.plain, hnext.named, hnext.ready⟩

theorem serves_mkdir (h : Serves world w perfect files k)
    (hcurrent : k.current = some (c, .makeDir)) {ok : Bool} (hok : perfect = true → ok = true)
    (hstep : advance world w files k (.mkdir ok) = some (files', k')) :
    Serves world w perfect files' k' := by
  have hready := h.ready c _ hcurrent
  have hnamed := h.named c _ hcurrent
  simp only [advance, hcurrent] at hstep
  split_ifs at hstep with hfails
  · cases hstep
    rw [Bool.and_eq_true, Bool.not_eq_true', Bool.not_eq_true'] at hfails
    exact h.goTo hcurrent rfl hnamed (right_internal hok hfails.2 _)
  · cases hstep
    have hnext : Serves world w perfect files (k.goTo c .writeText) :=
      h.goTo hcurrent rfl hnamed hready
    exact ⟨hnext.order, hnext.right, hnext.pipes, hnext.plain, hnext.named, hnext.ready⟩

theorem serves_step {j : Judge} (h : Serves world w perfect j.files (j.workers w))
    (hallowed : allowed world perfect j (w, act) = true)
    (hstep : advance world w j.files (j.workers w) act = some (files', k')) :
    Serves world w perfect files' k' := by
  obtain ⟨hsmooth, hact⟩ := Bool.and_eq_true_iff.mp hallowed
  have hok : perfect = true → smooth world act = true := fun hperfect => by
    rw [hperfect] at hsmooth
    exact hsmooth
  have hstep' := hstep
  unfold advance at hstep
  split at hstep
  · rename_i r hcurrent
    cases hstep
    exact serves_receive h hcurrent hact
  · rename_i c now outcome hcurrent
    cases hstep
    simp only [smooth, decide_eq_true_eq] at hok
    exact h.goTo hcurrent rfl (named_feed h hcurrent ..).1 (ready_storeOutput now hok)
  · rename_i c now outcome hcurrent
    cases hstep
    simp only [smooth, decide_eq_true_eq] at hok
    exact h.goTo hcurrent rfl (named_feed h hcurrent ..).2
      (ready_makeDir (h.ready c _ hcurrent) now hok)
  · rename_i c ok hcurrent
    exact serves_mkdir h hcurrent hok hstep'
  · rename_i c outcome hcurrent
    cases hstep
    simp only [smooth, decide_eq_true_eq] at hok
    split_ifs with hstored
    · rw [hstored]
      exact h.goTo hcurrent rfl (h.named c _ hcurrent) (ready_unlinkBinary (h.ready c _ hcurrent))
    · refine h.goTo hcurrent rfl (h.named c _ hcurrent) (.inr ⟨?_, rfl⟩)
      exact Bool.eq_false_iff.mpr fun hperfect => hstored (hok hperfect)
  · rename_i c hcurrent
    cases hstep
    exact h.goTo hcurrent rfl (h.named c _ hcurrent) (ready_readText (h.ready c _ hcurrent))
  · rename_i c hcurrent
    cases hstep
    have hready := h.ready c _ hcurrent
    exact h.goTo hcurrent rfl (h.named c _ hcurrent) ⟨hready.1, hready.2.1, hready.2.2⟩
  · rename_i c source hcurrent
    obtain ⟨hsome, hnone⟩ := ready_statBinary (h.ready c _ hcurrent)
    split at hstep
    · rename_i heq
      cases hstep
      exact h.goTo hcurrent rfl (h.named c _ hcurrent) (hnone heq)
    · rename_i out heq
      cases hstep
      exact h.goTo hcurrent rfl (h.named c _ hcurrent) (hsome out heq)
  · rename_i c hcurrent
    split_ifs at hstep with hstat
    · cases hstep
      exact h.goTo hcurrent rfl (h.named c _ hcurrent)
        (right_compileError (h.ready c _ hcurrent) hstat)
    · cases hstep
      exact h.goTo hcurrent rfl (h.named c _ hcurrent)
        (ready_unlinkText (h.ready c _ hcurrent) hstat)
  · rename_i c hcurrent
    cases hstep
    exact h.goTo hcurrent rfl (h.named c _ hcurrent) (ready_openFeeds (h.ready c _ hcurrent))
  · rename_i c inputOk outputOk watcherResult compResult hcurrent
    exact serves_openFeeds h hcurrent hok hstep'
  · split_ifs at hstep
    cases hstep
    exact h
  · rename_i c cfg s act hcurrent
    obtain ⟨s', hrun, hnext⟩ := Option.map_eq_some_iff.mp hstep
    cases hnext
    simp only [hcurrent] at hact
    exact h.goTo hcurrent rfl (h.named c _ hcurrent) (ready_call (h.ready c _ hcurrent) hact hrun)
  · rename_i c cfg s hcurrent
    split at hstep
    · rename_i site hreturned
      cases hstep
      exact serves_run h hcurrent hreturned
    · cases hstep
  · rename_i c v hcurrent
    cases hstep
    exact h.goTo hcurrent rfl (h.named c _ hcurrent) (h.ready c _ hcurrent)
  · rename_i c v hcurrent
    cases hstep
    exact h.goTo hcurrent rfl (h.named c _ hcurrent) (h.ready c _ hcurrent)
  · rename_i c v hcurrent
    cases hstep
    exact h.goTo hcurrent rfl (h.named c _ hcurrent) (h.ready c _ hcurrent)
  · rename_i c v hcurrent
    cases hstep
    exact serves_reply h hcurrent
  · cases hstep

theorem Serves.other (h : Serves world w perfect files k)
    (hsame : ∀ path, Owns world.root w path → files' path = files path) :
    Serves world w perfect files' k :=
  { h with ready := fun c stage hcurrent => (h.ready c stage hcurrent).congr hsame }

end

theorem serves_judgeStep {world : World} {perfect : Bool} {j j' : Judge} {a : ℕ × Act}
    (h : ∀ w, Serves world w perfect j.files (j.workers w))
    (hallowed : allowed world perfect j a = true) (hstep : judgeStep world j a = some j') (w : ℕ) :
    Serves world w perfect j'.files (j'.workers w) := by
  obtain ⟨-, hadvance, hothers⟩ := judgeStep_cases hstep
  by_cases hw : w = a.1
  · subst hw
    exact serves_step (h a.1) hallowed hadvance
  · rw [hothers w hw]
    refine (h w).other fun path howns => advance_frame hadvance (h a.1).named fun hother => ?_
    exact hw (Nat.cast_injective (howns.unique hother))

theorem serves_idle (world : World) (w : ℕ) (perfect : Bool) (files : Files) :
    Serves world w perfect files idle where
  order := rfl
  right := fun _ hp => absurd hp List.not_mem_nil
  pipes := rfl
  plain := fun _ _ h => by cases h
  named := fun _ _ h => by cases h
  ready := fun _ _ h => by cases h

theorem serves_reachable {world : World} {perfect : Bool} {files : Files} {j : Judge}
    (hrun : Reaches (judgeStep world) (fun j a => allowed world perfect j a = true) (boot files) j)
    (w : ℕ) : Serves world w perfect j.files (j.workers w) := by
  have hall : ∀ w, Serves world w perfect j.files (j.workers w) := by
    apply hrun.invariant fun j => ∀ w, Serves world w perfect j.files (j.workers w)
    · exact fun w => serves_idle world w perfect files
    · exact fun _ _ _ h hallowed hstep => serves_judgeStep h hallowed hstep
  exact hall w

def smallWorld : World where
  root := []
  extCompile := [99]
  compiler := fun source => if source = [120] then some [1] else none
  program := fun _ _ => [97]
  base := oneByte

def good : Request := ⟨[7], [97], [120]⟩

def broken : Request := ⟨[7], [97], [121]⟩

end KudosJudge.JudgeWorkers
