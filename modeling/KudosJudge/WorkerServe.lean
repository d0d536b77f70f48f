import KudosJudge.InterfaceDecode
import KudosJudge.InterfaceReceive
import KudosJudge.Results

set_option autoImplicit false

/-!
`queue_worker_serv` of `queue.c` with `jug_runner_judge` of `runner.c`, as the
sequence of calls they make. What the client sends and what the calls return is
given by `Outcomes`; both functions are total in it.
-/
namespace KudosJudge.WorkerServe
open CText InterfaceDecode InterfaceReceive Results

inductive FeedTag where
  | input
  | output
deriving DecidableEq, Repr

/-- `fopen` and `fputs` in `jug_feed_new_file`. The file of a failed `fputs` stays. -/
inductive FeedOutcome where
  | openFails
  | writeFails
  | stored
deriving DecidableEq, Repr

structure FeedFile where
  workerId : ℤ
  now : ℤ
  tag : FeedTag
deriving DecidableEq, Repr

structure BinaryInformation where
  binPath : Option (List UInt8)
  binCmd : Option (List UInt8)
  interpreted : Option Bool
deriving DecidableEq, Repr

/-- The fields of `jug_submission` in use. `none` is an unassigned field, and
`some none` a file name that is `NULL`. -/
structure Submission where
  threadId : ℤ
  inputFilename : Option (Option FeedFile)
  outputFilename : Option (Option FeedFile)
  source : Option (List UInt8)
  binary : BinaryInformation
deriving DecidableEq, Repr

inductive Event where
  | newFile (file : FeedFile) (content : List UInt8) (outcome : FeedOutcome)
  | langProcess (source : List UInt8) (code : ℤ)
  | openFile (file : Option (Option FeedFile)) (opened : Bool)
  | closeFile (file : Option (Option FeedFile))
  | run (ret : ℤ) (result : SandboxResult)
  | judge (submission : Submission) (verdict : Verdict)
  | freeBinaryInformation (binary : BinaryInformation)
  | freeRequest (request : IntRequest)
  | removeBinary (path : Option (List UInt8))
  | removeByName (file : Option (Option FeedFile))
  | freeSubmission (submission : Submission)
  | sendVerdict (verdict : Verdict)
  | closeSocket
deriving DecidableEq, Repr

def Event.assigned : Event → Bool
  | .openFile file _ => file.isSome
  | .freeBinaryInformation binary => binary.binPath.isSome ∧ binary.binCmd.isSome
  | .freeRequest request =>
    request.sourcecode.isSome ∧ request.input.data.isSome ∧ request.output.data.isSome
  | .removeBinary path => path.isSome
  | .removeByName file => file.isSome
  | .freeSubmission submission =>
    submission.inputFilename.isSome ∧ submission.outputFilename.isSome ∧
      submission.source.isSome ∧ submission.binary.binPath.isSome ∧
      submission.binary.binCmd.isSome
  | _ => true

/-- What `jug_runner_judge` meets. `run` is the return value of `jug_runner_run`
and the result it leaves in the parameters. -/
structure JudgeOutcomes where
  opens : FeedTag → Bool
  useERFS : Bool
  run : ℤ × SandboxResult

structure Outcomes where
  workerId : ℤ
  received : List RecvResult
  behind : Memory
  now : FeedTag → ℤ
  newFile : FeedTag → FeedOutcome
  langProcess : List UInt8 → ℤ × BinaryInformation
  judge : Submission → JudgeOutcomes

/-- `undefined` is a call of which a field that nothing assigned was read or freed. -/
inductive Ending where
  | returned
  | undefined
  | crashed
  | receiving
deriving DecidableEq, Repr

def resultVerdict : SandboxResult → Verdict
  | .correct => .accepted
  | .wrong => .wrong
  | .timelimit => .timelimit
  | .wallTimelimit => .timelimit
  | .outputlimit => .outputlimit
  | .runtime => .runtime
  | .pipeError => .internal
  | .compError => .internal
  | .unknown => .internal
  | .memlimit => .internal
  | .other _ => .internal

def jugRunnerJudge (o : JudgeOutcomes) (submission : Submission) : List Event × Verdict :=
  let opening := [.openFile submission.inputFilename (o.opens .input),
    .openFile submission.outputFilename (o.opens .output)]
  if !o.opens .input || !o.opens .output then (opening, .internal)
  else if o.useERFS then (opening, .internal)
  else
    let events := opening ++ [.run o.run.1 o.run.2, .closeFile submission.inputFilename,
      .closeFile submission.outputFilename]
    if o.run.1 ≠ 0 then (events, .internal) else (events, resultVerdict o.run.2)

def jugFeedNewFile (o : Outcomes) (tag : FeedTag) (content : List UInt8) :
    List Event × Option FeedFile :=
  let file := ⟨o.workerId, o.now tag, tag⟩
  ([.newFile file content (o.newFile tag)], if o.newFile tag = .stored then some file else none)

/-- The file name of a feed is assigned for a `DATA` feed only. -/
def storeFeed (o : Outcomes) (tag : FeedTag) (feed : Feed) :
    List Event × Option (Option FeedFile) :=
  if feed.type = feedtypeReference then ([], none)
  else if feed.type = feedtypeData then
    let (events, file) := jugFeedNewFile o tag (feed.data.getD [])
    (events, some file)
  else ([], none)

/-- The calls in their order. Behind the first one on an unassigned field they are what follows
if that one happens to return. -/
def serveJudge (o : Outcomes) (request : IntRequest) : List Event :=
  let (storeInput, inputFilename) := storeFeed o .input request.input
  let (storeOutput, outputFilename) := storeFeed o .output request.output
  let source := request.sourcecode.getD []
  let (error, binInfo) := o.langProcess source
  let before := storeInput ++ storeOutput ++ [.langProcess source error]
  if error ≠ 0 then
    let errVerdict : Verdict := if error = -3 then .compileError else .internal
    before ++ [.sendVerdict errVerdict, .closeSocket, .freeBinaryInformation binInfo,
      .freeRequest request]
  else
    let submission := ⟨o.workerId, inputFilename, outputFilename, some source, binInfo⟩
    let (judging, verdict) := jugRunnerJudge (o.judge submission) submission
    before ++ [.freeBinaryInformation binInfo, .freeRequest request] ++ judging ++
      [.judge submission verdict, .removeBinary submission.binary.binPath,
        .removeByName inputFilename, .removeByName outputFilename, .freeSubmission submission,
        .sendVerdict verdict, .closeSocket]

def ending (events : List Event) : Ending :=
  if events.all Event.assigned then .returned else .undefined

def queueWorkerServ (o : Outcomes) : List Event × Ending :=
  match jugIntReceive o.received with
  | .waiting => ([], .receiving)
  | .null => ([.sendVerdict .internal], .returned)
  | .buffer body =>
    match jugIntDecode (body.str ++ 0 :: o.behind) with
    | .fault => ([], .crashed)
    | .ret _ => ([.sendVerdict .accepted], .returned)
    | .ok request =>
      if request.type = reqTypeJudge then (serveJudge o request, ending (serveJudge o request))
      else ([], .returned)

/-- What an ACCEPTED reply has to rest on. -/
def AcceptedGrounded (o : Outcomes) : Prop :=
  .sendVerdict .accepted ∈ (queueWorkerServ o).1 →
    ∃ body request source submission, jugIntReceive o.received = .buffer body ∧
      jugIntDecode (body.str ++ 0 :: o.behind) = .ok request ∧
      request.sourcecode = some source ∧ (o.langProcess source).1 = 0 ∧
      .langProcess source 0 ∈ (queueWorkerServ o).1 ∧
      submission.source = some source ∧ submission.binary = (o.langProcess source).2 ∧
      .judge submission .accepted ∈ (queueWorkerServ o).1 ∧
      (jugRunnerJudge (o.judge submission) submission).2 = .accepted

theorem jugIntDecode_sourcecode {m : Memory} {request : IntRequest}
    (h : jugIntDecode m = .ok request) (htype : request.type = reqTypeJudge) :
    ∃ source, request.sourcecode = some source := by
  obtain ⟨⟨request', sep₁, sep₂⟩, hparts, hpure⟩ := Parse.bind_eq_ok h
  obtain rfl : request' = request := Parse.ok.inj hpure
  obtain ⟨type, -, h₁⟩ := Parse.bind_eq_ok hparts
  obtain ⟨string, -, h₂⟩ := Parse.bind_eq_ok h₁
  obtain ⟨⟨input, sep₁'⟩, -, h₃⟩ := Parse.bind_eq_ok h₂
  obtain ⟨⟨output, sep₂'⟩, -, h₄⟩ := Parse.bind_eq_ok h₃
  obtain ⟨sourcecode, htail, h₅⟩ := Parse.bind_eq_ok h₄
  rw [Parse.pure_eq, Parse.ok.injEq, Prod.mk.injEq] at h₅
  obtain ⟨rfl, -⟩ := h₅
  change type = reqTypeJudge at htype
  rw [parseTail, if_pos htype] at htail
  obtain ⟨⟨source, rest⟩, -, hsource⟩ := Parse.bind_eq_ok htail
  exact ⟨source, (Parse.ok.inj hsource).symm⟩

theorem storeFeed_silent (o : Outcomes) (tag : FeedTag) (feed : Feed) (v : Verdict) :
    .sendVerdict v ∉ (storeFeed o tag feed).1 := by
  unfold storeFeed jugFeedNewFile
  split_ifs <;> simp

theorem jugRunnerJudge_silent (o : JudgeOutcomes) (submission : Submission) (v : Verdict) :
    .sendVerdict v ∉ (jugRunnerJudge o submission).1 := by
  unfold jugRunnerJudge
  split_ifs <;> simp

def submissionOf (o : Outcomes) (request : IntRequest) : Submission :=
  ⟨o.workerId, (storeFeed o .input request.input).2, (storeFeed o .output request.output).2,
    some (request.sourcecode.getD []), (o.langProcess (request.sourcecode.getD [])).2⟩

def refusal (code : ℤ) (binInfo : BinaryInformation) (request : IntRequest) : List Event :=
  [.sendVerdict (if code = -3 then .compileError else .internal), .closeSocket,
    .freeBinaryInformation binInfo, .freeRequest request]

def judgement (submission : Submission) (verdict : Verdict) : List Event :=
  [.judge submission verdict, .removeBinary submission.binary.binPath,
    .removeByName submission.inputFilename, .removeByName submission.outputFilename,
    .freeSubmission submission, .sendVerdict verdict, .closeSocket]

section

variable {o : Outcomes} {request : IntRequest}

theorem serveJudge_refused (herror : (o.langProcess (request.sourcecode.getD [])).1 ≠ 0) :
    serveJudge o request =
      (storeFeed o .input request.input).1 ++ (storeFeed o .output request.output).1 ++
      [Event.langProcess (request.sourcecode.getD [])
        (o.langProcess (request.sourcecode.getD [])).1] ++
      refusal (o.langProcess (request.sourcecode.getD [])).1
        (o.langProcess (request.sourcecode.getD [])).2 request := by
  unfold serveJudge
  exact if_pos herror

theorem serveJudge_compiled (herror : (o.langProcess (request.sourcecode.getD [])).1 = 0) :
    serveJudge o request =
      (storeFeed o .input request.input).1 ++ (storeFeed o .output request.output).1 ++
      [Event.langProcess (request.sourcecode.getD [])
        (o.langProcess (request.sourcecode.getD [])).1] ++
      [Event.freeBinaryInformation (submissionOf o request).binary, Event.freeRequest request] ++
      (jugRunnerJudge (o.judge (submissionOf o request)) (submissionOf o request)).1 ++
      judgement (submissionOf o request)
        (jugRunnerJudge (o.judge (submissionOf o request)) (submissionOf o request)).2 := by
  unfold serveJudge
  exact if_neg (not_not.mpr herror)

end

theorem serveJudge_error {o : Outcomes} {request : IntRequest} {v : Verdict}
    (herror : (o.langProcess (request.sourcecode.getD [])).1 ≠ 0)
    (h : .sendVerdict v ∈ serveJudge o request) : v ≠ .accepted := by
  simp only [serveJudge, if_pos herror, List.mem_append, List.mem_cons, List.not_mem_nil, or_false,
    storeFeed_silent, reduceCtorEq, false_or, Event.sendVerdict.injEq] at h
  rw [h]
  split_ifs <;> decide

theorem serveJudge_success {o : Outcomes} {request : IntRequest}
    (herror : (o.langProcess (request.sourcecode.getD [])).1 = 0) :
    let submission := submissionOf o request
    let verdict := (jugRunnerJudge (o.judge submission) submission).2
    .langProcess (request.sourcecode.getD []) 0 ∈ serveJudge o request ∧
      .judge submission verdict ∈ serveJudge o request ∧
      ∀ v, .sendVerdict v ∈ serveJudge o request → v = verdict := by
  refine ⟨?_, ?_, ?_⟩
  · simp [serveJudge, herror]
  · simp [serveJudge, herror, submissionOf]
  · intro v h
    simpa [serveJudge, herror, submissionOf, storeFeed_silent, jugRunnerJudge_silent] using h

theorem queueWorkerServ_judge {o : Outcomes} {body : StringBuffer.Buffer} {request : IntRequest}
    (hbody : jugIntReceive o.received = .buffer body)
    (hdecode : jugIntDecode (body.str ++ 0 :: o.behind) = .ok request)
    (htype : request.type = reqTypeJudge) :
    queueWorkerServ o = (serveJudge o request, ending (serveJudge o request)) := by
  simp only [queueWorkerServ, hbody, hdecode, if_pos htype]

theorem serveJudge_grounded {o : Outcomes} {body : StringBuffer.Buffer} {request : IntRequest}
    (hbody : jugIntReceive o.received = .buffer body)
    (hdecode : jugIntDecode (body.str ++ 0 :: o.behind) = .ok request)
    (htype : request.type = reqTypeJudge) : AcceptedGrounded o := by
  obtain ⟨source, hsource⟩ := jugIntDecode_sourcecode hdecode htype
  have hserv := congrArg Prod.fst (queueWorkerServ_judge hbody hdecode htype)
  have hget : request.sourcecode.getD [] = source := by rw [hsource, Option.getD_some]
  unfold AcceptedGrounded
  rw [hserv]
  intro hsent
  by_cases herror : (o.langProcess (request.sourcecode.getD [])).1 = 0
  · obtain ⟨hlang, hjudge, hverdict⟩ := serveJudge_success herror
    have haccepted := hverdict _ hsent
    rw [← haccepted] at hjudge
    refine ⟨body, request, source, submissionOf o request, hbody, hdecode, hsource, ?_, ?_, ?_, ?_,
      hjudge, haccepted.symm⟩
    · rw [← hget, herror]
    · rw [← hget]
      exact hlang
    · rw [submissionOf, hget]
    · rw [submissionOf, hget]
  · exact absurd rfl (serveJudge_error herror hsent)

theorem queueWorkerServ_accepted_iff (o : Outcomes) :
    AcceptedGrounded o ↔ ¬ ∃ body code, jugIntReceive o.received = .buffer body ∧
      jugIntDecode (body.str ++ 0 :: o.behind) = .ret code := by
  constructor
  · rintro h ⟨body, code, hbody, hcode⟩
    have hsent : .sendVerdict .accepted ∈ (queueWorkerServ o).1 := by
      simp [queueWorkerServ, hbody, hcode]
    obtain ⟨body', request, _, _, hbody', hok, _⟩ := h hsent
    rw [hbody, Received.buffer.injEq] at hbody'
    rw [← hbody', hcode] at hok
    cases hok
  · intro h
    cases hbody : jugIntReceive o.received with
    | waiting => simp [AcceptedGrounded, queueWorkerServ, hbody]
    | null => simp [AcceptedGrounded, queueWorkerServ, hbody]
    | buffer body =>
      cases hdecode : jugIntDecode (body.str ++ 0 :: o.behind) with
      | fault => simp [AcceptedGrounded, queueWorkerServ, hbody, hdecode]
      | ret code => exact absurd ⟨body, code, hbody, hdecode⟩ h
      | ok request =>
        by_cases htype : request.type = reqTypeJudge
        · exact serveJudge_grounded hbody hdecode htype
        · simp [AcceptedGrounded, queueWorkerServ, hbody, hdecode, htype]

def unknownFeedType : Outcomes where
  workerId := 0
  received := [.bytes (frame [48, 10, 53, 10])]
  behind := []
  now := fun _ => 0
  newFile := fun _ => .stored
  langProcess := fun _ => (0, ⟨none, none, none⟩)
  judge := fun _ => ⟨fun _ => true, false, (0, .wrong)⟩

theorem queueWorkerServ_accepts_unknownFeedType :
    queueWorkerServ unknownFeedType = ([.sendVerdict .accepted], .returned) ∧
      ¬ AcceptedGrounded unknownFeedType := by
  have hserv : queueWorkerServ unknownFeedType = ([.sendVerdict .accepted], .returned) := by decide
  refine ⟨hserv, fun h => ?_⟩
  obtain ⟨_, _, _, _, _, _, _, _, hlang, _⟩ := h (by rw [hserv]; exact List.mem_singleton_self _)
  simp [hserv] at hlang

def client (body : List UInt8) : Outcomes where
  workerId := 0
  received := [.bytes (frame body)]
  behind := []
  now := fun _ => 0
  newFile := fun _ => .stored
  langProcess := fun _ => (0, ⟨some [98], some [98], some false⟩)
  judge := fun _ => ⟨fun _ => true, false, (0, .correct)⟩

def judgeBody : List UInt8 :=
  [48, 10, 48, 10, 49, 10, 55, 10, 48, 10, 49, 10, 97, 10, 49, 10, 120]

end KudosJudge.WorkerServe
