import KudosJudge.LangProcess
import KudosJudge.Library.FieldLedger

set_option autoImplicit false

/-!
The fields of `int_request`, `jug_submission` and `BinaryInformation` as
`queue_worker_serv` and the functions under it assign, read and free them, in between
the calls that are modelled in `WorkerServe`.
-/
namespace KudosJudge.FieldUse
open CText InterfaceDecode InterfaceReceive Results WorkerServe LangProcess FieldLedger

inductive Field where
  | requestType
  | feedType (tag : FeedTag)
  | content (tag : FeedTag)
  | reference (tag : FeedTag)
  | sourcecode
  | threadId
  | filename (tag : FeedTag)
  | source
  | binPath
  | binCmd
  | interpreted
  | infoBinPath
  | infoBinCmd
  | infoInterpreted
deriving DecidableEq, Repr

/-- A call of `WorkerServe` or an operation on a field. -/
abbrev Action := Event ⊕ Op Field

def calls (trace : List Action) : List Event := trace.filterMap Sum.getLeft?

def operations (trace : List Action) : List (Op Field) := trace.filterMap Sum.getRight?

def decodeFeed (tag : FeedTag) (feed : Feed) : List (Op Field) :=
  let content : List (Op Field) := [.write (.content tag), .use (.content tag)]
  .write (.feedType tag) :: (if feed.data.isSome then content else []) ++
    if feed.reference.isSome then [.write (.reference tag)] else []

/-- `jug_int_decode`, where it returns 0. -/
def decodeOps (request : IntRequest) : List (Op Field) :=
  let source : List (Op Field) := [.write .sourcecode, .use .sourcecode]
  .write .requestType :: decodeFeed .input request.input ++ decodeFeed .output request.output ++
    if request.sourcecode.isSome then source else []

def feedTrace (o : Outcomes) (tag : FeedTag) (feed : Feed) : List Action :=
  if feed.type = feedtypeReference then [.inr (.use (.feedType tag))]
  else if feed.type = feedtypeData then
    [.inr (.use (.feedType tag)), .inr (.use (.feedType tag)), .inr (.use (.content tag)),
      .inl (.newFile ⟨o.workerId, o.now tag, tag⟩ (feed.data.getD []) (o.newFile tag)),
      .inr (.write (.filename tag))]
  else [.inr (.use (.feedType tag)), .inr (.use (.feedType tag))]

/-- The assignments of `lang_process`. -/
def langOps (binInfo : BinaryInformation) : List (Op Field) :=
  let allocateCmd : List (Op Field) := [.write .infoBinCmd]
  let allocatePath : List (Op Field) := [.write .infoBinPath]
  let assign : List (Op Field) := [.use .infoBinCmd, .write .infoInterpreted, .use .infoBinPath]
  (if binInfo.binCmd.isSome then allocateCmd else []) ++
    (if binInfo.binPath.isSome then allocatePath else []) ++
    if binInfo.interpreted.isSome then assign else []

def injectOps : List (Op Field) :=
  [.write .binPath, .write .binCmd, .use .binPath, .use .infoBinPath, .use .binCmd,
    .use .infoBinCmd, .use .infoInterpreted, .write .interpreted]

def freeBinaryInformationOps : List (Op Field) := [.free .infoBinCmd, .free .infoBinPath]

def freeRequestOps : List (Op Field) :=
  [.free .sourcecode, .free (.content .input), .free (.content .output)]

def freeSubmissionOps : List (Op Field) :=
  [.free (.filename .input), .free (.filename .output), .free .source, .free .binPath,
    .free .binCmd]

/-- `jug_runner_judge`; a failed `open` is reported with the name of the output file. -/
def judgeTrace (o : JudgeOutcomes) (submission : Submission) : List Action :=
  let opening : List Action :=
    [.inr (.use (.filename .input)), .inl (.openFile submission.inputFilename (o.opens .input)),
      .inr (.use (.filename .output)),
      .inl (.openFile submission.outputFilename (o.opens .output))]
  let reported : List Action := [.inr (.use (.filename .output))]
  let prepared : List Action :=
    [.inr (.use (.filename .input)), .inr (.use .threadId), .inr (.use .threadId)]
  let running : List Action := [.inr (.use .binPath), .inr (.use .binPath), .inr (.use .threadId),
    .inl (.run o.run.1 o.run.2), .inl (.closeFile submission.inputFilename),
    .inl (.closeFile submission.outputFilename)]
  if !o.opens .input || !o.opens .output then opening ++ reported
  else if o.useERFS then opening ++ prepared
  else opening ++ prepared ++ running

/-- The branch of `queue_worker_serv` for a judgement. The message of a failed `unlink` reads the
name once more, which is left out. -/
def serveTrace (o : Outcomes) (request : IntRequest) : List Action :=
  let source := request.sourcecode.getD []
  let (error, binInfo) := o.langProcess source
  let before := feedTrace o .input request.input ++ feedTrace o .output request.output ++
    [.inr (.use .sourcecode), .inr (.write .source), .inr (.use .source), .inr (.use .sourcecode),
      .inr (.use .source), .inl (.langProcess source error)] ++ (langOps binInfo).map .inr
  if error ≠ 0 then
    let errVerdict : Verdict := if error = -3 then .compileError else .internal
    before ++ [.inl (.sendVerdict errVerdict), .inl .closeSocket,
      .inl (.freeBinaryInformation binInfo)] ++ freeBinaryInformationOps.map .inr ++
      [.inl (.freeRequest request)] ++ freeRequestOps.map .inr
  else
    let submission := submissionOf o request
    let verdict := (jugRunnerJudge (o.judge submission) submission).2
    before ++ injectOps.map .inr ++ [.inl (.freeBinaryInformation binInfo)] ++
      freeBinaryInformationOps.map .inr ++ [.inl (.freeRequest request)] ++
      freeRequestOps.map .inr ++ judgeTrace (o.judge submission) submission ++
      [.inl (.judge submission verdict), .inr (.use .binPath),
        .inl (.removeBinary submission.binary.binPath), .inr (.use (.filename .input)),
        .inl (.removeByName submission.inputFilename), .inr (.use (.filename .output)),
        .inl (.removeByName submission.outputFilename), .inl (.freeSubmission submission)] ++
      freeSubmissionOps.map .inr ++ [.inl (.sendVerdict verdict), .inl .closeSocket]

def requestTrace (o : Outcomes) (request : IntRequest) : List Action :=
  if request.type = reqTypeJudge then [.inr (.use .requestType)] ++ serveTrace o request
  else [.inr (.use .requestType), .inr (.use .requestType)]

/-- All operations of a call that gets `request` from the decoder. -/
def fieldOps (o : Outcomes) (request : IntRequest) : List (Op Field) :=
  .write .threadId :: decodeOps request ++ operations (requestTrace o request)

theorem calls_ops (ops : List (Op Field)) : calls (ops.map .inr) = [] := by
  simp [calls]

theorem operations_ops (ops : List (Op Field)) : operations (ops.map .inr) = ops := by
  induction ops with
  | nil => rfl
  | cons op ops ih => exact congrArg (op :: ·) ih

theorem calls_append (trace trace' : List Action) :
    calls (trace ++ trace') = calls trace ++ calls trace' :=
  List.filterMap_append

theorem operations_append (trace trace' : List Action) :
    operations (trace ++ trace') = operations trace ++ operations trace' :=
  List.filterMap_append

theorem calls_feedTrace (o : Outcomes) (tag : FeedTag) (feed : Feed) :
    calls (feedTrace o tag feed) = (storeFeed o tag feed).1 := by
  unfold feedTrace storeFeed
  split_ifs <;> rfl

theorem calls_judgeTrace (o : JudgeOutcomes) (submission : Submission) :
    calls (judgeTrace o submission) = (jugRunnerJudge o submission).1 := by
  unfold judgeTrace jugRunnerJudge
  split_ifs <;> rfl

theorem calls_serveTrace (o : Outcomes) (request : IntRequest) :
    calls (serveTrace o request) = serveJudge o request := by
  by_cases herror : (o.langProcess (request.sourcecode.getD [])).1 = 0
  · rw [serveJudge_compiled herror]
    simp only [serveTrace]
    rw [if_neg (not_not.mpr herror)]
    simp only [calls_append, calls_feedTrace, calls_judgeTrace, calls_ops, List.append_assoc]
    rfl
  · rw [serveJudge_refused herror]
    simp only [serveTrace]
    rw [if_pos herror]
    simp only [calls_append, calls_feedTrace, calls_ops, List.append_nil, List.append_assoc]
    rfl

theorem parseFeed_shape {m rest : Memory} {feed : Feed} (h : parseFeed m = .ok (feed, rest)) :
    (∃ data, feed = ⟨feedtypeData, some data, none⟩) ∨
      ∃ reference, feed = ⟨feedtypeReference, none, some reference⟩ := by
  obtain ⟨type, -, h₁⟩ := Parse.bind_eq_ok h
  obtain ⟨string, -, h₂⟩ := Parse.bind_eq_ok h₁
  split_ifs at h₂ with hdata hreference
  · obtain ⟨⟨data, rest'⟩, -, h₃⟩ := Parse.bind_eq_ok h₂
    cases h₃
    exact .inl ⟨data, by rw [hdata]⟩
  · obtain ⟨reference, -, h₃⟩ := Parse.bind_eq_ok h₂
    obtain ⟨rest', -, h₄⟩ := Parse.bind_eq_ok h₃
    cases h₄
    exact .inr ⟨reference, by rw [hreference]⟩

def feedOf (request : IntRequest) : FeedTag → Feed
  | .input => request.input
  | .output => request.output

theorem jugIntDecode_shape {m : Memory} {request : IntRequest}
    (h : jugIntDecode m = .ok request) (tag : FeedTag) :
    (∃ data, feedOf request tag = ⟨feedtypeData, some data, none⟩) ∨
      ∃ reference, feedOf request tag = ⟨feedtypeReference, none, some reference⟩ := by
  obtain ⟨⟨request', sep₁, sep₂⟩, hparts, hpure⟩ := Parse.bind_eq_ok h
  obtain rfl : request' = request := Parse.ok.inj hpure
  obtain ⟨type, -, h₁⟩ := Parse.bind_eq_ok hparts
  obtain ⟨string, -, h₂⟩ := Parse.bind_eq_ok h₁
  obtain ⟨⟨input, sep₁'⟩, hinput, h₃⟩ := Parse.bind_eq_ok h₂
  obtain ⟨⟨output, sep₂'⟩, houtput, h₄⟩ := Parse.bind_eq_ok h₃
  obtain ⟨sourcecode, -, h₅⟩ := Parse.bind_eq_ok h₄
  rw [Parse.pure_eq, Parse.ok.injEq, Prod.mk.injEq] at h₅
  obtain ⟨rfl, -⟩ := h₅
  cases tag with
  | input => exact parseFeed_shape hinput
  | output => exact parseFeed_shape houtput

def copyOps : List (Op Field) :=
  [.use .sourcecode, .write .source, .use .source, .use .sourcecode, .use .source]

def removeOps : List (Op Field) :=
  [.use .binPath, .use (.filename .input), .use (.filename .output)]

section

variable {o : Outcomes} {request : IntRequest}

theorem fieldOps_refused (htype : request.type = reqTypeJudge)
    (herror : (o.langProcess (request.sourcecode.getD [])).1 ≠ 0) :
    fieldOps o request =
      .write .threadId :: decodeOps request ++ .use .requestType ::
      operations (feedTrace o .input request.input) ++
      operations (feedTrace o .output request.output) ++ copyOps ++
      langOps (o.langProcess (request.sourcecode.getD [])).2 ++ freeBinaryInformationOps ++
      freeRequestOps := by
  simp only [fieldOps, requestTrace, serveTrace]
  rw [if_pos htype, if_pos herror]
  simp only [operations_append, operations_ops, List.append_assoc]
  rfl

theorem fieldOps_compiled (htype : request.type = reqTypeJudge)
    (herror : (o.langProcess (request.sourcecode.getD [])).1 = 0) :
    fieldOps o request =
      .write .threadId :: decodeOps request ++ .use .requestType ::
      operations (feedTrace o .input request.input) ++
      operations (feedTrace o .output request.output) ++ copyOps ++
      langOps (o.langProcess (request.sourcecode.getD [])).2 ++ injectOps ++
      freeBinaryInformationOps ++ freeRequestOps ++
      operations (judgeTrace (o.judge (submissionOf o request)) (submissionOf o request)) ++
      removeOps ++ freeSubmissionOps := by
  simp only [fieldOps, requestTrace, serveTrace]
  rw [if_pos htype, if_neg (not_not.mpr herror)]
  simp only [operations_append, operations_ops, List.append_assoc]
  rfl

theorem feedTrace_writes {tag : FeedTag} {feed : Feed} {field : Field}
    (h : .write field ∈ operations (feedTrace o tag feed)) : field = .filename tag := by
  unfold feedTrace at h
  split_ifs at h
  · simp [operations] at h
  · simpa [operations] using h
  · simp [operations] at h

theorem operations_judgeTrace (j : JudgeOutcomes) (submission : Submission) :
    let opening : List (Op Field) := [.use (.filename .input), .use (.filename .output)]
    let reported : List (Op Field) := [.use (.filename .output)]
    let prepared : List (Op Field) := [.use (.filename .input), .use .threadId, .use .threadId]
    let running : List (Op Field) := [.use .binPath, .use .binPath, .use .threadId]
    operations (judgeTrace j submission) = opening ++ reported ∨
      operations (judgeTrace j submission) = opening ++ prepared ∨
      operations (judgeTrace j submission) = opening ++ prepared ++ running := by
  intro opening reported prepared running
  unfold judgeTrace
  split_ifs
  · exact .inl rfl
  · exact .inr (.inl rfl)
  · exact .inr (.inr rfl)

theorem judgeTrace_writes {j : JudgeOutcomes} {submission : Submission} (field : Field) :
    .write field ∉ operations (judgeTrace j submission) := by
  rcases operations_judgeTrace j submission with hops | hops | hops <;> simp [hops]

theorem fieldOps_writes (htype : request.type = reqTypeJudge) {field : Field}
    (h : .write field ∈ fieldOps o request) (hown : ∀ tag, field ≠ .filename tag)
    (hlocal : field ∉ [.threadId, .source, .binPath, .binCmd, .interpreted]) :
    .write field ∈ decodeOps request ∨
      .write field ∈ langOps (o.langProcess (request.sourcecode.getD [])).2 := by
  have hfeed : ∀ tag feed, .write field ∉ operations (feedTrace o tag feed) :=
    fun tag feed hmem => hown tag (feedTrace_writes hmem)
  simp only [List.mem_cons, List.not_mem_nil, or_false, not_or] at hlocal
  by_cases herror : (o.langProcess (request.sourcecode.getD [])).1 = 0
  · rw [fieldOps_compiled htype herror] at h
    simpa [hfeed, judgeTrace_writes, copyOps, injectOps, removeOps, freeBinaryInformationOps,
      freeRequestOps, freeSubmissionOps, hlocal] using h
  · rw [fieldOps_refused htype herror] at h
    simpa [hfeed, copyOps, freeBinaryInformationOps, freeRequestOps, hlocal] using h

theorem fieldOps_frees (htype : request.type = reqTypeJudge) {field : Field}
    (h : .free field ∈ freeBinaryInformationOps ∨ .free field ∈ freeRequestOps) :
    .free field ∈ fieldOps o request := by
  by_cases herror : (o.langProcess (request.sourcecode.getD [])).1 = 0
  · rw [fieldOps_compiled htype herror]
    simp only [List.mem_append]
    tauto
  · rw [fieldOps_refused htype herror]
    simp only [List.mem_append]
    tauto

theorem content_of_clean (htype : request.type = reqTypeJudge) (h : Clean (fieldOps o request))
    (tag : FeedTag) : (feedOf request tag).data.isSome = true := by
  have hfree : .free (.content tag) ∈ fieldOps o request :=
    fieldOps_frees htype (.inr (by cases tag <;> decide))
  have hwrite := fieldOps_writes htype (h.written (.inr hfree)) (fun _ heq => by cases heq) (by simp)
  rcases hwrite with hdecode | hlang
  · cases tag <;> simpa [decodeOps, decodeFeed, feedOf] using hdecode
  · simp [langOps] at hlang

theorem binCmd_of_clean (htype : request.type = reqTypeJudge) (h : Clean (fieldOps o request)) :
    (o.langProcess (request.sourcecode.getD [])).2.binCmd.isSome = true := by
  have hfree : .free .infoBinCmd ∈ fieldOps o request := fieldOps_frees htype (.inl (by decide))
  have hwrite := fieldOps_writes htype (h.written (.inr hfree)) (fun _ heq => by cases heq) (by simp)
  rcases hwrite with hdecode | hlang
  · simp [decodeOps, decodeFeed] at hdecode
  · simpa [langOps] using hlang

end

def byValue (input output source : List UInt8) : IntRequest :=
  ⟨reqTypeJudge, ⟨feedtypeData, some input, none⟩, ⟨feedtypeData, some output, none⟩, some source⟩

section

variable {lo : LangOutcomes} {o : Outcomes} {input output source : List UInt8}

theorem decodeOps_byValue : decodeOps (byValue input output source) =
    [.write .requestType, .write (.feedType .input), .write (.content .input),
      .use (.content .input), .write (.feedType .output), .write (.content .output),
      .use (.content .output), .write .sourcecode, .use .sourcecode] :=
  rfl

theorem operations_feedTrace_value (tag : FeedTag) (data : List UInt8) :
    operations (feedTrace o tag ⟨feedtypeData, some data, none⟩) =
      [.use (.feedType tag), .use (.feedType tag), .use (.content tag), .write (.filename tag)] :=
  rfl

theorem clean_refused (herror : (o.langProcess source).1 ≠ 0)
    (hinfo : (o.langProcess source).2 = allocated lo) :
    Clean (fieldOps o (byValue input output source)) := by
  have hlang : langOps (o.langProcess source).2 = [.write .infoBinCmd, .write .infoBinPath] := by
    rw [hinfo]
    rfl
  rw [fieldOps_refused rfl herror, decodeOps_byValue]
  simp only [byValue, Option.getD_some, operations_feedTrace_value, hlang]
  decide

theorem clean_compiled {lang : Lang} {path : List UInt8} (herror : (o.langProcess source).1 = 0)
    (hinfo : (o.langProcess source).2 = assigned lang path) :
    Clean (fieldOps o (byValue input output source)) := by
  have hlang : langOps (o.langProcess source).2 = [.write .infoBinCmd, .write .infoBinPath,
      .use .infoBinCmd, .write .infoInterpreted, .use .infoBinPath] := by
    rw [hinfo]
    rfl
  rw [fieldOps_compiled rfl herror, decodeOps_byValue]
  have hjudge := operations_judgeTrace (o.judge (submissionOf o (byValue input output source)))
    (submissionOf o (byValue input output source))
  rcases hjudge with hops | hops | hops
  all_goals
    rw [hops]
    simp only [byValue, Option.getD_some, operations_feedTrace_value, hlang]
    decide

end

theorem eq_byValue {m : Memory} {request : IntRequest} (h : jugIntDecode m = .ok request)
    (htype : request.type = reqTypeJudge) (hdata : ∀ tag, (feedOf request tag).type = feedtypeData) :
    ∃ input output source, request = byValue input output source := by
  have hfeed : ∀ tag, ∃ data, feedOf request tag = ⟨feedtypeData, some data, none⟩ := by
    intro tag
    rcases jugIntDecode_shape h tag with hvalue | ⟨reference, hfeed⟩
    · exact hvalue
    · have hreference := hdata tag
      rw [hfeed] at hreference
      exact absurd (show feedtypeReference = feedtypeData from hreference) (by decide)
  obtain ⟨input, hinput⟩ := hfeed .input
  obtain ⟨output, houtput⟩ := hfeed .output
  obtain ⟨source, hsource⟩ := jugIntDecode_sourcecode h htype
  obtain ⟨type, requestInput, requestOutput, sourcecode⟩ := request
  change type = reqTypeJudge at htype
  change requestInput = _ at hinput
  change requestOutput = _ at houtput
  change sourcecode = _ at hsource
  subst htype hinput houtput hsource
  exact ⟨input, output, source, rfl⟩

theorem clean_unserved {o : Outcomes} {request : IntRequest} (htype : request.type ≠ reqTypeJudge) :
    Clean (fieldOps o request) := by
  have hops : operations (requestTrace o request) = [.use .requestType, .use .requestType] := by
    rw [requestTrace, if_neg htype]
    rfl
  rw [fieldOps, hops, decodeOps, decodeFeed, decodeFeed]
  generalize request.input.data.isSome = inputData
  generalize request.input.reference.isSome = inputReference
  generalize request.output.data.isSome = outputData
  generalize request.output.reference.isSome = outputReference
  generalize request.sourcecode.isSome = source
  decide +revert

/-- The calls are those of the worker, and between them no field is used that is unassigned or
freed exactly if, for a judgement, both feeds come by value and `lang_process` gets to its
allocations. -/
theorem only_assigned_iff (lo : LangOutcomes) (o : Outcomes) (files : Finset (List UInt8))
    (body : StringBuffer.Buffer) (request : IntRequest)
    (hlang : ∀ source, o.langProcess source =
      (langProcess lo langC source o.workerId files).result)
    (hbody : jugIntReceive o.received = .buffer body)
    (hdecode : jugIntDecode (body.str ++ 0 :: o.behind) = .ok request) :
    calls (requestTrace o request) = (queueWorkerServ o).1 ∧
      (Clean (fieldOps o request) ↔ (request.type = reqTypeJudge →
        (∀ tag, (feedOf request tag).type = feedtypeData) ∧ Allocates lo langC)) := by
  by_cases htype : request.type = reqTypeJudge
  · have hserv := congrArg Prod.fst (queueWorkerServ_judge hbody hdecode htype)
    have hcalls : calls (requestTrace o request) = serveJudge o request := by
      rw [requestTrace, if_pos htype, calls_append, calls_serveTrace]
      rfl
    refine ⟨by rw [hserv, hcalls], ?_⟩
    have hresult := hlang (request.sourcecode.getD [])
    constructor
    · intro hclean _
      constructor
      · intro tag
        have hcontent := content_of_clean htype hclean tag
        rcases jugIntDecode_shape hdecode tag with ⟨data, hfeed⟩ | ⟨reference, hfeed⟩
        · rw [hfeed]
        · rw [hfeed] at hcontent
          cases hcontent
      · have hcmd := binCmd_of_clean htype hclean
        rcases langProcess_cases (request.sourcecode.getD []) o.workerId files lo langC with
          ⟨-, -, hinfo, -⟩ | ⟨halloc, -⟩ | ⟨halloc, -⟩
        · rw [hresult, Processed.result, hinfo] at hcmd
          cases hcmd
        · exact halloc
        · exact halloc
    · intro hcond
      obtain ⟨hdata, halloc⟩ := hcond htype
      obtain ⟨input, output, source, rfl⟩ := eq_byValue hdecode htype hdata
      change o.langProcess source = _ at hresult
      rcases langProcess_cases source o.workerId files lo langC with
        ⟨hnot, -⟩ | ⟨-, hcode, hinfo, -⟩ | ⟨-, hcode, lang, path, hinfo, -⟩
      · exact absurd halloc hnot
      · exact clean_refused (by rw [hresult]; exact hcode) (by rw [hresult]; exact hinfo)
      · exact clean_compiled (by rw [hresult]; exact hcode) (by rw [hresult]; exact hinfo)
  · have hserv : (queueWorkerServ o).1 = [] := by
      simp only [queueWorkerServ, hbody, hdecode, if_neg htype]
    have hcalls : calls (requestTrace o request) = [] := by
      rw [requestTrace, if_neg htype]
      rfl
    exact ⟨by rw [hserv, hcalls], fun _ hjudge => absurd hjudge htype,
      fun _ => clean_unserved htype⟩

theorem only_assigned_iff_served :
    Clean (fieldOps (served true) (byValue [55] [97] [120])) :=
  (only_assigned_iff (withCompiler true) (served true) ∅ _ _ (fun _ => rfl) rfl rfl).2.mpr
    fun _ => ⟨fun tag => by cases tag <;> rfl, .inl rfl, rfl⟩

def referenceBody : List UInt8 := ascii "0\n1\n1\n0\n1\na\n1\nx"

def byReference : IntRequest :=
  ⟨reqTypeJudge, ⟨feedtypeReference, none, some 1⟩, ⟨feedtypeData, some [97], none⟩, some [120]⟩

def referenced : Outcomes := { served true with received := [.bytes (frame referenceBody)] }

def withoutC : LangOutcomes := { withCompiler true with languages := [] }

def unconfigured : Outcomes :=
  { client judgeBody with
    langProcess := fun source => (langProcess withoutC langC source 0 ∅).result }

/-- The name of the input file is opened, unlinked and freed although no feed by reference gets
one, and the fields of `binInfo` are freed although an unknown language has none. -/
theorem unassigned_used :
    (∃ body, jugIntReceive referenced.received = .buffer body ∧
      jugIntDecode (body.str ++ 0 :: referenced.behind) = .ok byReference ∧
      .write (.filename .input) ∉ fieldOps referenced byReference ∧
      .use (.filename .input) ∈ fieldOps referenced byReference ∧
      .free (.filename .input) ∈ fieldOps referenced byReference ∧
      ¬ Clean (fieldOps referenced byReference)) ∧
    ∃ body, jugIntReceive unconfigured.received = .buffer body ∧
      jugIntDecode (body.str ++ 0 :: unconfigured.behind) = .ok (byValue [55] [97] [120]) ∧
      unconfigured.langProcess [120] = (-1, ⟨none, none, none⟩) ∧
      ¬ Clean (fieldOps unconfigured (byValue [55] [97] [120])) :=
  ⟨⟨_, rfl, by decide, by decide, by decide, by decide, by decide⟩,
    ⟨_, rfl, by decide, rfl, by decide⟩⟩

end KudosJudge.FieldUse
