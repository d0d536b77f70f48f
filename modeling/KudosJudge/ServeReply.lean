import KudosJudge.FieldUse

set_option autoImplicit false

/-!
`jug_int_send_verdict` of `interface.c` and what `queue_worker_serv` does with the
socket of its client. The client reads until the peer closes.
-/
namespace KudosJudge.WorkerServe
open CText FieldUse InterfaceDecode InterfaceReceive LangProcess Results

def jugIntVerdictToString : Verdict → String
  | .accepted => "ACCEPTED"
  | .wrong => "WRONG ANSWER"
  | .compileError => "COMPILING ERROR"
  | .timelimit => "TIME LIMIT EXCEEDED"
  | .memlimit => "MEMORY LIMIT EXCEEDED"
  | .outputlimit => "OUTPUT LIMIT EXCEEDED"
  | .runtime => "RUNTIME ERROR"
  | .internal => "INTERNAL ERROR"

def response (v : Verdict) : List UInt8 := frame (ascii (jugIntVerdictToString v))

/-- `send`: the number of bytes taken, 0 when the peer is gone, or an error. -/
inductive SendResult where
  | sent (n : ℕ)
  | error
deriving DecidableEq, Repr

def sendLoop : List UInt8 → List SendResult → List UInt8
  | [], _ => []
  | _ :: _, [] => []
  | _ :: _, .error :: _ => []
  | _ :: _, .sent 0 :: _ => []
  | b :: bytes, .sent (n + 1) :: sends => b :: bytes.take n ++ sendLoop (bytes.drop n) sends

def jugIntSendVerdict (sends : List SendResult) (v : Verdict) : List UInt8 :=
  sendLoop (response v) sends

/-- Every `send` takes something, and there are as many of them as the response can have bytes. -/
def Accepting (sends : List SendResult) : Prop :=
  (∀ r ∈ sends, ∃ n, r = .sent (n + 1)) ∧ 100 ≤ sends.length

theorem sendLoop_whole {bytes : List UInt8} {sends : List SendResult}
    (htaken : ∀ r ∈ sends, ∃ n, r = .sent (n + 1)) (hlength : bytes.length ≤ sends.length) :
    sendLoop bytes sends = bytes := by
  induction sends generalizing bytes with
  | nil =>
    rw [List.length_nil, Nat.le_zero, List.length_eq_zero_iff] at hlength
    rw [hlength, sendLoop]
  | cons r sends ih =>
    cases bytes with
    | nil => rfl
    | cons b bytes =>
      obtain ⟨n, rfl⟩ := htaken _ List.mem_cons_self
      have hrest : (bytes.drop n).length ≤ sends.length := by
        rw [List.length_drop]
        simp only [List.length_cons] at hlength
        omega
      rw [sendLoop, ih (fun r hr => htaken r (List.mem_cons_of_mem _ hr)) hrest, List.cons_append,
        List.take_append_drop]

theorem jugIntSendVerdict_whole {sends : List SendResult} (h : Accepting sends) (v : Verdict) :
    jugIntSendVerdict sends v = response v := by
  have hlength : (response v).length ≤ 100 := by
    cases v <;> decide
  exact sendLoop_whole h.1 (hlength.trans h.2)

inductive SocketCall where
  | send (bytes : List UInt8)
  | close
deriving DecidableEq, Repr

def socketCall (sends : List SendResult) : Event → Option SocketCall
  | .sendVerdict v => some (.send (jugIntSendVerdict sends v))
  | .closeSocket => some .close
  | _ => none

/-- A call that ends has returned, with one verdict sent and the socket closed behind it. -/
def OneReply (sends : List SendResult) (o : Outcomes) : Prop :=
  (queueWorkerServ o).2 ≠ .receiving → (queueWorkerServ o).2 = .returned ∧
    ∃ v, (queueWorkerServ o).1.filterMap (socketCall sends) = [.send (response v), .close]

section

variable {sends : List SendResult}

theorem storeFeed_offline (o : Outcomes) (tag : FeedTag) (feed : Feed) :
    (storeFeed o tag feed).1.filterMap (socketCall sends) = [] := by
  unfold storeFeed jugFeedNewFile
  split_ifs <;> rfl

theorem jugRunnerJudge_offline (o : JudgeOutcomes) (submission : Submission) :
    (jugRunnerJudge o submission).1.filterMap (socketCall sends) = [] := by
  unfold jugRunnerJudge
  split_ifs <;> rfl

theorem serveJudge_online (h : Accepting sends) (o : Outcomes) (request : IntRequest) :
    ∃ v, (serveJudge o request).filterMap (socketCall sends) = [.send (response v), .close] := by
  by_cases herror : (o.langProcess (request.sourcecode.getD [])).1 = 0
  · refine ⟨(jugRunnerJudge (o.judge (submissionOf o request)) (submissionOf o request)).2, ?_⟩
    rw [serveJudge_compiled herror]
    simp only [List.filterMap_append, storeFeed_offline, jugRunnerJudge_offline,
      ← jugIntSendVerdict_whole h]
    rfl
  · refine ⟨if (o.langProcess (request.sourcecode.getD [])).1 = -3 then .compileError
      else .internal, ?_⟩
    rw [serveJudge_refused herror]
    simp only [List.filterMap_append, storeFeed_offline, ← jugIntSendVerdict_whole h]
    rfl

theorem freed_serveJudge (o : Outcomes) (request : IntRequest) :
    .freeBinaryInformation (o.langProcess (request.sourcecode.getD [])).2 ∈ serveJudge o request ∧
      .freeRequest request ∈ serveJudge o request := by
  by_cases herror : (o.langProcess (request.sourcecode.getD [])).1 = 0
  · rw [serveJudge_compiled herror]
    simp [submissionOf]
  · rw [serveJudge_refused herror]
    simp [refusal]

theorem ending_eq_returned_iff {events : List Event} :
    ending events = .returned ↔ ∀ e ∈ events, e.assigned = true := by
  unfold ending
  split_ifs with hall
  · exact iff_of_true rfl (List.all_eq_true.mp hall)
  · exact iff_of_false (fun heq => by cases heq) fun h => hall (List.all_eq_true.mpr h)

theorem storeFeed_assigned {o : Outcomes} {tag : FeedTag} {feed : Feed} :
    ∀ e ∈ (storeFeed o tag feed).1, e.assigned = true := by
  unfold storeFeed jugFeedNewFile
  split_ifs <;> simp [Event.assigned]

theorem jugRunnerJudge_assigned {o : JudgeOutcomes} {submission : Submission}
    (hinput : submission.inputFilename.isSome = true)
    (houtput : submission.outputFilename.isSome = true) :
    ∀ e ∈ (jugRunnerJudge o submission).1, e.assigned = true := by
  unfold jugRunnerJudge
  split_ifs <;> simp [Event.assigned, hinput, houtput]

theorem judgement_assigned {submission : Submission} {v : Verdict}
    (hinput : submission.inputFilename.isSome = true)
    (houtput : submission.outputFilename.isSome = true) (hsource : submission.source.isSome = true)
    (hpath : submission.binary.binPath.isSome = true)
    (hcmd : submission.binary.binCmd.isSome = true) :
    ∀ e ∈ judgement submission v, e.assigned = true := by
  simp [judgement, Event.assigned, hinput, houtput, hsource, hpath, hcmd]

section

variable {o : Outcomes} {input output source : List UInt8}

theorem ending_refused (herror : (o.langProcess source).1 ≠ 0) {lo : LangOutcomes}
    (hinfo : (o.langProcess source).2 = allocated lo) :
    ending (serveJudge o (byValue input output source)) = .returned := by
  rw [ending_eq_returned_iff, serveJudge_refused herror]
  change (o.langProcess ((byValue input output source).sourcecode.getD [])).2 = _ at hinfo
  intro e he
  simp only [List.mem_append, List.mem_singleton] at he
  rcases he with ((hstored | hstored) | rfl) | hrefused
  · exact storeFeed_assigned e hstored
  · exact storeFeed_assigned e hstored
  · rfl
  · simp only [refusal, hinfo, List.mem_cons, List.not_mem_nil, or_false] at hrefused
    rcases hrefused with rfl | rfl | rfl | rfl <;> rfl

theorem ending_compiled (herror : (o.langProcess source).1 = 0) {lang : Lang} {path : List UInt8}
    (hinfo : (o.langProcess source).2 = assigned lang path) :
    ending (serveJudge o (byValue input output source)) = .returned := by
  have hbinary : (submissionOf o (byValue input output source)).binary = assigned lang path := hinfo
  rw [ending_eq_returned_iff, serveJudge_compiled herror]
  intro e he
  simp only [List.mem_append, List.mem_singleton] at he
  rcases he with ((((hstored | hstored) | rfl) | hfreed) | hjudged) | hremoved
  · exact storeFeed_assigned e hstored
  · exact storeFeed_assigned e hstored
  · rfl
  · simp only [hbinary, List.mem_cons, List.not_mem_nil, or_false] at hfreed
    rcases hfreed with rfl | rfl <;> rfl
  · exact jugRunnerJudge_assigned rfl rfl e hjudged
  · exact judgement_assigned rfl rfl rfl (by rw [hbinary]; rfl) (by rw [hbinary]; rfl) e hremoved

end

theorem ending_serveJudge {lo : LangOutcomes} {o : Outcomes} {files : Finset (List UInt8)}
    {m : Memory} {request : IntRequest}
    (hlang : ∀ source, o.langProcess source =
      (langProcess lo langC source o.workerId files).result)
    (hdecode : jugIntDecode m = .ok request) (htype : request.type = reqTypeJudge) :
    ending (serveJudge o request) = .returned ↔
      (∀ tag, (feedOf request tag).type = feedtypeData) ∧ Allocates lo langC := by
  have hresult := hlang (request.sourcecode.getD [])
  have hcases := langProcess_cases (request.sourcecode.getD []) o.workerId files lo langC
  constructor
  · intro hreturned
    have hall := ending_eq_returned_iff.mp hreturned
    obtain ⟨hbinary, hrequest⟩ := freed_serveJudge o request
    have hfields := hall _ hbinary
    have hcontents := hall _ hrequest
    simp only [Event.assigned, decide_eq_true_eq] at hfields hcontents
    constructor
    · intro tag
      have hcontent : (feedOf request tag).data.isSome = true := by
        cases tag with
        | input => exact hcontents.2.1
        | output => exact hcontents.2.2
      rcases jugIntDecode_shape hdecode tag with ⟨data, hfeed⟩ | ⟨reference, hfeed⟩
      · rw [hfeed]
      · rw [hfeed] at hcontent
        cases hcontent
    · rcases hcases with ⟨-, -, hinfo, -⟩ | ⟨halloc, -⟩ | ⟨halloc, -⟩
      · rw [hresult, Processed.result, hinfo] at hfields
        cases hfields.1
      · exact halloc
      · exact halloc
  · rintro ⟨hdata, halloc⟩
    obtain ⟨input, output, source, rfl⟩ := eq_byValue hdecode htype hdata
    change o.langProcess source = _ at hresult
    rcases hcases with ⟨hnot, -⟩ | ⟨-, hcode, hinfo, -⟩ | ⟨-, hcode, lang, path, hinfo, -⟩
    · exact absurd halloc hnot
    · exact ending_refused (by rw [hresult]; exact hcode) (by rw [hresult]; exact hinfo)
    · exact ending_compiled (by rw [hresult]; exact hcode) (by rw [hresult]; exact hinfo)

end

/-- A connection gets one reply and one close exactly if its body decodes to a request for a
judgement with both feeds by value, and `lang_process` gets to its allocations, or if it has not
sent enough yet. -/
theorem one_reply_iff (sends : List SendResult) (hsends : Accepting sends) (lo : LangOutcomes)
    (o : Outcomes) (files : Finset (List UInt8))
    (hlang : ∀ source, o.langProcess source =
      (langProcess lo langC source o.workerId files).result) :
    OneReply sends o ↔ jugIntReceive o.received = .waiting ∨
      ∃ body request, jugIntReceive o.received = .buffer body ∧
        jugIntDecode (body.str ++ 0 :: o.behind) = .ok request ∧ request.type = reqTypeJudge ∧
        (∀ tag, (feedOf request tag).type = feedtypeData) ∧ Allocates lo langC := by
  unfold OneReply
  cases hbody : jugIntReceive o.received with
  | waiting => simp [queueWorkerServ, hbody]
  | null => simp [queueWorkerServ, hbody, socketCall]
  | buffer body =>
    cases hdecode : jugIntDecode (body.str ++ 0 :: o.behind) with
    | fault => simp [queueWorkerServ, hbody, hdecode]
    | ret code => simp [queueWorkerServ, hbody, hdecode, socketCall]
    | ok request =>
      by_cases htype : request.type = reqTypeJudge
      · have honline := serveJudge_online hsends o request
        have hending := ending_serveJudge hlang hdecode htype
        have hended : ending (serveJudge o request) ≠ .receiving := by
          unfold ending
          split_ifs <;> exact fun heq => by cases heq
        simp only [queueWorkerServ_judge hbody hdecode htype, honline, hending, hended, ne_eq,
          not_false_eq_true, true_implies, and_true, reduceCtorEq, false_or]
        constructor
        · exact fun hcond => ⟨body, request, rfl, hdecode, htype, hcond⟩
        · rintro ⟨body', request', heq, hdecode', -, hcond⟩
          cases heq
          rw [hdecode, Parse.ok.injEq] at hdecode'
          rw [hdecode']
          exact hcond
      · simp [queueWorkerServ, hbody, hdecode, htype]

def setfeedBody : List UInt8 := [49, 10, 49, 10, 48, 10, 49, 10, 48, 10]

theorem accepting_bytewise : Accepting (List.replicate 100 (.sent 1)) := by
  refine ⟨fun r hr => ⟨0, ?_⟩, ?_⟩
  · exact List.eq_of_mem_replicate hr
  · rw [List.length_replicate]

theorem one_reply_iff_judge :
    (queueWorkerServ (served true)).2 = .returned ∧
      ∃ v, (queueWorkerServ (served true)).1.filterMap
        (socketCall (List.replicate 100 (.sent 1))) = [.send (response v), .close] := by
  have hreply : OneReply (List.replicate 100 (.sent 1)) (served true) :=
    (one_reply_iff _ accepting_bytewise (withCompiler true) _ ∅ fun _ => rfl).mpr
      (.inr ⟨_, byValue [55] [97] [120], rfl, rfl, rfl, fun tag => by cases tag <;> rfl,
        .inl rfl, rfl⟩)
  exact hreply (by decide)

theorem one_reply_missed :
    queueWorkerServ (client setfeedBody) = ([], .returned) ∧
      queueWorkerServ unknownFeedType = ([.sendVerdict .accepted], .returned) ∧
      (queueWorkerServ referenced).2 = .undefined ∧
      ∀ sends, ¬ OneReply sends (client setfeedBody) ∧ ¬ OneReply sends unknownFeedType ∧
        ¬ OneReply sends referenced := by
  have hsetfeed : queueWorkerServ (client setfeedBody) = ([], .returned) := by decide
  have hunknown : queueWorkerServ unknownFeedType = ([.sendVerdict .accepted], .returned) := by
    decide
  have hreferenced : (queueWorkerServ referenced).2 = .undefined := by decide
  refine ⟨hsetfeed, hunknown, hreferenced, fun sends => ⟨?_, ?_, ?_⟩⟩
  · simp [OneReply, hsetfeed]
  · simp [OneReply, hunknown, socketCall]
  · simp [OneReply, hreferenced]

end KudosJudge.WorkerServe
