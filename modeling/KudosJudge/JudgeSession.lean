import KudosJudge.ClientForge
import KudosJudge.ClientReceive
import KudosJudge.JudgeProgress

set_option autoImplicit false

namespace KudosJudge.JudgeSession
open CText CompareOutput InterfaceDecode InterfaceReceive ClientForge ClientReceive
open JudgeWorkers Results Runs WorkerServe

/-- `kudosjudge_send`: the bytes that get out before a `send` fails. -/
def kudosjudgeSend (sends : List SendResult) (request : List UInt8) : List UInt8 :=
  sendLoop request sends

/-- The three files of a client: free of NUL, within the arrays of `kudosdjudge_forge_dd`, and
with a request that the daemon's buffer takes without being filled by it. -/
structure Client where
  source : List UInt8
  input : List UInt8
  output : List UInt8
  source_clean : 0 ∉ source
  input_clean : 0 ∉ input
  output_clean : 0 ∉ output
  source_fits : source.length < sourceSize
  output_fits : output.length < outputSize
  size : (frame (forgeBody source input output)).length < requestSizeMax
  unfilled : (frame (forgeBody source input output)).length % 1024 ≠ 0

def Client.body (client : Client) : List UInt8 :=
  forgeBody client.source client.input client.output

def Client.request (client : Client) : Request := ⟨client.input, client.output, client.source⟩

def Client.intRequest (client : Client) : IntRequest :=
  ⟨reqTypeJudge, ⟨feedtypeData, some client.input, none⟩, ⟨feedtypeData, some client.output, none⟩,
    some client.source⟩

def requestOf (request : IntRequest) : Request :=
  ⟨request.input.data.getD [], request.output.data.getD [], request.sourcecode.getD []⟩

section

variable (client : Client)

theorem Client.small :
    client.source.length + client.input.length + client.output.length < requestSizeMax := by
  have hsize := client.size
  have hframe := frame_length (forgeBody client.source client.input client.output)
  have hbody : client.source.length + client.input.length + client.output.length ≤
      (forgeBody client.source client.input client.output).length := by
    simp only [forgeBody, List.length_append, List.length_cons]
    omega
  omega

theorem Client.forge :
    kudosdjudgeForgeDd client.source client.input client.output = some (frame client.body) := by
  have hsmall := client.small
  have hsource := client.source_fits
  have houtput := client.output_fits
  unfold requestSizeMax at hsmall
  obtain ⟨hroom, -⟩ := forgeBody_length client.source client.input client.output (by omega)
  have hframe := frame_length client.body
  have hsize := client.size
  unfold requestSizeMax at hsize
  have hdigits : (decimal client.body.length).length ≤ 8 :=
    decimal_length_le (by decide) (by unfold Client.body; omega)
  simp only [kudosdjudgeForgeDd, readFile_clean client.source_clean,
    readFile_clean client.input_clean, readFile_clean client.output_clean]
  rw [if_pos]
  · rfl
  · unfold Client.body at hframe hdigits
    omega

theorem Client.decoded {sends : List SendResult} {fragments : List (List UInt8)}
    (hsends : ∀ r ∈ sends, ∃ n, r = .sent (n + 1))
    (henough : (frame client.body).length ≤ sends.length) (hne : ∀ f ∈ fragments, f ≠ [])
    (hstream : fragments.flatten = kudosjudgeSend sends (frame client.body)) (behind : Memory) :
    ∃ body, jugIntReceive (fragments.map .bytes) = .buffer body ∧
      jugIntDecode (body.str ++ 0 :: behind) = .ok client.intRequest := by
  have hsmall := client.small
  unfold requestSizeMax at hsmall
  rw [kudosjudgeSend, sendLoop_whole hsends henough] at hstream
  have hclean : 0 ∉ client.body :=
    forgeBody_clean client.source_clean client.input_clean client.output_clean
  have hpos : client.body ≠ [] := by
    unfold Client.body forgeBody
    simp
  obtain ⟨body, hbody, hstr⟩ := jugIntReceive_frame hclean hpos client.size hne hstream
  rw [Client.body, if_neg client.unfilled] at hstr
  refine ⟨body, hbody, ?_⟩
  rw [hstr]
  exact jugIntDecode_forgeBody client.source_clean client.input_clean client.output_clean
    (by omega) (by omega) (by omega) behind

end

theorem receive_frame {w : List UInt8} (hzero : 0 ∉ w) (hline : newline ∉ w) (hshort : w.length < 50)
    (calls : ℕ) (stale : ℕ → UInt8) :
    kudosjudgeReceive (calls + 1) stale [.bytes (frame w)] = .ok w := by
  have hlength := frame_length w
  have hfew := decimal_length_short hshort
  have harrival : Arrival w [] (decimal w.length) w [] := by
    refine ⟨rfl, List.append_nil _, fun p hp => ?_, hzero, hline, hshort⟩
    rw [List.mem_singleton.mp hp]
    rw [← frame, hlength]
    omega
  have hpiece : 0 ∉ decimal w.length ++ newline :: w := frame_clean hzero
  have hcounts := harrival.counts_iff.mpr (.inl rfl)
  have hstart : ((List.range initBufferSize).map stale).length = initBufferSize := by
    rw [List.length_map, List.length_range]
  have hheader : (calls + 1 ≤ ([] : List (List UInt8)).length ∧ _) ∨ _ :=
    headerLoop_pieces (b := decimal w.length ++ newline :: w) (calls + 1) 0 [] hstart
      (fun _ hp => absurd hp List.not_mem_nil)
      (by rw [← frame, hlength]; omega) hpiece (by simp)
  rcases hheader with ⟨hnone, -⟩ | ⟨tail, hsize, hpieces⟩
  · cases hnone
  · change headerLoop _ _ _ [.bytes (frame w)] = _ at hpieces
    rw [kudosjudgeReceive, hpieces]
    change receiveRest _ _ _ _ [] = _
    simp only [List.flatten_nil, List.length_nil, Nat.zero_add] at hcounts ⊢
    rw [← sizeExpected_terminated hpiece tail] at hcounts
    refine receiveRest_whole calls stale (newline_not_mem_decimal _) (zero_not_mem_decimal _) hzero
      le_rfl ?_ hcounts.1 hcounts.2
    simp only [List.length_append, List.length_cons]
    omega

theorem jugIntVerdictToString_clean (v : Verdict) :
    0 ∉ ascii (jugIntVerdictToString v) ∧ newline ∉ ascii (jugIntVerdictToString v) ∧
      (ascii (jugIntVerdictToString v)).length < 50 := by
  cases v <;> decide

theorem ascii_accepted {v : Verdict} : ascii (jugIntVerdictToString v) = ascii "ACCEPTED" ↔
    v = .accepted := by
  cases v <;> decide

theorem reads_accepted_iff {sends : List SendResult} (h : Accepting sends) (stale : ℕ → UInt8)
    (v : Verdict) :
    (∃ calls, kudosjudgeReceive calls stale [.bytes (jugIntSendVerdict sends v)] =
      .ok (ascii "ACCEPTED")) ↔ v = .accepted := by
  obtain ⟨hzero, hline, hshort⟩ := jugIntVerdictToString_clean v
  have hread := fun calls => receive_frame hzero hline hshort calls stale
  rw [jugIntSendVerdict_whole h, response]
  constructor
  · rintro ⟨calls, hcalls⟩
    cases calls with
    | zero => cases hcalls
    | succ calls =>
      rw [hread calls, Except.ok.injEq] at hcalls
      exact ascii_accepted.mp hcalls
  · rintro rfl
    exact ⟨1, hread 0⟩

theorem deserved_accepted_iff (world : World) (r : Request) :
    deserved world r = .accepted ↔ ∃ binary, world.compiler r.sourcecode = some binary ∧
      r.output.rdropWhile (· = lf) = (world.program binary r.input).rdropWhile (· = lf) := by
  unfold deserved
  cases world.compiler r.sourcecode with
  | none => simp
  | some binary =>
    simp only [Option.some.injEq, exists_eq_left', RunSystem.verdict]
    split_ifs with hequal
    · simp [hequal, resultVerdict]
    · simp [hequal, resultVerdict]

/-- Whatever the fragments of its request, whichever worker serves it and whatever the other
workers do meanwhile, a client whose reply comes in one piece reads "ACCEPTED" exactly if its
source compiles to a program that writes its output file for its input file, up to line feeds
at the end. -/
theorem session_accepted_iff (world : World) (client : Client) (sends : List SendResult)
    (fragments : List (List UInt8)) (behind : Memory)
    (hsends : ∀ r ∈ sends, ∃ n, r = .sent (n + 1))
    (henough : (frame client.body).length ≤ sends.length) (hne : ∀ f ∈ fragments, f ≠ [])
    (hstream : fragments.flatten = kudosjudgeSend sends (frame client.body)) :
    kudosdjudgeForgeDd client.source client.input client.output = some (frame client.body) ∧
    ∃ body request, jugIntReceive (fragments.map .bytes) = .buffer body ∧
      jugIntDecode (body.str ++ 0 :: behind) = .ok request ∧ requestOf request = client.request ∧
      ∀ files j w v, Reaches (judgeStep world) (fun j a => allowed world true j a = true)
          (boot files) j → (requestOf request, v) ∈ (j.workers w).replies →
        ∀ replySends stale, Accepting replySends →
          ((∃ calls, kudosjudgeReceive calls stale [.bytes (jugIntSendVerdict replySends v)] =
            .ok (ascii "ACCEPTED")) ↔
          ∃ binary, world.compiler client.source = some binary ∧
            client.output.rdropWhile (· = lf) =
              (world.program binary client.input).rdropWhile (· = lf)) := by
  obtain ⟨body, hbody, hdecode⟩ := client.decoded hsends henough hne hstream behind
  refine ⟨client.forge, body, client.intRequest, hbody, hdecode, rfl, ?_⟩
  intro files j w v hrun hreply replySends stale hreplySends
  have hright := (serves_reachable hrun w).right _ hreply
  have hv : v = deserved world client.request := by
    rcases hright with hv | ⟨hfalse, -⟩
    · exact hv
    · cases hfalse
  rw [reads_accepted_iff hreplySends, hv, deserved_accepted_iff]
  rfl

theorem good_accepted :
    ∃ j, Reaches (judgeStep smallWorld) (fun j a => allowed smallWorld true j a = true)
      (boot fun _ => none) j ∧ (good, .accepted) ∈ (j.workers 0).replies := by
  have hreceived : ∃ j c stage, runWhere (judgeStep smallWorld)
      (fun j a => allowed smallWorld true j a = true) (boot fun _ => none) [(0, .receive good)] =
        some j ∧ (j.workers 0).current = some (c, stage) ∧ c.request = good :=
    ⟨_, _, _, rfl, rfl, rfl⟩
  obtain ⟨j, c, stage, hj, hcurrent, hrequest⟩ := hreceived
  have hrun := reaches_of_runWhere hj
  have htogether := together_reachable hrun
  obtain ⟨j', hreach, v, hreplies⟩ :=
    reaches_reply htogether (by decide) (by decide) (fun _ => rfl) (.inl rfl) hcurrent
  have hmem : (good, v) ∈ (j'.workers 0).replies := by
    rw [hreplies, hrequest]
    exact List.mem_append_right _ (List.mem_singleton_self _)
  have hv : v = .accepted := by
    rcases ((together_alone htogether hreach).serves 0).right _ hmem with hv | ⟨hfalse, -⟩
    · have hgood : deserved smallWorld good = .accepted := by decide
      exact hv.trans hgood
    · cases hfalse
  exact ⟨j', hrun.trans (hreach.weaken fun _ _ => And.right), hv ▸ hmem⟩

def smallClient : Client where
  source := [120]
  input := [7]
  output := [97]
  source_clean := by decide
  input_clean := by decide
  output_clean := by decide
  source_fits := by decide
  output_fits := by decide
  size := by decide
  unfilled := by decide

theorem session_accepted_iff_smallClient :
    ∃ body request, jugIntReceive [.bytes (frame smallClient.body)] = .buffer body ∧
      jugIntDecode (body.str ++ 0 :: []) = .ok request ∧ requestOf request = good ∧
      ∃ j v, Reaches (judgeStep smallWorld) (fun j a => allowed smallWorld true j a = true)
          (boot fun _ => none) j ∧ (requestOf request, v) ∈ (j.workers 0).replies ∧
        ∃ calls, kudosjudgeReceive calls (fun _ => 0)
          [.bytes (jugIntSendVerdict (List.replicate 100 (.sent 1)) v)] =
            .ok (ascii "ACCEPTED") := by
  obtain ⟨-, body, request, hbody, hdecode, hrequest, hreads⟩ :=
    session_accepted_iff smallWorld smallClient (List.replicate 100 (.sent 1))
      [frame smallClient.body] [] (fun r hr => ⟨0, List.eq_of_mem_replicate hr⟩) (by decide)
      (by decide) (by rfl)
  obtain ⟨j, hrun, hreply⟩ := good_accepted
  have hmem : (requestOf request, .accepted) ∈ (j.workers 0).replies := by
    rw [hrequest]
    exact hreply
  refine ⟨body, request, hbody, hdecode, hrequest, j, .accepted, hrun, hmem, ?_⟩
  exact (hreads _ j 0 .accepted hrun hmem _ _ accepting_bytewise).mpr ⟨[1], rfl, rfl⟩

end KudosJudge.JudgeSession
