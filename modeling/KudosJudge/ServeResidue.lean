import KudosJudge.LangProcess

set_option autoImplicit false

namespace KudosJudge.ServeResidue
open CText InterfaceDecode InterfaceReceive Results WorkerServe LangProcess

/-- The feed workspace, the directory of the worker, the file that the compiler made there last,
and the open descriptors, each under the name it was opened with. -/
structure Disk where
  feeds : Finset FeedFile
  files : Finset (List UInt8)
  built : Option (List UInt8)
  descriptors : List (Option (Option FeedFile))

def langRemoveBinary (files : Finset (List UInt8)) : Option (List UInt8) → Finset (List UInt8)
  | some path => files.erase path
  | none => files

/-- What a call changes; `unlink(NULL)` changes nothing. -/
def Disk.after (lo : LangOutcomes) (workerId : ℤ) (d : Disk) : Event → Disk
  | .newFile file _ outcome =>
    if outcome = .openFails then d else { d with feeds := insert file d.feeds }
  | .langProcess source _ =>
    { d with
      files := (langProcess lo langC source workerId d.files).files
      built := (langProcess lo langC source workerId d.files).built }
  | .openFile name opened =>
    if opened then { d with descriptors := name :: d.descriptors } else d
  | .closeFile name => { d with descriptors := d.descriptors.erase name }
  | .removeByName (some (some file)) => { d with feeds := d.feeds.erase file }
  | .removeBinary path => { d with files := langRemoveBinary d.files path }
  | _ => d

def Disk.replay (lo : LangOutcomes) (workerId : ℤ) (d : Disk) (events : List Event) : Disk :=
  events.foldl (Disk.after lo workerId) d

/-- The workspace is as before, the compiled file of this call is gone, and the descriptors are
closed. -/
def NoResidue (lo : LangOutcomes) (o : Outcomes) (d : Disk) : Prop :=
  let d' := d.replay lo o.workerId (queueWorkerServ o).1
  d'.feeds = d.feeds ∧ (∀ path, d'.built = some path → path ∉ d'.files) ∧
    d'.descriptors = d.descriptors

def feedFile (o : Outcomes) (tag : FeedTag) : FeedFile := ⟨o.workerId, o.now tag, tag⟩

/-- The workspace after one feed was created and, on a source that compiles, removed by the
name that was kept of it. -/
def settle (compiled : Bool) (file : FeedFile) (outcome : FeedOutcome) (feeds : Finset FeedFile) :
    Finset FeedFile :=
  match outcome with
  | .openFails => feeds
  | .writeFails => insert file feeds
  | .stored => if compiled then feeds.erase file else insert file feeds

def Settled (compiled : Bool) (file : FeedFile) (outcome : FeedOutcome)
    (feeds : Finset FeedFile) : Prop :=
  match outcome with
  | .openFails => True
  | .writeFails => file ∈ feeds
  | .stored => file ∈ feeds ↔ compiled = false

section

variable {compiled : Bool} {file file' : FeedFile} {outcome outcome' : FeedOutcome}
  {feeds : Finset FeedFile}

theorem mem_settle_of_ne (h : file' ≠ file) :
    file' ∈ settle compiled file outcome feeds ↔ file' ∈ feeds := by
  unfold settle
  cases outcome with
  | openFails => rfl
  | writeFails => simp [h]
  | stored => split_ifs <;> simp [h]

theorem mem_settle_iff :
    (file ∈ settle compiled file outcome feeds ↔ file ∈ feeds) ↔
      Settled compiled file outcome feeds := by
  unfold settle Settled
  cases outcome with
  | openFails => simp
  | writeFails => simp
  | stored =>
    cases compiled
    · simp
    · simp

theorem settle_eq_iff :
    settle compiled file outcome feeds = feeds ↔ Settled compiled file outcome feeds := by
  rw [← mem_settle_iff]
  constructor
  · intro heq
    rw [heq]
  · intro hmem
    ext x
    by_cases hx : x = file
    · rw [hx]
      exact hmem
    · exact mem_settle_of_ne hx

theorem settle_settle_eq_iff (hne : file' ≠ file) :
    settle compiled file' outcome' (settle compiled file outcome feeds) = feeds ↔
      Settled compiled file outcome feeds ∧ Settled compiled file' outcome' feeds := by
  constructor
  · intro heq
    have houter : file ∈ settle compiled file' outcome' (settle compiled file outcome feeds) ↔
        file ∈ settle compiled file outcome feeds := mem_settle_of_ne hne.symm
    have hfirst : file ∈ settle compiled file outcome feeds ↔ file ∈ feeds := by
      rw [← houter, heq]
    have hkeep := mem_settle_iff.mp hfirst
    rw [settle_eq_iff.mpr hkeep] at heq
    exact ⟨hkeep, settle_eq_iff.mp heq⟩
  · rintro ⟨hfirst, hsecond⟩
    rw [settle_eq_iff.mpr hfirst, settle_eq_iff.mpr hsecond]

end

section

variable (lo : LangOutcomes) (workerId : ℤ)

theorem replay_append (d : Disk) (events events' : List Event) :
    d.replay lo workerId (events ++ events') =
      (d.replay lo workerId events).replay lo workerId events' :=
  List.foldl_append

theorem replay_storeFeed (o : Outcomes) (tag : FeedTag) {feed : Feed}
    (hdata : feed.type = feedtypeData) (d : Disk) :
    d.replay lo workerId (storeFeed o tag feed).1 =
      { d with feeds := settle false (feedFile o tag) (o.newFile tag) d.feeds } := by
  have hnot : feed.type ≠ feedtypeReference := by
    rw [hdata]
    decide
  rw [storeFeed, if_neg hnot, if_pos hdata]
  cases houtcome : o.newFile tag <;>
    simp [Disk.replay, Disk.after, jugFeedNewFile, houtcome, settle, feedFile]

theorem storeFeed_name (o : Outcomes) (tag : FeedTag) {feed : Feed}
    (hdata : feed.type = feedtypeData) :
    (storeFeed o tag feed).2 =
      some (if o.newFile tag = .stored then some (feedFile o tag) else none) := by
  have hnot : feed.type ≠ feedtypeReference := by
    rw [hdata]
    decide
  rw [storeFeed, if_neg hnot, if_pos hdata]
  rfl

def leaked (o : JudgeOutcomes) (submission : Submission) : List (Option (Option FeedFile)) :=
  if !o.opens .input || !o.opens .output then
    (if o.opens .output then [submission.outputFilename] else []) ++
      (if o.opens .input then [submission.inputFilename] else [])
  else if o.useERFS then [submission.outputFilename, submission.inputFilename]
  else []

theorem erase_erase_cons_cons {α : Type} [BEq α] [LawfulBEq α] (a b : α) (l : List α) :
    ((b :: a :: l).erase a).erase b = l := by
  by_cases h : b = a
  · subst h
    simp
  · rw [List.erase_cons_tail (by simpa using h), List.erase_cons_head, List.erase_cons_head]

theorem replay_judge (o : JudgeOutcomes) (submission : Submission) (d : Disk) :
    d.replay lo workerId (jugRunnerJudge o submission).1 =
      { d with descriptors := leaked o submission ++ d.descriptors } := by
  unfold jugRunnerJudge leaked
  split_ifs with hopen hin hout herfs hret
  all_goals
    simp_all [Disk.replay, Disk.after, erase_erase_cons_cons]

theorem leaked_eq_nil_iff (o : JudgeOutcomes) (submission : Submission) :
    leaked o submission = [] ↔
      o.opens .input = o.opens .output ∧ (o.opens .input = true → o.useERFS = false) := by
  unfold leaked
  cases o.opens .input <;> cases o.opens .output <;> cases o.useERFS <;> simp

def removed (file : FeedFile) (outcome : FeedOutcome) (feeds : Finset FeedFile) :
    Finset FeedFile :=
  if outcome = .stored then feeds.erase file else feeds

theorem replay_remove (file : FeedFile) (outcome : FeedOutcome) (d : Disk) :
    d.after lo workerId (.removeByName (some (if outcome = .stored then some file else none))) =
      { d with feeds := removed file outcome d.feeds } := by
  unfold removed
  split_ifs <;> rfl

theorem mem_removed {x file : FeedFile} {outcome : FeedOutcome} {feeds : Finset FeedFile} :
    x ∈ removed file outcome feeds ↔ x ∈ feeds ∧ (outcome = .stored → x ≠ file) := by
  unfold removed
  split_ifs with h
  · rw [Finset.mem_erase]
    simp [h, and_comm]
  · simp [h]

theorem mem_settle_self {compiled : Bool} {file : FeedFile} {outcome : FeedOutcome}
    {feeds : Finset FeedFile} :
    file ∈ settle compiled file outcome feeds ↔
      (outcome = .openFails ∧ file ∈ feeds) ∨ outcome = .writeFails ∨
        (outcome = .stored ∧ compiled = false) := by
  cases outcome <;> cases compiled <;> simp [settle]

theorem removed_settle {file file' : FeedFile} (hne : file' ≠ file)
    (outcome outcome' : FeedOutcome) (feeds : Finset FeedFile) :
    removed file' outcome' (removed file outcome
      (settle false file' outcome' (settle false file outcome feeds))) =
      settle true file' outcome' (settle true file outcome feeds) := by
  ext x
  simp only [mem_removed]
  by_cases hx : x = file
  · subst hx
    rw [mem_settle_of_ne hne.symm, mem_settle_of_ne hne.symm, mem_settle_self, mem_settle_self]
    cases outcome <;> simp [hne.symm]
  · by_cases hx' : x = file'
    · subst hx'
      rw [mem_settle_self, mem_settle_self, mem_settle_of_ne hx, mem_settle_of_ne hx]
      cases outcome' <;> simp [hx]
    · rw [mem_settle_of_ne hx', mem_settle_of_ne hx, mem_settle_of_ne hx', mem_settle_of_ne hx]
      simp [hx, hx']

variable {lo}

section

variable {o : Outcomes} {request : IntRequest} (hin : request.input.type = feedtypeData)
  (hout : request.output.type = feedtypeData) (d : Disk)

include hin hout

theorem replay_refused (herror : (o.langProcess (request.sourcecode.getD [])).1 ≠ 0) :
    d.replay lo o.workerId (serveJudge o request) =
      { d with
        feeds := settle false (feedFile o .output) (o.newFile .output)
          (settle false (feedFile o .input) (o.newFile .input) d.feeds)
        files := (langProcess lo langC (request.sourcecode.getD []) o.workerId d.files).files
        built := (langProcess lo langC (request.sourcecode.getD []) o.workerId d.files).built } := by
  rw [serveJudge_refused herror, replay_append, replay_append, replay_append,
    replay_storeFeed lo o.workerId o .input hin, replay_storeFeed lo o.workerId o .output hout]
  rfl

theorem replay_compiled (herror : (o.langProcess (request.sourcecode.getD [])).1 = 0) :
    d.replay lo o.workerId (serveJudge o request) =
      ⟨settle true (feedFile o .output) (o.newFile .output)
          (settle true (feedFile o .input) (o.newFile .input) d.feeds),
        langRemoveBinary
          (langProcess lo langC (request.sourcecode.getD []) o.workerId d.files).files
          (submissionOf o request).binary.binPath,
        (langProcess lo langC (request.sourcecode.getD []) o.workerId d.files).built,
        leaked (o.judge (submissionOf o request)) (submissionOf o request) ++ d.descriptors⟩ := by
  have hinput : (submissionOf o request).inputFilename =
      some (if o.newFile .input = .stored then some (feedFile o .input) else none) :=
    storeFeed_name o .input hin
  have houtput : (submissionOf o request).outputFilename =
      some (if o.newFile .output = .stored then some (feedFile o .output) else none) :=
    storeFeed_name o .output hout
  have hne : feedFile o .output ≠ feedFile o .input := by
    intro heq
    cases congrArg FeedFile.tag heq
  rw [serveJudge_compiled herror, replay_append, replay_append, replay_append, replay_append,
    replay_append, replay_storeFeed lo o.workerId o .input hin,
    replay_storeFeed lo o.workerId o .output hout, replay_judge]
  rw [← removed_settle hne]
  -- Of the seven calls behind the judgement three change the disk.
  change Disk.after lo o.workerId (Disk.after lo o.workerId
    (Disk.after lo o.workerId _ (.removeBinary _)) (.removeByName _)) (.removeByName _) = _
  rw [hinput, houtput, replay_remove, replay_remove]
  rfl

end

end

/-- A request by value leaves no residue exactly if each of its feed files was never created, or
was there before and stays, or is new, written and removed behind a source that compiles; and if
the judge opens both files outside an ERFS or none of them. -/
theorem no_residue_iff (lo : LangOutcomes) (o : Outcomes) (d : Disk) (body : StringBuffer.Buffer)
    (request : IntRequest)
    (hlang : ∀ source, o.langProcess source =
      (langProcess lo langC source o.workerId d.files).result)
    (hbody : jugIntReceive o.received = .buffer body)
    (hdecode : jugIntDecode (body.str ++ 0 :: o.behind) = .ok request)
    (htype : request.type = reqTypeJudge) (hin : request.input.type = feedtypeData)
    (hout : request.output.type = feedtypeData) :
    let code := (o.langProcess (request.sourcecode.getD [])).1
    let judge := o.judge (submissionOf o request)
    NoResidue lo o d ↔
      (∀ tag, Settled (code = 0) (feedFile o tag) (o.newFile tag) d.feeds) ∧
      (code = 0 → judge.opens .input = judge.opens .output ∧
        (judge.opens .input = true → judge.useERFS = false)) := by
  intro code judge
  have hserv := congrArg Prod.fst (queueWorkerServ_judge hbody hdecode htype)
  have hne : feedFile o .output ≠ feedFile o .input := by
    intro heq
    cases congrArg FeedFile.tag heq
  have hresult := hlang (request.sourcecode.getD [])
  have htags : ∀ p : FeedTag → Prop, (∀ tag, p tag) ↔ p .input ∧ p .output := by
    intro p
    exact ⟨fun hall => ⟨hall _, hall _⟩, fun hboth tag => by cases tag <;> simp [hboth]⟩
  unfold NoResidue
  rw [hserv, htags]
  by_cases herror : (o.langProcess (request.sourcecode.getD [])).1 = 0
  · have hcompiled : decide (code = 0) = true := decide_eq_true herror
    rw [replay_compiled hin hout d herror, hcompiled]
    simp only
    rw [settle_settle_eq_iff hne, List.append_left_eq_self, leaked_eq_nil_iff]
    have hbinary : ∀ path,
        (langProcess lo langC (request.sourcecode.getD []) o.workerId d.files).built = some path →
        path ∉ langRemoveBinary
          (langProcess lo langC (request.sourcecode.getD []) o.workerId d.files).files
          (submissionOf o request).binary.binPath := by
      intro path hbuilt
      have hpath : (submissionOf o request).binary.binPath = some path := by
        rw [submissionOf, hresult]
        exact (langProcess_built _ _ _ hbuilt).2
      rw [hpath]
      exact Finset.notMem_erase path _
    exact ⟨fun hnone => ⟨hnone.1, fun _ => hnone.2.2⟩,
      fun hcond => ⟨hcond.1, hbinary, hcond.2 herror⟩⟩
  · have hrefused : decide (code = 0) = false := decide_eq_false herror
    rw [replay_refused hin hout d herror, hrefused]
    simp only
    rw [settle_settle_eq_iff hne]
    have hbinary : ∀ path,
        (langProcess lo langC (request.sourcecode.getD []) o.workerId d.files).built = some path →
        path ∉ (langProcess lo langC (request.sourcecode.getD []) o.workerId d.files).files := by
      intro path hbuilt
      rw [hresult] at herror
      exact absurd (langProcess_built _ _ _ hbuilt).1 herror
    exact ⟨fun hnone => ⟨hnone.1, fun hcode => absurd hcode herror⟩,
      fun hcond => ⟨hcond.1, hbinary, trivial⟩⟩

def emptyDisk : Disk := ⟨∅, ∅, none, []⟩

theorem no_residue_iff_compiled : NoResidue (withCompiler true) (served true) emptyDisk := by
  refine (no_residue_iff (withCompiler true) (served true) emptyDisk _ _ (fun _ => rfl) rfl rfl rfl
    rfl rfl).mpr ⟨fun tag => ?_, fun _ => ⟨rfl, fun _ => rfl⟩⟩
  have hcode : decide (((served true).langProcess [120]).1 = 0) = true := by decide
  have hstored : (served true).newFile tag = .stored := rfl
  change Settled (((served true).langProcess [120]).1 = 0) _ _ _
  rw [hcode, hstored]
  simp [Settled, emptyDisk]

def halfOpened : Outcomes :=
  { served true with judge := fun _ => ⟨fun tag => tag = .input, false, (0, .correct)⟩ }

theorem residue_remains :
    ((emptyDisk.replay (withCompiler false) 0 (queueWorkerServ (served false)).1).feeds =
        {⟨0, 0, .input⟩, ⟨0, 0, .output⟩} ∧
      ¬ NoResidue (withCompiler false) (served false) emptyDisk) ∧
    (emptyDisk.replay (withCompiler true) 0 (queueWorkerServ halfOpened).1).descriptors =
        [some (some ⟨0, 0, .input⟩)] ∧
      ¬ NoResidue (withCompiler true) halfOpened emptyDisk := by
  have hfeeds : (emptyDisk.replay (withCompiler false) 0 (queueWorkerServ (served false)).1).feeds =
      {⟨0, 0, .input⟩, ⟨0, 0, .output⟩} := by decide
  have hopen : (emptyDisk.replay (withCompiler true) 0 (queueWorkerServ halfOpened).1).descriptors =
      [some (some ⟨0, 0, .input⟩)] := by decide
  refine ⟨⟨hfeeds, fun hnone => ?_⟩, hopen, fun hnone => ?_⟩
  · have hsame := hfeeds.symm.trans hnone.1
    revert hsame
    decide
  · have hsame := hopen.symm.trans hnone.2.2
    cases hsame

end KudosJudge.ServeResidue
