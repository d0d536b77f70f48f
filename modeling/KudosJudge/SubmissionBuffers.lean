import KudosJudge.LangTable

set_option autoImplicit false

/-!
Every `sprintf` and `strcpy` on the way of a submission through `lang_process`,
`queue_worker_serv` and `jug_runner_judge`, against the size of the block it writes to.
-/
namespace KudosJudge.SubmissionBuffers
open CText LangProcess WorkerServe
open LangTable (LangTexts)

def ramPath : List UInt8 := ascii "/var/opt/kudosJudge" ++ ascii "/" ++ ascii "ramfs"

def langWorkspace : List UInt8 := ramPath ++ ascii "/lang-workspace"

/-- An entry of the table as `lang_process` uses it. A command that is no format for its
arguments prints nothing here. -/
def langOf (l : LangTexts) : Lang where
  id := l.id
  type := l.type
  cmdCompile := fun text output => (format l.cmdCompile [text, output]).getD []
  cmdInterpr := fun output => (format l.cmdInterpr [output]).getD []
  cmdVm := fun output => (format l.cmdVm [output]).getD []
  extCompile := l.extCompile
  extInterpr := l.extInterpr
  extVm := l.extVm

/-- What `lang_get` finds in the table is the language that `lang_process` goes on with. -/
theorem langGet_refines {languages : List LangTexts} (hfits : ∀ l ∈ languages, l.Fits)
    {langid : List UInt8} (hid : 0 ∉ langid) :
    ∃ found, LangTable.langGet (LangTable.tableOf languages) (LangTable.strdup langid)
        = some found ∧
      langGet (languages.map langOf) langid = (found.bind fun i => languages[i]?).map langOf := by
  refine ⟨_, LangTable.langGet_tableOf hfits hid, ?_⟩
  have hfind : langGet (languages.map langOf) langid
      = (languages.find? fun l => l.id = langid).map langOf :=
    List.find?_map ..
  rw [hfind, List.find?_eq_bind_findIdx?_getElem?]

inductive Buffer where
  | workerWorkspace
  | textFilename
  | outputFilename
  | compileCmdline
  | binCmd
  | binPath
  | submissionBinPath
  | submissionBinCmd
  | args0
deriving DecidableEq, Repr

def blockSize : Buffer → ℕ
  | .workerWorkspace => langWorkspace.length + 20
  | .textFilename => ramPath.length + 50
  | .outputFilename => ramPath.length + 50
  | .compileCmdline => ramPath.length + 200
  | .binCmd => 300
  | .binPath => 300
  | .submissionBinPath => 400
  | .submissionBinCmd => 500
  | .args0 => 99

structure Write where
  buffer : Buffer
  text : List UInt8
deriving DecidableEq, Repr

def Write.Fits (w : Write) : Prop := w.text.length + 1 ≤ blockSize w.buffer

instance (w : Write) : Decidable w.Fits := inferInstanceAs (Decidable (_ ≤ _))

def binWrites (lang : Lang) (output : List UInt8) : List Write :=
  [⟨.binCmd, binCmd lang output⟩, ⟨.binPath, output⟩]

/-- The compiling layer: the path of the source is written before the file is opened, the
other strings behind it. -/
def compileWrites (o : LangOutcomes) (source : List UInt8) (lang : Lang)
    (text output : List UInt8) : List Write :=
  ⟨.textFilename, text⟩ ::
    if !o.fopen || !o.fputs source then []
    else ⟨.outputFilename, output⟩ :: ⟨.compileCmdline, lang.cmdCompile text output⟩ ::
      if !o.compiles (lang.cmdCompile text output) source then [] else binWrites lang output

def workspaceWrites (o : LangOutcomes) (workerId : ℤ) : List Write :=
  if o.inited then [] else [⟨.workerWorkspace, o.workspace ++ ascii "/" ++ printInt workerId⟩]

def langProcessWrites (o : LangOutcomes) (langid source : List UInt8) (workerId : ℤ) :
    List Write :=
  workspaceWrites o workerId ++
    if !o.inited && !o.mkdir then []
    else
      match langGet o.languages langid with
      | none => []
      | some lang =>
        if lang.type = .interpreted then
          ⟨.outputFilename, outputFilename o workerId lang⟩ ::
            binWrites lang (outputFilename o workerId lang)
        else compileWrites o source lang (textFilename o workerId lang)
          (outputFilename o workerId lang)

/-- The copies of `queue_worker_serv`, and the one of `jug_runner_judge`. -/
def submissionCopies (binInfo : BinaryInformation) : List Write :=
  (binInfo.binPath.map (Write.mk .submissionBinPath)).toList ++
  (binInfo.binCmd.map (Write.mk .submissionBinCmd)).toList ++
  (binInfo.binPath.map (Write.mk .args0)).toList

/-- All strings that one submission has written; an error of `lang_process` ends it. -/
def submissionWrites (o : LangOutcomes) (langid source : List UInt8) (workerId : ℤ)
    (files : Finset (List UInt8)) : List Write :=
  langProcessWrites o langid source workerId ++
    if (langProcess o langid source workerId files).code = 0 then
      submissionCopies (langProcess o langid source workerId files).binInfo
    else []

theorem langProcess_written {o : LangOutcomes} {langid source : List UInt8} {workerId : ℤ}
    {files : Finset (List UInt8)} (h : (langProcess o langid source workerId files).code = 0) :
    ∃ lang output, langGet o.languages langid = some lang ∧
      output = outputFilename o workerId lang ∧
      (langProcess o langid source workerId files).binInfo = assigned lang output ∧
      ∀ w ∈ binWrites lang output, w ∈ langProcessWrites o langid source workerId := by
  unfold langProcess at h ⊢
  unfold langProcessWrites
  split_ifs at h ⊢ with hdir
  · exact absurd h (show (-2 : ℤ) ≠ 0 by decide)
  · cases hlang : langGet o.languages langid with
    | none =>
      rw [hlang] at h
      exact absurd h (show (-1 : ℤ) ≠ 0 by decide)
    | some lang =>
      rw [hlang] at h
      simp only at h ⊢
      split_ifs at h ⊢ with htype
      · refine ⟨lang, _, rfl, rfl, rfl, fun w hw => ?_⟩
        exact List.mem_append_right _ (List.mem_cons_of_mem _ hw)
      · unfold compile at h ⊢
        split_ifs at h ⊢ with hopen hputs hcompiles
        · exact absurd h (show (-2 : ℤ) ≠ 0 by decide)
        · exact absurd h (show (-5 : ℤ) ≠ 0 by decide)
        · exact absurd h (show (-3 : ℤ) ≠ 0 by decide)
        · refine ⟨lang, _, rfl, rfl, rfl, fun w hw => List.mem_append_right _ ?_⟩
          rw [compileWrites, if_neg (by simp_all), if_neg hcompiles]
          exact List.mem_cons_of_mem _ (List.mem_cons_of_mem _ (List.mem_cons_of_mem _ hw))

theorem ramPath_length : ramPath.length = 25 := by decide

theorem langWorkspace_length : langWorkspace.length = 40 := by decide

theorem submissionPath_length (workerId : ℤ) (ext : List UInt8) :
    (submissionPath langWorkspace workerId ext).length
      = 52 + (printInt workerId).length + ext.length := by
  have hslash : (ascii "/").length = 1 := by decide
  have hname : (ascii "/Submission").length = 11 := by decide
  simp only [submissionPath, List.length_append, langWorkspace_length, hslash, hname]
  omega

theorem worker_digits {workerId : ℤ} (h0 : 0 ≤ workerId) (h23 : workerId ≤ 23) :
    (printInt workerId).length ≤ 2 := by
  interval_cases workerId <;> decide

/-- The commands of an entry are formats for the arguments they get. -/
structure Formats (l : LangTexts) : Prop where
  cmdCompile : ∃ n ≤ 2, conversions l.cmdCompile = some n
  cmdInterpr : ∃ n ≤ 1, conversions l.cmdInterpr = some n
  cmdVm : ∃ n ≤ 1, conversions l.cmdVm = some n

theorem formatted_one {f : List UInt8} (h : ∃ n ≤ 1, conversions f = some n)
    (output : List UInt8) : ((format f [output]).getD []).length ≤ f.length + output.length := by
  obtain ⟨n, hn, hf⟩ := h
  obtain ⟨s, hs, hlength⟩ := format_length hf [output] (by simpa using hn)
  have hsum : (([output].take n).map List.length).sum ≤ output.length := by
    interval_cases n <;> simp
  rw [hs, Option.getD_some]
  omega

theorem binCmd_length {l : LangTexts} (hfits : l.Fits) (hformats : Formats l)
    (output : List UInt8) : (binCmd (langOf l) output).length ≤ 99 + output.length := by
  unfold binCmd
  cases hl : (langOf l).type with
  | compiled => simp
  | interpreted =>
    have hcmd := formatted_one hformats.cmdInterpr output
    have hfit := hfits.cmdInterpr.1
    simp only [langOf]
    omega
  | vm =>
    have hcmd := formatted_one hformats.cmdVm output
    have hfit := hfits.cmdVm.1
    simp only [langOf]
    omega

theorem compileCmdline_two {l : LangTexts} (h : conversions l.cmdCompile = some 2)
    (text output : List UInt8) : ((langOf l).cmdCompile text output).length + 4
      = l.cmdCompile.length + text.length + output.length := by
  obtain ⟨s, hs, hlength⟩ := format_length h [text, output] le_rfl
  simp only [List.take_succ_cons, List.take_zero, List.map_cons, List.map_nil, List.sum_cons,
    List.sum_nil] at hlength
  simp only [langOf, hs, Option.getD_some]
  omega

theorem compileCmdline_fewer {l : LangTexts} (hformats : Formats l)
    (h : conversions l.cmdCompile ≠ some 2) (text output : List UInt8) :
    ((langOf l).cmdCompile text output).length ≤ l.cmdCompile.length + text.length := by
  obtain ⟨n, hn, hf⟩ := hformats.cmdCompile
  have hless : n ≤ 1 := by
    rcases Nat.lt_or_eq_of_le hn with hless | rfl
    · omega
    · exact absurd hf h
  obtain ⟨s, hs, hlength⟩ := format_length hf [text, output] (by simp; omega)
  have hsum : (([text, output].take n).map List.length).sum ≤ text.length := by
    interval_cases n <;> simp
  simp only [langOf, hs, Option.getD_some]
  omega

section

variable {l : LangTexts} {o : LangOutcomes} {workerId : ℤ}
  (hworkspace : o.workspace = langWorkspace)

include hworkspace

theorem textFilename_length : (textFilename o workerId (langOf l)).length
    = 53 + (printInt workerId).length + l.extCompile.length := by
  have hdot : (ascii ".").length = 1 := by decide
  rw [textFilename, hworkspace, submissionPath_length, List.length_append, hdot]
  simp only [langOf]
  omega

theorem outputFilename_length : (outputFilename o workerId (langOf l)).length
    = match l.type with
      | .compiled => 52 + (printInt workerId).length
      | .interpreted => 53 + (printInt workerId).length + l.extInterpr.length
      | .vm => 53 + (printInt workerId).length + l.extVm.length := by
  have hdot : (ascii ".").length = 1 := by decide
  have htype : (langOf l).type = l.type := rfl
  unfold outputFilename
  rw [htype, hworkspace]
  cases l.type with
  | compiled => exact submissionPath_length workerId []
  | interpreted =>
    simp only [submissionPath_length, List.length_append, hdot, langOf]
    omega
  | vm =>
    simp only [submissionPath_length, List.length_append, hdot, langOf]
    omega

theorem outputFilename_short (hfits : l.Fits) (hdigits : (printInt workerId).length ≤ 2) :
    (outputFilename o workerId (langOf l)).length ≤ 74 := by
  rw [outputFilename_length hworkspace]
  have hinterpr := hfits.extInterpr.1
  have hvm := hfits.extVm.1
  cases l.type with
  | compiled =>
    simp only
    omega
  | interpreted =>
    simp only
    omega
  | vm =>
    simp only
    omega

/-- The command line that the compiling layer builds fits its block. -/
def CmdlineFits (l : LangTexts) (workerId : ℤ) : Prop :=
  l.type ≠ .vm ∨ conversions l.cmdCompile ≠ some 2 ∨
    l.cmdCompile.length + l.extCompile.length + l.extVm.length
      + 2 * (printInt workerId).length ≤ 122

theorem compileCmdline_length_iff (hfits : l.Fits) (hformats : Formats l)
    (hdigits : (printInt workerId).length ≤ 2) (htype : l.type ≠ .interpreted) :
    ((langOf l).cmdCompile (textFilename o workerId (langOf l))
      (outputFilename o workerId (langOf l))).length + 1 ≤ blockSize .compileCmdline ↔
      CmdlineFits l workerId := by
  have hcmd := hfits.cmdCompile.1
  have hext := hfits.extCompile.1
  have htext : (textFilename o workerId (langOf l)).length = _ := textFilename_length hworkspace
  have houtput : (outputFilename o workerId (langOf l)).length = _ :=
    outputFilename_length hworkspace
  have hsize : blockSize .compileCmdline = 225 := by rw [blockSize, ramPath_length]
  rw [hsize, CmdlineFits]
  by_cases htwo : conversions l.cmdCompile = some 2
  · have hlength := compileCmdline_two htwo (textFilename o workerId (langOf l))
      (outputFilename o workerId (langOf l))
    cases hl : l.type with
    | compiled =>
      rw [hl] at houtput
      simp only at houtput
      simp only [ne_eq, reduceCtorEq, not_false_eq_true, true_or, iff_true]
      omega
    | interpreted => exact absurd hl htype
    | vm =>
      rw [hl] at houtput
      simp only at houtput
      simp only [htwo, ne_eq, not_true_eq_false, false_or]
      omega
  · have hlength := compileCmdline_fewer hformats htwo (textFilename o workerId (langOf l))
      (outputFilename o workerId (langOf l))
    simp only [htwo, ne_eq, not_false_eq_true, true_or, or_true, iff_true]
    omega

end

theorem langProcessWrites_cases {o : LangOutcomes} {langid source : List UInt8} {workerId : ℤ}
    {lang : Lang} (hlang : langGet o.languages langid = some lang) {w : Write}
    (hw : w ∈ langProcessWrites o langid source workerId) :
    w = ⟨.workerWorkspace, o.workspace ++ ascii "/" ++ printInt workerId⟩ ∨
      w = ⟨.textFilename, textFilename o workerId lang⟩ ∨
      w = ⟨.outputFilename, outputFilename o workerId lang⟩ ∨
      (lang.type ≠ .interpreted ∧ w = ⟨.compileCmdline,
        lang.cmdCompile (textFilename o workerId lang) (outputFilename o workerId lang)⟩) ∨
      w ∈ binWrites lang (outputFilename o workerId lang) := by
  rw [langProcessWrites, hlang, List.mem_append] at hw
  rcases hw with hw | hw
  · unfold workspaceWrites at hw
    split_ifs at hw
    · cases hw
    · exact .inl (List.mem_singleton.mp hw)
  · split_ifs at hw with hdir
    · cases hw
    · simp only at hw
      split_ifs at hw with htype
      · rcases List.mem_cons.mp hw with hw | hw
        · exact .inr (.inr (.inl hw))
        · exact .inr (.inr (.inr (.inr hw)))
      · unfold compileWrites at hw
        split_ifs at hw with hfile hcompiles
        · exact .inr (.inl (List.mem_singleton.mp hw))
        · simp only [List.mem_cons, List.not_mem_nil, or_false] at hw
          rcases hw with hw | hw | hw
          · exact .inr (.inl hw)
          · exact .inr (.inr (.inl hw))
          · exact .inr (.inr (.inr (.inl ⟨htype, hw⟩)))
        · simp only [List.mem_cons] at hw
          rcases hw with hw | hw | hw | hw
          · exact .inr (.inl hw)
          · exact .inr (.inr (.inl hw))
          · exact .inr (.inr (.inr (.inl ⟨htype, hw⟩)))
          · exact .inr (.inr (.inr (.inr hw)))

theorem submissionWrites_fit {l : LangTexts} {o : LangOutcomes} {workerId : ℤ}
    (hworkspace : o.workspace = langWorkspace) (hfits : l.Fits) (hformats : Formats l)
    (hdigits : (printInt workerId).length ≤ 2) (hcmdline : CmdlineFits l workerId)
    {source : List UInt8} {files : Finset (List UInt8)}
    (hlang : langGet o.languages l.id = some (langOf l)) :
    ∀ w ∈ submissionWrites o l.id source workerId files, w.Fits := by
  have hext := hfits.extCompile.1
  have htext : (textFilename o workerId (langOf l)).length = _ := textFilename_length hworkspace
  have houtput : (outputFilename o workerId (langOf l)).length ≤ 74 :=
    outputFilename_short hworkspace hfits hdigits
  have hcmd := binCmd_length hfits hformats (outputFilename o workerId (langOf l))
  have hslash : (ascii "/").length = 1 := by decide
  intro w hw
  rw [submissionWrites, List.mem_append] at hw
  rcases hw with hw | hw
  · obtain rfl | rfl | rfl | ⟨htype, rfl⟩ | hw := langProcessWrites_cases hlang hw
    · simp only [Write.Fits, blockSize, hworkspace, List.length_append, hslash]
      omega
    · simp only [Write.Fits, blockSize, ramPath_length]
      omega
    · simp only [Write.Fits, blockSize, ramPath_length]
      omega
    · exact (compileCmdline_length_iff hworkspace hfits hformats hdigits htype).mpr hcmdline
    · simp only [binWrites, List.mem_cons, List.not_mem_nil, or_false] at hw
      rcases hw with rfl | rfl
      · simp only [Write.Fits, blockSize]
        omega
      · simp only [Write.Fits, blockSize]
        omega
  · split_ifs at hw with hcode
    · obtain ⟨lang, output, hlang', rfl, hinfo, -⟩ := langProcess_written hcode
      obtain rfl : langOf l = lang := Option.some.inj (hlang.symm.trans hlang')
      rw [hinfo] at hw
      simp only [submissionCopies, assigned, Option.map_some, Option.toList_some,
        List.mem_append, List.mem_singleton] at hw
      rcases hw with (rfl | rfl) | rfl
      · simp only [Write.Fits, blockSize]
        omega
      · simp only [Write.Fits, blockSize]
        omega
      · simp only [Write.Fits, blockSize]
        omega
    · cases hw

def working (l : LangTexts) : LangOutcomes :=
  { withCompiler true with languages := [langOf l], workspace := langWorkspace }

theorem working_langGet (l : LangTexts) :
    langGet (working l).languages l.id = some (langOf l) := by
  simp [working, langGet, langOf]

theorem cmdline_written {l : LangTexts} (htype : l.type ≠ .interpreted) (source : List UInt8)
    (workerId : ℤ) (files : Finset (List UInt8)) :
    ⟨.compileCmdline, (langOf l).cmdCompile (textFilename (working l) workerId (langOf l))
      (outputFilename (working l) workerId (langOf l))⟩
      ∈ submissionWrites (working l) l.id source workerId files := by
  have htype' : ¬ (langOf l).type = .interpreted := htype
  refine List.mem_append_left _ (List.mem_append_right _ ?_)
  rw [working_langGet, if_neg (by simp [working, withCompiler])]
  simp only [if_neg htype', compileWrites]
  rw [if_neg (by simp [working, withCompiler])]
  exact List.mem_cons_of_mem _ (List.mem_cons_of_mem _ List.mem_cons_self)

theorem cmdline_overflows {l : LangTexts} (hfits : l.Fits) (hformats : Formats l) {workerId : ℤ}
    (hdigits : (printInt workerId).length ≤ 2) (h : ¬ CmdlineFits l workerId)
    (source : List UInt8) (files : Finset (List UInt8)) :
    ∃ w ∈ submissionWrites (working l) l.id source workerId files, ¬ w.Fits := by
  have htype : l.type ≠ .interpreted := fun htype => h (.inl (by rw [htype]; decide))
  refine ⟨_, cmdline_written htype source workerId files, fun hwrite => h ?_⟩
  exact (compileCmdline_length_iff rfl hfits hformats hdigits htype).mp hwrite

/-- Whatever a submission meets on its way, all of its strings fit their blocks, exactly when
the compile command of a virtual machine leaves room for both of its paths. -/
theorem buffers_fit_iff (l : LangTexts) (hfits : l.Fits) (hformats : Formats l) (workerId : ℤ)
    (h0 : 0 ≤ workerId) (h23 : workerId ≤ 23) :
    (∀ (o : LangOutcomes) (source : List UInt8) (files : Finset (List UInt8)),
      o.workspace = langWorkspace → langGet o.languages l.id = some (langOf l) →
      ∀ w ∈ submissionWrites o l.id source workerId files, w.Fits) ↔
    l.type ≠ .vm ∨ conversions l.cmdCompile ≠ some 2 ∨
      l.cmdCompile.length + l.extCompile.length + l.extVm.length
        + 2 * (printInt workerId).length ≤ 122 := by
  have hdigits := worker_digits h0 h23
  constructor
  · intro h
    by_contra hroom
    obtain ⟨w, hw, hnot⟩ := cmdline_overflows hfits hformats hdigits hroom [] ∅
    exact hnot (h (working l) [] ∅ rfl (working_langGet l) w hw)
  · intro hcmdline o source files hworkspace hlang
    exact submissionWrites_fit hworkspace hfits hformats hdigits hcmdline hlang

def java : LangTexts where
  type := .vm
  id := ascii "java"
  version := ascii "1.7.0"
  label := ascii " Java openJDK"
  cmdCompile := ascii " javac %s"
  cmdInterpr := []
  cmdVm := ascii "java %s"
  extCompile := ascii "java"
  extInterpr := []
  extVm := ascii "class"

theorem java_fits : java.Fits :=
  ⟨by decide, by decide, by decide, by decide, by decide, by decide, by decide, by decide,
    by decide⟩

theorem java_formats : Formats java :=
  ⟨⟨1, by decide, by decide +kernel⟩, ⟨0, by decide, by decide⟩,
    ⟨1, by decide, by decide +kernel⟩⟩

theorem buffers_fit_java :
    (submissionWrites (working java) java.id (ascii "class") 23 ∅).all
      (fun w => decide w.Fits) = true := by
  have hone : conversions java.cmdCompile ≠ some 2 := by decide +kernel
  have hall := (buffers_fit_iff java java_fits java_formats 23 (by decide) (by decide)).mpr
  simp only [List.all_eq_true, decide_eq_true_eq]
  exact hall (.inr (.inl hone)) (working java) (ascii "class") ∅ rfl (working_langGet java)

def longest : LangTexts where
  type := .vm
  id := langC
  version := []
  label := []
  cmdCompile := List.replicate 93 97 ++ ascii " %s %s"
  cmdInterpr := []
  cmdVm := ascii "java %s"
  extCompile := List.replicate 19 97
  extInterpr := []
  extVm := List.replicate 19 97

theorem longest_fits : longest.Fits :=
  ⟨by decide, by decide, by decide, by decide +kernel, by decide, by decide, by decide, by decide,
    by decide⟩

theorem longest_formats : Formats longest :=
  ⟨⟨2, by decide, by decide +kernel⟩, ⟨0, by decide, by decide⟩,
    ⟨1, by decide, by decide +kernel⟩⟩

theorem longest_cmdline : ¬ CmdlineFits longest 23 := by
  unfold CmdlineFits
  decide +kernel

theorem cmdline_overflow : longest.Fits ∧ Formats longest ∧ ∃ (o : LangOutcomes) (w : Write),
    o.workspace = langWorkspace ∧ langGet o.languages longest.id = some (langOf longest) ∧
      w ∈ submissionWrites o longest.id (ascii "x") 23 ∅ ∧ ¬ w.Fits := by
  obtain ⟨w, hw, hnot⟩ := cmdline_overflows longest_fits longest_formats
    (worker_digits (by decide) (by decide)) longest_cmdline (ascii "x") ∅
  exact ⟨longest_fits, longest_formats, working longest, w, rfl, working_langGet longest, hw, hnot⟩

end KudosJudge.SubmissionBuffers
