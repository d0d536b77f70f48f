import KudosJudge.WorkerServe
import Mathlib.Data.Finset.Basic

set_option autoImplicit false

/-!
`lang_process` of `lang.c`: the files it leaves in the directory of the worker and
the fields of `BinaryInformation` it assigns, on each of its returns.
-/
namespace KudosJudge.LangProcess
open CText WorkerServe

inductive LangType where
  | compiled
  | interpreted
  | vm
deriving DecidableEq, Repr

/-- A language of the configuration. Its commands are formats, given here as what they
print for their arguments. -/
structure Lang where
  id : List UInt8
  type : LangType
  cmdCompile : List UInt8 → List UInt8 → List UInt8
  cmdInterpr : List UInt8 → List UInt8
  cmdVm : List UInt8 → List UInt8
  extCompile : List UInt8
  extInterpr : List UInt8
  extVm : List UInt8

/-- What `lang_process` meets. `mkdir` succeeds also when the directory is there; `compiles`
tells whether a command line, on a source, leaves its output file; `fresh` is what `malloc`
hands out. -/
structure LangOutcomes where
  languages : List Lang
  workspace : List UInt8
  inited : Bool
  mkdir : Bool
  fopen : Bool
  fputs : List UInt8 → Bool
  compiles : List UInt8 → List UInt8 → Bool
  fresh : List UInt8

def langGet (languages : List Lang) (langid : List UInt8) : Option Lang :=
  languages.find? fun lang => lang.id = langid

/-- The return value, the fields, the files of the worker's directory, the file that the
compiler made, and `lang_workspace_inited` for the next call. -/
structure Processed where
  code : ℤ
  binInfo : BinaryInformation
  files : Finset (List UInt8)
  built : Option (List UInt8)
  inited : Bool

def submissionPath (workspace : List UInt8) (workerId : ℤ) (ext : List UInt8) : List UInt8 :=
  workspace ++ ascii "/" ++ printInt workerId ++ ascii "/Submission" ++ ext

def textFilename (o : LangOutcomes) (workerId : ℤ) (lang : Lang) : List UInt8 :=
  submissionPath o.workspace workerId (ascii "." ++ lang.extCompile)

def outputFilename (o : LangOutcomes) (workerId : ℤ) (lang : Lang) : List UInt8 :=
  match lang.type with
  | .compiled => submissionPath o.workspace workerId []
  | .interpreted => submissionPath o.workspace workerId (ascii "." ++ lang.extInterpr)
  | .vm => submissionPath o.workspace workerId (ascii "." ++ lang.extVm)

def binCmd (lang : Lang) (output : List UInt8) : List UInt8 :=
  match lang.type with
  | .compiled => output
  | .interpreted => lang.cmdInterpr output
  | .vm => lang.cmdVm output

def allocated (o : LangOutcomes) : BinaryInformation := ⟨some o.fresh, some o.fresh, none⟩

def assigned (lang : Lang) (output : List UInt8) : BinaryInformation :=
  ⟨some output, some (binCmd lang output), some (lang.type ≠ .compiled)⟩

def compile (o : LangOutcomes) (source : List UInt8) (lang : Lang) (text output : List UInt8)
    (files : Finset (List UInt8)) : Processed :=
  if !o.fopen then ⟨-2, allocated o, files, none, true⟩
  else if !o.fputs source then ⟨-5, allocated o, insert text files, none, true⟩
  else if !o.compiles (lang.cmdCompile text output) source then
    ⟨-3, allocated o, (insert text files).erase output, none, true⟩
  else ⟨0, assigned lang output, (insert output ((insert text files).erase output)).erase text,
    some output, true⟩

def langProcess (o : LangOutcomes) (langid source : List UInt8) (workerId : ℤ)
    (files : Finset (List UInt8)) : Processed :=
  if !o.inited && !o.mkdir then ⟨-2, ⟨none, none, none⟩, files, none, false⟩
  else
    match langGet o.languages langid with
    | none => ⟨-1, ⟨none, none, none⟩, files, none, true⟩
    | some lang =>
      if lang.type = .interpreted then
        ⟨0, assigned lang (outputFilename o workerId lang), files, none, true⟩
      else compile o source lang (textFilename o workerId lang) (outputFilename o workerId lang)
        files

def langC : List UInt8 := ascii "c"

def Processed.result (p : Processed) : ℤ × BinaryInformation := (p.code, p.binInfo)

def Allocates (o : LangOutcomes) (langid : List UInt8) : Prop :=
  (o.inited = true ∨ o.mkdir = true) ∧ (langGet o.languages langid).isSome

section

variable {o : LangOutcomes} {langid : List UInt8} (source : List UInt8) (workerId : ℤ)
  (files : Finset (List UInt8))

theorem compile_cases (lang : Lang) (text output : List UInt8) :
    let p := compile o source lang text output files
    (p.code ≠ 0 ∧ p.binInfo = allocated o ∧ p.built = none) ∨
      (p.code = 0 ∧ p.binInfo = assigned lang output ∧ p.built = some output) := by
  intro p
  unfold p compile
  split_ifs
  · exact .inl ⟨show (-2 : ℤ) ≠ 0 by decide, rfl, rfl⟩
  · exact .inl ⟨show (-5 : ℤ) ≠ 0 by decide, rfl, rfl⟩
  · exact .inl ⟨show (-3 : ℤ) ≠ 0 by decide, rfl, rfl⟩
  · exact .inr ⟨rfl, rfl, rfl⟩

/-- The returns before the allocations, behind them, and at the end. -/
theorem langProcess_cases (o : LangOutcomes) (langid : List UInt8) :
    let p := langProcess o langid source workerId files
    (¬ Allocates o langid ∧ p.code ≠ 0 ∧ p.binInfo = ⟨none, none, none⟩ ∧ p.built = none) ∨
      (Allocates o langid ∧ p.code ≠ 0 ∧ p.binInfo = allocated o ∧ p.built = none) ∨
      (Allocates o langid ∧ p.code = 0 ∧ ∃ lang output, p.binInfo = assigned lang output ∧
        (p.built = none ∨ p.built = some output)) := by
  intro p
  unfold p langProcess
  split_ifs with hdir
  · refine .inl ⟨fun halloc => ?_, show (-2 : ℤ) ≠ 0 by decide, rfl, rfl⟩
    rw [Bool.and_eq_true, Bool.not_eq_true', Bool.not_eq_true'] at hdir
    simp [Allocates, hdir.1, hdir.2] at halloc
  · cases hlang : langGet o.languages langid with
    | none =>
      refine .inl ⟨fun halloc => ?_, show (-1 : ℤ) ≠ 0 by decide, rfl, rfl⟩
      simp [Allocates, hlang] at halloc
    | some lang =>
      have halloc : Allocates o langid := by
        refine ⟨?_, by rw [hlang]; rfl⟩
        cases hinited : o.inited <;> simp_all
      simp only
      split_ifs
      · exact .inr (.inr ⟨halloc, rfl, lang, _, rfl, .inl rfl⟩)
      · rcases compile_cases source files lang (textFilename o workerId lang)
          (outputFilename o workerId lang) with ⟨hcode, hinfo, hbuilt⟩ | ⟨hcode, hinfo, hbuilt⟩
        · exact .inr (.inl ⟨halloc, hcode, hinfo, hbuilt⟩)
        · exact .inr (.inr ⟨halloc, hcode, lang, _, hinfo, .inr hbuilt⟩)

theorem langProcess_built {path : List UInt8}
    (h : (langProcess o langid source workerId files).built = some path) :
    (langProcess o langid source workerId files).code = 0 ∧
      (langProcess o langid source workerId files).binInfo.binPath = some path := by
  obtain ⟨-, -, -, hbuilt⟩ | ⟨-, -, -, hbuilt⟩ | ⟨-, hcode, lang, output, hinfo, hbuilt⟩ :=
    langProcess_cases source workerId files o langid
  · rw [h] at hbuilt
    cases hbuilt
  · rw [h] at hbuilt
    cases hbuilt
  · rcases hbuilt with hbuilt | hbuilt
    · rw [h] at hbuilt
      cases hbuilt
    · rw [h] at hbuilt
      cases hbuilt
      exact ⟨hcode, by rw [hinfo]; rfl⟩

end

def gcc : Lang where
  id := langC
  type := .compiled
  cmdCompile := fun text output => ascii "gcc " ++ text ++ ascii " -o " ++ output
  cmdInterpr := fun output => output
  cmdVm := fun output => output
  extCompile := ascii "c"
  extInterpr := []
  extVm := []

def withCompiler (compiles : Bool) : LangOutcomes where
  languages := [gcc]
  workspace := ascii "/ram"
  inited := true
  mkdir := true
  fopen := true
  fputs := fun _ => true
  compiles := fun _ _ => compiles
  fresh := []

def served (compiles : Bool) : Outcomes :=
  { client judgeBody with
    langProcess := fun source => (langProcess (withCompiler compiles) langC source 0 ∅).result }

end KudosJudge.LangProcess
