import KudosJudge.LangProcess
import Mathlib.Logic.Function.Basic

set_option autoImplicit false

/-!
The directory of a worker with the contents of its files, and the calls of
`lang_process` and `lang_remove_binary` that follow each other in it. Every file
remembers the call that wrote it.
-/
namespace KudosJudge.SourceFreshness
open CText LangProcess WorkerServe

structure File where
  content : List UInt8
  made : ℕ
deriving DecidableEq, Repr

abbrev Files := List UInt8 → Option File

/-- `lang_workspace_inited` and the directory of the worker, after a number of calls. -/
structure Worker where
  inited : Bool
  files : Files
  calls : ℕ

/-- A call of `lang_process` and what it meets. `written` is what gets into the file when
`fputs` fails; `compiler` gives the output for a command line and the content of the source
file, if there is one. -/
structure Call where
  langid : List UInt8
  source : List UInt8
  mkdir : Bool
  fopen : Bool
  fputs : Bool
  written : List UInt8
  compiler : List UInt8 → List UInt8 → Option (List UInt8)
  fresh : List UInt8

def unlink (files : Files) (path : List UInt8) : Files := Function.update files path none

def write (files : Files) (path content : List UInt8) (call : ℕ) : Files :=
  Function.update files path (some ⟨content, call⟩)

/-- `system(compile_cmdline)`: without a source file, or when it does not compile, nothing is
written. -/
def system (c : Call) (cmdline text output : List UInt8) (files : Files) (call : ℕ) : Files :=
  match files text with
  | none => files
  | some f =>
    match c.compiler cmdline f.content with
    | none => files
    | some out => write files output out call

def compile (c : Call) (lang : Lang) (text output : List UInt8) (files : Files) (call : ℕ) :
    ℤ × Files :=
  if !c.fopen then (-2, files)
  else if !c.fputs then (-5, write files text c.written call)
  else
    let built := system c (lang.cmdCompile text output) text output
      (unlink (write files text c.source call) output) call
    if built output = none then (-3, built)
    else (0, unlink built text)

structure Called where
  code : ℤ
  binInfo : BinaryInformation
  worker : Worker

section

variable (languages : List Lang) (workspace : List UInt8) (workerId : ℤ)

def environment (s : Worker) (c : Call) : LangOutcomes where
  languages := languages
  workspace := workspace
  inited := s.inited
  mkdir := c.mkdir
  fopen := c.fopen
  fputs := fun _ => c.fputs
  compiles := fun cmdline source => (c.compiler cmdline source).isSome
  fresh := c.fresh

def textPath (lang : Lang) : List UInt8 :=
  submissionPath workspace workerId (ascii "." ++ lang.extCompile)

def outputPath (lang : Lang) : List UInt8 :=
  match lang.type with
  | .compiled => submissionPath workspace workerId []
  | .interpreted => submissionPath workspace workerId (ascii "." ++ lang.extInterpr)
  | .vm => submissionPath workspace workerId (ascii "." ++ lang.extVm)

def langProcess (s : Worker) (c : Call) : Called :=
  if !s.inited && !c.mkdir then ⟨-2, ⟨none, none, none⟩, ⟨false, s.files, s.calls + 1⟩⟩
  else
    match langGet languages c.langid with
    | none => ⟨-1, ⟨none, none, none⟩, ⟨true, s.files, s.calls + 1⟩⟩
    | some lang =>
      let output := outputPath workspace workerId lang
      if lang.type = .interpreted then
        ⟨0, assigned lang output, ⟨true, s.files, s.calls + 1⟩⟩
      else
        let (code, files) := compile c lang (textPath workspace workerId lang) output s.files
          (s.calls + 1)
        ⟨code, if code = 0 then assigned lang output else ⟨some c.fresh, some c.fresh, none⟩,
          ⟨true, files, s.calls + 1⟩⟩

inductive Event where
  | process (c : Call)
  | remove (path : List UInt8)

def step (s : Worker) : Event → Worker
  | .process c => (langProcess languages workspace workerId s c).worker
  | .remove path => { s with files := unlink s.files path }

def history : Worker → List Event → List (Worker × Call)
  | _, [] => []
  | s, .process c :: rest =>
    (s, c) :: history (step languages workspace workerId s (.process c)) rest
  | s, .remove path :: rest => history (step languages workspace workerId s (.remove path)) rest

def start (files : List UInt8 → Option (List UInt8)) : Worker where
  inited := false
  files := fun path => (files path).map fun content => ⟨content, 0⟩
  calls := 0

def product (c : Call) (lang : Lang) : Option (List UInt8) :=
  if lang.type = .interpreted then some c.source
  else c.compiler (lang.cmdCompile (textPath workspace workerId lang)
    (outputPath workspace workerId lang)) c.source

/-- When the call returns 0, it has made the file it reports, from its own source. -/
def Fresh (s : Worker) (c : Call) : Prop :=
  let r := langProcess languages workspace workerId s c
  r.code = 0 → ∃ lang path f, langGet languages c.langid = some lang ∧
    r.binInfo.binPath = some path ∧ r.worker.files path = some f ∧
    f.made = s.calls + 1 ∧ product workspace workerId c lang = some f.content

/-- The call is for an interpreted language and gets past the making of the directory. -/
def Interprets (s : Worker) (c : Call) : Prop :=
  (s.inited = true ∨ c.mkdir = true) ∧
    ∃ lang, langGet languages c.langid = some lang ∧ lang.type = .interpreted

end

def Numbered (s : Worker) : Prop := ∀ path f, s.files path = some f → f.made ≤ s.calls

theorem Numbered.start (files : List UInt8 → Option (List UInt8)) :
    Numbered (SourceFreshness.start files) := by
  intro path f h
  obtain ⟨content, -, rfl⟩ := Option.map_eq_some_iff.mp h
  exact le_rfl

def NoLater (files : Files) (call : ℕ) : Prop := ∀ path f, files path = some f → f.made ≤ call

theorem NoLater.unlink {files : Files} {call : ℕ} (h : NoLater files call) (path : List UInt8) :
    NoLater (unlink files path) call := by
  intro path' f hf
  rw [SourceFreshness.unlink, Function.update_apply] at hf
  split_ifs at hf
  exact h path' f hf

theorem NoLater.write {files : Files} {call : ℕ} (h : NoLater files call)
    (path content : List UInt8) : NoLater (write files path content call) call := by
  intro path' f hf
  rw [SourceFreshness.write, Function.update_apply] at hf
  split_ifs at hf
  · cases hf
    exact le_rfl
  · exact h path' f hf

theorem NoLater.system {files : Files} {call : ℕ} (h : NoLater files call) (c : Call)
    (cmdline text output : List UInt8) :
    NoLater (system c cmdline text output files call) call := by
  unfold SourceFreshness.system
  split
  · exact h
  · split
    · exact h
    · exact h.write _ _

theorem NoLater.compile {files : Files} {call : ℕ} (h : NoLater files call) (c : Call)
    (lang : Lang) (text output : List UInt8) :
    NoLater (compile c lang text output files call).2 call := by
  have hbuilt := ((h.write text c.source).unlink output).system c
    (lang.cmdCompile text output) text output
  unfold SourceFreshness.compile
  split_ifs
  · exact h
  · exact h.write _ _
  · simp only
    split_ifs
    · exact hbuilt
    · exact hbuilt.unlink text

theorem compile_fresh {c : Call} {lang : Lang} {text output : List UInt8} {files : Files}
    {call : ℕ} (h : (compile c lang text output files call).1 = 0) :
    ∃ out, c.compiler (lang.cmdCompile text output) c.source = some out ∧
      (compile c lang text output files call).2 output = some ⟨out, call⟩ := by
  unfold compile at h ⊢
  split_ifs at h ⊢ with hopen hputs
  · exact absurd h (show (-2 : ℤ) ≠ 0 by decide)
  · exact absurd h (show (-5 : ℤ) ≠ 0 by decide)
  · simp only at h ⊢
    split_ifs at h ⊢ with hstat
    · exact absurd h (show (-3 : ℤ) ≠ 0 by decide)
    · have hgone : unlink (write files text c.source call) output output = none :=
        Function.update_self ..
      by_cases hsame : text = output
      · -- the source was unlinked with the old output, so there is nothing to compile
        subst hsame
        refine absurd ?_ hstat
        rw [system, hgone]
        exact hgone
      · have hsource : unlink (write files text c.source call) output text
            = some ⟨c.source, call⟩ := by
          rw [unlink, Function.update_of_ne hsame]
          exact Function.update_self ..
        rw [system, hsource] at hstat ⊢
        simp only at hstat ⊢
        cases hout : c.compiler (lang.cmdCompile text output) c.source with
        | none =>
          rw [hout] at hstat
          exact absurd hgone hstat
        | some out =>
          refine ⟨out, rfl, ?_⟩
          rw [unlink, Function.update_of_ne (Ne.symm hsame)]
          exact Function.update_self ..

section

variable {languages : List Lang} {workspace : List UInt8} {workerId : ℤ}

theorem langProcess_calls (s : Worker) (c : Call) :
    (langProcess languages workspace workerId s c).worker.calls = s.calls + 1 := by
  unfold langProcess
  split_ifs
  · rfl
  · split
    · rfl
    · simp only
      split_ifs <;> rfl

theorem Numbered.step {s : Worker} (h : Numbered s) (e : Event) :
    Numbered (step languages workspace workerId s e) := by
  have hlater : NoLater s.files (s.calls + 1) := fun path f hf => (h path f hf).trans (by omega)
  cases e with
  | remove path => exact NoLater.unlink h path
  | process c =>
    have hfiles : NoLater (langProcess languages workspace workerId s c).worker.files
        (s.calls + 1) := by
      unfold langProcess
      split_ifs
      · exact hlater
      · split
        · exact hlater
        · simp only
          split_ifs
          · exact hlater
          · exact NoLater.compile hlater c _ _ _
          · exact NoLater.compile hlater c _ _ _
    intro path f hf
    rw [SourceFreshness.step, langProcess_calls]
    exact hfiles path f hf

theorem history_numbered {s : Worker} (h : Numbered s) (events : List Event) :
    ∀ p ∈ history languages workspace workerId s events, Numbered p.1 := by
  induction events generalizing s with
  | nil =>
    intro p hp
    cases hp
  | cons e events ih =>
    intro p hp
    cases e with
    | process c =>
      rcases List.mem_cons.mp hp with rfl | hp
      · exact h
      · exact ih (h.step _) p hp
    | remove path => exact ih (h.step _) p hp

theorem langProcess_of_dir {s : Worker} {c : Call} (h : s.inited = true ∨ c.mkdir = true)
    {lang : Lang} (hlang : langGet languages c.langid = some lang) :
    langProcess languages workspace workerId s c
      = if lang.type = .interpreted then
          ⟨0, assigned lang (outputPath workspace workerId lang), ⟨true, s.files, s.calls + 1⟩⟩
        else
          let r := compile c lang (textPath workspace workerId lang)
            (outputPath workspace workerId lang) s.files (s.calls + 1)
          ⟨r.1, if r.1 = 0 then assigned lang (outputPath workspace workerId lang)
            else ⟨some c.fresh, some c.fresh, none⟩, ⟨true, r.2, s.calls + 1⟩⟩ := by
  have hdir : ¬ (!s.inited && !c.mkdir) = true := by
    rcases h with h | h <;> simp [h]
  rw [langProcess, if_neg hdir, hlang]

theorem not_fresh_of_interprets {s : Worker} {c : Call} (hs : Numbered s)
    (h : Interprets languages s c) : ¬ Fresh languages workspace workerId s c := by
  obtain ⟨hdir, lang, hlang, htype⟩ := h
  intro hfresh
  unfold Fresh at hfresh
  simp only [langProcess_of_dir hdir hlang, htype, if_true] at hfresh
  obtain ⟨-, path, f, -, -, hf, hmade, -⟩ := hfresh trivial
  have hold := hs path f hf
  omega

theorem fresh_of_not_interprets {s : Worker} {c : Call} (h : ¬ Interprets languages s c) :
    Fresh languages workspace workerId s c := by
  intro hcode
  by_cases hdir : s.inited = true ∨ c.mkdir = true
  · cases hlang : langGet languages c.langid with
    | none =>
      have hreturn : (langProcess languages workspace workerId s c).code = -1 := by
        rw [langProcess, if_neg (by rcases hdir with hdir | hdir <;> simp [hdir]), hlang]
      omega
    | some lang =>
      have htype : lang.type ≠ .interpreted := fun htype => h ⟨hdir, lang, hlang, htype⟩
      simp only [langProcess_of_dir hdir hlang, if_neg htype] at hcode ⊢
      obtain ⟨out, hout, hfile⟩ := compile_fresh hcode
      exact ⟨lang, _, _, rfl, by rw [if_pos hcode]; rfl, hfile, rfl,
        by rw [product, if_neg htype]; exact hout⟩
  · rw [not_or, Bool.not_eq_true, Bool.not_eq_true] at hdir
    have hreturn : (langProcess languages workspace workerId s c).code = -2 := by
      rw [langProcess, if_pos (by simp [hdir])]
    omega

def Named (names : Finset (List UInt8)) (files : Files) : Prop :=
  ∀ path, path ∈ names ↔ (files path).isSome = true

theorem Named.write {names : Finset (List UInt8)} {files : Files} (h : Named names files)
    (path content : List UInt8) (call : ℕ) :
    Named (insert path names) (write files path content call) := by
  intro path'
  rw [SourceFreshness.write, Function.update_apply, Finset.mem_insert]
  split_ifs with hpath
  · simp [hpath]
  · rw [← h path']
    simp [hpath]

theorem Named.unlink {names : Finset (List UInt8)} {files : Files} (h : Named names files)
    (path : List UInt8) : Named (names.erase path) (unlink files path) := by
  intro path'
  rw [SourceFreshness.unlink, Function.update_apply, Finset.mem_erase]
  split_ifs with hpath
  · simp [hpath]
  · rw [← h path']
    simp [hpath]

variable (languages workspace) in
theorem compile_refines {s : Worker} {c : Call} {lang : Lang} {text output : List UInt8}
    {names : Finset (List UInt8)} (h : Named names s.files) (hpaths : text ≠ output) (call : ℕ) :
    let p := LangProcess.compile (environment languages workspace s c) c.source lang text output
      names
    let r := compile c lang text output s.files call
    r.1 = p.code ∧ p.inited = true ∧
      p.binInfo = (if r.1 = 0 then assigned lang output else ⟨some c.fresh, some c.fresh, none⟩) ∧
      Named p.files r.2 := by
  intro p r
  have hwritten := h.write text c.source call
  have hgone : unlink (write s.files text c.source call) output output = none :=
    Function.update_self ..
  have hsource : unlink (write s.files text c.source call) output text
      = some ⟨c.source, call⟩ := by
    rw [unlink, Function.update_of_ne hpaths]
    exact Function.update_self ..
  unfold p r LangProcess.compile compile
  cases hopen : c.fopen with
  | false => exact ⟨by simp [environment, hopen], by simp [environment, hopen],
      by simp [environment, hopen, allocated], by simpa [environment, hopen] using h⟩
  | true =>
    cases hputs : c.fputs with
    | false =>
      have hpartly := h.write text c.written call
      exact ⟨by simp [environment, hopen, hputs], by simp [environment, hopen, hputs],
        by simp [environment, hopen, hputs, allocated],
        by simpa [environment, hopen, hputs] using hpartly⟩
    | true =>
      simp only [system, hsource]
      cases hout : c.compiler (lang.cmdCompile text output) c.source with
      | none =>
        have hleft := hwritten.unlink output
        exact ⟨by simp [environment, hopen, hputs, hout, hgone],
          by simp [environment, hopen, hputs, hout],
          by simp [environment, hopen, hputs, hout, hgone, allocated],
          by simpa [environment, hopen, hputs, hout, hgone] using hleft⟩
      | some out =>
        have hleft := ((hwritten.unlink output).write output out call).unlink text
        have hbuilt : write (unlink (write s.files text c.source call) output) output out call
            output = some ⟨out, call⟩ := Function.update_self ..
        exact ⟨by simp [environment, hopen, hputs, hout, hbuilt],
          by simp [environment, hopen, hputs, hout],
          by simp [environment, hopen, hputs, hout, hbuilt],
          by simpa [environment, hopen, hputs, hout, hbuilt] using hleft⟩

/-- With contents or without, `lang_process` is the same function, where the output is not the
source file itself. -/
theorem langProcess_refines {s : Worker} {c : Call} {names : Finset (List UInt8)}
    (h : Named names s.files) (hpaths : ∀ lang, langGet languages c.langid = some lang →
      textPath workspace workerId lang ≠ outputPath workspace workerId lang) :
    let p := LangProcess.langProcess (environment languages workspace s c) c.langid c.source
      workerId names
    let r := langProcess languages workspace workerId s c
    r.code = p.code ∧ r.binInfo = p.binInfo ∧ r.worker.inited = p.inited ∧
      Named p.files r.worker.files := by
  intro p r
  unfold p r LangProcess.langProcess langProcess
  cases hdir : (!s.inited && !c.mkdir) with
  | true => simpa [environment, hdir] using h
  | false =>
    simp only [environment, hdir, Bool.false_eq_true, if_false]
    cases hlang : langGet languages c.langid with
    | none => exact ⟨rfl, rfl, rfl, h⟩
    | some lang =>
      by_cases htype : lang.type = .interpreted
      · simpa [htype] using ⟨rfl, h⟩
      · obtain ⟨hcode, hinited, hinfo, hfiles⟩ :=
          compile_refines languages workspace h (hpaths lang hlang) (s.calls + 1)
        simp only [htype, if_false]
        exact ⟨hcode, hinfo.symm, hinited.symm, hfiles⟩

/-- In a run every return of 0 comes with a file made of its source exactly when no call gets
to an interpreted language. -/
theorem every_call_fresh_iff (languages : List Lang) (workspace : List UInt8) (workerId : ℤ)
    (files : List UInt8 → Option (List UInt8)) (events : List Event) :
    (∀ p ∈ history languages workspace workerId (start files) events,
      Fresh languages workspace workerId p.1 p.2) ↔
    ∀ p ∈ history languages workspace workerId (start files) events,
      ¬ Interprets languages p.1 p.2 := by
  refine forall₂_congr fun p hp => ⟨fun hfresh hinterprets => ?_, fresh_of_not_interprets⟩
  exact not_fresh_of_interprets (history_numbered (.start files) events p hp) hinterprets hfresh

end

def pythons : List Lang :=
  [{ id := ascii "pyc", type := .vm, cmdCompile := fun text _ => text, cmdInterpr := id,
     cmdVm := id, extCompile := ascii "py", extInterpr := [], extVm := ascii "pyc" },
   { id := ascii "py", type := .interpreted, cmdCompile := fun text _ => text, cmdInterpr := id,
     cmdVm := id, extCompile := [], extInterpr := ascii "py", extVm := [] }]

def brokenCall : Call where
  langid := ascii "pyc"
  source := ascii "("
  mkdir := true
  fopen := true
  fputs := true
  written := []
  compiler := fun _ _ => none
  fresh := []

def nextCall : Call := { brokenCall with langid := ascii "py", source := ascii "1" }

theorem stale_source : ∃ p ∈ history pythons (ascii "/w") 0 (start fun _ => none)
      [.process brokenCall, .process nextCall],
    p.2.source = ascii "1" ∧ (langProcess pythons (ascii "/w") 0 p.1 p.2).code = 0 ∧
      (langProcess pythons (ascii "/w") 0 p.1 p.2).binInfo.binPath
        = some (ascii "/w/0/Submission.py") ∧
      (langProcess pythons (ascii "/w") 0 p.1 p.2).worker.files (ascii "/w/0/Submission.py")
        = some ⟨ascii "(", 1⟩ ∧
      ¬ Fresh pythons (ascii "/w") 0 p.1 p.2 := by
  refine ⟨_, List.mem_cons_of_mem _ List.mem_cons_self, rfl, by decide +kernel, by decide +kernel,
    by decide +kernel, ?_⟩
  refine not_fresh_of_interprets ?_ ⟨.inr rfl, _, rfl, rfl⟩
  exact (Numbered.start fun _ => none).step (.process brokenCall)

end KudosJudge.SourceFreshness
