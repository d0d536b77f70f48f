import KudosJudge.IniText

set_option autoImplicit false

/-!
`jug_ini_load`, `jug_ini_get_string`, `jug_get_config` and `jug_ini_get_section` of
`config.c`, and the functions that read the settings when the daemon starts: `queue_init`,
`jug_runner_init`, `jug_sandbox_init` and `lang_init`.
-/
namespace KudosJudge.IniConfig
open CText IniParser IniText
open LangTable (KeyVal IniSection strdup jugIniGetSection langInit langGet)

/-- What a call finds: `JUG_ROOT`, the files by their paths, and the memory it is given. -/
structure Host where
  jugRoot : Option (List UInt8)
  files : List UInt8 → Option (List UInt8)
  stale : ℕ → UInt8

def strcat (dest source : Memory) : Option Memory := do
  let i ← strlen dest
  let n ← strlen source
  store dest i (source.take (n + 1))

def configPath (h : Host) : Option (List UInt8) := do
  let jugPath ← h.jugRoot
  let path ← store ((List.range 250).map h.stale) 0 [0]
  let path ← strcpy path (strdup jugPath)
  let path ← strcat path (ascii "/etc/config.ini" ++ [0])
  text path

section

-- how far the loops of the parser are followed
variable (rounds : ℕ)

/-- `jug_ini_load`, with `singleton_ini` if `loaded`. -/
def jugIniLoad (h : Host) (filename : List UInt8) : Option (List Section) → Option (List Section)
  | some ini => some ini
  | none => readIni h.stale rounds (h.files filename)

/-- How `jug_get_config` and `jug_ini_get_section` come by `localini`. -/
def localIni (h : Host) : Option (List Section) → Option (List Section)
  | some ini => some ini
  | none => do
    let path ← configPath h
    jugIniLoad rounds h path none

/-- `jug_get_config`, with the sections it leaves loaded. The inner `none` is `NULL`. -/
def jugGetConfig (h : Host) (name key : Memory) (loaded : Option (List Section)) :
    Option (List Section × Option Memory) := do
  let ini ← localIni rounds h loaded
  let value ← iniGetValue name key ini
  some (ini, value)

def toIni (s : Section) : Option IniSection := s.name.map fun name => ⟨name, s.configs⟩

/-- `jug_ini_get_section`, with the sections it leaves loaded. -/
def jugIniGetSectionFrom (h : Host) (name : Memory) (loaded : Option (List Section)) :
    Option (List Section × List KeyVal) := do
  let ini ← localIni rounds h loaded
  let sections ← ini.mapM toIni
  let kv ← jugIniGetSection name sections
  some (ini, kv)

structure Literal where
  text : List UInt8
  clean : 0 ∉ text

inductive Call where
  | value (name key : Literal)
  | keyVals (name : Literal)

inductive Answer where
  | value (value : Option Memory)
  | keyVals (list : List KeyVal)

def call (h : Host) (loaded : Option (List Section)) : Call → Option (List Section × Answer)
  | .value name key =>
    (jugGetConfig rounds h (strdup name.text) (strdup key.text) loaded).map fun (ini, v) =>
      (ini, .value v)
  | .keyVals name =>
    (jugIniGetSectionFrom rounds h (strdup name.text) loaded).map fun (ini, kv) =>
      (ini, .keyVals kv)

def calls : Option (List Section) → List (Host × Call) → Option (List Answer)
  | _, [] => some []
  | loaded, (h, c) :: rest => do
    let (ini, answer) ← call rounds h loaded c
    let answers ← calls (some ini) rest
    some (answer :: answers)

end

def literal (s : String) (h : 0 ∉ ascii s) : Literal := ⟨ascii s, h⟩

inductive Setting where
  | redirectStderr
  | numWorkerThreads
  | queueSizeLimit
  | stackSizeMb
  | killOnCompout
  | showSubmissionOutput
  | outputSizeLimitMb
  | memLimitMb
  | walltimeLimitMs
  | timeLimitMs
  | useCgroups
  | useSetrlimit
  | useErfs
deriving DecidableEq

def executer : Literal := literal "Executer" (by decide)

def Setting.section : Setting → Literal
  | numWorkerThreads | queueSizeLimit => literal "Queue" (by decide)
  | _ => executer

def Setting.key : Setting → Literal
  | redirectStderr => literal "redirect_stderr" (by decide)
  | numWorkerThreads => literal "num_worker_threads" (by decide)
  | queueSizeLimit => literal "queue_size_limit" (by decide)
  | stackSizeMb => literal "stack_size_mb" (by decide)
  | killOnCompout => literal "kill_on_compout" (by decide)
  | showSubmissionOutput => literal "show_submission_output" (by decide)
  | outputSizeLimitMb => literal "output_size_limit_mb" (by decide)
  | memLimitMb => literal "mem_limit_mb" (by decide)
  | walltimeLimitMs => literal "walltime_limit_ms" (by decide)
  | timeLimitMs => literal "time_limit_ms" (by decide)
  | useCgroups => literal "use_cgroups" (by decide)
  | useSetrlimit => literal "use_setrlimit" (by decide)
  | useErfs => literal "use_ERFS" (by decide)

structure Settings where
  loaded : Option (List Section)
  number : Setting → Option ℤ
  chrootDir : Option Memory

def Settings.unset : Settings := ⟨none, fun _ => none, none⟩

section

variable (rounds : ℕ) (h : Host)

/-- `if((value=jug_get_config(..))==NULL) return -1; ..=atoi(value);` for one setting after the
other, and whether none was missing. -/
def readNumbers : List Setting → Settings → Option (Bool × Settings)
  | [], g => some (true, g)
  | k :: settings, g => do
    let (ini, value) ← jugGetConfig rounds h (strdup k.section.text) (strdup k.key.text) g.loaded
    let g := { g with loaded := some ini }
    match value with
    | none => some (false, g)
    | some value =>
      let n ← atoi value
      readNumbers settings { g with number := Function.update g.number k (some n) }

def queueSettings : List Setting := [.numWorkerThreads, .queueSizeLimit]

def runnerSettings : List Setting :=
  [.stackSizeMb, .killOnCompout, .showSubmissionOutput, .outputSizeLimitMb]

def sandboxSettings : List Setting :=
  [.memLimitMb, .walltimeLimitMs, .timeLimitMs, .useCgroups, .useSetrlimit, .useErfs]

def chrootKey : Literal := literal "chroot_dir_path" (by decide)

/-- `queue_init` writes its globals as it reads them. -/
def queueInit (g : Settings) : Option (ℤ × Settings) := do
  let (found, g) ← readNumbers rounds h queueSettings g
  some (if found then 0 else -1, g)

/-- `jug_runner_init`. A missing setting leaves no `g_runner`. -/
def jugRunnerInit (g : Settings) : Option (ℤ × Settings) := do
  let (found, runner) ← readNumbers rounds h runnerSettings g
  some (if found then (0, runner) else (-1, { g with loaded := runner.loaded }))

/-- `jug_sandbox_init`, with whether `/tmp` is there. A failure leaves no `global_sandbox`. -/
def jugSandboxInit (tmp : Bool) (g : Settings) : Option (ℤ × Settings) := do
  let (found, sb) ← readNumbers rounds h sandboxSettings g
  if found then
    let (ini, value) ← jugGetConfig rounds h (strdup executer.text) (strdup chrootKey.text)
      sb.loaded
    match value with
    | none => some (-1, { g with loaded := some ini })
    | some value =>
      let path ← text value
      if tmp then some (0, { sb with loaded := some ini, chrootDir := some (strdup path) })
      else some (-10, { g with loaded := some ini })
  else some (-1, { g with loaded := sb.loaded })

/-- What `main` reads before it serves, with the code it ends with where a part fails. The other
parts of `queue_start` and `jug_runner_start` succeed. -/
def readSettings (tmp : Bool) (g : Settings) : Option (ℤ × Settings) := do
  let (found, g) ← readNumbers rounds h [.redirectStderr] g
  if found then
    let (code, g) ← queueInit rounds h g
    if code ≠ 0 then some (-100, g)
    else
      let (code, g) ← jugRunnerInit rounds h g
      if code ≠ 0 then some (-556, g)
      else
        let (code, g) ← jugSandboxInit rounds h tmp g
        if code ≠ 0 then some (-556, g) else some (0, g)
  else some (12, g)

end

def entriesOf (name : List UInt8) (parts : List Part) : List EntryLine :=
  parts.flatMap fun p => if p.header.map HeaderLine.name = some name then p.entries else []

def valueOf (name key : List UInt8) (parts : List Part) : Option (List UInt8) :=
  ((entriesOf name parts).find? fun l => l.key.text = key).map fun l => l.value.text

def headed (f : ConfigFile) : Bool :=
  f.lines.any (fun l => l.1.isHeader) || f.broken.any Line.isHeader

def answerOf (parts : List Part) : Call → Answer
  | .value name key => .value ((valueOf name.text key.text parts).map strdup)
  | .keyVals name => .keyVals ((entriesOf name.text parts).map EntryLine.keyVal)

theorem Part.named_header (p : Part) (l : HeaderLine) : (p.named l).header = some l := rfl

theorem partsFrom_headed (broken : Option Line) (lines : List (Line × Ends)) (p : Part) :
    if p.header.isSome || (lines.any (fun l => l.1.isHeader) || broken.any Line.isHeader)
    then ∀ q ∈ partsFrom broken p lines, q.header.isSome
    else ∃ q, partsFrom broken p lines = [q] ∧ q.header = none := by
  induction lines generalizing p with
  | nil =>
    cases broken with
    | none =>
      cases hp : p.header <;> simp [partsFrom, closed, hp]
    | some l =>
      cases l with
      | comment l => cases hp : p.header <;> simp [partsFrom, closed, hp, Line.isHeader]
      | header l => simp [partsFrom, closed, Line.isHeader, Part.named]
      | entry l => cases hp : p.header <;> simp [partsFrom, closed, hp, Line.isHeader, Part.add]
  | cons line lines ih =>
    obtain ⟨line, ends⟩ := line
    cases line with
    | comment line => exact ih p
    | entry line => exact ih (p.add line)
    | header line =>
      rw [partsFrom]
      split_ifs with hall hp hp
      · exact (by simpa [Part.named_header] using ih (p.named line))
      · intro q hq
        rcases List.mem_cons.mp hq with rfl | hq
        · simpa [Option.isSome_iff_ne_none] using hp
        · have hrest := ih ⟨some line, []⟩
          rw [if_pos (by simp)] at hrest
          exact hrest q hq
      · simp [Line.isHeader] at hall
      · simp [Line.isHeader] at hall

theorem parts_headed {f : ConfigFile} (h : headed f) : ∀ p ∈ f.parts, p.header.isSome := by
  have hparts := partsFrom_headed f.broken f.lines ⟨none, []⟩
  rwa [if_pos (by exact h)] at hparts

theorem parts_unheaded {f : ConfigFile} (h : ¬ headed f) : ∃ q, f.parts = [q] ∧ q.header = none := by
  have hparts := partsFrom_headed f.broken f.lines ⟨none, []⟩
  rwa [if_neg (by exact h)] at hparts

theorem zero_not_mem_text (w : Word) : 0 ∉ w.text := zero_not_mem_of_clean w.clean

theorem strcmp_strdup {s t : List UInt8} (hs : 0 ∉ s) (ht : 0 ∉ t) :
    ∃ v, strcmp (strdup s) (strdup t) = some v ∧ (v = 0 ↔ s = t) :=
  strcmp_append hs ht [] []

theorem configValue_entries {key : List UInt8} (hkey : 0 ∉ key) (entries : List EntryLine) :
    configValue (strdup key) (entries.map EntryLine.keyVal)
      = some ((entries.find? fun l => l.key.text = key).map fun l => strdup l.value.text) := by
  induction entries with
  | nil => rfl
  | cons l entries ih =>
    obtain ⟨v, hv, hzero⟩ := strcmp_strdup hkey (zero_not_mem_text l.key)
    rw [List.map_cons, configValue, EntryLine.keyVal, hv, Option.bind_eq_bind, Option.bind_some,
      List.find?_cons]
    by_cases hsame : l.key.text = key
    · rw [if_pos (hzero.mpr hsame.symm), decide_eq_true hsame]
      rfl
    · rw [if_neg fun h => hsame (hzero.mp h).symm, decide_eq_false hsame]
      exact ih

theorem iniGetValue_parts {name key : List UInt8} (hname : 0 ∉ name) (hkey : 0 ∉ key)
    {parts : List Part} (hparts : ∀ p ∈ parts, p.header.isSome) :
    iniGetValue (strdup name) (strdup key) (parts.map Part.section)
      = some ((valueOf name key parts).map strdup) := by
  induction parts with
  | nil => rfl
  | cons p parts ih =>
    obtain ⟨l, hl⟩ := Option.isSome_iff_exists.mp (hparts p List.mem_cons_self)
    have hrest := ih fun q hq => hparts q (List.mem_cons_of_mem _ hq)
    obtain ⟨v, hv, hzero⟩ := strcmp_strdup hname (zero_not_mem_of_clean l.clean)
    have hvalue : valueOf name key (p :: parts) = (((if l.name = name then p.entries else []).find?
        fun l => l.key.text = key).or ((entriesOf name parts).find? fun l => l.key.text = key)).map
          fun l => l.value.text := by
      simp only [valueOf, entriesOf, List.flatMap_cons, hl, Option.map_some, Option.some.injEq,
        List.find?_append]
    rw [List.map_cons, iniGetValue, Part.section, hl, Option.map_some, Option.bind_eq_bind,
      Option.bind_some, hvalue]
    change (strcmp (strdup name) (strdup l.name)).bind _ = _
    rw [hv, Option.bind_some]
    by_cases hsame : l.name = name
    · rw [if_pos (hzero.mpr hsame.symm), if_pos hsame]
      change (configValue (strdup key) _).bind _ = _
      rw [configValue_entries hkey, Option.bind_some]
      cases hfind : p.entries.find? fun l => l.key.text = key with
      | none => exact hrest
      | some found => rfl
    · rw [if_neg fun h => hsame (hzero.mp h).symm, if_neg hsame]
      exact hrest

def iniOf (p : Part) : IniSection :=
  ⟨strdup ((p.header.map HeaderLine.name).getD []), p.entries.map EntryLine.keyVal⟩

theorem toIni_section {p : Part} (h : p.header.isSome) : toIni p.section = some (iniOf p) := by
  obtain ⟨l, hl⟩ := Option.isSome_iff_exists.mp h
  rw [toIni, Part.section, iniOf, hl]
  rfl

theorem mapM_toIni {parts : List Part} (h : ∀ p ∈ parts, p.header.isSome) :
    (parts.map Part.section).mapM toIni = some (parts.map iniOf) := by
  induction parts with
  | nil => rfl
  | cons p parts ih =>
    rw [List.map_cons, List.mapM_cons, toIni_section (h p List.mem_cons_self),
      ih fun q hq => h q (List.mem_cons_of_mem _ hq)]
    rfl

theorem jugIniGetSection_parts {name : List UInt8} (hname : 0 ∉ name) {parts : List Part}
    (hparts : ∀ p ∈ parts, p.header.isSome) :
    jugIniGetSection (strdup name) (parts.map iniOf)
      = some ((entriesOf name parts).map EntryLine.keyVal) := by
  have loop : ∀ kv : List KeyVal, (parts.map iniOf).foldlM (fun kv s => do
      let v ← strcmp (strdup name) s.name
      some (if v = 0 then kv ++ s.configs else kv)) kv
        = some (kv ++ (entriesOf name parts).map EntryLine.keyVal) := by
    induction parts with
    | nil =>
      intro kv
      rw [entriesOf, List.flatMap_nil]
      exact congrArg some (List.append_nil kv).symm
    | cons p parts ih =>
      intro kv
      obtain ⟨l, hl⟩ := Option.isSome_iff_exists.mp (hparts p List.mem_cons_self)
      obtain ⟨v, hv, hzero⟩ := strcmp_strdup hname (zero_not_mem_of_clean l.clean)
      have hini : (iniOf p).name = strdup l.name := by
        rw [iniOf, hl]
        rfl
      have hentries : entriesOf name (p :: parts)
          = (if l.name = name then p.entries else []) ++ entriesOf name parts := by
        simp only [entriesOf, List.flatMap_cons, hl, Option.map_some, Option.some.injEq]
      rw [List.map_cons, List.foldlM_cons, hini, hv]
      change (parts.map iniOf).foldlM _ (if v = 0 then kv ++ (iniOf p).configs else kv) = _
      rw [ih (fun q hq => hparts q (List.mem_cons_of_mem _ hq)), hentries]
      by_cases hsame : l.name = name
      · rw [if_pos (hzero.mpr hsame.symm), if_pos hsame, List.map_append, List.append_assoc]
        rfl
      · rw [if_neg fun h => hsame (hzero.mp h).symm, if_neg hsame, List.nil_append]
  exact loop []

theorem strcpy_array {dest : Memory} {s : List UInt8} (h : s.length < dest.length) (hs : 0 ∉ s) :
    strcpy dest (strdup s) = some (s ++ 0 :: dest.drop (s.length + 1)) := by
  have hlength : strlen (strdup s) = some s.length := strlen_append hs []
  rw [strcpy, hlength, Option.bind_eq_bind, Option.bind_some,
    List.take_of_length_le (by simp [strdup]), store_of_fits (by simp [strdup]; omega)]
  simp [strdup]

theorem strcat_array {s t : List UInt8} {rest : Memory} (h : t.length ≤ rest.length) (hs : 0 ∉ s)
    (ht : 0 ∉ t) :
    strcat (s ++ 0 :: rest) (t ++ [0]) = some (s ++ t ++ 0 :: rest.drop t.length) := by
  rw [strcat, strlen_append hs, strlen_append ht [], Option.bind_eq_bind, Option.bind_some,
    Option.bind_some, List.take_of_length_le (by simp), store_of_fits (by simp; omega),
    List.take_left, List.length_append, List.length_singleton,
    ← Nat.add_assoc, List.append_assoc, Nat.add_assoc, List.drop_length_add_append]
  simp

theorem configPath_eq {h : Host} {root : List UInt8} (hroot : h.jugRoot = some root)
    (hclean : 0 ∉ root) (hfits : root.length + 16 ≤ 250) :
    configPath h = some (root ++ ascii "/etc/config.ini") := by
  have hlength : ((List.range 250).map h.stale).length = 250 := by simp
  have hname : 0 ∉ ascii "/etc/config.ini" := by decide
  have hnameLength : (ascii "/etc/config.ini").length = 15 := by decide
  obtain ⟨path, hpath⟩ : ∃ path, store ((List.range 250).map h.stale) 0 [0] = some path :=
    ⟨_, store_of_fits (by rw [hlength]; decide)⟩
  have hpathLength : path.length = 250 := (store_length hpath).trans hlength
  rw [configPath, hroot, Option.bind_eq_bind, Option.bind_some, hpath, Option.bind_some,
    strcpy_array (by omega) hclean, Option.bind_some,
    strcat_array (by rw [List.length_drop]; omega) hclean hname, Option.bind_some, text_append]
  rw [List.mem_append, not_or]
  exact ⟨hclean, hname⟩

/-- The file is where `JUG_ROOT` says, and the loops of the parser are followed to its end. -/
structure Installed (rounds : ℕ) (h : Host) (f : ConfigFile) : Prop where
  root : ∃ root, h.jugRoot = some root ∧ 0 ∉ root ∧ root.length + 16 ≤ 250 ∧
    h.files (root ++ ascii "/etc/config.ini") = some f.text
  small : f.text.length < 2^30
  rounds : f.text.length + 4 ≤ rounds

theorem localIni_installed {rounds : ℕ} {h : Host} {f : ConfigFile} (hf : Installed rounds h f) :
    localIni rounds h none = some f.sections := by
  obtain ⟨root, hroot, hclean, hfits, hfile⟩ := hf.root
  rw [localIni, configPath_eq hroot hclean hfits, Option.bind_eq_bind, Option.bind_some,
    jugIniLoad, hfile]
  exact readIni_text f h.stale hf.small hf.rounds

def Ready (rounds : ℕ) (h : Host) (f : ConfigFile) (loaded : Option (List Section)) : Prop :=
  loaded = some f.sections ∨ loaded = none ∧ Installed rounds h f

section

variable {rounds : ℕ} {h : Host} {f : ConfigFile} {loaded : Option (List Section)}
  (hready : Ready rounds h f loaded)
include hready

theorem localIni_ready : localIni rounds h loaded = some f.sections := by
  obtain rfl | ⟨rfl, hf⟩ := hready
  · rfl
  · exact localIni_installed hf

theorem jugGetConfig_ready (hf : headed f) {name key : List UInt8} (hname : 0 ∉ name)
    (hkey : 0 ∉ key) : jugGetConfig rounds h (strdup name) (strdup key) loaded
      = some (f.sections, (valueOf name key f.parts).map strdup) := by
  rw [jugGetConfig, localIni_ready hready, Option.bind_eq_bind, Option.bind_some,
    ConfigFile.sections, iniGetValue_parts hname hkey (parts_headed hf)]
  rfl

theorem jugIniGetSectionFrom_ready (hf : headed f) {name : List UInt8} (hname : 0 ∉ name) :
    jugIniGetSectionFrom rounds h (strdup name) loaded
      = some (f.sections, (entriesOf name f.parts).map EntryLine.keyVal) := by
  simp only [jugIniGetSectionFrom, localIni_ready hready, Option.bind_eq_bind, Option.bind_some,
    ConfigFile.sections, mapM_toIni (parts_headed hf),
    jugIniGetSection_parts hname (parts_headed hf)]

theorem call_ready (c : Call) : call rounds h loaded c
    = if headed f then some (f.sections, answerOf f.parts c) else none := by
  have hini := localIni_ready hready
  by_cases hf : headed f
  · rw [if_pos hf]
    cases c with
    | value name key =>
      rw [call, jugGetConfig_ready hready hf name.clean key.clean]
      rfl
    | keyVals name =>
      rw [call, jugIniGetSectionFrom_ready hready hf name.clean]
      rfl
  · obtain ⟨p, hparts, hp⟩ := parts_unheaded hf
    have hsections : f.sections = [⟨none, p.entries.map EntryLine.keyVal⟩] := by
      rw [ConfigFile.sections, hparts, List.map_singleton, Part.section, hp]
      rfl
    rw [if_neg hf]
    cases c with
    | value name key =>
      rw [call, jugGetConfig, hini, hsections]
      rfl
    | keyVals name =>
      rw [call, jugIniGetSectionFrom, hini, hsections]
      rfl

end

/-- Calls made one after the other, each while the files may have changed, all answer from the
file as the first call found it; a file without any header has no answer. -/
theorem calls_first_file {rounds : ℕ} {h : Host} {f : ConfigFile} (hf : Installed rounds h f)
    (c : Call) (rest : List (Host × Call)) :
    calls rounds none ((h, c) :: rest)
      = if headed f then some (answerOf f.parts c :: rest.map fun (_, c) => answerOf f.parts c)
        else none := by
  have later : headed f → ∀ rest : List (Host × Call), calls rounds (some f.sections) rest
      = some (rest.map fun (_, c) => answerOf f.parts c) := by
    intro hheaded rest
    induction rest with
    | nil => rfl
    | cons first rest ih =>
      obtain ⟨h', c'⟩ := first
      rw [calls, call_ready (.inl rfl), if_pos hheaded, Option.bind_eq_bind, Option.bind_some]
      change (calls rounds (some f.sections) rest).bind _ = _
      rw [ih]
      rfl
  rw [calls, call_ready (.inr ⟨rfl, hf⟩)]
  split_ifs with hheaded
  · rw [Option.bind_eq_bind, Option.bind_some]
    change (calls rounds (some f.sections) rest).bind _ = _
    rw [later hheaded]
    rfl
  · rfl

def settingOf (parts : List Part) (k : Setting) : Option ℤ :=
  (valueOf k.section.text k.key.text parts).bind fun value => atoi (strdup value)

theorem valueOf_clean {name key value : List UInt8} {parts : List Part}
    (h : valueOf name key parts = some value) : 0 ∉ value := by
  obtain ⟨l, -, rfl⟩ := Option.map_eq_some_iff.mp h
  exact zero_not_mem_text l.value

theorem settingOf_isSome {parts : List Part} {k : Setting} :
    (settingOf parts k).isSome = (valueOf k.section.text k.key.text parts).isSome := by
  rw [settingOf]
  cases valueOf k.section.text k.key.text parts with
  | none => rfl
  | some value => exact atoi_isSome (by simp [strdup])

def given (parts : List Part) (settings : List Setting) : Bool :=
  settings.all fun k => (settingOf parts k).isSome

theorem settingOf_decimal {parts : List Part} {k : Setting} {n : ℕ} {tail : List UInt8}
    (hvalue : valueOf k.section.text k.key.text parts = some (decimal n ++ tail)) (hn : n < 2^31)
    (htail : ∀ c ∈ tail.head?, isDigit c = false) : settingOf parts k = some (n : ℤ) := by
  rw [settingOf, hvalue, Option.bind_some, strdup]
  cases tail with
  | nil =>
    rw [List.append_nil]
    exact atoi_decimal hn (by decide) []
  | cons c tail =>
    rw [List.append_assoc, List.cons_append]
    exact atoi_decimal hn (htail c rfl) (tail ++ [0])

section

variable {rounds : ℕ} {h : Host} {f : ConfigFile} (hf : headed f)
include hf

theorem readNumbers_ready (settings : List Setting) {g : Settings}
    (hready : Ready rounds h f g.loaded) :
    ∃ g', readNumbers rounds h settings g
        = some (given f.parts settings, g') ∧
      Ready rounds h f g'.loaded ∧ g'.chrootDir = g.chrootDir ∧
      (given f.parts settings →
        ∀ k, g'.number k = if k ∈ settings then settingOf f.parts k else g.number k) := by
  induction settings generalizing g with
  | nil => exact ⟨g, rfl, hready, rfl, fun _ k => (if_neg List.not_mem_nil).symm⟩
  | cons k settings ih =>
    have hget := jugGetConfig_ready hready hf k.section.clean k.key.clean
    rw [readNumbers, hget, Option.bind_eq_bind, Option.bind_some]
    cases hvalue : valueOf k.section.text k.key.text f.parts with
    | none =>
      have hmissing : settingOf f.parts k = none := by
        rw [settingOf, hvalue]
        rfl
      refine ⟨{ g with loaded := some f.sections }, ?_, .inl rfl, rfl, fun hall => ?_⟩
      · simp [given, hmissing]
      · simp [given, hmissing] at hall
    | some value =>
      obtain ⟨n, hn⟩ := Option.isSome_iff_exists.mp
        (atoi_isSome (show 0 ∈ strdup value by simp [strdup]))
      have hfound : settingOf f.parts k = some n := by
        rw [settingOf, hvalue]
        exact hn
      obtain ⟨g', hread, hready', hdir, hnumber⟩ := ih
        (g := ⟨some f.sections, Function.update g.number k (some n), g.chrootDir⟩) (.inl rfl)
      refine ⟨g', ?_, hready', hdir, fun hall => ?_⟩
      · rw [given, List.all_cons, hfound]
        change (atoi (strdup value)).bind _ = _
        rw [hn]
        exact hread
      · rw [given, List.all_cons, Bool.and_eq_true] at hall
        intro j
        rw [hnumber hall.2 j]
        by_cases hj : j ∈ settings
        · rw [if_pos hj, if_pos (List.mem_cons_of_mem _ hj)]
        · rw [if_neg hj]
          change Function.update g.number k (some n) j = _
          by_cases hk : j = k
          · rw [hk, if_pos List.mem_cons_self, Function.update_self, hfound]
          · rw [if_neg (by simp [hk, hj]), Function.update_of_ne hk]

theorem queueInit_ready {g : Settings} (hready : Ready rounds h f g.loaded) :
    ∃ g', queueInit rounds h g = some (if given f.parts queueSettings then 0 else -1, g') ∧
      Ready rounds h f g'.loaded ∧ g'.chrootDir = g.chrootDir ∧
      (given f.parts queueSettings →
        ∀ k, g'.number k = if k ∈ queueSettings then settingOf f.parts k else g.number k) := by
  obtain ⟨g', hread, hrest⟩ := readNumbers_ready hf queueSettings hready
  refine ⟨g', ?_, hrest⟩
  rw [queueInit, hread]
  rfl

theorem jugRunnerInit_ready {g : Settings} (hready : Ready rounds h f g.loaded) :
    ∃ g', jugRunnerInit rounds h g = some (if given f.parts runnerSettings then 0 else -1, g') ∧
      Ready rounds h f g'.loaded ∧ g'.chrootDir = g.chrootDir ∧
      (given f.parts runnerSettings →
        ∀ k, g'.number k = if k ∈ runnerSettings then settingOf f.parts k else g.number k) := by
  obtain ⟨runner, hread, hready', hdir, hnumber⟩ := readNumbers_ready hf runnerSettings hready
  rw [jugRunnerInit, hread]
  by_cases hall : given f.parts runnerSettings
  · simp only [hall, if_true]
    exact ⟨runner, rfl, hready', hdir, fun _ => hnumber hall⟩
  · simp only [hall]
    exact ⟨_, rfl, hready', rfl, fun h => absurd h (by decide)⟩

def SandboxGiven (parts : List Part) (tmp : Bool) : Prop :=
  given parts sandboxSettings ∧ (valueOf executer.text chrootKey.text parts).isSome ∧ tmp

instance (parts : List Part) (tmp : Bool) : Decidable (SandboxGiven parts tmp) :=
  inferInstanceAs (Decidable (_ ∧ _ ∧ _))

theorem jugSandboxInit_ready {g : Settings} (hready : Ready rounds h f g.loaded) (tmp : Bool) :
    ∃ code g', jugSandboxInit rounds h tmp g = some (code, g') ∧
      (code = 0 ↔ SandboxGiven f.parts tmp) ∧
      (code = 0 →
        g'.chrootDir = (valueOf executer.text chrootKey.text f.parts).map strdup ∧
        ∀ k, g'.number k = if k ∈ sandboxSettings then settingOf f.parts k else g.number k) := by
  obtain ⟨sb, hread, hready', -, hnumber⟩ := readNumbers_ready hf sandboxSettings hready
  rw [jugSandboxInit, hread, Option.bind_eq_bind, Option.bind_some]
  by_cases hall : given f.parts sandboxSettings
  · have hget := jugGetConfig_ready hready' hf executer.clean chrootKey.clean
    simp only [hall, if_true, hget, Option.bind_eq_bind, Option.bind_some]
    cases hvalue : valueOf executer.text chrootKey.text f.parts with
    | none =>
      refine ⟨-1, _, rfl, iff_of_false (by decide) fun h => ?_, fun h => absurd h (by decide)⟩
      simpa [hvalue] using h.2.1
    | some value =>
      have htext : text (strdup value) = some value := text_append (valueOf_clean hvalue) []
      simp only [Option.map_some, htext, Option.bind_some]
      cases tmp with
      | true =>
        refine ⟨0, _, rfl, iff_of_true rfl ⟨hall, by rw [hvalue]; rfl, rfl⟩, fun _ => ⟨rfl, ?_⟩⟩
        exact hnumber hall
      | false =>
        exact ⟨-10, _, rfl, iff_of_false (by decide) fun h => absurd h.2.2 (by decide),
          fun h => absurd h (by decide)⟩
  · simp only [hall]
    exact ⟨-1, _, rfl, iff_of_false (by decide) fun h => hall h.1, fun h => absurd h (by decide)⟩

end

/-- The daemon reads all its settings or ends with the code of the part that misses one, and
what it has read are the numbers of the file. -/
theorem readSettings_codes {rounds : ℕ} {h : Host} {f : ConfigFile} (hf : Installed rounds h f)
    (hheaded : headed f) (tmp : Bool) :
    ∃ code g, readSettings rounds h tmp .unset = some (code, g) ∧
      code = (if ¬ given f.parts [.redirectStderr] then 12
        else if ¬ given f.parts queueSettings then -100
        else if given f.parts runnerSettings ∧ SandboxGiven f.parts tmp then 0 else -556) ∧
      (code = 0 → (∀ k, g.number k = settingOf f.parts k ∧ (g.number k).isSome) ∧
        g.chrootDir = (valueOf executer.text chrootKey.text f.parts).map strdup) := by
  obtain ⟨g₁, hredirect, hready₁, -, hnumber₁⟩ :=
    readNumbers_ready hheaded [.redirectStderr] (g := .unset) (.inr ⟨rfl, hf⟩)
  obtain ⟨g₂, hqueue, hready₂, -, hnumber₂⟩ := queueInit_ready hheaded hready₁
  obtain ⟨g₃, hrunner, hready₃, -, hnumber₃⟩ := jugRunnerInit_ready hheaded hready₂
  obtain ⟨code, g₄, hsandbox, hcode, hnumber₄⟩ := jugSandboxInit_ready hheaded hready₃ tmp
  rw [readSettings, hredirect]
  by_cases h₁ : given f.parts [.redirectStderr]
  swap
  · simp only [h₁]
    exact ⟨12, g₁, rfl, rfl, fun h => absurd h (by decide)⟩
  by_cases h₂ : given f.parts queueSettings
  swap
  · simp only [h₁, h₂, Option.bind_eq_bind, Option.bind_some, hqueue]
    exact ⟨-100, g₂, rfl, rfl, fun h => absurd h (by decide)⟩
  by_cases h₃ : given f.parts runnerSettings
  swap
  · simp only [h₁, h₂, h₃, Option.bind_eq_bind, Option.bind_some, hqueue, hrunner]
    exact ⟨-556, g₃, rfl, rfl, fun h => absurd h (by decide)⟩
  by_cases h₄ : SandboxGiven f.parts tmp
  swap
  · have hfailed : code ≠ 0 := fun h => h₄ (hcode.mp h)
    have hend : (if code ≠ 0 then some ((-556 : ℤ), g₄) else some (0, g₄)) = some (-556, g₄) :=
      if_pos hfailed
    simp only [h₁, h₂, h₃, h₄, Option.bind_eq_bind, Option.bind_some, hqueue, hrunner, hsandbox]
    exact ⟨-556, g₄, hend, rfl, fun h => absurd h (by decide)⟩
  · obtain rfl : code = 0 := hcode.mpr h₄
    simp only [h₁, h₂, h₃, h₄, Option.bind_eq_bind, Option.bind_some, hqueue, hrunner, hsandbox]
    refine ⟨0, g₄, rfl, rfl, fun _ => ⟨fun k => ?_, (hnumber₄ rfl).1⟩⟩
    have hvalue : g₄.number k = settingOf f.parts k := by
      rw [(hnumber₄ rfl).2 k, hnumber₃ h₃ k, hnumber₂ h₂ k, hnumber₁ h₁ k]
      cases k <;> rfl
    have hread : k ∈ [.redirectStderr] ++ (queueSettings ++ (runnerSettings ++ sandboxSettings)) := by
      cases k <;> decide
    refine ⟨hvalue, ?_⟩
    rw [hvalue]
    simp only [List.mem_append] at hread
    rcases hread with hk | hk | hk | hk
    · exact List.all_eq_true.mp h₁ k hk
    · exact List.all_eq_true.mp h₂ k hk
    · exact List.all_eq_true.mp h₃ k hk
    · exact List.all_eq_true.mp h₄.1 k hk

def langInitFrom (rounds : ℕ) (h : Host) (loaded : Option (List Section)) (ramPath : List UInt8)
    (mkdir : Bool) : Option LangTable.Inited := do
  let ini ← localIni rounds h loaded
  let sections ← ini.mapM toIni
  langInit sections ramPath mkdir LangTable.zeroed none

/-- The table of the languages is the one that the text of the file writes down. -/
theorem langInit_file {rounds : ℕ} {h : Host} {f : ConfigFile}
    {loaded : Option (List Section)} (hready : Ready rounds h f loaded) (hheaded : headed f)
    {config : List LangTable.ConfigSection}
    (hconfig : f.parts.map iniOf = config.map LangTable.ConfigSection.ini)
    (hroom : (LangTable.written config).length ≤ 19) (ramPath : List UInt8) (mkdir : Bool) :
    ∃ r, langInitFrom rounds h loaded ramPath mkdir = some r ∧
      r.code = (if mkdir then 0 else -5) ∧
      (r.table.languages.take r.table.count).map LangTable.LangEntry.texts
        = (LangTable.written config).map some ∧
      ∀ langid : List UInt8, 0 ∉ langid → langGet r.table (strdup langid)
        = some ((LangTable.written config).findIdx? fun l => l.id = langid) := by
  have hfits := LangTable.written_fits config
  have hinit : langInitFrom rounds h loaded ramPath mkdir
      = some (if mkdir then ⟨0, LangTable.tableOf (LangTable.written config),
          some (ramPath ++ ascii "/lang-workspace")⟩
        else ⟨-5, LangTable.tableOf (LangTable.written config), none⟩) := by
    rw [langInitFrom, localIni_ready hready, Option.bind_eq_bind, Option.bind_some,
      ConfigFile.sections, mapM_toIni (parts_headed hheaded), hconfig]
    exact LangTable.langInit_zeroed config hroom ramPath mkdir none
  refine ⟨_, hinit, ?_⟩
  cases mkdir with
  | false =>
    exact ⟨rfl, LangTable.texts_tableOf hfits, fun langid hid => LangTable.langGet_tableOf hfits hid⟩
  | true =>
    exact ⟨rfl, LangTable.texts_tableOf hfits, fun langid hid => LangTable.langGet_tableOf hfits hid⟩

def etcConfig : ConfigFile where
  lead := []
  empty := List.all_eq_true.mp rfl
  lines := [(.header (headerOf "Executer" rfl), oneEnd),
    entryOf "mem_limit_mb" "255" rfl rfl,
    entryOf "time_limit_ms" "3000" rfl rfl,
    entryOf "walltime_limit_ms" "60000" rfl rfl,
    entryOf "output_size_limit_mb" "5" rfl rfl,
    entryOf "stack_size_mb" "32" rfl rfl,
    entryOf "use_ERFS" "0" rfl rfl,
    entryOf "chroot_dir_path" "/home/odev/chrootdeb" rfl rfl,
    entryOf "use_cgroups" "0" rfl rfl,
    entryOf "use_setrlimit" "1" rfl rfl,
    entryOf "kill_on_compout" "1" rfl rfl,
    entryOf "show_submission_output" "0" rfl rfl,
    entryOf "redirect_stderr" "1" rfl rfl,
    (.header (headerOf "Queue" rfl), crlf),
    entryOf "num_worker_threads" "5;" rfl rfl,
    entryOf "queue_size_limit" "120" rfl rfl,
    (.header (headerOf "compilers" rfl), oneEnd),
    entryOf "cxx" "9.4.0, GNU C++, g++ %s -o %s,cpp" rfl rfl,
    (.header (headerOf "interpreters" rfl), oneEnd),
    entryOf "ruby" "2.7.0, Ruby, ruby %s,rb" rfl rfl]
  broken := none

def etcHost : Host where
  jugRoot := some (ascii "/opt/kudosJudge")
  files path := if path = ascii "/opt/kudosJudge/etc/config.ini" then some etcConfig.text else none
  stale _ := 65

theorem etcHost_file : etcHost.files (ascii "/opt/kudosJudge" ++ ascii "/etc/config.ini")
    = some etcConfig.text := by
  simp only [etcHost]
  exact if_pos (by decide)

theorem etcConfig_installed : Installed 1000 etcHost etcConfig where
  root := ⟨ascii "/opt/kudosJudge", rfl, by decide, by decide, etcHost_file⟩
  small := by decide +kernel
  rounds := by decide +kernel

theorem etcConfig_headed : headed etcConfig := rfl

theorem calls_first_file_etcConfig :
    calls 1000 none [(etcHost, .value (literal "Queue" (by decide)) Setting.numWorkerThreads.key),
      (⟨none, fun _ => none, fun _ => 0⟩, .value executer Setting.memLimitMb.key)]
      = some [.value (some (strdup (ascii "5;"))), .value (some (strdup (ascii "255")))] := by
  rw [calls_first_file etcConfig_installed, if_pos etcConfig_headed]
  rfl

theorem etcConfig_given (k : Setting) :
    (valueOf k.section.text k.key.text etcConfig.parts).isSome := by
  cases k <;> decide +kernel

theorem readSettings_codes_etcConfig : ∃ g,
    readSettings 1000 etcHost true .unset = some (0, g) ∧ g.number .numWorkerThreads = some 5 := by
  obtain ⟨code, g, hread, hcode, hnumber⟩ :=
    readSettings_codes etcConfig_installed etcConfig_headed true
  have hgiven : ∀ settings, given etcConfig.parts settings :=
    fun settings => List.all_eq_true.mpr fun k _ => settingOf_isSome.trans (etcConfig_given k)
  have hsandbox : SandboxGiven etcConfig.parts true := ⟨hgiven _, by decide +kernel, rfl⟩
  simp only [hgiven, hsandbox] at hcode
  subst hcode
  refine ⟨g, hread, ?_⟩
  rw [((hnumber rfl).1 .numWorkerThreads).1]
  have hvalue : valueOf (ascii "Queue") (ascii "num_worker_threads") etcConfig.parts
      = some (decimal 5 ++ ascii ";") := by
    decide +kernel
  exact settingOf_decimal hvalue (by decide) (by rintro _ ⟨⟩; rfl)

def etcLanguages : List LangTable.ConfigSection :=
  [.other ⟨ascii "Executer", by decide, by decide⟩
      ((entriesOf (ascii "Executer") etcConfig.parts).map EntryLine.keyVal),
    .other ⟨ascii "Queue", by decide, by decide⟩
      ((entriesOf (ascii "Queue") etcConfig.parts).map EntryLine.keyVal),
    .compilers [⟨⟨ascii "cxx", by decide, by decide⟩, LangTable.fieldOf 30 "9.4.0" (by decide),
      LangTable.fieldOf 80 " GNU C++" (by decide),
      LangTable.fieldOf 100 " g++ %s -o %s" (by decide), LangTable.fieldOf 20 "cpp" (by decide)⟩],
    .interpreters [⟨⟨ascii "ruby", by decide, by decide⟩,
      LangTable.fieldOf 30 "2.7.0" (by decide), LangTable.fieldOf 80 " Ruby" (by decide),
      LangTable.fieldOf 100 " ruby %s" (by decide), LangTable.fieldOf 20 "rb" (by decide)⟩]]

theorem langInit_file_etcConfig : ∃ r,
    langInitFrom 1000 etcHost none (ascii "/ram") true = some r ∧
      langGet r.table (strdup (ascii "cxx")) = some (some 0) ∧
      langGet r.table (strdup (ascii "ruby")) = some (some 1) := by
  obtain ⟨r, hr, -, -, hget⟩ := langInit_file (.inr ⟨rfl, etcConfig_installed⟩) etcConfig_headed
    (show _ = etcLanguages.map _ from rfl) (by decide) (ascii "/ram") true
  refine ⟨r, hr, ?_, ?_⟩
  · rw [hget _ (by decide)]
    decide
  · rw [hget _ (by decide)]
    decide

end KudosJudge.IniConfig
