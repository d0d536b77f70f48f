import KudosJudge.LangProcess

set_option autoImplicit false

/-!
`jug_ini_get_section` of `config.c`, `lang_init` and `lang_get` of `lang.c`, over the
sections that the parser of the configuration made.
-/
namespace KudosJudge.LangTable
open CText
open LangProcess (LangType)

def comma : UInt8 := 44

structure KeyVal where
  key : Memory
  value : Memory

structure IniSection where
  name : Memory
  configs : List KeyVal

/-- `g_languages[i]`, with its arrays. -/
structure LangEntry where
  type : LangType
  id : Memory
  version : Memory
  label : Memory
  cmdCompile : Memory
  cmdInterpr : Memory
  cmdVm : Memory
  extCompile : Memory
  extInterpr : Memory
  extVm : Memory

structure Table where
  languages : List LangEntry
  count : ℕ

def jugIniGetSection (name : Memory) (ini : List IniSection) : Option (List KeyVal) :=
  ini.foldlM (fun kv s => do
    let v ← strcmp name s.name
    some (if v = 0 then kv ++ s.configs else kv)) []

/-- The cursor of the three loops: each field up to the next comma by `strncpy`, the last one
by `strcpy`. Without a comma the length is counted from `NULL`. -/
def copyFields : List Memory → Memory → Option (List Memory)
  | [], _ => some []
  | [dest], p => (strcpy dest p).map fun field => [field]
  | dest :: dests, p => do
    let q ← strchr p comma
    let n ← q
    let field ← strncpy dest p n
    let fields ← copyFields dests (p.drop (n + 1))
    some (field :: fields)

def cleared (array : Memory) : Option Memory := store array 0 [0]

def compilerEntry (entry : LangEntry) (tmp : KeyVal) : Option LangEntry := do
  let id ← strcpy entry.id tmp.key
  match ← copyFields [entry.version, entry.label, entry.cmdCompile, entry.extCompile] tmp.value with
  | [version, label, cmdCompile, extCompile] =>
    let cmdInterpr ← cleared entry.cmdInterpr
    let cmdVm ← cleared entry.cmdVm
    let extInterpr ← cleared entry.extInterpr
    let extVm ← cleared entry.extVm
    some ⟨.compiled, id, version, label, cmdCompile, cmdInterpr, cmdVm, extCompile, extInterpr,
      extVm⟩
  | _ => none

def interpreterEntry (entry : LangEntry) (tmp : KeyVal) : Option LangEntry := do
  let id ← strcpy entry.id tmp.key
  match ← copyFields [entry.version, entry.label, entry.cmdInterpr, entry.extInterpr] tmp.value with
  | [version, label, cmdInterpr, extInterpr] =>
    let cmdCompile ← cleared entry.cmdCompile
    let cmdVm ← cleared entry.cmdVm
    let extCompile ← cleared entry.extCompile
    let extVm ← cleared entry.extVm
    some ⟨.interpreted, id, version, label, cmdCompile, cmdInterpr, cmdVm, extCompile, extInterpr,
      extVm⟩
  | _ => none

def vmEntry (entry : LangEntry) (tmp : KeyVal) : Option LangEntry := do
  let id ← strcpy entry.id tmp.key
  match ← copyFields [entry.version, entry.label, entry.cmdCompile, entry.extCompile, entry.cmdVm,
      entry.extVm] tmp.value with
  | [version, label, cmdCompile, extCompile, cmdVm, extVm] =>
    let cmdInterpr ← cleared entry.cmdInterpr
    let extInterpr ← cleared entry.extInterpr
    some ⟨.vm, id, version, label, cmdCompile, cmdInterpr, cmdVm, extCompile, extInterpr, extVm⟩
  | _ => none

/-- `while(tmp!=NULL)`, on the entry at `g_languages_count`. -/
def fill (entryOf : LangEntry → KeyVal → Option LangEntry) :
    List KeyVal → Table → Option Table
  | [], t => some t
  | tmp :: rest, t => do
    let entry ← t.languages[t.count]?
    let entry ← entryOf entry tmp
    fill entryOf rest ⟨t.languages.set t.count entry, t.count + 1⟩

/-- What `lang_init` leaves: its value, the table and `g_lang_workspace`. -/
structure Inited where
  code : ℤ
  table : Table
  workspace : Option (List UInt8)

/-- `lang_init`. The `mkdir` of the workspace succeeds also when the directory is there. -/
def langInit (ini : List IniSection) (ramPath : List UInt8) (mkdir : Bool)
    (languages : List LangEntry) (workspace : Option (List UInt8)) : Option Inited := do
  let compilers ← jugIniGetSection (ascii "compilers" ++ [0]) ini
  let interpreters ← jugIniGetSection (ascii "interpreters" ++ [0]) ini
  let vms ← jugIniGetSection (ascii "virtual machines" ++ [0]) ini
  let t ← fill compilerEntry compilers ⟨languages, 0⟩
  let t ← fill interpreterEntry interpreters t
  let t ← fill vmEntry vms t
  if mkdir then some ⟨0, t, some (ramPath ++ ascii "/lang-workspace")⟩
  else some ⟨-5, t, workspace⟩

/-- `for(i=0;i<g_languages_count;i++)` from `i`, with the rounds to go. -/
def scan (languages : List LangEntry) (langid : Memory) (i : ℕ) : ℕ → Option (Option ℕ)
  | 0 => some none
  | rounds + 1 => do
    let entry ← languages[i]?
    let v ← strcmp entry.id langid
    if v = 0 then some (some i) else scan languages langid (i + 1) rounds

/-- `lang_get`, as an index into `g_languages`. The inner `none` is `NULL`. -/
def langGet (t : Table) (langid : Memory) : Option (Option ℕ) :=
  scan t.languages langid 0 t.count

def zeroEntry : LangEntry where
  type := .compiled
  id := padded 20 []
  version := padded 30 []
  label := padded 80 []
  cmdCompile := padded 100 []
  cmdInterpr := padded 100 []
  cmdVm := padded 100 []
  extCompile := padded 20 []
  extInterpr := padded 20 []
  extVm := padded 20 []

def zeroed : List LangEntry := List.replicate 19 zeroEntry

structure Key where
  text : List UInt8
  fits : text.length < 20
  clean : 0 ∉ text

structure Field (n : ℕ) where
  text : List UInt8
  fits : text.length < n
  clean : 0 ∉ text
  whole : comma ∉ text

structure FourFields where
  key : Key
  version : Field 30
  label : Field 80
  cmd : Field 100
  ext : Field 20

structure SixFields where
  key : Key
  version : Field 30
  label : Field 80
  cmdCompile : Field 100
  extCompile : Field 20
  cmdVm : Field 100
  extVm : Field 20

structure OtherName where
  text : List UInt8
  clean : 0 ∉ text
  other : text ≠ ascii "compilers" ∧ text ≠ ascii "interpreters" ∧ text ≠ ascii "virtual machines"

inductive ConfigSection where
  | compilers (lines : List FourFields)
  | interpreters (lines : List FourFields)
  | virtualMachines (lines : List SixFields)
  | other (name : OtherName) (configs : List KeyVal)

def strdup (s : List UInt8) : Memory := s ++ [0]

def joined (fields : List (List UInt8)) : List UInt8 := List.intercalate [comma] fields

def FourFields.keyVal (l : FourFields) : KeyVal :=
  ⟨strdup l.key.text, strdup (joined [l.version.text, l.label.text, l.cmd.text, l.ext.text])⟩

def SixFields.keyVal (l : SixFields) : KeyVal :=
  ⟨strdup l.key.text, strdup (joined [l.version.text, l.label.text, l.cmdCompile.text,
    l.extCompile.text, l.cmdVm.text, l.extVm.text])⟩

def ConfigSection.ini : ConfigSection → IniSection
  | compilers lines => ⟨strdup (ascii "compilers"), lines.map FourFields.keyVal⟩
  | interpreters lines => ⟨strdup (ascii "interpreters"), lines.map FourFields.keyVal⟩
  | virtualMachines lines => ⟨strdup (ascii "virtual machines"), lines.map SixFields.keyVal⟩
  | other name configs => ⟨strdup name.text, configs⟩

structure LangTexts where
  type : LangType
  id : List UInt8
  version : List UInt8
  label : List UInt8
  cmdCompile : List UInt8
  cmdInterpr : List UInt8
  cmdVm : List UInt8
  extCompile : List UInt8
  extInterpr : List UInt8
  extVm : List UInt8
deriving DecidableEq

def FourFields.compiler (l : FourFields) : LangTexts :=
  ⟨.compiled, l.key.text, l.version.text, l.label.text, l.cmd.text, [], [], l.ext.text, [], []⟩

def FourFields.interpreter (l : FourFields) : LangTexts :=
  ⟨.interpreted, l.key.text, l.version.text, l.label.text, [], l.cmd.text, [], [], l.ext.text, []⟩

def SixFields.machine (l : SixFields) : LangTexts :=
  ⟨.vm, l.key.text, l.version.text, l.label.text, l.cmdCompile.text, [], l.cmdVm.text,
    l.extCompile.text, [], l.extVm.text⟩

def ConfigSection.compilerLines : ConfigSection → List FourFields
  | compilers lines => lines
  | _ => []

def ConfigSection.interpreterLines : ConfigSection → List FourFields
  | interpreters lines => lines
  | _ => []

def ConfigSection.machineLines : ConfigSection → List SixFields
  | virtualMachines lines => lines
  | _ => []

/-- The languages of a configuration, in the order of the table. -/
def written (config : List ConfigSection) : List LangTexts :=
  (config.flatMap ConfigSection.compilerLines).map FourFields.compiler ++
  (config.flatMap ConfigSection.interpreterLines).map FourFields.interpreter ++
  (config.flatMap ConfigSection.machineLines).map SixFields.machine

/-- What a reader of the arrays finds; none when one of them has no terminator. -/
def LangEntry.texts (e : LangEntry) : Option LangTexts := do
  let id ← text e.id
  let version ← text e.version
  let label ← text e.label
  let cmdCompile ← text e.cmdCompile
  let cmdInterpr ← text e.cmdInterpr
  let cmdVm ← text e.cmdVm
  let extCompile ← text e.extCompile
  let extInterpr ← text e.extInterpr
  let extVm ← text e.extVm
  some ⟨e.type, id, version, label, cmdCompile, cmdInterpr, cmdVm, extCompile, extInterpr, extVm⟩

def LangTexts.entry (l : LangTexts) : LangEntry where
  type := l.type
  id := padded 20 l.id
  version := padded 30 l.version
  label := padded 80 l.label
  cmdCompile := padded 100 l.cmdCompile
  cmdInterpr := padded 100 l.cmdInterpr
  cmdVm := padded 100 l.cmdVm
  extCompile := padded 20 l.extCompile
  extInterpr := padded 20 l.extInterpr
  extVm := padded 20 l.extVm

def ConfigSection.name : ConfigSection → List UInt8
  | compilers _ => ascii "compilers"
  | interpreters _ => ascii "interpreters"
  | virtualMachines _ => ascii "virtual machines"
  | other name _ => name.text

theorem ConfigSection.ini_name (c : ConfigSection) : c.ini.name = strdup c.name := by
  cases c <;> rfl

theorem ConfigSection.name_clean (c : ConfigSection) : 0 ∉ c.name := by
  cases c with
  | compilers lines => exact show 0 ∉ ascii "compilers" by decide
  | interpreters lines => exact show 0 ∉ ascii "interpreters" by decide
  | virtualMachines lines => exact show 0 ∉ ascii "virtual machines" by decide
  | other name configs => exact name.clean

theorem jugIniGetSection_eq {name : List UInt8} (hname : 0 ∉ name) (config : List ConfigSection) :
    jugIniGetSection (name ++ [0]) (config.map ConfigSection.ini)
      = some (config.flatMap fun c => if name = c.name then c.ini.configs else []) := by
  have loop : ∀ kv : List KeyVal, (config.map ConfigSection.ini).foldlM (fun kv s => do
      let v ← strcmp (name ++ [0]) s.name
      some (if v = 0 then kv ++ s.configs else kv)) kv
        = some (kv ++ config.flatMap fun c => if name = c.name then c.ini.configs else []) := by
    induction config with
    | nil =>
      intro kv
      rw [List.flatMap_nil, List.append_nil]
      rfl
    | cons c config ih =>
      intro kv
      obtain ⟨v, hv, hzero⟩ := strcmp_append hname c.name_clean [] []
      have hnext : (if v = 0 then kv ++ c.ini.configs else kv)
          = kv ++ if name = c.name then c.ini.configs else [] := by
        simp only [hzero]
        split_ifs
        · rfl
        · rw [List.append_nil]
      rw [List.map_cons, List.foldlM_cons, c.ini_name, strdup, hv]
      change (config.map ConfigSection.ini).foldlM _
        (if v = 0 then kv ++ c.ini.configs else kv) = _
      rw [hnext, ih, List.flatMap_cons, List.append_assoc]
  exact loop []

theorem names_differ : ascii "compilers" ≠ ascii "interpreters" ∧
    ascii "compilers" ≠ ascii "virtual machines" ∧
    ascii "interpreters" ≠ ascii "virtual machines" := by
  decide

theorem compilers_section (config : List ConfigSection) :
    jugIniGetSection (ascii "compilers" ++ [0]) (config.map ConfigSection.ini)
      = some ((config.flatMap ConfigSection.compilerLines).map FourFields.keyVal) := by
  rw [jugIniGetSection_eq (by decide), List.map_flatMap]
  congr 2
  funext c
  cases c with
  | compilers lines => exact if_pos rfl
  | interpreters lines => exact if_neg names_differ.1
  | virtualMachines lines => exact if_neg names_differ.2.1
  | other name configs => exact if_neg (Ne.symm name.other.1)

theorem interpreters_section (config : List ConfigSection) :
    jugIniGetSection (ascii "interpreters" ++ [0]) (config.map ConfigSection.ini)
      = some ((config.flatMap ConfigSection.interpreterLines).map FourFields.keyVal) := by
  rw [jugIniGetSection_eq (by decide), List.map_flatMap]
  congr 2
  funext c
  cases c with
  | compilers lines => exact if_neg (Ne.symm names_differ.1)
  | interpreters lines => exact if_pos rfl
  | virtualMachines lines => exact if_neg names_differ.2.2
  | other name configs => exact if_neg (Ne.symm name.other.2.1)

theorem machines_section (config : List ConfigSection) :
    jugIniGetSection (ascii "virtual machines" ++ [0]) (config.map ConfigSection.ini)
      = some ((config.flatMap ConfigSection.machineLines).map SixFields.keyVal) := by
  rw [jugIniGetSection_eq (by decide), List.map_flatMap]
  congr 2
  funext c
  cases c with
  | compilers lines => exact if_neg (Ne.symm names_differ.2.1)
  | interpreters lines => exact if_neg (Ne.symm names_differ.2.2)
  | virtualMachines lines => exact if_pos rfl
  | other name configs => exact if_neg (Ne.symm name.other.2.2)

def Fitting (n : ℕ) (s : List UInt8) : Prop := s.length < n ∧ 0 ∉ s ∧ comma ∉ s

theorem Field.fitting {n : ℕ} (f : Field n) : Fitting n f.text := ⟨f.fits, f.clean, f.whole⟩

/-- The cursor splits a joined value into its fields. -/
theorem copyFields_joined {sizes : List ℕ} {fields : List (List UInt8)}
    (h : List.Forall₂ Fitting sizes fields) :
    copyFields (sizes.map fun n => padded n []) (strdup (joined fields))
      = some (List.zipWith padded sizes fields) := by
  induction h with
  | nil => rfl
  | @cons n s sizes fields hs hrest ih =>
    obtain ⟨hfits, hclean, hwhole⟩ := hs
    cases hrest with
    | nil =>
      have hvalue : strdup (joined [s]) = s ++ 0 :: [] := by
        simp [strdup, joined, List.intercalate]
      rw [hvalue, List.map_cons, List.map_nil, copyFields, strcpy_zeros hfits hclean]
      rfl
    | @cons n' s' sizes fields hs' hrest =>
      have hvalue : strdup (joined (s :: s' :: fields))
          = s ++ comma :: strdup (joined (s' :: fields)) := by
        simp [strdup, joined, List.intercalate]
      have hdrop : (s ++ comma :: strdup (joined (s' :: fields))).drop (s.length + 1)
          = strdup (joined (s' :: fields)) :=
        List.drop_length_add_append 1
      rw [hvalue, List.map_cons, List.map_cons, copyFields, strchr_append hwhole hclean]
      · change (strncpy (padded n []) (s ++ comma :: strdup (joined (s' :: fields))) s.length).bind
          (fun field => (copyFields _ ((s ++ comma :: strdup (joined (s' :: fields))).drop
            (s.length + 1))).bind fun fields => some (field :: fields)) = _
        rw [strncpy_zeros hfits hclean, hdrop, Option.bind_some]
        rw [List.map_cons] at ih
        rw [ih]
        rfl
      · exact fun h => by cases h

theorem cleared_zeros {n : ℕ} (h : 0 < n) : cleared (padded n []) = some (padded n []) :=
  store_zeros h

theorem Key.copied (k : Key) : strcpy (padded 20 []) (strdup k.text) = some (padded 20 k.text) :=
  strcpy_zeros k.fits k.clean []

theorem compilerEntry_zero (l : FourFields) :
    compilerEntry zeroEntry l.keyVal = some l.compiler.entry := by
  have hfields := copyFields_joined (.cons l.version.fitting (.cons l.label.fitting
    (.cons l.cmd.fitting (.cons l.ext.fitting .nil))))
  simp only [List.map_cons, List.map_nil] at hfields
  simp only [compilerEntry, zeroEntry, FourFields.keyVal, l.key.copied, hfields, List.zipWith,
    cleared_zeros (show 0 < 100 by decide), cleared_zeros (show 0 < 20 by decide),
    Option.bind_eq_bind, Option.bind_some]
  rfl

theorem interpreterEntry_zero (l : FourFields) :
    interpreterEntry zeroEntry l.keyVal = some l.interpreter.entry := by
  have hfields := copyFields_joined (.cons l.version.fitting (.cons l.label.fitting
    (.cons l.cmd.fitting (.cons l.ext.fitting .nil))))
  simp only [List.map_cons, List.map_nil] at hfields
  simp only [interpreterEntry, zeroEntry, FourFields.keyVal, l.key.copied, hfields, List.zipWith,
    cleared_zeros (show 0 < 100 by decide), cleared_zeros (show 0 < 20 by decide),
    Option.bind_eq_bind, Option.bind_some]
  rfl

theorem vmEntry_zero (l : SixFields) : vmEntry zeroEntry l.keyVal = some l.machine.entry := by
  have hfields := copyFields_joined (.cons l.version.fitting (.cons l.label.fitting
    (.cons l.cmdCompile.fitting (.cons l.extCompile.fitting (.cons l.cmdVm.fitting
      (.cons l.extVm.fitting .nil))))))
  simp only [List.map_cons, List.map_nil] at hfields
  simp only [vmEntry, zeroEntry, SixFields.keyVal, l.key.copied, hfields, List.zipWith,
    cleared_zeros (show 0 < 100 by decide), cleared_zeros (show 0 < 20 by decide),
    Option.bind_eq_bind, Option.bind_some]
  rfl

/-- A table whose first entries hold these languages and whose others are zero. -/
def tableOf (languages : List LangTexts) : Table :=
  ⟨languages.map LangTexts.entry ++ List.replicate (19 - languages.length) zeroEntry,
    languages.length⟩

theorem tableOf_nil : (⟨zeroed, 0⟩ : Table) = tableOf [] := rfl

theorem fill_tableOf {α : Type} {entryOf : LangEntry → KeyVal → Option LangEntry}
    {keyVal : α → KeyVal} {texts : α → LangTexts}
    (h : ∀ line, entryOf zeroEntry (keyVal line) = some (texts line).entry) (lines : List α)
    (languages : List LangTexts) (hroom : languages.length + lines.length ≤ 19) :
    fill entryOf (lines.map keyVal) (tableOf languages)
      = some (tableOf (languages ++ lines.map texts)) := by
  induction lines generalizing languages with
  | nil => rw [List.map_nil, List.map_nil, List.append_nil, fill]
  | cons line lines ih =>
    rw [List.length_cons] at hroom
    have hzeros : List.replicate (19 - languages.length) zeroEntry
        = zeroEntry :: List.replicate (19 - (languages.length + 1)) zeroEntry := by
      rw [← List.replicate_succ]
      congr 1
      omega
    have hentry : (tableOf languages).languages[(tableOf languages).count]? = some zeroEntry := by
      rw [tableOf, hzeros, List.getElem?_append_right (by rw [List.length_map]), List.length_map,
        Nat.sub_self]
      rfl
    have hset : (tableOf languages).languages.set (tableOf languages).count (texts line).entry
        = (tableOf (languages ++ [texts line])).languages := by
      have hlength : (languages ++ [texts line]).length = languages.length + 1 := by simp
      rw [tableOf, tableOf, hzeros, hlength, List.set_append_right _ _ (by rw [List.length_map]),
        List.length_map, Nat.sub_self, List.set_cons_zero, List.map_append, List.append_assoc]
      rfl
    have hcount : (tableOf languages).count + 1 = (tableOf (languages ++ [texts line])).count := by
      simp [tableOf]
    rw [List.map_cons, fill, hentry, Option.bind_eq_bind, Option.bind_some, h,
      Option.bind_some, hset, hcount]
    refine (ih (languages ++ [texts line]) (by
      rw [List.length_append, List.length_singleton]
      omega)).trans ?_
    rw [List.map_cons, List.append_assoc, List.singleton_append]

theorem langInit_zeroed (config : List ConfigSection) (hroom : (written config).length ≤ 19)
    (ramPath : List UInt8) (mkdir : Bool) (workspace : Option (List UInt8)) :
    langInit (config.map ConfigSection.ini) ramPath mkdir zeroed workspace
      = some (if mkdir then ⟨0, tableOf (written config), some (ramPath ++ ascii "/lang-workspace")⟩
        else ⟨-5, tableOf (written config), workspace⟩) := by
  simp only [written, List.length_append, List.length_map] at hroom
  have hcompilers := fill_tableOf compilerEntry_zero
    (config.flatMap ConfigSection.compilerLines) [] (by rw [List.length_nil]; omega)
  rw [List.nil_append] at hcompilers
  have hinterpreters := fill_tableOf interpreterEntry_zero
    (config.flatMap ConfigSection.interpreterLines)
    ((config.flatMap ConfigSection.compilerLines).map FourFields.compiler)
    (by rw [List.length_map]; omega)
  have hmachines := fill_tableOf vmEntry_zero (config.flatMap ConfigSection.machineLines)
    ((config.flatMap ConfigSection.compilerLines).map FourFields.compiler ++
      (config.flatMap ConfigSection.interpreterLines).map FourFields.interpreter)
    (by rw [List.length_append, List.length_map, List.length_map]; omega)
  rw [langInit, compilers_section, interpreters_section, machines_section, tableOf_nil]
  simp only [Option.bind_eq_bind, Option.bind_some, hcompilers, hinterpreters, hmachines]
  cases mkdir <;> rfl

structure LangTexts.Fits (l : LangTexts) : Prop where
  id : l.id.length < 20 ∧ 0 ∉ l.id
  version : l.version.length < 30 ∧ 0 ∉ l.version
  label : l.label.length < 80 ∧ 0 ∉ l.label
  cmdCompile : l.cmdCompile.length < 100 ∧ 0 ∉ l.cmdCompile
  cmdInterpr : l.cmdInterpr.length < 100 ∧ 0 ∉ l.cmdInterpr
  cmdVm : l.cmdVm.length < 100 ∧ 0 ∉ l.cmdVm
  extCompile : l.extCompile.length < 20 ∧ 0 ∉ l.extCompile
  extInterpr : l.extInterpr.length < 20 ∧ 0 ∉ l.extInterpr
  extVm : l.extVm.length < 20 ∧ 0 ∉ l.extVm

theorem Field.fits_clean {n : ℕ} (f : Field n) : f.text.length < n ∧ 0 ∉ f.text :=
  ⟨f.fits, f.clean⟩

theorem written_fits (config : List ConfigSection) : ∀ l ∈ written config, l.Fits := by
  have hempty : ∀ n, 0 < n → ([] : List UInt8).length < n ∧ 0 ∉ ([] : List UInt8) := by simp
  intro l hl
  simp only [written, List.mem_append, List.mem_map] at hl
  obtain (⟨line, -, rfl⟩ | ⟨line, -, rfl⟩) | ⟨line, -, rfl⟩ := hl
  · exact ⟨⟨line.key.fits, line.key.clean⟩, line.version.fits_clean, line.label.fits_clean,
      line.cmd.fits_clean, hempty _ (by decide), hempty _ (by decide), line.ext.fits_clean,
      hempty _ (by decide), hempty _ (by decide)⟩
  · exact ⟨⟨line.key.fits, line.key.clean⟩, line.version.fits_clean, line.label.fits_clean,
      hempty _ (by decide), line.cmd.fits_clean, hempty _ (by decide), hempty _ (by decide),
      line.ext.fits_clean, hempty _ (by decide)⟩
  · exact ⟨⟨line.key.fits, line.key.clean⟩, line.version.fits_clean, line.label.fits_clean,
      line.cmdCompile.fits_clean, hempty _ (by decide), line.cmdVm.fits_clean,
      line.extCompile.fits_clean, hempty _ (by decide), line.extVm.fits_clean⟩

theorem LangTexts.entry_texts {l : LangTexts} (h : l.Fits) : l.entry.texts = some l := by
  simp only [LangEntry.texts, LangTexts.entry, text_padded h.id.1 h.id.2,
    text_padded h.version.1 h.version.2, text_padded h.label.1 h.label.2,
    text_padded h.cmdCompile.1 h.cmdCompile.2, text_padded h.cmdInterpr.1 h.cmdInterpr.2,
    text_padded h.cmdVm.1 h.cmdVm.2, text_padded h.extCompile.1 h.extCompile.2,
    text_padded h.extInterpr.1 h.extInterpr.2, text_padded h.extVm.1 h.extVm.2,
    Option.bind_eq_bind, Option.bind_some]

theorem scan_eq {langid : List UInt8} (hid : 0 ∉ langid) (front tail : List LangEntry)
    (languages : List LangTexts) (hfits : ∀ l ∈ languages, l.Fits) :
    scan (front ++ (languages.map LangTexts.entry ++ tail)) (langid ++ [0]) front.length
        languages.length
      = some ((languages.findIdx? fun l => l.id = langid).map (· + front.length)) := by
  induction languages generalizing front with
  | nil => rfl
  | cons l languages ih =>
    have hl : l.Fits := hfits l List.mem_cons_self
    have hentry : (front ++ ((l :: languages).map LangTexts.entry ++ tail))[front.length]?
        = some l.entry := by
      rw [List.getElem?_append_right le_rfl, Nat.sub_self]
      rfl
    obtain ⟨v, hv, hzero⟩ := strcmp_append hl.id.2 hid (List.replicate (20 - l.id.length - 1) 0) []
    rw [← padded_eq hl.id.1] at hv
    rw [List.length_cons, scan, hentry, Option.bind_eq_bind, Option.bind_some]
    change (strcmp (padded 20 l.id) (langid ++ [0])).bind _ = _
    rw [hv, Option.bind_some, List.findIdx?_cons]
    by_cases hsame : l.id = langid
    · simp [hzero, hsame]
    · have hnext := ih (front ++ [l.entry]) (fun l' h' => hfits l' (List.mem_cons_of_mem _ h'))
      rw [List.append_assoc, List.length_append, List.length_singleton] at hnext
      rw [if_neg (mt hzero.mp hsame), List.map_cons, List.cons_append]
      refine hnext.trans ?_
      simp only [hsame, decide_false, Bool.false_eq_true, if_false, Option.map_map]
      congr 2
      funext i
      simp only [Function.comp_apply]
      omega

section

variable {languages : List LangTexts} (hfits : ∀ l ∈ languages, l.Fits)

include hfits

theorem texts_tableOf : ((tableOf languages).languages.take (tableOf languages).count).map
    LangEntry.texts = languages.map some := by
  have htake : (tableOf languages).languages.take (tableOf languages).count
      = languages.map LangTexts.entry := by
    simp [tableOf]
  rw [htake, List.map_map]
  exact List.map_congr_left fun l hl => LangTexts.entry_texts (hfits l hl)

theorem langGet_tableOf {langid : List UInt8} (hid : 0 ∉ langid) :
    langGet (tableOf languages) (strdup langid)
      = some (languages.findIdx? fun l => l.id = langid) := by
  refine (scan_eq hid [] _ languages hfits).trans ?_
  simp

end

/-- `lang_init` makes the table that the configuration writes down, whether or not the
workspace can be made, and `lang_get` finds the first language of an id. -/
theorem langInit_table (config : List ConfigSection) (hroom : (written config).length ≤ 19)
    (ramPath : List UInt8) (mkdir : Bool) (workspace : Option (List UInt8)) :
    ∃ r, langInit (config.map ConfigSection.ini) ramPath mkdir zeroed workspace = some r ∧
      r.code = (if mkdir then 0 else -5) ∧
      r.table.count = (written config).length ∧
      (r.table.languages.take r.table.count).map LangEntry.texts = (written config).map some ∧
      ∀ langid : List UInt8, 0 ∉ langid → langGet r.table (strdup langid)
        = some ((written config).findIdx? fun l => l.id = langid) := by
  have hfits := written_fits config
  refine ⟨_, langInit_zeroed config hroom ramPath mkdir workspace, ?_⟩
  cases mkdir with
  | false => exact ⟨rfl, rfl, texts_tableOf hfits, fun langid hid => langGet_tableOf hfits hid⟩
  | true => exact ⟨rfl, rfl, texts_tableOf hfits, fun langid hid => langGet_tableOf hfits hid⟩

def fieldOf (n : ℕ) (s : String)
    (h : (ascii s).length < n ∧ 0 ∉ ascii s ∧ comma ∉ ascii s) : Field n :=
  ⟨ascii s, h.1, h.2.1, h.2.2⟩

def configIni : List ConfigSection :=
  [.compilers
    [⟨⟨ascii "c", by decide, by decide⟩, fieldOf 30 "4.8.4" (by decide),
      fieldOf 80 " gcc-4.8.4" (by decide), fieldOf 100 " gcc %s -o %s" (by decide),
      fieldOf 20 "c" (by decide)⟩],
  .interpreters
    [⟨⟨ascii "python", by decide, by decide⟩, fieldOf 30 "2.7.6" (by decide),
      fieldOf 80 " Python 2.6.7" (by decide), fieldOf 100 " python %s" (by decide),
      fieldOf 20 "py" (by decide)⟩,
    ⟨⟨ascii "python2", by decide, by decide⟩, fieldOf 30 "2.7.6" (by decide),
      fieldOf 80 " Python 2.6.8" (by decide), fieldOf 100 " python %s" (by decide),
      fieldOf 20 "py" (by decide)⟩],
  .virtualMachines
    [⟨⟨ascii "java", by decide, by decide⟩, fieldOf 30 "1.7.0" (by decide),
      fieldOf 80 " Java openJDK" (by decide), fieldOf 100 " javac %s" (by decide),
      fieldOf 20 "java" (by decide), fieldOf 100 "java %s" (by decide),
      fieldOf 20 "class" (by decide)⟩]]

theorem langInit_table_configIni : ∃ r,
    langInit (configIni.map ConfigSection.ini) (ascii "/ram") true zeroed none = some r ∧
      r.table.count = 4 ∧ langGet r.table (strdup (ascii "python2")) = some (some 2) ∧
      langGet r.table (strdup (ascii "cobol")) = some none := by
  obtain ⟨r, hr, -, hcount, -, hget⟩ :=
    langInit_table configIni (by decide) (ascii "/ram") true none
  refine ⟨r, hr, hcount, ?_, ?_⟩
  · rw [hget _ (by decide)]
    decide
  · rw [hget _ (by decide)]
    decide

end KudosJudge.LangTable
