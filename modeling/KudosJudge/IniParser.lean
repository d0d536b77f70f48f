import KudosJudge.LangTable

set_option autoImplicit false

/-!
`iniparser/iniparser.c`: `trim`, `read_line`, `parse_section`, `parse_ini`, `read_ini` and
`ini_get_value`. `stale` is what `malloc` and `realloc` find in the memory they hand out.
-/
namespace KudosJudge.IniParser
open CText
open LangTable (KeyVal IniSection strdup)

inductive States where
  | start
  | newSection
  | inSection
  | endOfFile
deriving DecidableEq

/-- `struct read_ini`: the bytes still to read and the block of `tmp_cap` bytes. -/
structure ReadIni where
  fin : List UInt8
  tmp : Memory
  state : States

/-- `struct section`. The name is not written before a header is met. -/
structure Section where
  name : Option Memory
  configs : List KeyVal

def blank (c : UInt8) : Bool := c = 32 ∨ c = 9 ∨ c = 10 ∨ c = 13

def endsLine (c : UInt8) : Bool := c = 13 ∨ c = 10

def separates (c : UInt8) : Bool := c = 58 ∨ c = 61

def comments (c : UInt8) : Bool := c = 35 ∨ c = 59

def bracket : UInt8 := 91

def byteAt (m : Memory) (i : ℤ) : Option UInt8 := if 0 ≤ i then m[i.toNat]? else none

def strdupAt (m : Memory) (i : ℤ) : Option Memory :=
  if 0 ≤ i then (text (m.drop i.toNat)).map strdup else none

def advance (stop : UInt8 → Bool) (str : Memory) (i : ℤ) : ℕ → Option ℤ
  | 0 => some i
  | rounds + 1 => do
    let c ← byteAt str i
    if stop c then some i else advance stop str (i + 1) rounds

def retreat (stop : UInt8 → Bool) (str : Memory) (i : ℤ) : ℕ → Option ℤ
  | 0 => some i
  | rounds + 1 => do
    let c ← byteAt str i
    if stop c then some i else retreat stop str (i - 1) rounds

def trim (str : Memory) (b e : ℤ) : Option (ℤ × ℤ) := do
  let first ← advance (fun c => !blank c) str b (e - b).toNat
  let last ← retreat (fun c => !blank c) str (e - 1) (e - b).toNat
  some (first, last)

def grow (stale : ℕ → UInt8) (tmp : Memory) : Option Memory :=
  if 2 * tmp.length < 2^31 then
    (malloc stale (2 * tmp.length)).map fun block => tmp ++ block.drop tmp.length
  else none

def room (stale : ℕ → UInt8) (tmp : Memory) (i : ℕ) : Option Memory :=
  if tmp.length ≤ i then grow stale tmp else some tmp

def endLine (r : ReadIni) (i : ℕ) (new : Bool) : Option (Bool × ReadIni) :=
  if new then (store r.tmp i [0]).map fun tmp => (true, { r with tmp })
  else some (false, r)

/-- The loop of `read_line` from `tmp[i]` on. -/
def readLoop (stale : ℕ → UInt8) (state : States) :
    List UInt8 → Memory → ℕ → Bool → Option (Bool × ReadIni)
  | [], tmp, i, new => do
    let tmp ← room stale tmp i
    endLine ⟨[], tmp, .endOfFile⟩ i new
  | c :: fin, tmp, i, new => do
    let tmp ← room stale tmp i
    if endsLine c then endLine ⟨fin, tmp, state⟩ i new
    else
      let tmp ← store tmp i [c]
      readLoop stale state fin tmp (i + 1) true

def readLine (stale : ℕ → UInt8) (r : ReadIni) : Option (Bool × ReadIni) :=
  readLoop stale r.state r.fin r.tmp 0 false

def readConfig (tmp : Memory) (b e : ℤ) : Option (KeyVal × Memory) := do
  let i ← advance separates tmp b (e + 1 - b).toNat
  let (x, y) ← trim tmp b i
  let tmp ← storeAt tmp (y + 1) [0]
  let key ← strdupAt tmp x
  let (x, y) ← trim tmp (i + 1) (e + 1)
  let tmp ← storeAt tmp (y + 1) [0]
  let value ← strdupAt tmp x
  some (⟨key, value⟩, tmp)

def readEntry (r : ReadIni) (s : Section) : Option (Bool × ReadIni × Section) := do
  let e ← strlen r.tmp
  let (b, e) ← trim r.tmp 0 e
  let c ← byteAt r.tmp b
  if comments c then some (true, r, s)
  else if c = bracket then
    if r.state = .inSection then some (false, { r with state := .newSection }, s)
    else
      let tmp ← storeAt r.tmp e [0]
      let name ← strdupAt tmp (b + 1)
      some (true, { r with tmp, state := .inSection }, { s with name := some name })
  else
    let (cfg, tmp) ← readConfig r.tmp b e
    some (true, { r with tmp }, { s with configs := s.configs ++ [cfg] })

def nextLine (stale : ℕ → UInt8) (r : ReadIni) : Option (Bool × ReadIni) :=
  if r.state = .newSection then some (true, r) else readLine stale r

/-- `parse_section`, for so many rounds of its loop. -/
def parseSection (stale : ℕ → UInt8) : ℕ → ReadIni → Section → Option (ReadIni × Section)
  | 0, _, _ => none
  | rounds + 1, r, s =>
    if r.state = .endOfFile then some (r, s)
    else do
      let (new, r) ← nextLine stale r
      if new then
        let (again, r, s) ← readEntry r s
        if again then parseSection stale rounds r s else some (r, s)
      else parseSection stale rounds r s

def parseIni (stale : ℕ → UInt8) : ℕ → ReadIni → List Section → Option (List Section)
  | 0, _, _ => none
  | rounds + 1, r, sections =>
    match r.state with
    | .start | .newSection => do
      let (r, s) ← parseSection stale rounds r ⟨none, []⟩
      parseIni stale rounds r (sections ++ [s])
    | .inSection | .endOfFile => some sections

def readIni (stale : ℕ → UInt8) (rounds : ℕ) (file : Option (List UInt8)) :
    Option (List Section) := do
  let tmp ← malloc stale 4
  let fin ← file
  parseIni stale rounds ⟨fin, tmp, .start⟩ []

def configValue (key : Memory) : List KeyVal → Option (Option Memory)
  | [] => some none
  | cfg :: configs => do
    let v ← strcmp key cfg.key
    if v = 0 then some (some cfg.value) else configValue key configs

/-- `ini_get_value`. The inner `none` is `NULL`. -/
def iniGetValue (name key : Memory) : List Section → Option (Option Memory)
  | [] => some none
  | s :: sections => do
    let other ← s.name
    let v ← strcmp name other
    if v = 0 then
      match ← configValue key s.configs with
      | some value => some (some value)
      | none => iniGetValue name key sections
    else iniGetValue name key sections

end KudosJudge.IniParser
