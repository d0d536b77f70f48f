import KudosJudge.Library.CText

set_option autoImplicit false

/-!
`jug_runner_template_serialize` and `jug_runner_template_unserialize` of `runner.c`: two
records, a path, the number of arguments and the arguments, one behind the other.
-/
namespace KudosJudge.TemplateSerial
open CText

def sizeofRunParams : ℕ := 56

/-- `sizeof(struct sandbox)`: seven `int`s, two pointers and the padding in front of them. -/
def sizeofSandbox : ℕ := 48

def sizeofInt : ℕ := 4

/-- `struct clone_child_params`, with the memory each pointer leads to. In `argv` a `none` is
the `NULL` pointer. -/
structure CloneChildParams where
  runParamsStruct : Memory
  sandboxStruct : Memory
  binaryPath : Memory
  argv : List (Option Memory)
deriving DecidableEq, Repr

def sizeLoop : List (Option Memory) → ℤ → ℤ → Option (ℤ × ℤ)
  | [], _, _ => none
  | none :: _, argc, sz => some (argc, sz)
  | some arg :: argv, argc, sz => do
    let n ← strlen arg
    sizeLoop argv (toInt32 (argc + 1)) (toInt32 (sz + (n + 1 : ℕ)))

/-- The second loop over `argv`, with `index` and what `serial` points to. -/
def fillLoop : List (Option Memory) → ℤ → Memory → Option Memory
  | [], _, _ => none
  | none :: _, _, serial => some serial
  | some arg :: argv, index, serial => do
    let n ← strlen arg
    let bytes ← readAt arg 0 (n + 1)
    let serial ← storeAt serial index bytes
    fillLoop argv (toInt32 (index + (n + 1 : ℕ))) serial

def fill (ccp : CloneChildParams) (pathLength : ℕ) (argc : ℤ) (serial : Memory) :
    Option Memory := do
  let index := 0
  let runParams ← readAt ccp.runParamsStruct 0 sizeofRunParams
  let serial ← storeAt serial index runParams
  let index := toInt32 (index + sizeofRunParams)
  let sandbox ← readAt ccp.sandboxStruct 0 sizeofSandbox
  let serial ← storeAt serial index sandbox
  let index := toInt32 (index + sizeofSandbox)
  let path ← readAt ccp.binaryPath 0 (pathLength + 1)
  let serial ← storeAt serial index path
  let index := toInt32 (index + (pathLength + 1 : ℕ))
  let serial ← storeAt serial index (int32Bytes argc)
  let index := toInt32 (index + sizeofInt)
  fillLoop ccp.argv index serial

/-- `jug_runner_template_serialize`: the memory at `*p_serial` and the returned size. -/
def serialize (stale : ℕ → UInt8) (ccp : CloneChildParams) : Option (Memory × ℤ) := do
  let pathLength ← strlen ccp.binaryPath
  let (argc, sz) ← sizeLoop ccp.argv 0
    (toInt32 (sizeofRunParams + sizeofSandbox + (pathLength + 1) : ℕ))
  let sz := toInt32 (sz + sizeofInt)
  let serial ← malloc stale (toSizeT sz)
  let serial ← fill ccp pathLength argc serial
  some (serial, sz)

def argvLoop (serial : Memory) : ℕ → ℤ → Option (List (Option Memory) × ℤ)
  | 0, index => some ([none], index)
  | k + 1, index => do
    let n ← strlenAt serial index
    let arg ← readAt serial index (n + 1)
    let (argv, index) ← argvLoop serial k (toInt32 (index + (n + 1 : ℕ)))
    some (some arg :: argv, index)

def readPath (serial : Memory) (index : ℤ) : Option (Memory × ℤ) := do
  let n ← strlenAt serial index
  let i := toInt32 (index + n)
  let path ← readAt serial index (toSizeT (i - index + 1))
  some (path, toInt32 (i + 1))

/-- `jug_runner_template_unserialize`, with the final value of `index`. A negative `argc`
leaves no room for the `NULL`. -/
def unserialize (serial : Memory) : Option (CloneChildParams × ℤ) := do
  let index := 0
  let runParams ← readAt serial index sizeofRunParams
  let index := toInt32 (index + sizeofRunParams)
  let sandbox ← readAt serial index sizeofSandbox
  let index := toInt32 (index + sizeofSandbox)
  let (path, index) ← readPath serial index
  let argcBytes ← readAt serial index sizeofInt
  let argc := int32Value argcBytes
  let index := toInt32 (index + sizeofInt)
  if argc < 0 then none
  else do
    let (argv, index) ← argvLoop serial argc.toNat index
    some (⟨runParams, sandbox, path, argv⟩, index)

theorem bind_of_some {α β : Type} {x : Option α} {a : α} (h : x = some a) (f : α → Option β) :
    x >>= f = f a := by
  rw [h]
  rfl

structure Params where
  runParams : List UInt8
  sandbox : List UInt8
  binaryPath : List UInt8
  argv : List (List UInt8)
  runParams_length : runParams.length = sizeofRunParams
  sandbox_length : sandbox.length = sizeofSandbox
  binaryPath_clean : 0 ∉ binaryPath
  argv_clean : ∀ arg ∈ argv, 0 ∉ arg

def terminated (s : List UInt8) : Memory := s ++ [0]

def pointers (argv : List (List UInt8)) : List (Option Memory) :=
  argv.map (fun arg => some (terminated arg)) ++ [none]

def Params.toC (p : Params) : CloneChildParams :=
  ⟨p.runParams, p.sandbox, terminated p.binaryPath, pointers p.argv⟩

def strings (argv : List (List UInt8)) : Memory := (argv.map terminated).flatten

/-- `run_params|sandbox|char[]binary_path|argc|argv[0]|argv[1]|....` -/
def Params.encode (p : Params) : Memory :=
  p.runParams ++ p.sandbox ++ terminated p.binaryPath ++ int32Bytes p.argv.length
    ++ strings p.argv

@[simp] theorem terminated_length (s : List UInt8) : (terminated s).length = s.length + 1 := by
  simp [terminated]

theorem strlen_terminated {s : List UInt8} (h : 0 ∉ s) : strlen (terminated s) = some s.length :=
  strlen_append h []

theorem readAt_whole {m : Memory} {n : ℕ} (h : m.length = n) : readAt m 0 n = some m := by
  have hread := readAt_append [] m []
  rwa [List.nil_append, List.append_nil, h] at hread

theorem pointers_cons (arg : List UInt8) (argv : List (List UInt8)) :
    pointers (arg :: argv) = some (terminated arg) :: pointers argv :=
  rfl

theorem strings_cons (arg : List UInt8) (argv : List (List UInt8)) :
    strings (arg :: argv) = terminated arg ++ strings argv := by
  simp [strings]

theorem argv_length_le (argv : List (List UInt8)) : argv.length ≤ (strings argv).length := by
  induction argv with
  | nil => exact Nat.le_refl 0
  | cons arg argv ih =>
    rw [strings_cons, List.length_append, terminated_length, List.length_cons]
    omega

theorem advance {front bytes : Memory} {n : ℕ} (hn : bytes.length = n)
    (hsmall : (front ++ bytes).length < 2^31) :
    toInt32 ((front.length : ℤ) + n) = ((front ++ bytes).length : ℕ) := by
  rw [List.length_append, hn] at hsmall ⊢
  rw [toInt32_of_small (by omega) (by omega)]
  omega

theorem write_next {total n : ℕ} (htotal : total < 2^31) {written serial : Memory}
    (hfilled : Filled total written serial) (bytes : Memory) (hn : bytes.length = n)
    (hroom : written.length + n ≤ total) :
    ∃ serial', storeAt serial written.length bytes = some serial' ∧
      Filled total (written ++ bytes) serial' ∧
      toInt32 ((written.length : ℤ) + n) = ((written ++ bytes).length : ℕ) := by
  obtain ⟨serial', hstore, hfilled'⟩ := hfilled.storeAt bytes (by omega)
  exact ⟨serial', hstore, hfilled', advance hn (by rw [List.length_append]; omega)⟩

theorem sizeLoop_pointers {argv : List (List UInt8)} (hclean : ∀ arg ∈ argv, 0 ∉ arg)
    (argc sz : ℤ) :
    sizeLoop (pointers argv) (toInt32 argc) (toInt32 sz)
      = some (toInt32 (argc + argv.length), toInt32 (sz + (strings argv).length)) := by
  induction argv generalizing argc sz with
  | nil => simp [pointers, sizeLoop, strings]
  | cons arg argv ih =>
    obtain ⟨harg, hargv⟩ := List.forall_mem_cons.mp hclean
    have hargc : argc + 1 + (argv.length : ℤ) = argc + ((arg :: argv).length : ℕ) := by
      rw [List.length_cons]
      omega
    have hsz : sz + (arg.length + 1 : ℕ) + ((strings argv).length : ℤ)
        = sz + ((strings (arg :: argv)).length : ℕ) := by
      rw [strings_cons, List.length_append, terminated_length]
      omega
    rw [pointers_cons, sizeLoop, strlen_terminated harg, Option.bind_eq_bind, Option.bind_some,
      toInt32_add, toInt32_add, ih hargv, hargc, hsz]

theorem fillLoop_pointers {argv : List (List UInt8)} (hclean : ∀ arg ∈ argv, 0 ∉ arg)
    {total : ℕ} (htotal : total < 2^31) {written serial : Memory}
    (hfilled : Filled total written serial)
    (hroom : written.length + (strings argv).length ≤ total) :
    ∃ serial', fillLoop (pointers argv) written.length serial = some serial' ∧
      Filled total (written ++ strings argv) serial' := by
  induction argv generalizing written serial with
  | nil => exact ⟨serial, rfl, by simpa [strings] using hfilled⟩
  | cons arg argv ih =>
    obtain ⟨harg, hargv⟩ := List.forall_mem_cons.mp hclean
    rw [strings_cons, List.length_append] at hroom
    have hbytes : readAt (terminated arg) 0 (arg.length + 1) = some (terminated arg) :=
      readAt_whole (terminated_length arg)
    obtain ⟨serial', hstore, hfilled', hnext⟩ :=
      write_next htotal hfilled _ (terminated_length arg) (by rw [← terminated_length arg]; omega)
    obtain ⟨serial'', hloop, hdone⟩ :=
      ih hargv hfilled' (by rw [List.length_append]; omega)
    refine ⟨serial'', ?_, by rwa [strings_cons, ← List.append_assoc]⟩
    simp only [pointers_cons, fillLoop, strlen_terminated harg, hbytes, hstore, hnext, hloop,
      Option.bind_eq_bind, Option.bind_some]

theorem encode_length (p : Params) :
    p.encode.length = sizeofRunParams + sizeofSandbox + (p.binaryPath.length + 1) + sizeofInt
      + (strings p.argv).length := by
  simp only [Params.encode, List.length_append, p.runParams_length, p.sandbox_length,
    terminated_length, int32Bytes_length, sizeofInt]

theorem size_eq (p : Params) :
    sizeLoop p.toC.argv 0
        (toInt32 (sizeofRunParams + sizeofSandbox + (p.binaryPath.length + 1) : ℕ))
      = some (toInt32 p.argv.length, toInt32 (p.encode.length - sizeofInt)) := by
  have hloop := sizeLoop_pointers p.argv_clean 0
    (sizeofRunParams + sizeofSandbox + (p.binaryPath.length + 1) : ℕ)
  rw [show toInt32 0 = 0 from rfl, Int.zero_add] at hloop
  rw [encode_length, Params.toC, hloop]
  congr 3
  push_cast
  omega

theorem fill_eq (p : Params) (hsmall : p.encode.length < 2^31) {serial : Memory}
    (hroom : serial.length = p.encode.length) :
    fill p.toC p.binaryPath.length p.argv.length serial = some p.encode := by
  have hlength := encode_length p
  have hrun := readAt_whole p.runParams_length
  have hsandbox := readAt_whole p.sandbox_length
  have hname := readAt_whole (terminated_length p.binaryPath)
  obtain ⟨serial₁, hstore₁, hfilled₁, hnext₁⟩ :=
    write_next hsmall (Filled.nil hroom) _ p.runParams_length (by rw [List.length_nil]; omega)
  have hlength₁ : ([] ++ p.runParams).length = sizeofRunParams := p.runParams_length
  obtain ⟨serial₂, hstore₂, hfilled₂, hnext₂⟩ :=
    write_next hsmall hfilled₁ _ p.sandbox_length (by omega)
  have hlength₂ : ([] ++ p.runParams ++ p.sandbox).length = sizeofRunParams + sizeofSandbox := by
    rw [List.length_append, hlength₁, p.sandbox_length]
  obtain ⟨serial₃, hstore₃, hfilled₃, hnext₃⟩ :=
    write_next hsmall hfilled₂ _ (terminated_length p.binaryPath) (by omega)
  have hlength₃ : ([] ++ p.runParams ++ p.sandbox ++ terminated p.binaryPath).length
      = sizeofRunParams + sizeofSandbox + (p.binaryPath.length + 1) := by
    rw [List.length_append, hlength₂, terminated_length]
  have hint : (int32Bytes p.argv.length).length = sizeofInt := int32Bytes_length _
  obtain ⟨serial₄, hstore₄, hfilled₄, hnext₄⟩ := write_next hsmall hfilled₃ _ hint (by omega)
  have hlength₄ : ([] ++ p.runParams ++ p.sandbox ++ terminated p.binaryPath
      ++ int32Bytes p.argv.length).length
      = sizeofRunParams + sizeofSandbox + (p.binaryPath.length + 1) + sizeofInt := by
    rw [List.length_append, hlength₃, hint]
  obtain ⟨serial₅, hloop, hfilled₅⟩ :=
    fillLoop_pointers p.argv_clean hsmall hfilled₄ (by omega)
  have hserial : serial₅ = p.encode := hfilled₅.eq rfl
  have hstart : ((([] : Memory).length : ℕ) : ℤ) = 0 := rfl
  rw [hstart] at hstore₁ hnext₁
  simp only [fill, Params.toC, hrun, hsandbox, hname, hstore₁, hnext₁, hstore₂, hnext₂, hstore₃,
    hnext₃, hstore₄, hnext₄, hloop, hserial, Option.bind_eq_bind, Option.bind_some]

theorem serialize_eq (stale : ℕ → UInt8) (p : Params) (hsmall : p.encode.length < 2^31) :
    serialize stale p.toC = some (p.encode, (p.encode.length : ℤ)) := by
  have hlength := encode_length p
  have hpath : strlen p.toC.binaryPath = some p.binaryPath.length :=
    strlen_terminated p.binaryPath_clean
  have hargc : toInt32 p.argv.length = p.argv.length := by
    have := argv_length_le p.argv
    rw [toInt32_of_small (by omega) (by omega)]
  have hsz : toInt32 (toInt32 (p.encode.length - sizeofInt) + sizeofInt) = p.encode.length := by
    rw [toInt32_add, Int.sub_add_cancel, toInt32_of_small (by omega) (by omega)]
  have hsize : toSizeT p.encode.length = p.encode.length := by
    rw [toSizeT_of_nonneg (by omega) (by omega), Int.toNat_natCast]
  obtain ⟨block, hblock, hroom⟩ := malloc_of_lt stale (n := p.encode.length) (by omega)
  have hfill := fill_eq p hsmall hroom
  simp only [serialize, hpath, size_eq, hsz, hargc, hsize, hblock, hfill, Option.bind_eq_bind,
    Option.bind_some]

section

variable {serial : Memory} {index : ℤ}

theorem readPath_append {path : List UInt8} (hclean : 0 ∉ path) (front rest : Memory)
    (hsmall : (front ++ terminated path).length < 2^31) :
    readPath (front ++ terminated path ++ rest) front.length
      = some (terminated path, ((front ++ terminated path).length : ℤ)) := by
  have hlength := strlenAt_append hclean front rest
  have hread := readAt_append front (terminated path) rest
  rw [List.length_append, terminated_length] at hsmall
  have hi : toInt32 ((front.length : ℤ) + path.length) = front.length + path.length :=
    toInt32_of_small (by omega) (by omega)
  have hsize : toSizeT ((front.length : ℤ) + path.length - front.length + 1)
      = (terminated path).length := by
    rw [terminated_length, toSizeT_of_nonneg (by omega) (by omega)]
    omega
  have hnext : toInt32 ((front.length : ℤ) + path.length + 1)
      = ((front ++ terminated path).length : ℕ) := by
    rw [toInt32_of_small (by omega) (by omega), List.length_append, terminated_length]
    omega
  rw [show front ++ path ++ 0 :: rest = front ++ terminated path ++ rest by simp [terminated]]
    at hlength
  simp only [readPath, bind_of_some hlength, hi, hsize, bind_of_some hread, hnext]

theorem argvLoop_strings {argv : List (List UInt8)} (hclean : ∀ arg ∈ argv, 0 ∉ arg)
    (front rest : Memory) (hsmall : (front ++ strings argv).length < 2^31) :
    argvLoop (front ++ strings argv ++ rest) argv.length front.length
      = some (pointers argv, ((front ++ strings argv).length : ℤ)) := by
  induction argv generalizing front with
  | nil => simp [argvLoop, pointers, strings]
  | cons arg argv ih =>
    obtain ⟨harg, hargv⟩ := List.forall_mem_cons.mp hclean
    rw [strings_cons, ← List.append_assoc] at hsmall ⊢
    have hlength : strlenAt (front ++ terminated arg ++ strings argv ++ rest) front.length
        = some arg.length := by
      have hread := strlenAt_append harg front (strings argv ++ rest)
      rwa [show front ++ arg ++ 0 :: (strings argv ++ rest)
        = front ++ terminated arg ++ strings argv ++ rest by simp [terminated]] at hread
    have hread : readAt (front ++ terminated arg ++ strings argv ++ rest) front.length
        (arg.length + 1) = some (terminated arg) := by
      have hread := readAt_append front (terminated arg) (strings argv ++ rest)
      rwa [terminated_length, ← List.append_assoc] at hread
    have hnext : toInt32 ((front.length : ℤ) + (arg.length + 1 : ℕ))
        = ((front ++ terminated arg).length : ℕ) :=
      advance (terminated_length arg) (by rw [List.length_append] at hsmall; omega)
    simp only [List.length_cons, argvLoop, hlength, hread, hnext, ih hargv _ hsmall, pointers_cons,
      Option.bind_eq_bind, Option.bind_some]

theorem unserialize_pieces {run sandbox path count : Memory} {argv : List (List UInt8)}
    (hrun : run.length = sizeofRunParams) (hsandbox : sandbox.length = sizeofSandbox)
    (hpath : 0 ∉ path) (hcount : count.length = sizeofInt)
    (hargc : int32Value count = argv.length) (hargv : ∀ arg ∈ argv, 0 ∉ arg)
    (hsmall : (run ++ sandbox ++ terminated path ++ count ++ strings argv).length < 2^31)
    (rest : Memory) :
    unserialize (run ++ sandbox ++ terminated path ++ count ++ strings argv ++ rest)
      = some (⟨run, sandbox, terminated path, pointers argv⟩,
        ((run ++ sandbox ++ terminated path ++ count ++ strings argv).length : ℤ)) := by
  have hsmall₄ : (run ++ sandbox ++ terminated path ++ count).length < 2^31 := by
    rw [List.length_append] at hsmall
    omega
  have hsmall₃ : (run ++ sandbox ++ terminated path).length < 2^31 := by
    rw [List.length_append] at hsmall₄
    omega
  have hnonneg : ¬ int32Value count < 0 := by
    rw [hargc]
    exact Int.not_lt.mpr (Int.natCast_nonneg _)
  have hargs : (int32Value count).toNat = argv.length := by rw [hargc, Int.toNat_natCast]
  have hread₁ := readAt_append [] run
    (sandbox ++ terminated path ++ count ++ strings argv ++ rest)
  have hread₂ := readAt_append run sandbox (terminated path ++ count ++ strings argv ++ rest)
  have hread₃ := readPath_append hpath (run ++ sandbox) (count ++ strings argv ++ rest) hsmall₃
  have hread₄ := readAt_append (run ++ sandbox ++ terminated path) count (strings argv ++ rest)
  have hloop := argvLoop_strings hargv (run ++ sandbox ++ terminated path ++ count) rest hsmall
  have hnext₁ : toInt32 (((([] : Memory).length : ℕ) : ℤ) + sizeofRunParams)
      = (([] ++ run).length : ℕ) :=
    advance hrun (by rw [List.nil_append, hrun]; decide)
  have hnext₂ : toInt32 ((run.length : ℤ) + sizeofSandbox) = ((run ++ sandbox).length : ℕ) :=
    advance hsandbox (by rw [List.length_append, hrun, hsandbox]; decide)
  have hnext₃ : toInt32 (((run ++ sandbox ++ terminated path).length : ℤ) + sizeofInt)
      = ((run ++ sandbox ++ terminated path ++ count).length : ℕ) :=
    advance hcount hsmall₄
  rw [hrun] at hread₁
  rw [hsandbox] at hread₂
  rw [hcount] at hread₄
  simp only [← List.append_assoc, List.nil_append, List.length_nil, Nat.cast_zero]
    at hread₁ hread₂ hread₃ hread₄ hnext₁
  rw [← hargs] at hloop
  simp only [unserialize, bind_of_some hread₁, hnext₁, bind_of_some hread₂, hnext₂,
    bind_of_some hread₃, bind_of_some hread₄, hnext₃, if_neg hnonneg, bind_of_some hloop]

theorem unserialize_encode (p : Params) (hsmall : p.encode.length < 2^31) (rest : Memory) :
    unserialize (p.encode ++ rest) = some (p.toC, (p.encode.length : ℤ)) := by
  have hargc : int32Value (int32Bytes p.argv.length) = p.argv.length := by
    have hargs := argv_length_le p.argv
    have hlength := encode_length p
    rw [int32Value_bytes, toInt32_of_small (by omega) (by omega)]
  exact unserialize_pieces p.runParams_length p.sandbox_length p.binaryPath_clean
    (int32Bytes_length _) hargc p.argv_clean hsmall rest

/-- What the loop over the arguments reads lies in front of the index it ends with. -/
theorem argvLoop_of_some {k : ℕ} {argv : List (Option Memory)} {i : ℤ}
    (hsmall : serial.length < 2^31) (hindex : index ≤ serial.length)
    (h : argvLoop serial k index = some (argv, i)) :
    i ≤ serial.length ∧ ∀ rest, argvLoop (serial ++ rest) k index = some (argv, i) := by
  induction k generalizing index argv i with
  | zero =>
    rw [argvLoop, Option.some.injEq, Prod.mk.injEq] at h
    obtain ⟨rfl, rfl⟩ := h
    exact ⟨hindex, fun _ => rfl⟩
  | succ k ih =>
    simp only [argvLoop, Option.bind_eq_bind, Option.bind_eq_some_iff] at h
    obtain ⟨n, hlength, arg, hread, ⟨argv', i'⟩, hloop, heq⟩ := h
    rw [Option.some.injEq, Prod.mk.injEq] at heq
    obtain ⟨rfl, rfl⟩ := heq
    obtain ⟨hpos, hn, hlength'⟩ := strlenAt_of_some hlength
    obtain ⟨-, -, hread'⟩ := readAt_of_some hread
    have hnext : toInt32 (index + (n + 1 : ℕ)) ≤ serial.length := by
      rw [toInt32_of_small (by omega) (by omega)]
      omega
    obtain ⟨hi, hloop'⟩ := ih hnext hloop
    refine ⟨hi, fun rest => ?_⟩
    simp only [argvLoop, hlength' rest, hread' rest, hloop' rest, Option.bind_eq_bind,
      Option.bind_some]

theorem readPath_of_some {path : Memory} {i : ℤ} (hsmall : serial.length < 2^31)
    (h : readPath serial index = some (path, i)) :
    i ≤ serial.length ∧ ∀ rest, readPath (serial ++ rest) index = some (path, i) := by
  simp only [readPath, Option.bind_eq_bind, Option.bind_eq_some_iff] at h
  obtain ⟨n, hlength, path', hread, heq⟩ := h
  rw [Option.some.injEq, Prod.mk.injEq] at heq
  obtain ⟨rfl, rfl⟩ := heq
  obtain ⟨hpos, hn, hlength'⟩ := strlenAt_of_some hlength
  obtain ⟨-, -, hread'⟩ := readAt_of_some hread
  have hi : toInt32 (index + n) = index + n := toInt32_of_small (by omega) (by omega)
  have hnext : toInt32 (index + n + 1) = index + n + 1 := toInt32_of_small (by omega) (by omega)
  refine ⟨by rw [hi, hnext]; omega, fun rest => ?_⟩
  simp only [readPath, bind_of_some (hlength' rest), bind_of_some (hread' rest)]

theorem unserialize_of_some {ccp : CloneChildParams} {i : ℤ} (hsmall : serial.length < 2^31)
    (h : unserialize serial = some (ccp, i)) :
    i ≤ serial.length ∧ ∀ rest, unserialize (serial ++ rest) = some (ccp, i) := by
  simp only [unserialize, Option.bind_eq_bind, Option.bind_eq_some_iff] at h
  obtain ⟨run, hrun, sandbox, hsandbox, ⟨path, index'⟩, hpath, count, hcount, h⟩ := h
  split_ifs at h with hargc
  obtain ⟨⟨argv, i'⟩, hloop, heq⟩ := Option.bind_eq_some_iff.mp h
  rw [Option.some.injEq, Prod.mk.injEq] at heq
  obtain ⟨rfl, rfl⟩ := heq
  obtain ⟨-, -, hrun'⟩ := readAt_of_some hrun
  obtain ⟨-, -, hsandbox'⟩ := readAt_of_some hsandbox
  obtain ⟨-, hpath'⟩ := readPath_of_some hsmall hpath
  obtain ⟨hpos, hn, hcount'⟩ := readAt_of_some hcount
  have hnext : toInt32 (index' + sizeofInt) ≤ serial.length := by
    rw [toInt32_of_small (by omega) (by omega)]
    exact hn
  obtain ⟨hi, hloop'⟩ := argvLoop_of_some hsmall hnext hloop
  refine ⟨hi, fun rest => ?_⟩
  simp only [unserialize, bind_of_some (hrun' rest), bind_of_some (hsandbox' rest),
    bind_of_some (hpath' rest), bind_of_some (hcount' rest), if_neg hargc,
    bind_of_some (hloop' rest)]

theorem unserialize_truncated (p : Params) (hsmall : p.encode.length < 2^31) {n : ℕ}
    (hn : n < p.encode.length) : unserialize (p.encode.take n) = none := by
  have htake : (p.encode.take n).length = n := List.length_take_of_le hn.le
  cases h : unserialize (p.encode.take n) with
  | none => rfl
  | some result =>
    obtain ⟨ccp, i⟩ := result
    obtain ⟨hi, hwhole⟩ := unserialize_of_some (by omega) h
    have heq := hwhole (p.encode.drop n)
    have hdone := unserialize_encode p hsmall []
    rw [List.append_nil] at hdone
    rw [List.take_append_drop, hdone, Option.some.injEq, Prod.mk.injEq] at heq
    rw [← heq.2] at hi
    omega

end

/-- The serializer fills the block whose size it returns, whatever was in it, and the
unserializer gives the parameters back from these bytes, from all of them and from no other. -/
def RoundTrips (p : Params) : Prop :=
  ∃ serial : Memory,
    (∀ stale, serialize stale p.toC = some (serial, (serial.length : ℤ))) ∧
    (∀ rest, unserialize (serial ++ rest) = some (p.toC, (serial.length : ℤ))) ∧
    ∀ n < serial.length, unserialize (serial.take n) = none

theorem roundTrips_of_small (p : Params) (hsmall : p.encode.length < 2^31) : RoundTrips p :=
  ⟨p.encode, fun stale => serialize_eq stale p hsmall, unserialize_encode p hsmall,
    fun _ hn => unserialize_truncated p hsmall hn⟩

def zeroed (path : List UInt8) (argv : List (List UInt8)) (hpath : 0 ∉ path)
    (hargv : ∀ arg ∈ argv, 0 ∉ arg) : Params where
  runParams := List.replicate sizeofRunParams 0
  sandbox := List.replicate sizeofSandbox 0
  binaryPath := path
  argv := argv
  runParams_length := List.length_replicate
  sandbox_length := List.length_replicate
  binaryPath_clean := hpath
  argv_clean := hargv

theorem roundTrips_two_arguments :
    RoundTrips (zeroed (ascii "/opt/a.out") [ascii "a.out", []] (by decide) (by decide)) :=
  roundTrips_of_small _ (by rw [encode_length]; decide)

def longArgument : Params :=
  zeroed (ascii "/opt/a.out") [List.replicate (2^31) 97] (by decide) (by
    intro arg harg
    rw [List.mem_singleton] at harg
    rw [harg]
    intro hzero
    exact absurd (List.eq_of_mem_replicate hzero) (by decide))

theorem longArgument_length : longArgument.encode.length = 2^31 + 120 := by
  have hstrings : (strings longArgument.argv).length = 2^31 + 1 := by
    change ([terminated (List.replicate (2^31) 97)].flatten).length = 2^31 + 1
    rw [List.flatten_singleton, terminated_length, List.length_replicate]
  have hpath : longArgument.binaryPath.length = 10 := rfl
  rw [encode_length, hstrings, hpath, sizeofRunParams, sizeofSandbox, sizeofInt, Nat.add_comm,
    Nat.add_assoc]

theorem not_roundTrips_longArgument : ¬ RoundTrips longArgument := by
  rintro ⟨serial, hserialize, -, -⟩
  have hserialize := hserialize 0
  have hpath : strlen longArgument.toC.binaryPath = some longArgument.binaryPath.length :=
    strlen_terminated longArgument.binaryPath_clean
  have hsz : toInt32 (toInt32 (longArgument.encode.length - sizeofInt) + sizeofInt)
      = -(2^31) + 120 := by
    rw [toInt32_add, Int.sub_add_cancel, longArgument_length]
    decide
  have hmalloc : malloc 0 (toSizeT (-(2^31) + 120)) = none := if_neg (by decide)
  simp only [serialize, bind_of_some hpath, bind_of_some (size_eq longArgument), hsz, hmalloc]
    at hserialize
  rw [Option.bind_eq_bind, Option.bind_none] at hserialize
  cases hserialize

end KudosJudge.TemplateSerial
