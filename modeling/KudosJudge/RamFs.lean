import KudosJudge.Library.CText
import Mathlib.Logic.Function.Basic

set_option autoImplicit false

/-!
`init_ramfs` and `ramfs_cp` of `ramfs.c`, over the files that the paths name.
-/
namespace KudosJudge.RamFs
open CText

/-- A value of a 32-bit `int`. -/
@[ext] structure CInt where
  val : ℤ
  low : -2^31 ≤ val
  high : val < 2^31
deriving DecidableEq

def CInt.of (v : ℤ) : CInt := ⟨toInt32 v, (toInt32_bounds v).1, (toInt32_bounds v).2⟩

theorem CInt.of_val (v : ℤ) : (CInt.of v).val = toInt32 v := rfl

structure RamfsInfo where
  rootDir : List UInt8
  dirname : List UInt8
  path : List UInt8
  sizeAlloc : CInt
  used : CInt
  memMax : CInt

def initRamfs (ramfsRoot ramfsDirname : List UInt8) (sizeAllocMb maxSizeMb : CInt) : RamfsInfo :=
  let sizeAllocMb := if sizeAllocMb.val < 0 then 0 else sizeAllocMb.val
  let maxSizeMb := if maxSizeMb.val > sizeAllocMb then sizeAllocMb else maxSizeMb.val
  let maxSizeMb := if maxSizeMb < 0 then 0 else maxSizeMb
  { rootDir := ramfsRoot
    dirname := ramfsDirname
    path := ramfsRoot ++ ascii "/" ++ ramfsDirname
    sizeAlloc := .of (sizeAllocMb * 1000000)
    used := .of 0
    memMax := .of (maxSizeMb * 1000000) }

inductive Node where
  | file (bytes : List UInt8)
  | directory
deriving DecidableEq

structure State where
  info : RamfsInfo
  files : List UInt8 → Option Node

/-- A round of the copy loop: how much `read` is ready to give, none when it fails, and how much
`write` takes when it does not take the whole block. -/
structure Round where
  read : Option ℕ
  write : Option ℕ

/-- What the calls of a copy answer. `stat` and `open` succeed only where there is a file to
find or to make. -/
structure Io where
  statSource : Bool
  statTarget : Bool
  openTarget : Bool
  openSource : Bool
  rounds : ℕ → Round
  closeSource : Bool
  closeTarget : Bool

def bufferSize : ℕ := 512

/-- A read in front of the end gives at least one byte and at most the buffer. -/
def numrd (n : ℕ) : ℕ := max 1 (min n bufferSize)

inductive LoopEnd where
  | endOfFile
  | writeError
  | readError
deriving DecidableEq, Repr

def copyLoop (rounds : ℕ → Round) (rest : List UInt8) : List UInt8 × LoopEnd :=
  match (rounds 0).read with
  | none => ([], .readError)
  | some n =>
    if rest = [] then ([], .endOfFile)
    else
      let buffer := rest.take (numrd n)
      match (rounds 0).write with
      | some k => (buffer.take (min k (buffer.length - 1)), .writeError)
      | none =>
        let (written, loopEnd) := copyLoop (fun i => rounds (i + 1)) (rest.drop (numrd n))
        (buffer ++ written, loopEnd)
termination_by rest.length
decreasing_by
  have hrest : 0 < rest.length := List.length_pos_iff.mpr ‹_›
  rw [List.length_drop, numrd]
  omega

def fullTarget (info : RamfsInfo) (target : List UInt8) : List UInt8 :=
  info.path ++ ascii "/" ++ target

def openedBytes (files : List UInt8 → Option Node) (path : List UInt8) : List UInt8 :=
  match files path with
  | some (.file old) => old
  | _ => []

/-- Writing from the start of a file that is not truncated. -/
def overwrite (old written : List UInt8) : List UInt8 := written ++ old.drop written.length

def State.put (s : State) (path bytes : List UInt8) : State :=
  { s with files := Function.update s.files path (some (.file bytes)) }

def copyTo (s : State) (full bytes : List UInt8) (io : Io) : ℤ × State :=
  let old := openedBytes s.files full
  if !io.openSource then (-6, s.put full old)
  else
    let (written, loopEnd) := copyLoop io.rounds bytes
    let copied := s.put full (overwrite old written)
    match loopEnd with
    | .writeError => (-7, copied)
    | .readError => (-8, copied)
    | .endOfFile =>
      let srcSize := CInt.of bytes.length
      let copied :=
        { copied with info := { s.info with used := .of (s.info.used.val + srcSize.val) } }
      if !io.closeSource then (-9, copied)
      else if !io.closeTarget then (-10, copied)
      else (0, copied)

def ramfsCp (s : State) (src : List UInt8) (target : Option (List UInt8)) (io : Io) : ℤ × State :=
  match s.files src with
  | none => (-1, s)
  | some source =>
    if !io.statSource then (-1, s)
    else
      match source with
      | .directory => (-2, s)
      | .file bytes =>
        match target with
        | none => (-3, s)
        | some target =>
          let full := fullTarget s.info target
          if io.statTarget && (s.files full).isSome then (-11, s)
          else
            let srcSize := CInt.of bytes.length
            let memfree := CInt.of (s.info.memMax.val - s.info.used.val)
            if memfree.val < srcSize.val then (-4, s)
            else if !io.openTarget || s.files full = some .directory then (-5, s)
            else copyTo s full bytes io

def offset (rounds : ℕ → Round) : ℕ → ℕ
  | 0 => 0
  | i + 1 => offset rounds i + numrd ((rounds i).read.getD 0)

def Undisturbed (rounds : ℕ → Round) (size : ℕ) : Prop :=
  ∀ i, (∀ j < i, offset rounds j < size) →
    (rounds i).read.isSome ∧ (offset rounds i < size → (rounds i).write = none)

theorem offset_shift (rounds : ℕ → Round) (i : ℕ) :
    offset rounds (i + 1)
      = numrd ((rounds 0).read.getD 0) + offset (fun i => rounds (i + 1)) i := by
  induction i with
  | zero => simp [offset]
  | succ i ih =>
    rw [offset, ih, offset]
    omega

theorem undisturbed_empty (rounds : ℕ → Round) :
    Undisturbed rounds 0 ↔ (rounds 0).read.isSome := by
  constructor
  · intro h
    exact (h 0 (by simp)).1
  · intro h i hbefore
    cases i with
    | zero => exact ⟨h, fun hlt => absurd hlt (by omega)⟩
    | succ i => exact absurd (hbefore 0 (by omega)) (by omega)

theorem undisturbed_round {rounds : ℕ → Round} {size : ℕ} (hsize : 0 < size) :
    Undisturbed rounds size ↔ (rounds 0).read.isSome ∧ (rounds 0).write = none ∧
      Undisturbed (fun i => rounds (i + 1)) (size - numrd ((rounds 0).read.getD 0)) := by
  constructor
  · intro h
    refine ⟨(h 0 (by simp)).1, (h 0 (by simp)).2 hsize, fun i hbefore => ?_⟩
    have hround := h (i + 1) (fun j hj => ?_)
    · rw [offset_shift] at hround
      exact ⟨hround.1, fun hlt => hround.2 (by omega)⟩
    · cases j with
      | zero => exact hsize
      | succ j =>
        have hj' := hbefore j (by omega)
        rw [offset_shift]
        omega
  · rintro ⟨hread, hwrite, hrest⟩ i hbefore
    cases i with
    | zero => exact ⟨hread, fun _ => hwrite⟩
    | succ i =>
      obtain ⟨hread', hwrite'⟩ := hrest i fun j hj => by
        have hj' := hbefore (j + 1) (by omega)
        rw [offset_shift] at hj'
        omega
      refine ⟨hread', fun hlt => hwrite' ?_⟩
      rw [offset_shift] at hlt
      omega

/-- The loop copies the file to its end when nothing disturbs it, and stops within it
otherwise. -/
theorem copyLoop_spec (rounds : ℕ → Round) (bytes : List UInt8) :
    ((copyLoop rounds bytes).2 = .endOfFile ↔ Undisturbed rounds bytes.length) ∧
      ((copyLoop rounds bytes).2 = .endOfFile → (copyLoop rounds bytes).1 = bytes) := by
  induction hn : bytes.length using Nat.strong_induction_on generalizing rounds bytes with
  | _ size ih =>
    subst hn
    rw [copyLoop]
    cases hread : (rounds 0).read with
    | none =>
      refine ⟨⟨nofun, fun h => ?_⟩, nofun⟩
      have hsome := (h 0 (by simp)).1
      rw [hread] at hsome
      cases hsome
    | some n =>
      by_cases hempty : bytes = []
      · subst hempty
        simp [undisturbed_empty, hread]
      · have hlength : 0 < bytes.length := List.length_pos_iff.mpr hempty
        have hn : (rounds 0).read.getD 0 = n := by rw [hread]; rfl
        simp only [if_neg hempty]
        cases hwrite : (rounds 0).write with
        | some k =>
          refine ⟨⟨nofun, fun h => ?_⟩, nofun⟩
          rw [undisturbed_round hlength, hwrite] at h
          cases h.2.1
        | none =>
          have hshorter : (bytes.drop (numrd n)).length < bytes.length := by
            rw [List.length_drop, numrd]
            omega
          obtain ⟨hend, hall⟩ := ih _ hshorter (fun i => rounds (i + 1)) (bytes.drop (numrd n)) rfl
          refine ⟨?_, fun h => ?_⟩
          · rw [undisturbed_round hlength, hread, hwrite]
            simp only [Option.isSome_some, Option.getD_some, true_and]
            rw [← List.length_drop]
            exact hend
          · simp only at h ⊢
            rw [hall h, List.take_append_drop]

structure Opens (s : State) (src : List UInt8) (target : Option (List UInt8)) (io : Io)
    (bytes full : List UInt8) : Prop where
  source : s.files src = some (.file bytes) ∧ io.statSource = true
  target : target.map (fullTarget s.info) = some full
  absent : io.statTarget = true → s.files full = none
  room : (CInt.of bytes.length).val ≤ (CInt.of (s.info.memMax.val - s.info.used.val)).val
  opened : io.openTarget = true ∧ s.files full ≠ some .directory

theorem Opens.unique {s : State} {src : List UInt8} {target : Option (List UInt8)} {io : Io}
    {bytes full bytes' full' : List UInt8} (h : Opens s src target io bytes full)
    (h' : Opens s src target io bytes' full') : bytes = bytes' ∧ full = full' := by
  have hbytes := h.source.1.symm.trans h'.source.1
  have hfull := h.target.symm.trans h'.target
  cases hbytes
  cases hfull
  exact ⟨rfl, rfl⟩

theorem ramfsCp_cases (s : State) (src : List UInt8) (target : Option (List UInt8)) (io : Io) :
    ((∀ bytes full, ¬ Opens s src target io bytes full) ∧
      (ramfsCp s src target io).1 ≠ 0 ∧ (ramfsCp s src target io).2 = s) ∨
    ∃ bytes full, Opens s src target io bytes full ∧
      ramfsCp s src target io = copyTo s full bytes io := by
  unfold ramfsCp
  cases hsource : s.files src with
  | none =>
    refine .inl ⟨fun bytes full h => ?_, show (-1 : ℤ) ≠ 0 by decide, rfl⟩
    cases hsource.symm.trans h.source.1
  | some node =>
    simp only
    split_ifs with hstat
    · refine .inl ⟨fun bytes full h => ?_, show (-1 : ℤ) ≠ 0 by decide, rfl⟩
      simp [h.source.2] at hstat
    · rw [Bool.not_eq_true', Bool.not_eq_false] at hstat
      cases node with
      | directory =>
        refine .inl ⟨fun bytes full h => ?_, show (-2 : ℤ) ≠ 0 by decide, rfl⟩
        cases hsource.symm.trans h.source.1
      | file bytes =>
        cases target with
        | none =>
          refine .inl ⟨fun bytes full h => ?_, show (-3 : ℤ) ≠ 0 by decide, rfl⟩
          cases h.target
        | some target =>
          have hfacts : ∀ bytes' full, Opens s src (some target) io bytes' full →
              bytes' = bytes ∧ full = fullTarget s.info target := by
            intro bytes' full h
            have hbytes := hsource.symm.trans h.source.1
            have hfull := h.target
            cases hbytes
            cases hfull
            exact ⟨rfl, rfl⟩
          simp only
          split_ifs with hexists hroom hopen
          · refine .inl ⟨fun bytes' full h => ?_, show (-11 : ℤ) ≠ 0 by decide, rfl⟩
            obtain ⟨rfl, rfl⟩ := hfacts _ _ h
            rw [Bool.and_eq_true] at hexists
            rw [h.absent hexists.1] at hexists
            cases hexists.2
          · refine .inl ⟨fun bytes' full h => ?_, show (-4 : ℤ) ≠ 0 by decide, rfl⟩
            obtain ⟨rfl, rfl⟩ := hfacts _ _ h
            exact absurd h.room (not_le.mpr hroom)
          · refine .inl ⟨fun bytes' full h => ?_, show (-5 : ℤ) ≠ 0 by decide, rfl⟩
            obtain ⟨rfl, rfl⟩ := hfacts _ _ h
            rw [Bool.or_eq_true, Bool.not_eq_true', decide_eq_true_eq, h.opened.1] at hopen
            rcases hopen with hopen | hopen
            · cases hopen
            · exact h.opened.2 hopen
          · refine .inr ⟨bytes, _, ⟨⟨hsource, hstat⟩, rfl, fun htarget => ?_, not_lt.mp hroom, ?_⟩,
              rfl⟩
            · rw [htarget, Bool.true_and, Option.not_isSome_iff_eq_none] at hexists
              exact hexists
            · rw [Bool.or_eq_true, Bool.not_eq_true', decide_eq_true_eq, not_or,
                Bool.not_eq_false] at hopen
              exact hopen

section

variable {s : State} {src : List UInt8} {target : Option (List UInt8)} {io : Io}
  {bytes full : List UInt8}

theorem Opens.copies (h : Opens s src target io bytes full) :
    ramfsCp s src target io = copyTo s full bytes io := by
  obtain ⟨hstopped, -⟩ | ⟨bytes', full', h', hcopy⟩ := ramfsCp_cases s src target io
  · exact absurd h (hstopped bytes full)
  · obtain ⟨rfl, rfl⟩ := h.unique h'
    exact hcopy

theorem Opens.forall_iff (h : Opens s src target io bytes full)
    (p : List UInt8 → List UInt8 → Prop) :
    (∀ bytes' full', Opens s src target io bytes' full' → p bytes' full') ↔ p bytes full := by
  refine ⟨fun hall => hall bytes full h, fun hone bytes' full' h' => ?_⟩
  obtain ⟨rfl, rfl⟩ := h.unique h'
  exact hone

end

def Copies (io : Io) (size : ℕ) : Prop := io.openSource = true ∧ Undisturbed io.rounds size

def Closes (io : Io) : Prop := io.closeSource = true ∧ io.closeTarget = true

theorem copyTo_spec (s : State) (full bytes : List UInt8) (io : Io) :
    ∃ content, (copyTo s full bytes io).2.files
        = Function.update s.files full (some (.file content)) ∧
      ((¬ Copies io bytes.length ∧ (copyTo s full bytes io).1 ≠ 0 ∧
          (copyTo s full bytes io).2.info = s.info) ∨
        (Copies io bytes.length ∧ content = overwrite (openedBytes s.files full) bytes ∧
          (copyTo s full bytes io).2.info = { s.info with
            used := .of (s.info.used.val + (CInt.of bytes.length).val) } ∧
          ((copyTo s full bytes io).1 = 0 ↔ Closes io))) := by
  obtain ⟨hend, hall⟩ := copyLoop_spec io.rounds bytes
  cases hsource : io.openSource with
  | false =>
    have hcopy : copyTo s full bytes io = (-6, s.put full (openedBytes s.files full)) := by
      simp [copyTo, hsource]
    rw [hcopy]
    refine ⟨_, rfl, .inl ⟨fun h => ?_, show (-6 : ℤ) ≠ 0 by decide, rfl⟩⟩
    cases hsource.symm.trans h.1
  | true =>
    unfold copyTo
    simp only [hsource, Bool.not_true, Bool.false_eq_true, if_false]
    cases hloop : (copyLoop io.rounds bytes).2 with
    | writeError =>
      refine ⟨_, rfl, .inl ⟨fun h => ?_, show (-7 : ℤ) ≠ 0 by decide, rfl⟩⟩
      cases hloop.symm.trans (hend.mpr h.2)
    | readError =>
      refine ⟨_, rfl, .inl ⟨fun h => ?_, show (-8 : ℤ) ≠ 0 by decide, rfl⟩⟩
      cases hloop.symm.trans (hend.mpr h.2)
    | endOfFile =>
      have hcopies : Copies io bytes.length := ⟨hsource, hend.mp hloop⟩
      simp only [hall hloop]
      cases hclose : io.closeSource with
      | false => exact ⟨_, rfl, .inr ⟨hcopies, rfl, rfl, by simp [Closes, hclose]⟩⟩
      | true =>
        cases hclose' : io.closeTarget with
        | false => exact ⟨_, rfl, .inr ⟨hcopies, rfl, rfl, by simp [Closes, hclose']⟩⟩
        | true => exact ⟨_, rfl, .inr ⟨hcopies, rfl, rfl, by simp [Closes, hclose, hclose']⟩⟩

end KudosJudge.RamFs
