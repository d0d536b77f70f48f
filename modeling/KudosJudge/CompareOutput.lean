import Mathlib.Data.List.DropRight

set_option autoImplicit false

/-!
`compare_output` of `compare.c` over a regular reference file. The comparator
keeps no state of its own between calls: its place in the reference is the
offset of the descriptor, so every definition here passes that descriptor on.
-/
namespace KudosJudge.CompareOutput

def lf : UInt8 := 10
def cr : UInt8 := 13

def readSize : ℕ := 256
def oRdwr : ℕ := 2

/-- An open descriptor of a regular file. `flags` is what `F_GETFL` reports;
`O_RDONLY` is zero, so its test in the source never succeeds. -/
structure Descriptor where
  content : List UInt8
  offset : ℕ
  flags : ℕ
deriving DecidableEq, Repr

def opened (content : List UInt8) : Descriptor := ⟨content, 0, oRdwr⟩

namespace Descriptor

def remaining (d : Descriptor) : List UInt8 := d.content.drop d.offset

def read (d : Descriptor) (n : ℕ) : List UInt8 × Descriptor :=
  let bytes := d.remaining.take n
  (bytes, { d with offset := d.offset + bytes.length })

def lseekSet (d : Descriptor) (target : ℤ) : Descriptor :=
  if target < 0 then d else { d with offset := target.toNat }

end Descriptor

inductive Scan where
  | mismatch (result : ℕ)
  | stop (i goback readPlus : ℕ)
deriving DecidableEq, Repr

def scanByte (b : UInt8) (next : List UInt8 → ℕ → ℕ → ℕ → Scan) :
    List UInt8 → ℕ → ℕ → ℕ → Scan
  | [], i, goback, readPlus => .stop i goback readPlus
  | x :: rx, i, goback, readPlus =>
    if x = cr then scanByte b next rx (i+1) (goback+1) readPlus
    else if x ≠ b then .mismatch (i+1)
    else next rx (i+1) goback readPlus

/-- `while(j<rd && i<size)`: the first list is `buffer` from `j` on, the second
`tmprx` from `i` on. -/
def scan : List UInt8 → List UInt8 → ℕ → ℕ → ℕ → Scan
  | [], _, i, goback, readPlus => .stop i goback readPlus
  | _ :: _, [], i, goback, readPlus => .stop i goback readPlus
  | b :: buffer, x :: rx, i, goback, readPlus =>
    if b = cr then scan buffer (x :: rx) i goback (readPlus+1)
    else scanByte b (scan buffer) (x :: rx) i goback readPlus

theorem scan_nil_right (buffer : List UInt8) (i goback readPlus : ℕ) :
    scan buffer [] i goback readPlus = .stop i goback readPlus := by
  cases buffer <;> rfl

theorem scan_skip_reference (buffer : List UInt8) {rx : List UInt8} (h : rx ≠ [])
    (i goback readPlus : ℕ) :
    scan (cr :: buffer) rx i goback readPlus = scan buffer rx i goback (readPlus+1) := by
  cases rx with
  | nil => exact absurd rfl h
  | cons x rx => rfl

theorem scan_skip_output {b : UInt8} (hb : b ≠ cr) (buffer rx : List UInt8)
    (i goback readPlus : ℕ) :
    scan (b :: buffer) (cr :: rx) i goback readPlus =
      scan (b :: buffer) rx (i+1) (goback+1) readPlus := by
  cases rx <;> simp [scan, scanByte, hb]

theorem scan_match {b : UInt8} (hb : b ≠ cr) (buffer rx : List UInt8) (i goback readPlus : ℕ) :
    scan (b :: buffer) (b :: rx) i goback readPlus = scan buffer rx (i+1) goback readPlus := by
  simp [scan, scanByte, hb]

theorem scan_differ {b x : UInt8} (hb : b ≠ cr) (hx : x ≠ cr) (hne : x ≠ b)
    (buffer rx : List UInt8) (i goback readPlus : ℕ) :
    scan (b :: buffer) (x :: rx) i goback readPlus = .mismatch (i+1) := by
  simp [scan, scanByte, hb, hx, hne]

/-- The state of the outer loop: `rx` is `tmprx` with its `size` bytes. The two
counters live for the whole call; the source does not reset them. They are the `int`s of the
source as long as chunk and reference together are below 2^31 bytes. -/
structure Round where
  d : Descriptor
  rx : List UInt8
  goback : ℕ
  readPlus : ℕ
deriving DecidableEq, Repr

def reposition (d : Descriptor) (goback readPlus : ℕ) : Descriptor :=
  let dec : ℤ := (goback : ℤ) - readPlus
  if dec > 0 then d.lseekSet ((d.offset : ℤ) - dec) else d

/-- One turn of `while(size>0)`: a return value, or the state of the next turn. -/
def round (s : Round) : (ℤ × Descriptor) ⊕ Round :=
  let (buffer, d) := s.d.read (min readSize s.rx.length)
  if buffer = [] then
    if s.rx.any (fun x => x ≠ cr ∧ x ≠ lf) then .inl (20, d) else .inl (0, d)
  else
    match scan buffer s.rx 0 s.goback s.readPlus with
    | .mismatch result => .inl (result, d)
    | .stop i goback readPlus =>
      .inr ⟨reposition d goback readPlus, s.rx.drop i, goback, readPlus⟩

def rounds : ℕ → Round → Option (ℤ × Descriptor)
  | 0, _ => none
  | fuel+1, s =>
    if s.rx = [] then some (0, s.d)
    else match round s with
      | .inl out => some out
      | .inr s' => rounds fuel s'

def drain : ℕ → Descriptor → Option (ℤ × Descriptor)
  | 0, _ => none
  | fuel+1, d =>
    let (buffer, d) := d.read readSize
    if buffer = [] then some (0, d)
    else if buffer.any (fun x => x ≠ lf ∧ x ≠ cr) then some (10, d)
    else drain fuel d

def roundBudget (content size : ℕ) : ℕ := size * (2*content+3) + content + 1

def compareInternal (d : Descriptor) (rx : List UInt8) (stage : ℤ) : Option (ℤ × Descriptor) :=
  if stage = 0 ∧ d.flags &&& oRdwr = 0 then some (-20, d)
  else if stage = -1 then drain (d.content.length+1) d
  else rounds (roundBudget d.content.length rx.length) ⟨d, rx, 0, 0⟩

def compareOutput (d : Descriptor) (rx : List UInt8) (stage : ℤ) : Option (ℤ × Descriptor) :=
  compareInternal d rx stage

/-- The calls the runner makes on successive chunks, up to the first non-zero
result, with the end call after the last chunk. -/
def compareChunks (d : Descriptor) : ℕ → List (List UInt8) → Option ℤ
  | _, [] => (compareOutput d [] (-1)).map Prod.fst
  | stage, chunk :: chunks =>
    match compareOutput d chunk stage with
    | none => none
    | some (result, d') => if result = 0 then compareChunks d' (stage+1) chunks else some result

end KudosJudge.CompareOutput
