import KudosJudge.Library.CText

set_option autoImplicit false

/-!
The functions of the buffer look at its memory only through `strlen`, `strncat`
and `strstr`, so a buffer is its capacity `len` and the C string it holds. The
allocation has `len+1` bytes; both facts that make the string functions safe on
it are fields.
-/
namespace KudosJudge.StringBuffer
open CText

structure Buffer where
  len : ℕ
  str : List UInt8
  clean : 0 ∉ str
  fits : str.length ≤ len
deriving DecidableEq

def bufferDefaultSize : ℕ := 64

def bufferNewWithSize (n : ℕ) : Buffer := ⟨n, [], by simp, Nat.zero_le _⟩

def bufferNew : Buffer := bufferNewWithSize bufferDefaultSize

/-- `(b + (a-1)) & ~(a-1)`; for a power of two the mask takes the remainder away. -/
def nearestMultipleOf (a b : ℕ) : ℕ := (b + (a-1)) - (b + (a-1)) % a

theorem le_nearestMultipleOf (b : ℕ) : b ≤ nearestMultipleOf 1024 b := by
  unfold nearestMultipleOf
  omega

def bufferResize (self : Buffer) (n : ℕ) : Buffer :=
  let n := nearestMultipleOf 1024 n
  ⟨n, self.str.take n, fun h => self.clean (List.mem_of_mem_take h), List.length_take_le ..⟩

theorem bufferResize_len (self : Buffer) (n : ℕ) :
    (bufferResize self n).len = nearestMultipleOf 1024 n := rfl

theorem bufferResize_str {self : Buffer} {n : ℕ} (h : self.str.length ≤ n) :
    (bufferResize self n).str = self.str := by
  simp only [bufferResize]
  rw [List.take_of_length_le (h.trans (le_nearestMultipleOf n))]

/-- What `strncat(dst, src, n)` adds to the string at `dst`. -/
def strncatTail (src : List UInt8) (n : ℕ) : List UInt8 := cstr (src.take n)

theorem length_strncatTail (src : List UInt8) (n : ℕ) : (strncatTail src n).length ≤ n :=
  ((List.takeWhile_prefix _).length_le).trans (List.length_take_le ..)

theorem strncat_clean {dst : List UInt8} (h : 0 ∉ dst) (src : List UInt8) (n : ℕ) :
    0 ∉ dst ++ strncatTail src n := by
  rw [List.mem_append, not_or]
  exact ⟨h, zero_not_mem_cstr _⟩

theorem strncat_fits (self : Buffer) (src : List UInt8) (n : ℕ) :
    ((bufferResize self (n + self.str.length)).str ++ strncatTail src n).length ≤
      (bufferResize self (n + self.str.length)).len := by
  have := length_strncatTail src n
  have := le_nearestMultipleOf (n + self.str.length)
  rw [bufferResize_len, bufferResize_str (Nat.le_add_left ..), List.length_append]
  omega

def bufferAppendN (self : Buffer) (src : List UInt8) (n : ℕ) : Buffer :=
  if room : self.len > n + self.str.length then
    ⟨self.len, self.str ++ strncatTail src n, strncat_clean self.clean src n, by
      have := length_strncatTail src n
      rw [List.length_append]
      omega⟩
  else
    let grown := bufferResize self (n + self.str.length)
    ⟨grown.len, grown.str ++ strncatTail src n, strncat_clean grown.clean src n,
      strncat_fits self src n⟩

def bufferIndexofNewline (self : Buffer) : ℤ :=
  if newline ∈ self.str then self.str.idxOf newline else -1

/-- `buffer_slice`. The two comparisons of `to` with an unsigned value are
made in `size_t`; no value is `NULL`. -/
def bufferSlice (self : Buffer) (start : ℕ) (stop : ℤ) : Option Buffer :=
  let len : ℕ := self.str.length
  if toSizeT stop < start then none
  else
    let stop := if stop < 0 then (len : ℤ) - (-stop-1) else stop
    let stop : ℤ := if toSizeT stop > len then len else stop
    let n := toSizeT (stop - start)
    some ⟨n, (self.str.drop start).take n,
      fun h => self.clean (List.mem_of_mem_drop (List.mem_of_mem_take h)), List.length_take_le ..⟩

/-- The capacities a buffer that only grew by appending can have. -/
def Grown (b : Buffer) : Prop :=
  (b.len = bufferDefaultSize ∧ b.str.length < bufferDefaultSize) ∨
    b.len = nearestMultipleOf 1024 b.str.length

theorem bufferNew_grown : Grown bufferNew := .inl ⟨rfl, by decide⟩

theorem strncatTail_clean {src : List UInt8} (h : 0 ∉ src) :
    strncatTail src src.length = src := by
  rw [strncatTail, List.take_length, cstr_of_clean h]

theorem bufferAppendN_str (self : Buffer) {src : List UInt8} (h : 0 ∉ src) :
    (bufferAppendN self src src.length).str = self.str ++ src := by
  simp only [bufferAppendN]
  split_ifs with room
  · simp only [strncatTail_clean h]
  · simp only [bufferResize_str (Nat.le_add_left ..), strncatTail_clean h]

theorem bufferAppendN_grown {self : Buffer} {src : List UInt8} (h : 0 ∉ src) (hg : Grown self) :
    Grown (bufferAppendN self src src.length) := by
  have hstr := bufferAppendN_str self h
  unfold Grown
  rw [hstr, List.length_append]
  simp only [bufferAppendN]
  split_ifs with room
  · simp only
    rcases hg with ⟨h1, h2⟩ | h1
    · exact .inl ⟨h1, by omega⟩
    · right
      unfold nearestMultipleOf at h1 ⊢
      omega
  · right
    rw [bufferResize_len, Nat.add_comm]

theorem Grown.full_iff {b : Buffer} (h : Grown b) (hne : b.str ≠ []) :
    b.len = b.str.length ↔ b.str.length % 1024 = 0 := by
  have hpos := List.length_pos_iff.mpr hne
  rcases h with ⟨h1, h2⟩ | h1
  · unfold bufferDefaultSize at h1 h2
    omega
  · unfold nearestMultipleOf at h1
    omega

theorem bufferSlice_to_capacity {b : Buffer} (start : ℕ) (hs : start < b.str.length)
    (hsmall : b.len < 2^63) : ∃ out, bufferSlice b start ((b.len : ℤ) - 1) = some out ∧
      out.str = (b.str.drop start).take (min b.str.length (b.len-1) - start) := by
  have hfit := b.fits
  have hto : toSizeT ((b.len : ℤ) - 1) = b.len - 1 := by
    unfold toSizeT
    omega
  unfold bufferSlice
  rw [hto, if_neg (by omega)]
  refine ⟨_, rfl, ?_⟩
  simp only [if_neg (show ¬ (b.len : ℤ) - 1 < 0 by omega), hto]
  congr 1
  unfold toSizeT
  split_ifs <;> omega

end KudosJudge.StringBuffer
