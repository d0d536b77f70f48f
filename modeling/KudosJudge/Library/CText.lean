import Mathlib.Data.Nat.Digits.Defs
import Mathlib.Data.List.TakeWhile
import Mathlib.Tactic.IntervalCases

set_option autoImplicit false

/-!
A pointer is the list of the bytes from it to the end of the mapped memory. A
function that runs off that end has no value, so that "does not read past the
terminator" is the statement that it has one on memory that ends there.
-/
namespace CText

abbrev Memory := List UInt8

def newline : UInt8 := 10

def cstr (m : Memory) : List UInt8 := m.takeWhile (· ≠ 0)

def strlen (m : Memory) : Option ℕ := if 0 ∈ m then some (cstr m).length else none

def isSpace (c : UInt8) : Bool := c = 32 ∨ (9 ≤ c ∧ c ≤ 13)

def isDigit (c : UInt8) : Bool := 48 ≤ c ∧ c ≤ 57

def digitsValue (ds : List UInt8) : ℕ := ds.foldl (fun v c => 10*v + (c.toNat-48)) 0

/-- The digits at a pointer; the byte after the run is read as well. -/
def readDigits (m : Memory) : Option ℕ :=
  match m.dropWhile isDigit with
  | [] => none
  | _ :: _ => some (digitsValue (m.takeWhile isDigit))

/-- `strtol(m, NULL, 10)` before the limits of `long` apply. -/
def readNumber (m : Memory) : Option ℤ :=
  match m.dropWhile isSpace with
  | [] => none
  | c :: rest =>
    if c = 45 then (readDigits rest).map fun v : ℕ => -(v : ℤ)
    else if c = 43 then (readDigits rest).map fun v : ℕ => (v : ℤ)
    else (readDigits (c :: rest)).map fun v : ℕ => (v : ℤ)

/-- `strtol` saturates at the limits of a 64-bit `long`. -/
def clampLong (v : ℤ) : ℤ := max (-2^63) (min (2^63-1) v)

def toInt32 (v : ℤ) : ℤ := Int.bmod v (2^32)

def toSizeT (v : ℤ) : ℕ := (v % 2^64).toNat

/-- `atoi` is `strtol` in base ten, converted to `int`. -/
def atoi (m : Memory) : Option ℤ := (readNumber m).map fun v => toInt32 (clampLong v)

def skipLine : Memory → Option Memory
  | [] => none
  | c :: m => if c = newline then some m else skipLine m

def decimal (n : ℕ) : List UInt8 := (Nat.toDigits 10 n).map fun c => UInt8.ofNat c.toNat

def printInt : ℤ → List UInt8
  | .ofNat n => decimal n
  | .negSucc n => 45 :: decimal (n + 1)

def ascii (s : String) : List UInt8 := s.toList.map fun c => UInt8.ofNat c.toNat

/-- Writing `bytes` at index `i` of an array; outside of it the write has no value. -/
def store (m : Memory) (i : ℕ) (bytes : List UInt8) : Option Memory :=
  if i + bytes.length ≤ m.length then some (m.take i ++ bytes ++ m.drop (i + bytes.length))
  else none

/-- `malloc`, with what the memory held before. A size over `PTRDIFF_MAX` is refused. -/
def malloc (stale : ℕ → UInt8) (n : ℕ) : Option Memory :=
  if n < 2^63 then some ((List.range n).map stale) else none

def memcpy (dest source : Memory) (n : ℕ) : Option Memory :=
  if n ≤ source.length then store dest 0 (source.take n) else none

/-- `memcpy(block, m+i, n)` with an `int` for `i`. -/
def readAt (m : Memory) (i : ℤ) (n : ℕ) : Option (List UInt8) :=
  if 0 ≤ i ∧ i.toNat + n ≤ m.length then some ((m.drop i.toNat).take n) else none

/-- `memcpy(m+i, bytes, n)` with an `int` for `i`. -/
def storeAt (m : Memory) (i : ℤ) (bytes : List UInt8) : Option Memory :=
  if 0 ≤ i then store m i.toNat bytes else none

def strlenAt (m : Memory) (i : ℤ) : Option ℕ :=
  if 0 ≤ i then strlen (m.drop i.toNat) else none

def int32Bytes (v : ℤ) : List UInt8 :=
  let u := (v % 2^32).toNat
  [UInt8.ofNat u, UInt8.ofNat (u / 2^8), UInt8.ofNat (u / 2^16), UInt8.ofNat (u / 2^24)]

def int32Value (bytes : List UInt8) : ℤ :=
  toInt32 ((bytes.foldr (fun c v => c.toNat + 256 * v) 0 : ℕ) : ℤ)

def text (m : Memory) : Option (List UInt8) := if 0 ∈ m then some (cstr m) else none

/-- `strchr`, as an index. The inner `none` is `NULL`. -/
def strchr : Memory → UInt8 → Option (Option ℕ)
  | [], _ => none
  | b :: m, c =>
    if b = c then some (some 0)
    else if b = 0 then some none
    else (strchr m c).map (Option.map (· + 1))

/-- `strcmp`, as the difference of the first bytes that differ. -/
def strcmp : Memory → Memory → Option ℤ
  | a :: m, b :: n =>
    if a ≠ b then some ((a.toNat : ℤ) - b.toNat)
    else if a = 0 then some 0
    else strcmp m n
  | _, _ => none

def strcpy (dest source : Memory) : Option Memory := do
  let n ← strlen source
  store dest 0 (source.take (n + 1))

/-- `strncpy` writes `n` bytes: the string cut at `n`, or filled up with zeros. -/
def strncpy (dest source : Memory) (n : ℕ) : Option Memory :=
  if 0 ∈ source ∨ n ≤ source.length then
    store dest 0 ((cstr source).take n ++ List.replicate (n - (cstr source).length) 0)
  else none

def padded (n : ℕ) (s : List UInt8) : Memory := s ++ List.replicate (n - s.length) 0

/-- What `sprintf` prints for a format whose conversions are `%s`. Another conversion, or one
without an argument, has no value; arguments that are left over are ignored. -/
def format : List UInt8 → List (List UInt8) → Option (List UInt8)
  | [], _ => some []
  | c :: f, args =>
    if c ≠ 37 then (format f args).map (c :: ·)
    else
      match f, args with
      | d :: f, arg :: args => if d = 115 then (format f args).map (arg ++ ·) else none
      | _, _ => none

/-- The number of `%s` of a format that has no other conversion. -/
def conversions : List UInt8 → Option ℕ
  | [] => some 0
  | c :: f =>
    if c ≠ 37 then conversions f
    else
      match f with
      | d :: f => if d = 115 then (conversions f).map (· + 1) else none
      | [] => none

theorem store_cases {m m' : Memory} {i : ℕ} {bytes : List UInt8}
    (h : store m i bytes = some m') :
    i + bytes.length ≤ m.length ∧ m' = m.take i ++ bytes ++ m.drop (i + bytes.length) := by
  unfold store at h
  split_ifs at h with hfits
  exact ⟨hfits, (Option.some.inj h).symm⟩

theorem store_of_fits {m : Memory} {i : ℕ} {bytes : List UInt8}
    (h : i + bytes.length ≤ m.length) :
    store m i bytes = some (m.take i ++ bytes ++ m.drop (i + bytes.length)) :=
  if_pos h

theorem store_take {m m' : Memory} {i : ℕ} {bytes : List UInt8}
    (h : store m i bytes = some m') : m'.take i = m.take i := by
  obtain ⟨hfits, rfl⟩ := store_cases h
  have hlength : (m.take i).length = i := List.length_take_of_le (by omega)
  rw [List.append_assoc, List.take_append_of_le_length (by omega), List.take_take, Nat.min_self]

theorem store_length {m m' : Memory} {i : ℕ} {bytes : List UInt8}
    (h : store m i bytes = some m') : m'.length = m.length := by
  obtain ⟨hfits, rfl⟩ := store_cases h
  simp only [List.length_append, List.length_take, List.length_drop]
  omega

theorem memcpy_take {dest source m : Memory} {n : ℕ} (h : memcpy dest source n = some m) :
    m.take n = source.take n ∧ m.length = dest.length := by
  unfold memcpy at h
  split_ifs at h with hn
  obtain ⟨hfits, hm⟩ := store_cases h
  have hlength : (source.take n).length = n := List.length_take_of_le hn
  refine ⟨?_, store_length h⟩
  rw [hm, List.take_zero, List.nil_append, List.take_append_of_le_length hlength.ge,
    List.take_take, Nat.min_self]

theorem memcpy_fits {dest source : Memory} {n : ℕ} (hsource : n ≤ source.length)
    (hdest : n ≤ dest.length) : ∃ m, memcpy dest source n = some m := by
  have hlength : (source.take n).length = n := List.length_take_of_le hsource
  rw [memcpy, if_pos hsource, store_of_fits (by omega)]
  exact ⟨_, rfl⟩

theorem malloc_of_lt (stale : ℕ → UInt8) {n : ℕ} (h : n < 2^63) :
    ∃ block, malloc stale n = some block ∧ block.length = n := by
  refine ⟨(List.range n).map stale, if_pos h, ?_⟩
  rw [List.length_map, List.length_range]

theorem malloc_eq_some {stale : ℕ → UInt8} {n : ℕ} {block : Memory}
    (h : malloc stale n = some block) : n < 2^63 ∧ block.length = n := by
  unfold malloc at h
  split_ifs at h with hn
  cases h
  exact ⟨hn, by rw [List.length_map, List.length_range]⟩

theorem readAt_append (front block rest : Memory) :
    readAt (front ++ block ++ rest) front.length block.length = some block := by
  rw [readAt, if_pos (by simp), Int.toNat_natCast, List.append_assoc,
    List.drop_left, List.take_left]

/-- A block of `total` bytes whose first ones are `written`. -/
def Filled (total : ℕ) (written block : Memory) : Prop :=
  block.length = total ∧ written <+: block

theorem Filled.nil {total : ℕ} {block : Memory} (h : block.length = total) :
    Filled total [] block :=
  ⟨h, List.nil_prefix⟩

theorem Filled.storeAt {total : ℕ} {written block : Memory} (h : Filled total written block)
    (bytes : Memory) (hroom : written.length + bytes.length ≤ total) :
    ∃ block', storeAt block written.length bytes = some block' ∧
      Filled total (written ++ bytes) block' := by
  obtain ⟨hlength, tail, rfl⟩ := h
  have hstore : store (written ++ tail) written.length bytes
      = some (written ++ bytes ++ tail.drop bytes.length) := by
    rw [store_of_fits (by omega), List.take_left, List.drop_length_add_append]
  refine ⟨_, ?_, (store_length hstore).trans hlength, List.prefix_append _ _⟩
  rw [CText.storeAt, if_pos (by omega), Int.toNat_natCast, hstore]

theorem Filled.eq {total : ℕ} {written block : Memory} (h : Filled total written block)
    (hfull : written.length = total) : block = written :=
  (h.2.eq_of_length (hfull.trans h.1.symm)).symm

theorem readAt_of_some {m block : Memory} {i : ℤ} {n : ℕ} (h : readAt m i n = some block) :
    0 ≤ i ∧ i + n ≤ m.length ∧ ∀ rest, readAt (m ++ rest) i n = some block := by
  unfold readAt at h
  split_ifs at h with hi
  refine ⟨hi.1, by omega, fun rest => ?_⟩
  rw [readAt, if_pos ⟨hi.1, by rw [List.length_append]; omega⟩, ← h,
    List.drop_append_of_le_length (by omega),
    List.take_append_of_le_length (by rw [List.length_drop]; omega)]

theorem cstr_append {s : List UInt8} (h : 0 ∉ s) (rest : Memory) : cstr (s ++ 0 :: rest) = s := by
  unfold cstr
  rw [List.takeWhile_append_of_pos]
  · simp
  · intro a ha
    simpa using fun e : a = 0 => h (e ▸ ha)

theorem strlen_append {s : List UInt8} (h : 0 ∉ s) (rest : Memory) :
    strlen (s ++ 0 :: rest) = some s.length := by
  rw [strlen, if_pos (by simp), cstr_append h]

theorem strlen_of_some {m : Memory} {n : ℕ} (h : strlen m = some n) :
    n < m.length ∧ ∀ rest, strlen (m ++ rest) = some n := by
  have hzero : 0 ∈ m := by
    unfold strlen at h
    split_ifs at h with hzero
    exact hzero
  obtain ⟨front, back, rfl, hfront⟩ := List.eq_append_cons_of_mem hzero
  rw [strlen_append hfront] at h
  cases h
  refine ⟨by simp, fun rest => ?_⟩
  rw [List.append_assoc, List.cons_append, strlen_append hfront]

theorem strlenAt_append {s : List UInt8} (h : 0 ∉ s) (front rest : Memory) :
    strlenAt (front ++ s ++ 0 :: rest) front.length = some s.length := by
  rw [strlenAt, if_pos (by omega), Int.toNat_natCast, List.append_assoc, List.drop_left,
    strlen_append h]

theorem strlenAt_of_some {m : Memory} {i : ℤ} {n : ℕ} (h : strlenAt m i = some n) :
    0 ≤ i ∧ i + n < m.length ∧ ∀ rest, strlenAt (m ++ rest) i = some n := by
  unfold strlenAt at h
  split_ifs at h with hi
  obtain ⟨hn, hrest⟩ := strlen_of_some h
  rw [List.length_drop] at hn
  refine ⟨hi, by omega, fun rest => ?_⟩
  rw [strlenAt, if_pos hi, List.drop_append_of_le_length (by omega), hrest]

theorem cstr_of_clean {s : List UInt8} (h : 0 ∉ s) : cstr s = s := by
  rw [cstr, List.takeWhile_eq_self_iff]
  intro a ha
  simpa using fun e : a = 0 => h (e ▸ ha)

theorem zero_not_mem_cstr (m : Memory) : 0 ∉ cstr m := by
  intro h
  simpa using List.mem_takeWhile_imp h

theorem strchr_append {s : List UInt8} {c : UInt8} (hc : c ∉ s) (h0 : 0 ∉ s) (rest : Memory) :
    strchr (s ++ c :: rest) c = some (some s.length) := by
  induction s with
  | nil => rw [List.nil_append, strchr, if_pos rfl, List.length_nil]
  | cons b s ih =>
    rw [List.mem_cons, not_or] at hc h0
    rw [List.cons_append, strchr, if_neg (Ne.symm hc.1), if_neg (Ne.symm h0.1), ih hc.2 h0.2]
    rfl

theorem strcmp_append {s t : List UInt8} (hs : 0 ∉ s) (ht : 0 ∉ t) (rest rest' : Memory) :
    ∃ v, strcmp (s ++ 0 :: rest) (t ++ 0 :: rest') = some v ∧ (v = 0 ↔ s = t) := by
  have differ : ∀ a b : UInt8, a ≠ b → (a.toNat : ℤ) - b.toNat ≠ 0 := by
    intro a b hab hzero
    exact hab (UInt8.toNat_inj.mp (by omega))
  induction s generalizing t with
  | nil =>
    cases t with
    | nil => exact ⟨0, rfl, by simp⟩
    | cons b t =>
      have hb : (0 : UInt8) ≠ b := fun e => ht (e ▸ List.mem_cons_self)
      refine ⟨_, if_pos hb, ?_⟩
      simpa using differ 0 b hb
  | cons a s ih =>
    rw [List.mem_cons, not_or] at hs
    cases t with
    | nil =>
      refine ⟨_, if_pos (Ne.symm hs.1), ?_⟩
      simpa using differ a 0 (Ne.symm hs.1)
    | cons b t =>
      rw [List.mem_cons, not_or] at ht
      rw [List.cons_append, List.cons_append, strcmp]
      by_cases hab : a = b
      · obtain ⟨v, hv, hzero⟩ := ih hs.2 ht.2
        rw [if_neg (not_not_intro hab), if_neg (Ne.symm hs.1)]
        exact ⟨v, hv, by rw [hzero, hab, List.cons_inj_right]⟩
      · rw [if_pos hab]
        exact ⟨_, rfl, by simpa [hab] using differ a b hab⟩

theorem text_append {s : List UInt8} (h : 0 ∉ s) (rest : Memory) :
    text (s ++ 0 :: rest) = some s := by
  rw [text, if_pos (by simp), cstr_append h]

theorem conversions_char {c : UInt8} (hc : c ≠ 37) (f : List UInt8) :
    conversions (c :: f) = conversions f := by
  cases f <;> exact if_pos hc

theorem format_char {c : UInt8} (hc : c ≠ 37) (f : List UInt8) (args : List (List UInt8)) :
    format (c :: f) args = (format f args).map (c :: ·) := by
  cases f <;> cases args <;> exact if_pos hc

theorem format_length {f : List UInt8} {n : ℕ} (h : conversions f = some n)
    (args : List (List UInt8)) (hn : n ≤ args.length) :
    ∃ s, format f args = some s ∧
      s.length + 2 * n = f.length + ((args.take n).map List.length).sum := by
  induction f using conversions.induct generalizing n args with
  | case1 =>
    cases h
    exact ⟨[], rfl, by simp⟩
  | case2 c f hc ih =>
    rw [conversions_char hc] at h
    obtain ⟨s, hs, hlength⟩ := ih h args hn
    refine ⟨c :: s, by rw [format_char hc, hs]; rfl, ?_⟩
    simp only [List.length_cons]
    omega
  | case3 c hc f ih =>
    obtain rfl : c = 37 := not_not.mp hc
    obtain ⟨k, hk, rfl⟩ := Option.map_eq_some_iff.mp h
    cases args with
    | nil => simp at hn
    | cons arg args =>
      obtain ⟨s, hs, hlength⟩ := ih hk args (Nat.le_of_succ_le_succ hn)
      refine ⟨arg ++ s, congrArg (Option.map (arg ++ ·)) hs, ?_⟩
      simp only [List.length_append, List.length_cons, List.take_succ_cons, List.map_cons,
        List.sum_cons]
      omega
  | case4 c hc d f hd =>
    rw [conversions, if_neg hc, if_neg hd] at h
    cases h
  | case5 c hc =>
    rw [conversions, if_neg hc] at h
    cases h

theorem padded_eq {n : ℕ} {s : List UInt8} (h : s.length < n) :
    padded n s = s ++ 0 :: List.replicate (n - s.length - 1) 0 := by
  rw [padded, ← List.replicate_succ]
  congr 2
  omega

theorem text_padded {n : ℕ} {s : List UInt8} (h : s.length < n) (h0 : 0 ∉ s) :
    text (padded n s) = some s := by
  rw [padded_eq h, text_append h0]

theorem strcpy_zeros {n : ℕ} {s : List UInt8} (h : s.length < n) (h0 : 0 ∉ s) (rest : Memory) :
    strcpy (padded n []) (s ++ 0 :: rest) = some (padded n s) := by
  have htake : (s ++ 0 :: rest).take (s.length + 1) = s ++ [0] :=
    List.take_length_add_append 1
  have hlength : (padded n []).length = n := by simp [padded]
  rw [strcpy, strlen_append h0]
  change store (padded n []) 0 ((s ++ 0 :: rest).take (s.length + 1)) = some (padded n s)
  rw [htake, store_of_fits (by rw [hlength, List.length_append, List.length_singleton]; omega),
    padded_eq h]
  simp only [padded, List.take_zero, List.nil_append, List.length_nil, List.length_append,
    List.length_singleton, List.drop_replicate, List.append_assoc, List.singleton_append,
    Option.some.injEq, List.append_cancel_left_eq, List.cons.injEq, true_and]
  congr 1
  omega

theorem strncpy_zeros {n : ℕ} {s : List UInt8} (h : s.length < n) (h0 : 0 ∉ s) (rest : Memory) :
    strncpy (padded n []) (s ++ rest) s.length = some (padded n s) := by
  have hcstr : cstr (s ++ rest) = s ++ cstr rest := by
    unfold cstr
    rw [List.takeWhile_append_of_pos]
    intro a ha
    simpa using fun e : a = 0 => h0 (e ▸ ha)
  have hlength : (padded n []).length = n := by simp [padded]
  rw [strncpy, if_pos (.inr (by simp)), hcstr, List.take_left,
    List.length_append, Nat.sub_eq_zero_of_le (Nat.le_add_right _ _), List.replicate_zero,
    List.append_nil, store_of_fits (by omega)]
  simp only [padded, List.take_zero, List.nil_append, List.length_nil, List.drop_replicate]
  congr 3
  omega

theorem store_zeros {n : ℕ} (h : 0 < n) : store (padded n []) 0 [0] = some (padded n []) := by
  have hzeros : padded n [] = 0 :: List.replicate (n - 1) 0 := padded_eq h
  rw [hzeros, store_of_fits (by simp)]
  rfl

theorem skipLine_line {line : List UInt8} (h : newline ∉ line) (rest : Memory) :
    skipLine (line ++ newline :: rest) = some rest := by
  induction line with
  | nil => rfl
  | cons c line ih =>
    have hc : c ≠ newline := fun e => h (e ▸ List.mem_cons_self)
    rw [List.cons_append, skipLine, if_neg hc]
    exact ih fun hm => h (List.mem_cons_of_mem _ hm)

theorem skipLine_eq_some {m m' : Memory} (h : skipLine m = some m') :
    ∃ line, newline ∉ line ∧ m = line ++ newline :: m' := by
  induction m with
  | nil => cases h
  | cons c m ih =>
    rw [skipLine] at h
    split_ifs at h with hc
    · injection h with h
      exact ⟨[], by simp, by rw [hc, h]; rfl⟩
    · obtain ⟨line, hl, heq⟩ := ih h
      refine ⟨c :: line, ?_, by rw [heq]; rfl⟩
      simp only [List.mem_cons, not_or]
      exact ⟨Ne.symm hc, hl⟩

theorem toInt32_of_small {v : ℤ} (h0 : -2^31 ≤ v) (h1 : v < 2^31) : toInt32 v = v := by
  unfold toInt32
  rw [Int.bmod_eq_of_le] <;> omega

theorem toInt32_bounds (v : ℤ) : -2^31 ≤ toInt32 v ∧ toInt32 v < 2^31 := by
  have hlow := Int.le_bmod (x := v) (m := 2^32) (by decide)
  have hhigh := Int.bmod_lt (x := v) (m := 2^32) (by decide)
  unfold toInt32
  omega

theorem toInt32_eq_iff {v w : ℤ} (h0 : -2^31 ≤ w) (h1 : w < 2^31) :
    toInt32 v = w ↔ (2^32 : ℤ) ∣ v - w := by
  rw [toInt32, Int.bmod_eq_iff (by decide)]
  omega

theorem toSizeT_of_nonneg {v : ℤ} (h0 : 0 ≤ v) (h1 : v < 2^31) : toSizeT v = v.toNat := by
  unfold toSizeT
  omega

theorem toInt32_add (v w : ℤ) : toInt32 (toInt32 v + w) = toInt32 (v + w) := by
  unfold toInt32
  exact Int.bmod_add_bmod

@[simp] theorem int32Bytes_length (v : ℤ) : (int32Bytes v).length = 4 := rfl

theorem int32Value_bytes (v : ℤ) : int32Value (int32Bytes v) = toInt32 v := by
  have hu : ((v % 2^32).toNat : ℤ) = v % 2^32 := Int.toNat_of_nonneg (by omega)
  have hsum : ∀ u : ℕ, u < 2^32 → u % 2^8 + 256 * (u / 2^8 % 2^8 + 256 *
      (u / 2^16 % 2^8 + 256 * (u / 2^24 % 2^8 + 256 * 0))) = u := by
    omega
  unfold int32Value int32Bytes
  simp only [List.foldr_cons, List.foldr_nil, UInt8.toNat_ofNat']
  rw [hsum _ (by omega), hu]
  exact Int.emod_bmod v (2^32)

theorem digitChar_byte {d : ℕ} (h : d < 10) :
    UInt8.ofNat (Nat.digitChar d).toNat = UInt8.ofNat (48+d) := by
  interval_cases d <;> rfl

theorem decimal_of_lt {n : ℕ} (h : n < 10) : decimal n = [UInt8.ofNat (48+n)] := by
  rw [decimal, Nat.toDigits_of_lt_base h, List.map_singleton, digitChar_byte h]

theorem decimal_of_le {n : ℕ} (h : 10 ≤ n) :
    decimal n = decimal (n/10) ++ [UInt8.ofNat (48+n%10)] := by
  rw [decimal, Nat.toDigits_of_base_le (by decide) h, List.map_append, List.map_singleton,
    digitChar_byte (Nat.mod_lt _ (by decide))]
  rfl

theorem digit_byte {d : ℕ} (h : d < 10) :
    isDigit (UInt8.ofNat (48+d)) = true ∧ (UInt8.ofNat (48+d)).toNat - 48 = d := by
  interval_cases d <;> decide

theorem decimal_spec (n : ℕ) :
    decimal n ≠ [] ∧ (∀ c ∈ decimal n, isDigit c = true) ∧ digitsValue (decimal n) = n := by
  induction n using Nat.strong_induction_on with
  | _ n ih =>
    by_cases h : n < 10
    · rw [decimal_of_lt h]
      obtain ⟨h1, h2⟩ := digit_byte h
      refine ⟨by simp, by simpa using h1, ?_⟩
      simp only [digitsValue, List.foldl_cons, List.foldl_nil, Nat.mul_zero, Nat.zero_add, h2]
    · have hm : n % 10 < 10 := Nat.mod_lt _ (by decide)
      obtain ⟨_, h2, h3⟩ := ih (n/10) (by omega)
      obtain ⟨h4, h5⟩ := digit_byte hm
      rw [decimal_of_le (by omega)]
      refine ⟨by simp, ?_, ?_⟩
      · intro c hc
        rcases List.mem_append.mp hc with hc | hc
        · exact h2 c hc
        · rw [List.mem_singleton.mp hc]
          exact h4
      · rw [digitsValue, List.foldl_append, ← digitsValue, h3]
        simp only [List.foldl_cons, List.foldl_nil, h5]
        omega

theorem isSpace_of_isDigit {c : UInt8} (h : isDigit c = true) : isSpace c = false := by
  simp only [isDigit, decide_eq_true_eq, UInt8.le_iff_toNat_le] at h
  simp only [isSpace, decide_eq_false_iff_not, not_or, not_and, UInt8.le_iff_toNat_le,
    ← UInt8.toNat_inj]
  have h1 : (48 : UInt8).toNat = 48 := rfl
  have h2 : (32 : UInt8).toNat = 32 := rfl
  have h3 : (13 : UInt8).toNat = 13 := rfl
  omega

theorem isDigit_ne {c : UInt8} (h : isDigit c = true) : c ≠ 45 ∧ c ≠ 43 ∧ c ≠ newline ∧ c ≠ 0 := by
  refine ⟨?_, ?_, ?_, ?_⟩ <;> (rintro rfl; revert h; decide)

theorem readDigits_append {ds : List UInt8} (h : ∀ c ∈ ds, isDigit c = true) {c : UInt8}
    (hc : isDigit c = false) (rest : Memory) :
    readDigits (ds ++ c :: rest) = some (digitsValue ds) := by
  have hdrop : (ds ++ c :: rest).dropWhile isDigit = c :: rest := by
    rw [List.dropWhile_append_of_pos h]
    simp [hc]
  have htake : (ds ++ c :: rest).takeWhile isDigit = ds := by
    rw [List.takeWhile_append_of_pos h]
    simp [hc]
  simp only [readDigits, hdrop, htake]

theorem atoi_digits {ds : List UInt8} (hne : ds ≠ []) (hds : ∀ c ∈ ds, isDigit c = true)
    (hvalue : digitsValue ds < 2^31) {c : UInt8} (hc : isDigit c = false) (rest : Memory) :
    atoi (ds ++ c :: rest) = some (digitsValue ds : ℤ) := by
  have hdigits := readDigits_append hds hc rest
  have hnumber : readNumber (ds ++ c :: rest) = some (digitsValue ds : ℤ) := by
    cases ds with
    | nil => exact absurd rfl hne
    | cons x xs =>
      have hx : isDigit x = true := hds x List.mem_cons_self
      obtain ⟨n1, n2, _, _⟩ := isDigit_ne hx
      have hdrop : (x :: xs ++ c :: rest).dropWhile isSpace = x :: (xs ++ c :: rest) := by
        simp [isSpace_of_isDigit hx]
      simp only [readNumber, hdrop, n1, n2, if_false]
      rw [← List.cons_append, hdigits]
      rfl
  have hclamp : clampLong (digitsValue ds : ℤ) = digitsValue ds := by
    unfold clampLong
    omega
  rw [atoi, hnumber, Option.map_some, hclamp, toInt32_of_small (by omega) (by omega)]

/-- `atoi` reads back what `printf` wrote. -/
theorem atoi_decimal {n : ℕ} (hn : n < 2^31) {c : UInt8} (hc : isDigit c = false) (rest : Memory) :
    atoi (decimal n ++ c :: rest) = some (n : ℤ) := by
  obtain ⟨hne, hds, hvalue⟩ := decimal_spec n
  rw [atoi_digits hne hds (by omega) hc rest, hvalue]

theorem dropWhile_terminated {p : UInt8 → Bool} (hp : p 0 = false) (s rest : Memory) :
    (s ++ 0 :: rest).dropWhile p = s.dropWhile p ++ 0 :: rest := by
  induction s with
  | nil => simp [hp]
  | cons c s ih =>
    rw [List.cons_append, List.dropWhile_cons, List.dropWhile_cons]
    split_ifs
    · exact ih
    · rfl

theorem readDigits_terminated (s rest : Memory) :
    readDigits (s ++ 0 :: rest) = some (digitsValue (s.takeWhile isDigit)) := by
  have hzero : isDigit 0 = false := by decide
  have htake : (s ++ 0 :: rest).takeWhile isDigit = s.takeWhile isDigit := by
    induction s with
    | nil => simp [hzero]
    | cons c s ih =>
      rw [List.cons_append, List.takeWhile_cons, List.takeWhile_cons]
      split_ifs
      · rw [ih]
      · rfl
  rw [readDigits, dropWhile_terminated hzero, htake]
  cases s.dropWhile isDigit <;> rfl

theorem atoi_append_zero (s rest : Memory) : atoi (s ++ 0 :: rest) = atoi (s ++ [0]) := by
  have hzero : isSpace 0 = false := by decide
  rw [atoi, atoi, readNumber, readNumber, dropWhile_terminated hzero, dropWhile_terminated hzero]
  cases s.dropWhile isSpace with
  | nil =>
    have hread : ∀ rest, readDigits (0 :: rest) = some 0 := readDigits_terminated []
    simp [hread]
  | cons c t =>
    simp only [List.cons_append, readDigits_terminated]
    simp only [← List.cons_append, readDigits_terminated]

theorem atoi_bounds {m : Memory} {v : ℤ} (h : atoi m = some v) : -2^31 ≤ v ∧ v < 2^31 := by
  rw [atoi, Option.map_eq_some_iff] at h
  obtain ⟨w, _, rfl⟩ := h
  exact toInt32_bounds _

theorem newline_not_mem_decimal (n : ℕ) : newline ∉ decimal n :=
  fun h => (isDigit_ne ((decimal_spec n).2.1 _ h)).2.2.1 rfl

theorem zero_not_mem_decimal (n : ℕ) : 0 ∉ decimal n :=
  fun h => (isDigit_ne ((decimal_spec n).2.1 _ h)).2.2.2 rfl

theorem atoi_isSome {m : Memory} (h : 0 ∈ m) : (atoi m).isSome := by
  have ends : ∀ l : Memory, 0 ∈ l → (readDigits l).isSome := by
    intro l hl
    unfold readDigits
    cases hd : l.dropWhile isDigit with
    | nil =>
      exact absurd (List.dropWhile_eq_nil_iff.mp hd 0 hl) (by decide)
    | cons c rest => rfl
  have hspace : 0 ∈ m.dropWhile isSpace := by
    have hsplit := List.takeWhile_append_dropWhile (p := isSpace) (l := m)
    rw [← hsplit] at h
    rcases List.mem_append.mp h with h | h
    · exact absurd (List.mem_takeWhile_imp h) (by decide)
    · exact h
  rw [atoi, Option.isSome_map]
  unfold readNumber
  cases hd : m.dropWhile isSpace with
  | nil => rw [hd] at hspace; cases hspace
  | cons c rest =>
    rw [hd] at hspace
    simp only
    split_ifs with h1 h2
    · rw [Option.isSome_map]
      exact ends rest ((List.mem_cons.mp hspace).resolve_left (by rw [h1]; decide))
    · rw [Option.isSome_map]
      exact ends rest ((List.mem_cons.mp hspace).resolve_left (by rw [h2]; decide))
    · rw [Option.isSome_map]
      exact ends _ hspace

end CText
