import KudosJudge.ServeReply

set_option autoImplicit false

/-!
`kudosjudge_receive` of `client.c`. It looks for the header in `init_buffer`, which every
`recv` fills from its start, and reads the rest behind a cursor that it never moves.
-/
namespace KudosJudge.ClientReceive
open CText InterfaceReceive WorkerServe

def initBufferSize : ℕ := 100

/-- How a call ends without a text: with `NULL`, with a write or read outside of an array, or
not at all. -/
inductive Stop where
  | null
  | fault
  | waiting
deriving DecidableEq, Repr

def orFault {α : Type} : Option α → Except Stop α
  | some a => .ok a
  | none => .error .fault

/-- `recv` of at most `n` bytes. What is longer stays for the next call, and behind the last
result the peer has closed. -/
def recv (n : ℕ) : List RecvResult → RecvResult × List RecvResult
  | [] => (.bytes [], [])
  | .error :: script => (.error, script)
  | .bytes b :: script =>
    (.bytes (b.take n), if b.length ≤ n then script else .bytes (b.drop n) :: script)

/-- The first loop, with `init_buffer` and `rcv_count_acc`. -/
def headerLoop : ℕ → Memory → ℕ → List RecvResult → Except Stop (Memory × ℕ × List RecvResult)
  | 0, _, _, _ => .error .waiting
  | calls + 1, initBuffer, acc, script =>
    match recv initBufferSize script with
    | (.error, _) => .error .null
    | (.bytes b, script) => do
      let initBuffer ← orFault (store initBuffer 0 (b ++ [0]))
      if newline ∈ cstr initBuffer then .ok (initBuffer, acc + b.length, script)
      else headerLoop calls initBuffer (acc + b.length) script

def sizeExpected (initBuffer : Memory) : ℤ :=
  toInt32 ((cstr initBuffer).idxOf newline + 1 + (atoi initBuffer).getD 0)

/-- The second loop; `tmp` is where every `recv` writes. -/
def bodyLoop (size : ℤ) (tmp : ℕ) : ℕ → Memory → ℕ → List RecvResult → Except Stop Memory
  | 0, _, _, _ => .error .waiting
  | calls + 1, buffer, acc, script =>
    match recv (toSizeT size) script with
    | (.error, _) => .error .null
    | (.bytes b, script) => do
      let buffer ← orFault (store buffer tmp b)
      if ((acc + b.length : ℕ) : ℤ) ≥ size then .ok buffer
      else bodyLoop size tmp calls buffer (acc + b.length) script

def removeHeader (buffer : Memory) : Except Stop (List UInt8) := do
  let room ← orFault (strlen buffer)
  let body ← orFault (skipLine buffer)
  if (cstr body).length < room then .ok (cstr body) else .error .fault

def receiveRest (calls : ℕ) (stale : ℕ → UInt8) (initBuffer : Memory) (acc : ℕ)
    (script : List RecvResult) : Except Stop (List UInt8) := do
  let block ← orFault (malloc stale (toSizeT (sizeExpected initBuffer + 10)))
  let buffer ← orFault (memcpy block initBuffer acc)
  let buffer ← bodyLoop (sizeExpected initBuffer) acc calls buffer acc script
  let buffer ← orFault (store buffer acc [0])
  removeHeader buffer

/-- `kudosjudge_receive`, with at most `calls` calls of `recv` in each loop. -/
def kudosjudgeReceive (calls : ℕ) (stale : ℕ → UInt8) (script : List RecvResult) :
    Except Stop (List UInt8) := do
  let (initBuffer, acc, script) ←
    headerLoop calls ((List.range initBufferSize).map stale) 0 script
  receiveRest calls stale initBuffer acc script

theorem bind_eq_ok {α β : Type} {x : Except Stop α} {f : α → Except Stop β} {b : β}
    (h : x >>= f = .ok b) : ∃ a, x = .ok a ∧ f a = .ok b := by
  cases x with
  | error stop => cases h
  | ok a => exact ⟨a, rfl, h⟩

theorem orFault_eq_ok {α : Type} {x : Option α} {a : α} (h : orFault x = .ok a) : x = some a := by
  cases x with
  | none => cases h
  | some a' => rw [orFault, Except.ok.injEq] at h; rw [h]

@[simp] theorem orFault_some_bind {α β : Type} (a : α) (f : α → Except Stop β) :
    orFault (some a) >>= f = f a :=
  rfl

theorem exists_piece {α : Type} {x : α} {pieces : List (List α)} {front back : List α}
    (h : pieces.flatten = front ++ x :: back) :
    ∃ before suffix body after, pieces = before ++ (suffix ++ x :: body) :: after ∧
      before.flatten ++ suffix = front ∧ body ++ after.flatten = back := by
  induction pieces generalizing front with
  | nil => simp at h
  | cons piece pieces ih =>
    rw [List.flatten_cons, List.append_eq_append_iff] at h
    rcases h with ⟨suffix, hfront, hrest⟩ | ⟨rest, hpiece, hrest⟩
    · obtain ⟨before, tail, body, after, hpieces, hbefore, hback⟩ := ih hrest
      refine ⟨piece :: before, tail, body, after, ?_, ?_, hback⟩
      · rw [hpieces, List.cons_append]
      · rw [List.flatten_cons, List.append_assoc, hbefore, hfront]
    · cases rest with
      | nil =>
        have hnext : pieces.flatten = [] ++ x :: back := hrest.symm
        obtain ⟨before, tail, body, after, hpieces, hbefore, hback⟩ := ih hnext
        refine ⟨piece :: before, tail, body, after, ?_, ?_, hback⟩
        · rw [hpieces, List.cons_append]
        · rw [List.flatten_cons, List.append_assoc, hbefore, hpiece, List.append_nil,
            List.append_nil]
      | cons y rest =>
        rw [List.cons_append, List.cons.injEq] at hrest
        obtain ⟨rfl, hback⟩ := hrest
        exact ⟨[], front, rest, pieces, by rw [hpiece]; rfl, rfl, hback.symm⟩

section

variable {b : List UInt8} {script : List RecvResult}

theorem recv_piece {n : ℕ} (h : b.length ≤ n) :
    recv n (.bytes b :: script) = (.bytes b, script) := by
  rw [recv, List.take_of_length_le h, if_pos h]

theorem store_piece {initBuffer : Memory} (hsize : initBuffer.length = initBufferSize)
    (hb : b.length ≤ 99) :
    store initBuffer 0 (b ++ [0]) = some (b ++ 0 :: initBuffer.drop (b.length + 1)) := by
  rw [store_of_fits]
  · simp
  · rw [List.length_append, List.length_singleton, hsize, initBufferSize]
    omega

theorem headerLoop_piece {calls acc : ℕ} {initBuffer : Memory}
    (hsize : initBuffer.length = initBufferSize) (hb : b.length ≤ 99) (hzero : 0 ∉ b) :
    headerLoop (calls + 1) initBuffer acc (.bytes b :: script) =
      if newline ∈ b then
        .ok (b ++ 0 :: initBuffer.drop (b.length + 1), acc + b.length, script)
      else headerLoop calls (b ++ 0 :: initBuffer.drop (b.length + 1)) (acc + b.length) script := by
  have hfits : b.length ≤ initBufferSize := by
    rw [initBufferSize]
    omega
  simp only [headerLoop, recv_piece hfits, store_piece hsize hb, orFault_some_bind,
    cstr_append hzero]

theorem headerLoop_pieces (calls acc : ℕ) (script : List RecvResult) {initBuffer : Memory}
    {before : List (List UInt8)} (hsize : initBuffer.length = initBufferSize)
    (hbefore : ∀ piece ∈ before, piece.length ≤ 99 ∧ 0 ∉ piece ∧ newline ∉ piece)
    (hb : b.length ≤ 99) (hzero : 0 ∉ b) (hnewline : newline ∈ b) :
    (calls ≤ before.length ∧
      headerLoop calls initBuffer acc (before.map .bytes ++ .bytes b :: script) =
        .error .waiting) ∨
      ∃ tail, (b ++ 0 :: tail).length = initBufferSize ∧
        headerLoop calls initBuffer acc (before.map .bytes ++ .bytes b :: script) =
          .ok (b ++ 0 :: tail, acc + before.flatten.length + b.length, script) := by
  induction before generalizing calls acc initBuffer with
  | nil =>
    cases calls with
    | zero => exact .inl ⟨le_rfl, rfl⟩
    | succ calls =>
      refine .inr ⟨initBuffer.drop (b.length + 1), ?_, ?_⟩
      · simp only [List.length_append, List.length_cons, List.length_drop, hsize, initBufferSize]
        omega
      · exact (headerLoop_piece hsize hb hzero).trans (if_pos hnewline)
  | cons piece before ih =>
    cases calls with
    | zero => exact .inl ⟨Nat.zero_le _, rfl⟩
    | succ calls =>
      obtain ⟨hlength, hclean, hline⟩ := hbefore piece List.mem_cons_self
      rw [List.map_cons, List.cons_append, headerLoop_piece hsize hlength hclean, if_neg hline]
      have hnext : (piece ++ 0 :: initBuffer.drop (piece.length + 1)).length =
          initBufferSize := by
        simp only [List.length_append, List.length_cons, List.length_drop, hsize, initBufferSize]
        omega
      rw [List.flatten_cons, List.length_append, ← Nat.add_assoc, List.length_cons,
        Nat.add_le_add_iff_right]
      exact ih _ _ hnext fun p hp => hbefore p (List.mem_cons_of_mem _ hp)

end

theorem bodyLoop_take {size : ℤ} {tmp calls acc : ℕ} {buffer buffer' : Memory}
    {script : List RecvResult} (h : bodyLoop size tmp calls buffer acc script = .ok buffer') :
    buffer'.take tmp = buffer.take tmp ∧ buffer'.length = buffer.length := by
  induction calls generalizing buffer acc script with
  | zero => cases h
  | succ calls ih =>
    rw [bodyLoop] at h
    split at h
    · cases h
    · obtain ⟨next, hnext, h'⟩ := bind_eq_ok h
      have hstore := orFault_eq_ok hnext
      split_ifs at h'
      · cases h'
        exact ⟨store_take hstore, store_length hstore⟩
      · obtain ⟨htake, hlength⟩ := ih h'
        exact ⟨htake.trans (store_take hstore), hlength.trans (store_length hstore)⟩

theorem bodyLoop_closed {size : ℤ} {tmp acc : ℕ} {buffer : Memory} (calls : ℕ)
    (htmp : tmp ≤ buffer.length) :
    bodyLoop size tmp (calls + 1) buffer acc [] =
      if (acc : ℤ) ≥ size then .ok buffer else bodyLoop size tmp calls buffer acc [] := by
  have hstore : store buffer tmp [] = some buffer := by
    rw [store_of_fits htmp]
    simp
  simp only [bodyLoop, recv, hstore, orFault_some_bind, List.length_nil, Nat.add_zero]

theorem removeHeader_text {line body : List UInt8} (hline : newline ∉ line) (hzero : 0 ∉ line)
    (hbody : 0 ∉ body) (rest : Memory) :
    removeHeader (line ++ newline :: body ++ 0 :: rest) = .ok body := by
  have hclean : 0 ∉ line ++ newline :: body := by
    simp only [List.mem_append, List.mem_cons, not_or]
    exact ⟨hzero, by decide, hbody⟩
  have hskip : skipLine (line ++ newline :: body ++ 0 :: rest) = some (body ++ 0 :: rest) := by
    rw [List.append_assoc, List.cons_append, skipLine_line hline]
  have hroom : body.length < (line ++ newline :: body).length := by
    rw [List.length_append, List.length_cons]
    omega
  simp only [removeHeader, strlen_append hclean, hskip, orFault_some_bind, cstr_append hbody,
    if_pos hroom]

section

variable {line body : List UInt8} {tail : Memory} {acc : ℕ}

theorem taken_terminated {piece : List UInt8} (hacc : piece.length ≤ acc) (rest : Memory) :
    ∃ rest', (piece ++ 0 :: tail).take acc ++ [0] ++ rest = piece ++ 0 :: rest' := by
  obtain ⟨k, rfl⟩ := Nat.exists_eq_add_of_le hacc
  rw [List.take_length_add_append, List.append_assoc, List.append_assoc]
  cases k with
  | zero => exact ⟨rest, rfl⟩
  | succ k => exact ⟨tail.take k ++ ([0] ++ rest), rfl⟩

theorem receiveRest_text {calls : ℕ} {stale : ℕ → UInt8} {script : List RecvResult}
    {t : List UInt8} (hline : newline ∉ line) (hzero : 0 ∉ line) (hbody : 0 ∉ body)
    (hacc : (line ++ newline :: body).length ≤ acc)
    (h : receiveRest calls stale (line ++ newline :: body ++ 0 :: tail) acc script = .ok t) :
    t = body := by
  obtain ⟨block, -, h₁⟩ := bind_eq_ok h
  obtain ⟨buffer, hbuffer, h₂⟩ := bind_eq_ok h₁
  obtain ⟨buffer', hloop, h₃⟩ := bind_eq_ok h₂
  obtain ⟨buffer'', hlast, h₄⟩ := bind_eq_ok h₃
  obtain ⟨htaken, -⟩ := memcpy_take (orFault_eq_ok hbuffer)
  obtain ⟨-, hstored⟩ := store_cases (orFault_eq_ok hlast)
  rw [(bodyLoop_take hloop).1, htaken] at hstored
  obtain ⟨rest, hrest⟩ := taken_terminated hacc (buffer'.drop (acc + [(0 : UInt8)].length))
  rw [hstored, hrest, removeHeader_text hline hzero hbody, Except.ok.injEq] at h₄
  exact h₄.symm

theorem bodyLoop_closed_ok {size : ℤ} {calls : ℕ} {buffer buffer' : Memory}
    (hacc : acc ≤ buffer.length) (h : bodyLoop size acc calls buffer acc [] = .ok buffer') :
    (acc : ℤ) ≥ size := by
  induction calls with
  | zero => cases h
  | succ calls ih =>
    rw [bodyLoop_closed calls hacc] at h
    split_ifs at h with hdone
    · exact hdone
    · exact ih h

theorem sizeExpected_terminated {piece : List UInt8} (h : 0 ∉ piece) (tail : Memory) :
    sizeExpected (piece ++ 0 :: tail) = sizeExpected (piece ++ [0]) := by
  rw [sizeExpected, sizeExpected, cstr_append h, cstr_append h, atoi_append_zero piece tail]

theorem sizeExpected_bounds (initBuffer : Memory) :
    -2^31 ≤ sizeExpected initBuffer ∧ sizeExpected initBuffer < 2^31 :=
  toInt32_bounds _

theorem receiveRest_fits {calls : ℕ} {stale : ℕ → UInt8} {initBuffer : Memory} {t : List UInt8}
    (h : receiveRest calls stale initBuffer acc [] = .ok t) :
    sizeExpected initBuffer ≤ acc ∧ (acc : ℤ) ≤ sizeExpected initBuffer + 9 := by
  obtain ⟨block, hblock, h₁⟩ := bind_eq_ok h
  obtain ⟨buffer, hbuffer, h₂⟩ := bind_eq_ok h₁
  obtain ⟨buffer', hloop, h₃⟩ := bind_eq_ok h₂
  obtain ⟨buffer'', hlast, -⟩ := bind_eq_ok h₃
  obtain ⟨hsmall, hlength⟩ := malloc_eq_some (orFault_eq_ok hblock)
  obtain ⟨-, hsame⟩ := memcpy_take (orFault_eq_ok hbuffer)
  obtain ⟨-, hkept⟩ := bodyLoop_take hloop
  obtain ⟨hfits, -⟩ := store_cases (orFault_eq_ok hlast)
  rw [hkept, hsame, hlength, List.length_singleton] at hfits
  have hdone := bodyLoop_closed_ok (by omega) hloop
  have hbounds := sizeExpected_bounds initBuffer
  unfold toSizeT at hsmall hfits
  omega

theorem receiveRest_whole (calls : ℕ) (stale : ℕ → UInt8) (hline : newline ∉ line)
    (hzero : 0 ∉ line) (hbody : 0 ∉ body) (hacc : (line ++ newline :: body).length ≤ acc)
    (hsize : acc ≤ (line ++ newline :: body ++ 0 :: tail).length)
    (hdone : sizeExpected (line ++ newline :: body ++ 0 :: tail) ≤ acc)
    (hfits : (acc : ℤ) ≤ sizeExpected (line ++ newline :: body ++ 0 :: tail) + 9) :
    receiveRest (calls + 1) stale (line ++ newline :: body ++ 0 :: tail) acc [] = .ok body := by
  have hbounds := sizeExpected_bounds (line ++ newline :: body ++ 0 :: tail)
  have hroom : (toSizeT (sizeExpected (line ++ newline :: body ++ 0 :: tail) + 10) : ℤ) =
      sizeExpected (line ++ newline :: body ++ 0 :: tail) + 10 := by
    unfold toSizeT
    omega
  obtain ⟨block, hblock⟩ : ∃ block, malloc stale
      (toSizeT (sizeExpected (line ++ newline :: body ++ 0 :: tail) + 10)) = some block :=
    ⟨_, if_pos (by omega)⟩
  have hlength := (malloc_eq_some hblock).2
  obtain ⟨buffer, hbuffer⟩ := memcpy_fits hsize (by omega : acc ≤ block.length)
  have hsame := (memcpy_take hbuffer).2
  have hlast := store_of_fits (show acc + [(0 : UInt8)].length ≤ buffer.length by
    rw [hsame, List.length_singleton]
    omega)
  obtain ⟨rest, hrest⟩ := taken_terminated hacc (buffer.drop (acc + [(0 : UInt8)].length))
  rw [(memcpy_take hbuffer).1, hrest] at hlast
  simp only [receiveRest, hblock, hbuffer, orFault_some_bind]
  rw [bodyLoop_closed calls (by omega), if_pos hdone]
  change orFault (store buffer acc [0]) >>= removeHeader = _
  rw [hlast, orFault_some_bind, removeHeader_text hline hzero hbody]

end

/-- A frame as it arrives: `piece` is the one with the line end, with the digits `suffix` in front
of it and the part `body` of the text behind it. -/
structure Arrival (w : List UInt8) (before : List (List UInt8)) (suffix body : List UInt8)
    (after : List (List UInt8)) : Prop where
  digits : before.flatten ++ suffix = decimal w.length
  text : body ++ after.flatten = w
  sizes : ∀ p ∈ before ++ (suffix ++ newline :: body) :: after, 1 ≤ p.length ∧ p.length ≤ 99
  zero : 0 ∉ w
  line : newline ∉ w
  short : w.length < 50

section

variable {w suffix body : List UInt8} {before after : List (List UInt8)}

theorem eq_nil_of_flatten {pieces : List (List UInt8)} (h : pieces.flatten = [])
    (hpieces : ∀ p ∈ pieces, 1 ≤ p.length) : pieces = [] := by
  cases pieces with
  | nil => rfl
  | cons p pieces =>
    have hp := hpieces p List.mem_cons_self
    rw [List.flatten_eq_nil_iff] at h
    rw [h p List.mem_cons_self] at hp
    cases hp

theorem Arrival.suffix_digits (h : Arrival w before suffix body after) :
    ∀ c ∈ suffix, isDigit c = true := by
  intro c hc
  apply (decimal_spec w.length).2.1
  rw [← h.digits]
  exact List.mem_append_right _ hc

theorem Arrival.clean (h : Arrival w before suffix body after) :
    newline ∉ suffix ∧ 0 ∉ suffix ∧ 0 ∉ body := by
  refine ⟨fun hmem => ?_, fun hmem => ?_, fun hmem => ?_⟩
  · exact (isDigit_ne (h.suffix_digits _ hmem)).2.2.1 rfl
  · exact (isDigit_ne (h.suffix_digits _ hmem)).2.2.2 rfl
  · apply h.zero
    rw [← h.text]
    exact List.mem_append_left _ hmem

theorem Arrival.header (h : Arrival w before suffix body after) :
    ∀ p ∈ before, p.length ≤ 99 ∧ 0 ∉ p ∧ newline ∉ p := by
  intro p hp
  have hdigits : ∀ c ∈ p, isDigit c = true := by
    intro c hc
    apply (decimal_spec w.length).2.1
    rw [← h.digits]
    exact List.mem_append_left _ (List.mem_flatten_of_mem hp hc)
  refine ⟨(h.sizes p (List.mem_append_left _ hp)).2, fun hmem => ?_, fun hmem => ?_⟩
  · exact (isDigit_ne (hdigits _ hmem)).2.2.2 rfl
  · exact (isDigit_ne (hdigits _ hmem)).2.2.1 rfl

theorem decimal_length_short {n : ℕ} (h : n < 50) : (decimal n).length ≤ 2 := by
  by_cases hn : n < 10
  · rw [decimal_of_lt hn]
    exact Nat.le_succ 1
  · rw [decimal_of_le (by omega), decimal_of_lt (by omega)]
    rfl

/-- The call returns the text exactly if nothing comes behind the piece with the line end, and
the counts are right. -/
theorem Arrival.received_iff (h : Arrival w before suffix body after) (stale : ℕ → UInt8) :
    (∃ calls, kudosjudgeReceive calls stale
        ((before ++ (suffix ++ newline :: body) :: after).map .bytes) = .ok w) ↔
      after = [] ∧
        sizeExpected (suffix ++ newline :: body ++ [0]) ≤
          (before.flatten.length + (suffix ++ newline :: body).length : ℕ) ∧
        ((before.flatten.length + (suffix ++ newline :: body).length : ℕ) : ℤ) ≤
          sizeExpected (suffix ++ newline :: body ++ [0]) + 9 := by
  obtain ⟨hline, hzero, hbody⟩ := h.clean
  have hpiece : 0 ∉ suffix ++ newline :: body := by
    simp only [List.mem_append, List.mem_cons, not_or]
    exact ⟨hzero, by decide, hbody⟩
  have hlength := (h.sizes (suffix ++ newline :: body) (by simp)).2
  have hstart : ((List.range initBufferSize).map stale).length = initBufferSize := by
    rw [List.length_map, List.length_range]
  have hheader := fun calls => headerLoop_pieces (b := suffix ++ newline :: body) calls 0
    (after.map .bytes) hstart h.header hlength hpiece (by simp)
  have hscript : (before ++ (suffix ++ newline :: body) :: after).map RecvResult.bytes =
      before.map .bytes ++ .bytes (suffix ++ newline :: body) :: after.map .bytes := by
    rw [List.map_append, List.map_cons]
  rw [hscript]
  constructor
  · rintro ⟨calls, hcall⟩
    obtain ⟨⟨initBuffer, acc, script⟩, hok, hrest⟩ := bind_eq_ok hcall
    rcases hheader calls with ⟨-, hwaiting⟩ | ⟨tail, -, hpieces⟩
    · rw [hwaiting] at hok
      cases hok
    · rw [hpieces] at hok
      cases hok
      have hwhole := receiveRest_text hline hzero hbody (Nat.le_add_left _ _) hrest
      have hnone : after.flatten = [] := by
        have htext := h.text
        rw [hwhole] at htext
        exact List.append_right_eq_self.mp htext
      have hafter : after = [] := eq_nil_of_flatten hnone fun p hp => (h.sizes p (by simp [hp])).1
      subst hafter
      have hfits := receiveRest_fits hrest
      rw [sizeExpected_terminated hpiece, Nat.zero_add] at hfits
      exact ⟨rfl, hfits⟩
  · rintro ⟨rfl, hdone, hfits⟩
    have hwhole : body = w := by
      have htext := h.text
      rwa [List.flatten_nil, List.append_nil] at htext
    refine ⟨before.length + 1, ?_⟩
    rcases hheader (before.length + 1) with ⟨hfew, -⟩ | ⟨tail, hsize, hpieces⟩
    · omega
    · rw [kudosjudgeReceive, hpieces]
      change receiveRest _ _ _ _ [] = _
      rw [← sizeExpected_terminated hpiece tail] at hdone hfits
      rw [receiveRest_whole before.length stale hline hzero hbody (by omega) _
        (by rwa [Nat.zero_add]) (by rwa [Nat.zero_add]), hwhole]
      have hshort := h.short
      have hdigits := congrArg List.length h.digits
      have hfew := decimal_length_short h.short
      rw [List.length_append] at hdigits
      rw [hsize, initBufferSize, List.length_append, List.length_cons, hwhole]
      omega

def number (w : List UInt8) : ℤ := (atoi (w ++ [0])).getD 0

theorem number_bounds (w : List UInt8) : -2^31 ≤ number w ∧ number w < 2^31 := by
  unfold number
  cases hread : atoi (w ++ [0]) with
  | none => exact ⟨by decide, by decide⟩
  | some v => exact atoi_bounds hread

theorem sizeExpected_line {line body : List UInt8} (hline : newline ∉ line) (hzero : 0 ∉ line)
    (hbody : 0 ∉ body) :
    sizeExpected (line ++ newline :: body ++ [0]) =
      toInt32 (line.length + 1 + (atoi (line ++ newline :: body ++ [0])).getD 0) := by
  have hclean : 0 ∉ line ++ newline :: body := by
    simp only [List.mem_append, List.mem_cons, not_or]
    exact ⟨hzero, by decide, hbody⟩
  rw [sizeExpected, cstr_append hclean, List.idxOf_append_of_notMem hline, List.idxOf_cons_self,
    Nat.add_zero]

theorem Arrival.size_of_cut (h : Arrival w before [] body after) :
    sizeExpected ([] ++ newline :: body ++ [0]) = toInt32 (1 + number body) := by
  rw [sizeExpected_line List.not_mem_nil List.not_mem_nil h.clean.2.2]
  rfl

theorem digitsValue_singleton {d : ℕ} (h : d < 10) : digitsValue [UInt8.ofNat (48 + d)] = d := by
  have hdigit := (digit_byte h).2
  simp only [digitsValue, List.foldl_cons, List.foldl_nil, hdigit]
  omega

theorem Arrival.size_of_digits (h : Arrival w before suffix body after) (hne : suffix ≠ [])
    (hvalue : digitsValue suffix < 50) :
    sizeExpected (suffix ++ newline :: body ++ [0]) =
      suffix.length + 1 + digitsValue suffix := by
  have hlength := congrArg List.length h.digits
  have hfew := decimal_length_short h.short
  rw [List.length_append] at hlength
  obtain ⟨hline, hzero, hbody⟩ := h.clean
  rw [sizeExpected_line hline hzero hbody, List.append_assoc, List.cons_append,
    atoi_digits hne h.suffix_digits (by omega) (by decide), Option.getD_some,
    toInt32_of_small (by omega) (by omega)]

theorem Arrival.value_of_split (h : Arrival w before suffix body after) (hbefore : before ≠ [])
    (hne : suffix ≠ []) :
    before.flatten.length = 1 ∧ suffix.length = 1 ∧ 10 + digitsValue suffix ≤ w.length := by
  have hfront : before.flatten ≠ [] := by
    intro hnil
    exact hbefore (eq_nil_of_flatten hnil fun p hp => (h.sizes p (by simp [hp])).1)
  have hdigits := h.digits
  have hshort := h.short
  by_cases hsmall : w.length < 10
  · rw [decimal_of_lt hsmall, List.append_eq_singleton_iff] at hdigits
    rcases hdigits with ⟨hnil, -⟩ | ⟨-, hnil⟩
    · exact absurd hnil hfront
    · exact absurd hnil hne
  · rw [decimal_of_le (by omega), decimal_of_lt (by omega)] at hdigits
    have hlength := congrArg List.length hdigits
    have hone : before.flatten.length = 1 ∧ suffix.length = 1 := by
      have hpos := List.length_pos_iff.mpr hfront
      have hpos' := List.length_pos_iff.mpr hne
      simp only [List.length_append, List.length_singleton] at hlength
      omega
    obtain ⟨-, rfl⟩ := List.append_inj hdigits hone.1
    have hvalue : digitsValue [UInt8.ofNat (48 + w.length % 10)] = w.length % 10 :=
      digitsValue_singleton (by omega)
    exact ⟨hone.1, hone.2, by omega⟩

theorem Arrival.counts_iff (h : Arrival w before suffix body []) :
    (sizeExpected (suffix ++ newline :: body ++ [0]) ≤
        (before.flatten.length + (suffix ++ newline :: body).length : ℕ) ∧
      ((before.flatten.length + (suffix ++ newline :: body).length : ℕ) : ℤ) ≤
        sizeExpected (suffix ++ newline :: body ++ [0]) + 9) ↔
      before = [] ∨ (suffix = [] ∧
        number w ≤ w.length + (decimal w.length).length ∧
        w.length + (decimal w.length).length ≤ number w + 9) := by
  have hwhole : body = w := by
    have htext := h.text
    rwa [List.flatten_nil, List.append_nil] at htext
  have hshort := h.short
  have hfew := decimal_length_short h.short
  rw [List.length_append, List.length_cons, hwhole]
  by_cases hbefore : before = []
  · subst hbefore
    have hdigits : suffix = decimal w.length := h.digits
    obtain ⟨hne, -, hvalue⟩ := decimal_spec w.length
    rw [← hdigits] at hne hvalue
    rw [← hwhole, h.size_of_digits hne (by omega), hvalue, hwhole]
    simp only [List.flatten_nil, List.length_nil, true_or, iff_true]
    omega
  · simp only [hbefore, false_or]
    by_cases hsuffix : suffix = []
    · subst hsuffix
      have hdigits := congrArg List.length h.digits
      rw [List.append_nil] at hdigits
      have hsize := h.size_of_cut
      rw [hwhole] at hsize
      rw [hsize, hdigits]
      simp only [List.length_nil, true_and]
      have hbounds := number_bounds w
      by_cases hlargest : number w = 2^31 - 1
      · have hwraps : toInt32 (1 + (2^31 - 1)) = -2^31 := by decide
        rw [hlargest, hwraps]
        omega
      · rw [toInt32_of_small (by omega) (by omega)]
        omega
    · obtain ⟨hone, hlast, hvalue⟩ := h.value_of_split hbefore hsuffix
      rw [← hwhole, h.size_of_digits hsuffix (by omega), hone, hlast]
      simp only [hsuffix, false_and, iff_false]
      rw [hwhole]
      omega

theorem Arrival.whole_iff (h : Arrival w before suffix body after) :
    before ++ (suffix ++ newline :: body) :: after = [frame w] ↔ after = [] ∧ before = [] := by
  constructor
  · intro heq
    have hlength := congrArg List.length heq
    simp only [List.length_append, List.length_cons, List.length_nil] at hlength
    exact ⟨List.length_eq_zero_iff.mp (by omega), List.length_eq_zero_iff.mp (by omega)⟩
  · rintro ⟨rfl, rfl⟩
    have hdigits : suffix = decimal w.length := h.digits
    have htext := h.text
    rw [List.flatten_nil, List.append_nil] at htext
    rw [hdigits, htext]
    rfl

theorem Arrival.last_iff (h : Arrival w before suffix body after) :
    (before ++ (suffix ++ newline :: body) :: after).getLast? = some (newline :: w) ↔
      after = [] ∧ suffix = [] := by
  constructor
  · intro hlast
    cases after with
    | nil =>
      rw [List.getLast?_concat, Option.some.injEq] at hlast
      cases suffix with
      | nil => exact ⟨rfl, rfl⟩
      | cons c suffix =>
        have hc : c = newline := (List.cons.inj hlast).1
        exact absurd (hc ▸ List.mem_cons_self) h.clean.1
    | cons p after =>
      -- The last piece would bring a second line end.
      rw [List.getLast?_append_cons, List.getLast?_cons_cons] at hlast
      have hin := List.mem_of_getLast? hlast
      refine absurd ?_ h.line
      rw [← h.text]
      exact List.mem_append_right _ (List.mem_flatten_of_mem hin List.mem_cons_self)
  · rintro ⟨rfl, rfl⟩
    have htext := h.text
    rw [List.flatten_nil, List.append_nil] at htext
    rw [List.getLast?_concat, htext]
    rfl

end

/-- The text survives exactly if the frame comes in one piece, or if the header was cut in front of
its line end, the rest comes in one piece, and the number that `atoi` then finds in the text itself
is near enough to the length of the frame. -/
theorem receive_verdict_iff (w : List UInt8) (sends : List SendResult) (stale : ℕ → UInt8)
    (pieces : List (List UInt8)) (hzero : 0 ∉ w) (hline : newline ∉ w) (hshort : w.length < 50)
    (hsends : Accepting sends) (hsizes : ∀ p ∈ pieces, 1 ≤ p.length ∧ p.length ≤ 99)
    (hpieces : pieces.flatten = sendLoop (frame w) sends) :
    (∃ calls, kudosjudgeReceive calls stale (pieces.map .bytes) = .ok w) ↔
      pieces = [frame w] ∨ (pieces.getLast? = some (newline :: w) ∧
        number w ≤ w.length + (decimal w.length).length ∧
        w.length + (decimal w.length).length ≤ number w + 9) := by
  have hfew := decimal_length_short hshort
  have hlength := frame_length w
  rw [sendLoop_whole hsends.1 (by have := hsends.2; omega)] at hpieces
  obtain ⟨before, suffix, body, after, rfl, hdigits, htext⟩ := exists_piece hpieces
  have h : Arrival w before suffix body after :=
    ⟨hdigits, htext, hsizes, hzero, hline, hshort⟩
  rw [h.received_iff, h.whole_iff, h.last_iff, and_assoc, ← and_or_left]
  refine and_congr_right ?_
  rintro rfl
  exact h.counts_iff

theorem receive_verdict_iff_accepted :
    ∃ calls, kudosjudgeReceive calls (fun _ => 7) ([ascii "8", ascii "\nACCEPTED"].map .bytes) =
      .ok (ascii "ACCEPTED") :=
  (receive_verdict_iff (ascii "ACCEPTED") (List.replicate 100 (.sent 1)) (fun _ => 7)
    [ascii "8", ascii "\nACCEPTED"] (by decide) (by decide) (by decide) accepting_bytewise
    (by decide) (by decide)).mpr (.inr ⟨by decide, by decide, by decide⟩)

theorem verdict_torn :
    sendLoop (frame (ascii "WRONG ANSWER")) (List.replicate 100 (.sent 1)) =
        ascii "12\nWRONG" ++ ascii " ANSWER" ∧
      kudosjudgeReceive 2 (fun _ => 7) ([ascii "12\nWRONG", ascii " ANSWER"].map .bytes) =
        .ok (ascii "WRONG") ∧
      (¬ ∃ calls, kudosjudgeReceive calls (fun _ => 7)
        ([ascii "12\nWRONG", ascii " ANSWER"].map .bytes) = .ok (ascii "WRONG ANSWER")) ∧
      kudosjudgeReceive 3 (fun _ => 7) ([ascii "1", ascii "2\nWRONG ANSWER"].map .bytes) =
        .error .fault := by
  have harrival : Arrival (ascii "WRONG ANSWER") [] (ascii "12") (ascii "WRONG")
      [ascii " ANSWER"] :=
    ⟨by decide, by decide, by decide, by decide, by decide, by decide⟩
  refine ⟨by decide, rfl, ?_, rfl⟩
  intro hreceived
  have hlast := ((harrival.received_iff fun _ => 7).mp hreceived).1
  cases hlast

end KudosJudge.ClientReceive
