import KudosJudge.InterfaceDecode
import KudosJudge.InterfaceReceive

set_option autoImplicit false

/-!
`kudosdjudge_forge_dd` of `client.c` and what the daemon's decoder makes of it.
Payloads are arbitrary NUL-free bytes: they may hold newlines and text that
looks like further header lines.
-/
namespace KudosJudge.ClientForge
open CText InterfaceDecode InterfaceReceive

def sourceSize : ℕ := 1000
def outputSize : ℕ := 4000
def blockSize : ℕ := 10000

/-- `while(!feof(f))`: a short block is the last one. Each block is appended
with `strcat`. The terminator that a full block gets one past `block_buffer` is left out. -/
def readBlocks : ℕ → List UInt8 → List UInt8
  | 0, _ => []
  | fuel+1, content =>
    let block := content.take blockSize
    if block.length < blockSize then cstr block
    else cstr block ++ readBlocks fuel (content.drop blockSize)

def readFile (content : List UInt8) : List UInt8 := readBlocks (content.length+1) content

def forgeBody (source input output : List UInt8) : List UInt8 :=
  decimal 0 ++ newline :: (decimal 0 ++ newline :: (decimal input.length ++ newline :: (input ++
    newline :: (decimal 0 ++ newline :: (decimal output.length ++ newline :: (output ++
      newline :: (decimal source.length ++ newline :: source)))))))

/-- `kudosdjudge_forge_dd` on the contents of the three files. There is no
request when a text would not fit its array with its terminator. -/
def kudosdjudgeForgeDd (sourceFile inputFile outputFile : List UInt8) : Option (List UInt8) :=
  let source := readFile sourceFile
  let input := readFile inputFile
  let output := readFile outputFile
  let room := source.length + input.length + output.length + 400
  let body := forgeBody source input output
  let request := frame body
  if source.length < sourceSize ∧ output.length < outputSize ∧
      body.length < room ∧ request.length < room then some request
  else none

theorem readBlocks_clean {fuel : ℕ} {content : List UInt8} (hclean : 0 ∉ content)
    (hfuel : content.length < fuel) : readBlocks fuel content = content := by
  induction fuel generalizing content with
  | zero => omega
  | succ fuel ih =>
    have hblock : cstr (content.take blockSize) = content.take blockSize :=
      cstr_of_clean fun h => hclean (List.mem_of_mem_take h)
    simp only [readBlocks, hblock]
    split_ifs with hshort
    · rw [List.length_take] at hshort
      exact List.take_of_length_le (by omega)
    · rw [ih (fun h => hclean (List.mem_of_mem_drop h)), List.take_append_drop]
      rw [List.length_take] at hshort
      rw [List.length_drop]
      unfold blockSize at hshort ⊢
      omega

theorem readFile_clean {content : List UInt8} (hclean : 0 ∉ content) : readFile content = content :=
  readBlocks_clean hclean (Nat.lt_succ_self _)

theorem strlen_ge {p rest : Memory} (hp : 0 ∉ p) (hrest : 0 ∈ rest) :
    ∃ len, strlen (p ++ rest) = some len ∧ p.length ≤ len := by
  refine ⟨_, by rw [strlen, if_pos (List.mem_append_right _ hrest)], ?_⟩
  rw [cstr, List.takeWhile_append_of_pos, List.length_append]
  · exact Nat.le_add_right ..
  · intro a ha
    simpa using fun e : a = 0 => hp (e ▸ ha)

theorem parsePayload_written {p rest : Memory} (hp : 0 ∉ p) (hrest : 0 ∈ rest)
    (hlen : p.length < 2^31) :
    parsePayload (decimal p.length ++ newline :: (p ++ rest)) = .ok (p, rest) := by
  obtain ⟨len, hstr, hle⟩ := strlen_ge hp hrest
  have hsize : toSizeT p.length = p.length := by
    unfold toSizeT
    omega
  simp only [parsePayload, atoi_decimal hlen (c := newline) (by decide),
    skipLine_line (newline_not_mem_decimal _), Parse.read_some, Parse.ok_bind, hstr, hsize,
    if_neg (show ¬ len < p.length by omega), Int.toNat_natCast, List.take_left, List.drop_left,
    Parse.pure_eq]

theorem parseFeed_written {p rest : Memory} (hp : 0 ∉ p) (hrest : 0 ∈ rest)
    (hlen : p.length < 2^31) :
    parseFeed (decimal 0 ++ newline :: (decimal p.length ++ newline :: (p ++ rest))) =
      .ok (⟨feedtypeData, some p, none⟩, rest) := by
  simp only [parseFeed, atoi_decimal (n := 0) (by decide) (c := newline) (by decide),
    skipLine_line (newline_not_mem_decimal _), Parse.read_some, Parse.ok_bind, Nat.cast_zero,
    parsePayload_written hp hrest hlen, Parse.pure_eq]
  rfl

theorem jugIntDecode_forgeBody {source input output : List UInt8} (hs : 0 ∉ source)
    (hi : 0 ∉ input) (ho : 0 ∉ output) (hls : source.length < 2^31) (hli : input.length < 2^31)
    (hlo : output.length < 2^31) (heap : Memory) :
    jugIntDecode (forgeBody source input output ++ 0 :: heap) =
      .ok ⟨reqTypeJudge, ⟨feedtypeData, some input, none⟩, ⟨feedtypeData, some output, none⟩,
        some source⟩ := by
  have htail : parseTail reqTypeJudge
      (decimal source.length ++ newline :: (source ++ 0 :: heap)) = .ok (some source) := by
    rw [parseTail, if_pos rfl, parsePayload_written hs List.mem_cons_self hls]
    rfl
  have hsource : 0 ∈ newline :: (decimal source.length ++ newline :: (source ++ 0 :: heap)) := by
    simp
  have houtput : 0 ∈ newline :: (decimal 0 ++ newline :: (decimal output.length ++
      newline :: (output ++ newline :: (decimal source.length ++
        newline :: (source ++ 0 :: heap))))) := by
    simp
  simp only [jugIntDecode, decodeParts, forgeBody, List.append_assoc, List.cons_append,
    atoi_decimal (n := 0) (by decide) (c := newline) (by decide),
    skipLine_line (newline_not_mem_decimal _), Parse.read_some, Parse.ok_bind, Nat.cast_zero,
    parseFeed_written hi houtput hli, List.drop_succ_cons, List.drop_zero,
    parseFeed_written ho hsource hlo]
  rw [show (0 : ℤ) = reqTypeJudge from rfl, htail]
  rfl

theorem forgeBody_clean {source input output : List UInt8} (hs : 0 ∉ source) (hi : 0 ∉ input)
    (ho : 0 ∉ output) : 0 ∉ forgeBody source input output := by
  have hn : (0 : UInt8) ≠ newline := by decide
  simp only [forgeBody, List.mem_append, List.mem_cons, zero_not_mem_decimal, hn, hs, hi, ho,
    or_self, not_false_eq_true]

theorem decimal_length_le {n e : ℕ} (he : 0 < e) (hn : n < 10^e) : (decimal n).length ≤ e := by
  rw [decimal, List.length_map]
  exact Nat.toDigits_length 10 n e he hn

theorem forgeBody_length (source input output : List UInt8)
    (hsmall : source.length + input.length + output.length < 10^8) :
    (forgeBody source input output).length + 20 <
      source.length + input.length + output.length + 400 ∧
      source.length + input.length + output.length ≤ (forgeBody source input output).length := by
  have h0 : (decimal 0).length ≤ 8 := decimal_length_le (by decide) (by decide)
  have h1 : (decimal source.length).length ≤ 8 := decimal_length_le (by decide) (by omega)
  have h2 : (decimal input.length).length ≤ 8 := decimal_length_le (by decide) (by omega)
  have h3 : (decimal output.length).length ≤ 8 := decimal_length_le (by decide) (by omega)
  simp only [forgeBody, List.length_append, List.length_cons]
  omega

/-- Client and daemon agree: the request is the frame of a body that the decoder
takes apart into the three files, whatever memory follows the body. -/
theorem kudosdjudgeForgeDd_decoded (source input output : List UInt8) (hs : 0 ∉ source)
    (hi : 0 ∉ input) (ho : 0 ∉ output) (hls : source.length ≤ 999) (hlo : output.length ≤ 3999)
    (hsize : (frame (forgeBody source input output)).length < requestSizeMax) :
    ∃ body, kudosdjudgeForgeDd source input output = some (decimal body.length ++ newline :: body) ∧
      0 ∉ body ∧ ∀ heap, jugIntDecode (body ++ 0 :: heap) =
        .ok ⟨reqTypeJudge, ⟨feedtypeData, some input, none⟩, ⟨feedtypeData, some output, none⟩,
          some source⟩ := by
  have hframe := frame_length (forgeBody source input output)
  have hsum : source.length + input.length + output.length < 30000000 := by
    unfold requestSizeMax at hsize
    have : source.length + input.length + output.length ≤
        (forgeBody source input output).length := by
      simp only [forgeBody, List.length_append, List.length_cons]
      omega
    omega
  obtain ⟨hroom, hle⟩ := forgeBody_length source input output (by omega)
  refine ⟨forgeBody source input output, ?_, forgeBody_clean hs hi ho,
    jugIntDecode_forgeBody hs hi ho (by omega) (by omega) (by omega)⟩
  have hdec : (decimal (forgeBody source input output).length).length ≤ 8 :=
    decimal_length_le (by decide) (by omega)
  simp only [kudosdjudgeForgeDd, readFile_clean hs, readFile_clean hi, readFile_clean ho]
  rw [if_pos]
  · rfl
  · unfold sourceSize outputSize
    omega

theorem kudosdjudgeForgeDd_decoded_header_like :
    ∃ body, kudosdjudgeForgeDd [120] [48, 10, 51] [] = some (decimal body.length ++ newline :: body) ∧
      0 ∉ body ∧ ∀ heap, jugIntDecode (body ++ 0 :: heap) =
        .ok ⟨reqTypeJudge, ⟨feedtypeData, some [48, 10, 51], none⟩, ⟨feedtypeData, some [], none⟩,
          some [120]⟩ :=
  kudosdjudgeForgeDd_decoded [120] [48, 10, 51] [] (by decide) (by decide) (by decide)
    (by decide) (by decide) (by decide)

end KudosJudge.ClientForge
