import KudosJudge.StringBuffer
import Mathlib.Data.List.Basic

set_option autoImplicit false

/-!
`jug_int_receive` of `interface.c` on a script of `recv` results. The frame on
the wire is the decimal length of the body, a newline and the body.
-/
namespace KudosJudge.InterfaceReceive
open CText StringBuffer

def requestSizeMax : ℕ := 30000000

/-- One `recv`: the bytes it returned (none when the peer has closed) or a failure. -/
inductive RecvResult where
  | bytes (b : List UInt8)
  | error
deriving DecidableEq, Repr

/-- A call that is still in `recv` when the script ends is `waiting`. -/
inductive Received where
  | null
  | buffer (b : Buffer)
  | waiting
deriving DecidableEq

structure ReceiveState where
  requestBuffer : Buffer
  readSizeAcc : ℕ
  metadataRead : Bool
  requestSize : ℤ
  bodyStartIndex : ℤ

def receiveStart : ReceiveState := ⟨bufferNew, 0, false, 0, 0⟩

def bufferAtoi (b : Buffer) : ℤ := (atoi (b.str ++ [0])).getD 0

/-- `!metadata_read && (body_start_index=buffer_indexof(...))>0` and its body;
the index is assigned in every turn before the header is complete. -/
def readMetadata (s : ReceiveState) : ReceiveState :=
  if s.metadataRead then s
  else
    let index := bufferIndexofNewline s.requestBuffer
    if index > 0 then
      { s with
        bodyStartIndex := index
        metadataRead := true
        requestSize := toInt32 (index + 1 + bufferAtoi s.requestBuffer) }
    else { s with bodyStartIndex := index }

def receiveTurn (s : ReceiveState) (chunk : List UInt8) : ReceiveState :=
  readMetadata { s with
    requestBuffer := bufferAppendN s.requestBuffer chunk chunk.length
    readSizeAcc := s.readSizeAcc + chunk.length }

def receiveDone (s : ReceiveState) (chunk : List UInt8) : Bool :=
  chunk.length = 0 ∨ (s.metadataRead ∧ (s.readSizeAcc : ℤ) ≥ s.requestSize)

/-- The slice behind the header, up to `buffer_size(request_buffer)-1`. -/
def receiveBody (s : ReceiveState) : Received :=
  match bufferSlice s.requestBuffer (toSizeT (s.bodyStartIndex + 1))
      ((s.requestBuffer.len : ℤ) - 1) with
  | none => .null
  | some b => .buffer b

def receiveLoop (s : ReceiveState) : List RecvResult → Received
  | [] => .waiting
  | .error :: _ => .null
  | .bytes chunk :: script =>
    if s.readSizeAcc + chunk.length ≥ requestSizeMax then .null
    else
      let s := receiveTurn s chunk
      if receiveDone s chunk then receiveBody s else receiveLoop s script

def jugIntReceive (script : List RecvResult) : Received := receiveLoop receiveStart script

def frame (body : List UInt8) : List UInt8 := decimal body.length ++ newline :: body

theorem frame_clean {body : List UInt8} (h : 0 ∉ body) : 0 ∉ frame body := by
  simp only [frame, List.mem_append, List.mem_cons, not_or]
  exact ⟨zero_not_mem_decimal _, by decide, h⟩

theorem frame_length (body : List UInt8) :
    (frame body).length = (decimal body.length).length + 1 + body.length := by
  simp only [frame, List.length_append, List.length_cons]
  omega

structure Reading (body p : List UInt8) (s : ReceiveState) : Prop where
  str : s.requestBuffer.str = p
  grown : Grown s.requestBuffer
  acc : s.readSizeAcc = p.length
  header : s.metadataRead = true ↔ newline ∈ p
  index : newline ∈ p → s.bodyStartIndex = (decimal body.length).length
  size : newline ∈ p → s.requestSize = (frame body).length

theorem receiveStart_reading (body : List UInt8) : Reading body [] receiveStart :=
  ⟨rfl, bufferNew_grown, rfl, by simp [receiveStart], by simp, by simp⟩

theorem frame_prefix_header {body p : List UInt8} (hp : p <+: frame body) (hn : newline ∈ p) :
    ∃ q, p = decimal body.length ++ newline :: q := by
  have hh : decimal body.length ++ [newline] <+: frame body := ⟨body, by simp [frame]⟩
  rcases List.prefix_or_prefix_of_prefix hh hp with ⟨q, hq⟩ | h
  · exact ⟨q, by rw [← hq]; simp⟩
  · rcases List.prefix_concat_iff.mp h with h | h
    · exact ⟨[], h⟩
    · exact absurd (h.subset hn) (newline_not_mem_decimal _)

theorem idxOf_header (n : ℕ) (q : List UInt8) :
    (decimal n ++ newline :: q).idxOf newline = (decimal n).length := by
  rw [List.idxOf_append_of_notMem (newline_not_mem_decimal n), List.idxOf_cons_self, Nat.add_zero]

theorem bufferAtoi_header {b : Buffer} {n : ℕ} {q : List UInt8} (hn : n < 2^31)
    (h : b.str = decimal n ++ newline :: q) : bufferAtoi b = n := by
  rw [bufferAtoi, h, List.append_assoc, List.cons_append, atoi_decimal hn (by decide)]
  rfl

theorem readMetadata_reading {body p : List UInt8} {s : ReceiveState}
    (hsize : (frame body).length < requestSizeMax) (hp : p <+: frame body)
    (hstr : s.requestBuffer.str = p) (hgrown : Grown s.requestBuffer)
    (hacc : s.readSizeAcc = p.length)
    (hold : s.metadataRead = true → newline ∈ p ∧
      s.bodyStartIndex = (decimal body.length).length ∧ s.requestSize = (frame body).length) :
    Reading body p (readMetadata s) := by
  unfold readMetadata
  by_cases hm : s.metadataRead = true
  · obtain ⟨hn, hi, hs⟩ := hold hm
    rw [if_pos hm]
    exact ⟨hstr, hgrown, hacc, iff_of_true hm hn, fun _ => hi, fun _ => hs⟩
  rw [if_neg hm]
  by_cases hn : newline ∈ p
  · obtain ⟨q, hq⟩ := frame_prefix_header hp hn
    have hlen := frame_length body
    have hindex : bufferIndexofNewline s.requestBuffer = (decimal body.length).length := by
      rw [bufferIndexofNewline, hstr, if_pos hn, hq, idxOf_header]
    have hpos : 0 < (decimal body.length).length :=
      List.length_pos_iff.mpr (decimal_spec body.length).1
    have hatoi : bufferAtoi s.requestBuffer = body.length :=
      bufferAtoi_header (by unfold requestSizeMax at hsize; omega) (hstr.trans hq)
    simp only [hindex, if_pos (show ((decimal body.length).length : ℤ) > 0 by omega)]
    refine ⟨hstr, hgrown, hacc, iff_of_true rfl hn, fun _ => rfl, fun _ => ?_⟩
    simp only [hatoi]
    unfold requestSizeMax at hsize
    rw [toInt32_of_small] <;> omega
  · have hindex : bufferIndexofNewline s.requestBuffer = -1 := by
      rw [bufferIndexofNewline, hstr, if_neg hn]
    simp only [hindex, if_neg (show ¬ (-1 : ℤ) > 0 by decide)]
    exact ⟨hstr, hgrown, hacc, iff_of_false hm hn, fun h => absurd h hn, fun h => absurd h hn⟩

theorem receiveTurn_reading {body p chunk : List UInt8} {s : ReceiveState} (hbody : 0 ∉ body)
    (hsize : (frame body).length < requestSizeMax) (hp : p ++ chunk <+: frame body)
    (h : Reading body p s) : Reading body (p ++ chunk) (receiveTurn s chunk) := by
  have hclean : 0 ∉ chunk := fun hm =>
    frame_clean hbody (hp.subset (List.mem_append_right _ hm))
  apply readMetadata_reading hsize hp
  · rw [bufferAppendN_str _ hclean, h.str]
  · exact bufferAppendN_grown hclean h.grown
  · rw [h.acc, List.length_append]
  · intro hm
    have hn := h.header.mp hm
    exact ⟨List.mem_append_left _ hn, h.index hn, h.size hn⟩

theorem receiveDone_reading {body p chunk : List UInt8} {s : ReceiveState}
    (hp : p <+: frame body) (hne : chunk ≠ []) (h : Reading body p s) :
    receiveDone s chunk = true ↔ p = frame body := by
  have hlen := hp.length_le
  have hchunk : chunk.length ≠ 0 := fun e => hne (List.length_eq_zero_iff.mp e)
  simp only [receiveDone, decide_eq_true_eq, hchunk, false_or, h.header, h.acc]
  constructor
  · rintro ⟨hn, hge⟩
    rw [h.size hn] at hge
    exact hp.eq_of_length (by omega)
  · intro heq
    have hn : newline ∈ p := by rw [heq]; simp [frame]
    rw [h.size hn, heq]
    exact ⟨by rw [← heq]; exact hn, le_rfl⟩

theorem receiveLoop_reading {body p : List UInt8} {fragments : List (List UInt8)} {s : ReceiveState}
    (hbody : 0 ∉ body) (hsize : (frame body).length < requestSizeMax)
    (hne : ∀ f ∈ fragments, f ≠ []) (hstream : p ++ fragments.flatten = frame body)
    (hrest : p ≠ frame body) (h : Reading body p s) :
    ∃ s', Reading body (frame body) s' ∧
      receiveLoop s (fragments.map .bytes) = receiveBody s' := by
  induction fragments generalizing p s with
  | nil => simp [hrest] at hstream
  | cons f fragments ih =>
    rw [List.flatten_cons, ← List.append_assoc] at hstream
    have hp : p ++ f <+: frame body := ⟨_, hstream⟩
    have hturn := receiveTurn_reading hbody hsize hp h
    have hdone := receiveDone_reading hp (hne f List.mem_cons_self) hturn
    have hroom : ¬ s.readSizeAcc + f.length ≥ requestSizeMax := by
      have := hp.length_le
      rw [List.length_append] at this
      rw [h.acc]
      omega
    simp only [List.map_cons, receiveLoop, if_neg hroom]
    by_cases hall : p ++ f = frame body
    · rw [if_pos (hdone.mpr hall)]
      exact ⟨_, hall ▸ hturn, rfl⟩
    · rw [if_neg (fun hd => hall (hdone.mp hd))]
      exact ih (fun f hf => hne f (List.mem_cons_of_mem _ hf)) hstream hall hturn

theorem receiveBody_reading {body : List UInt8} {s : ReceiveState} (hne : body ≠ [])
    (hsize : (frame body).length < requestSizeMax) (h : Reading body (frame body) s) :
    ∃ b, receiveBody s = .buffer b ∧
      b.str = if (frame body).length % 1024 = 0 then body.dropLast else body := by
  have hn : newline ∈ frame body := by simp [frame]
  have hpos := List.length_pos_iff.mpr hne
  have hlen := frame_length body
  have hfits := s.requestBuffer.fits
  have hfull := h.grown.full_iff (by rw [h.str]; simp [frame])
  rw [h.str] at hfits hfull
  have hcap : s.requestBuffer.len < 2^63 := by
    have := h.grown
    unfold Grown nearestMultipleOf bufferDefaultSize at this
    rw [h.str] at this
    unfold requestSizeMax at hsize
    omega
  have hstart : toSizeT (s.bodyStartIndex + 1) = (decimal body.length).length + 1 := by
    rw [h.index hn, toSizeT]
    unfold requestSizeMax at hsize
    omega
  obtain ⟨b, hb, hstr⟩ := bufferSlice_to_capacity (b := s.requestBuffer)
    ((decimal body.length).length + 1) (by rw [h.str]; omega) hcap
  refine ⟨b, by rw [receiveBody, hstart, hb], ?_⟩
  have hdrop : (frame body).drop ((decimal body.length).length + 1) = body := by
    rw [frame, List.drop_append, List.drop_of_length_le (by omega)]
    simp
  rw [hstr, h.str, hdrop]
  split_ifs with hmod
  · rw [← hfull] at hmod
    rw [List.dropLast_eq_take]
    congr 1
    omega
  · rw [← hfull] at hmod
    exact List.take_of_length_le (by omega)

theorem jugIntReceive_frame {body : List UInt8} {fragments : List (List UInt8)}
    (hbody : 0 ∉ body) (hpos : body ≠ []) (hsize : (frame body).length < requestSizeMax)
    (hne : ∀ f ∈ fragments, f ≠ []) (hstream : fragments.flatten = frame body) :
    ∃ b, jugIntReceive (fragments.map .bytes) = .buffer b ∧
      b.str = if (frame body).length % 1024 = 0 then body.dropLast else body := by
  obtain ⟨s', hread, heq⟩ := receiveLoop_reading (p := []) hbody hsize hne hstream
    (by simp [frame]) (receiveStart_reading body)
  rw [jugIntReceive, heq]
  exact receiveBody_reading hpos hsize hread

theorem jugIntReceive_full {body : List UInt8} {fragments : List (List UInt8)}
    (hbody : 0 ∉ body) (hpos : body ≠ []) (hsize : (frame body).length < requestSizeMax)
    (hne : ∀ f ∈ fragments, f ≠ []) (hstream : fragments.flatten = frame body)
    (hmod : (frame body).length % 1024 = 0) :
    ¬ ∃ b, jugIntReceive (fragments.map .bytes) = .buffer b ∧ b.str = body := by
  obtain ⟨b, hb, hstr⟩ := jugIntReceive_frame hbody hpos hsize hne hstream
  rintro ⟨b', hb', hstr'⟩
  rw [hb] at hb'
  injection hb' with heq
  rw [← heq, hstr, if_pos hmod] at hstr'
  have hlen := congrArg List.length hstr'
  have := List.length_pos_iff.mpr hpos
  rw [List.length_dropLast] at hlen
  omega

/-- The framing is undone exactly when the frame does not fill the buffer: the
slice ends at the capacity minus one, and the capacity is the length of the
frame when that length is a multiple of 1024. -/
theorem jugIntReceive_exact_iff (body : List UInt8) (fragments : List (List UInt8))
    (hbody : 0 ∉ body) (hpos : 1 ≤ body.length) (hsize : (frame body).length < requestSizeMax)
    (hne : ∀ f ∈ fragments, f ≠ []) (hstream : fragments.flatten = frame body) :
    (∃ b, jugIntReceive (fragments.map .bytes) = .buffer b ∧ b.str = body) ↔
      ¬ (frame body).length % 1024 = 0 := by
  have hpos' := List.length_pos_iff.mp hpos
  refine ⟨fun h hmod => jugIntReceive_full hbody hpos' hsize hne hstream hmod h, fun hmod => ?_⟩
  obtain ⟨b, hb, hstr⟩ := jugIntReceive_frame hbody hpos' hsize hne hstream
  exact ⟨b, hb, hstr.trans (if_neg hmod)⟩

theorem jugIntReceive_exact_iff_cut_header :
    (∃ b, jugIntReceive ([[50], [10, 104], [105]].map .bytes) = .buffer b ∧ b.str = [104, 105]) ↔
      ¬ (frame [104, 105]).length % 1024 = 0 :=
  jugIntReceive_exact_iff [104, 105] [[50], [10, 104], [105]] (by decide) (by decide) (by decide)
    (by decide) (by decide)

theorem frame_replicate_length : (frame (List.replicate 1019 97)).length = 1024 := by
  rw [frame_length, List.length_replicate]
  rfl

theorem jugIntReceive_drops_last_byte :
    (frame (List.replicate 1019 97)).length < requestSizeMax ∧
      ¬ ∃ b, jugIntReceive ([frame (List.replicate 1019 97)].map .bytes) = .buffer b ∧
        b.str = List.replicate 1019 97 := by
  have hlen := frame_replicate_length
  have hclean : (0 : UInt8) ∉ List.replicate 1019 97 :=
    fun h => absurd (List.eq_of_mem_replicate h) (by decide)
  have hne : List.replicate 1019 (97 : UInt8) ≠ [] :=
    List.ne_nil_of_length_pos (by rw [List.length_replicate]; decide)
  generalize List.replicate 1019 (97 : UInt8) = body at *
  have hsize : (frame body).length < requestSizeMax := by rw [hlen]; decide
  refine ⟨hsize, jugIntReceive_full hclean hne hsize ?_ ?_ (by rw [hlen])⟩
  · simp [frame]
  · simp

end KudosJudge.InterfaceReceive
