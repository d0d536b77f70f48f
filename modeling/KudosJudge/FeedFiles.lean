import KudosJudge.LangProcess

set_option autoImplicit false

/-!
The names that `jug_feed_new_file` of `feed.c` and `lang_process` of `lang.c` give to the
files of a submission. All of them lie in the one RAM file system; no two workers, and no
two purposes of one worker, share a name, whatever the time of the day.
-/
namespace KudosJudge.FeedFiles
open CText LangProcess WorkerServe

def tagName : FeedTag → List UInt8
  | .input => ascii "input"
  | .output => ascii "output"

def feedWorkspace (root : List UInt8) : List UInt8 := root ++ ascii "/feed-workspace"

def langWorkspace (root : List UInt8) : List UInt8 := root ++ ascii "/lang-workspace"

/-- `sprintf(filename,"%s/%d_%d_%s.data", g_feed_workspace,worker_id, (int)now, tag)` -/
def feedFilename (root : List UInt8) (file : FeedFile) : List UInt8 :=
  feedWorkspace root ++ ascii "/" ++ printInt file.workerId ++ ascii "_" ++ printInt file.now ++
    ascii "_" ++ tagName file.tag ++ ascii ".data"

def textFilename (root ext : List UInt8) (workerId : ℤ) : List UInt8 :=
  submissionPath (langWorkspace root) workerId (ascii "." ++ ext)

def binFilename (root : List UInt8) (workerId : ℤ) : List UInt8 :=
  submissionPath (langWorkspace root) workerId []

def numeral (c : UInt8) : Bool := isDigit c || c == 45

theorem numeral_decimal (n : ℕ) : ∀ c ∈ decimal n, numeral c = true := by
  intro c hc
  rw [numeral, (decimal_spec n).2.1 c hc, Bool.true_or]

theorem numeral_printInt (i : ℤ) : ∀ c ∈ printInt i, numeral c = true := by
  cases i with
  | ofNat n => exact numeral_decimal n
  | negSucc n =>
    intro c hc
    rcases List.mem_cons.mp hc with rfl | hc
    · rfl
    · exact numeral_decimal (n + 1) c hc

theorem decimal_injective {n m : ℕ} (h : decimal n = decimal m) : n = m := by
  have hn := (decimal_spec n).2.2
  rw [h, (decimal_spec m).2.2] at hn
  exact hn.symm

theorem decimal_ne_minus (n m : ℕ) : decimal n ≠ 45 :: decimal m := by
  intro h
  have hdigit := (decimal_spec n).2.1 45 (h ▸ List.mem_cons_self)
  cases hdigit

theorem printInt_injective {i j : ℤ} (h : printInt i = printInt j) : i = j := by
  cases i with
  | ofNat n =>
    cases j with
    | ofNat m => exact congrArg Int.ofNat (decimal_injective h)
    | negSucc m => exact absurd h (decimal_ne_minus n (m + 1))
  | negSucc n =>
    cases j with
    | ofNat m => exact absurd h.symm (decimal_ne_minus m (n + 1))
    | negSucc m =>
      have hsucc : n + 1 = m + 1 := decimal_injective (List.cons.inj h).2
      rw [Nat.succ.inj hsucc]

/-- A number ends where its name goes on with another character. -/
theorem printInt_cut {i j : ℤ} {c d : UInt8} {s t : List UInt8} (hc : numeral c = false)
    (hd : numeral d = false) (h : printInt i ++ c :: s = printInt j ++ d :: t) : i = j := by
  have htake : ∀ {k : ℤ} {e : UInt8} {u : List UInt8}, numeral e = false →
      (printInt k ++ e :: u).takeWhile numeral = printInt k := by
    intro k e u he
    rw [List.takeWhile_append_of_pos (numeral_printInt k), List.takeWhile_cons, he]
    exact List.append_nil _
  apply printInt_injective
  rw [← htake hc, h, htake hd]

section

variable (root : List UInt8)

theorem submissionPath_worker {v w : ℤ} {ext ext' : List UInt8}
    (h : submissionPath (langWorkspace root) v ext = submissionPath (langWorkspace root) w ext') :
    v = w := by
  simp only [submissionPath, List.append_assoc] at h
  have hrest := List.append_cancel_left (List.append_cancel_left h)
  exact printInt_cut (by rfl) (by rfl) hrest

theorem feedFilename_worker {file file' : FeedFile}
    (h : feedFilename root file = feedFilename root file') : file.workerId = file'.workerId := by
  simp only [feedFilename, List.append_assoc] at h
  have hrest := List.append_cancel_left (List.append_cancel_left h)
  exact printInt_cut (by rfl) (by rfl) hrest

def tagEnd : FeedTag → List UInt8
  | .input => ascii "input"
  | .output => ascii "utput"

theorem tagName_end (tag : FeedTag) : ∃ front, tagName tag = front ++ tagEnd tag := by
  cases tag with
  | input => exact ⟨[], rfl⟩
  | output => exact ⟨ascii "o", by rfl⟩

theorem tagEnd_injective {tag tag' : FeedTag} (h : tagEnd tag = tagEnd tag') : tag = tag' := by
  revert h
  cases tag <;> cases tag' <;> decide

theorem feedFilename_tag {file file' : FeedFile}
    (h : feedFilename root file = feedFilename root file') : file.tag = file'.tag := by
  obtain ⟨front, hfront⟩ := tagName_end file.tag
  obtain ⟨front', hfront'⟩ := tagName_end file'.tag
  have hends : tagEnd file.tag ++ ascii ".data" = tagEnd file'.tag ++ ascii ".data" := by
    simp only [feedFilename, hfront, hfront', ← List.append_assoc] at h
    simp only [List.append_assoc _ _ (ascii ".data")] at h
    refine List.append_inj_right' h ?_
    cases file.tag <;> cases file'.tag <;> rfl
  exact tagEnd_injective (List.append_cancel_right hends)

theorem workspace_heads : ascii "/feed-workspace" = 47 :: 102 :: ascii "eed-workspace" ∧
    ascii "/lang-workspace" = 47 :: 108 :: ascii "ang-workspace" := ⟨rfl, rfl⟩

theorem feedFilename_ne_submissionPath (file : FeedFile) (w : ℤ) (ext : List UInt8) :
    feedFilename root file ≠ submissionPath (langWorkspace root) w ext := by
  intro h
  simp only [feedFilename, submissionPath, feedWorkspace, langWorkspace, List.append_assoc] at h
  have hrest := List.append_cancel_left h
  rw [workspace_heads.1, workspace_heads.2] at hrest
  have hletter : (102 : UInt8) = 108 := (List.cons.inj (List.cons.inj hrest).2).1
  revert hletter
  decide

theorem textFilename_ne_binFilename (ext : List UInt8) (w : ℤ) :
    textFilename root ext w ≠ binFilename root w := by
  intro h
  simp only [textFilename, binFilename, submissionPath, List.append_assoc] at h
  have hrest := List.append_cancel_left
    (List.append_cancel_left (List.append_cancel_left (List.append_cancel_left h)))
  have hdot : ascii "." = [46] := rfl
  rw [hdot] at hrest
  cases hrest

/-- The names that worker `w` uses. -/
inductive Owns (w : ℤ) : List UInt8 → Prop where
  | feed (now : ℤ) (tag : FeedTag) : Owns w (feedFilename root ⟨w, now, tag⟩)
  | lang (ext : List UInt8) : Owns w (submissionPath (langWorkspace root) w ext)

variable {root}

theorem Owns.unique {v w : ℤ} {path : List UInt8} (hv : Owns root v path) (hw : Owns root w path) :
    v = w := by
  generalize hpath : path = path' at hw
  cases hv with
  | feed now tag =>
    cases hw with
    | feed now' tag' => exact feedFilename_worker root hpath
    | lang ext' => exact absurd hpath (feedFilename_ne_submissionPath root _ w ext')
  | lang ext =>
    cases hw with
    | feed now' tag' => exact absurd hpath.symm (feedFilename_ne_submissionPath root _ v ext)
    | lang ext' => exact submissionPath_worker root hpath

end

end KudosJudge.FeedFiles
