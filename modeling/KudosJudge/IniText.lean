import KudosJudge.IniParser

set_option autoImplicit false

/-!
A file is written down as its lines with their layout: blanks around the words, either
separator, comments, any ends of line, and perhaps a last line without one. `read_ini` gives
the sections of the lines, whatever the memory held before.
-/
namespace KudosJudge.IniText
open CText IniParser
open LangTable (KeyVal strdup)

def Clean (s : List UInt8) : Prop := ∀ c ∈ s, c ≠ 0 ∧ endsLine c = false

structure Blanks where
  text : List UInt8
  clean : Clean text
  blanks : ∀ c ∈ text, blank c = true

/-- A text without blanks around it, which may be empty. -/
structure Word where
  text : List UInt8
  clean : Clean text
  first : ∀ c ∈ text.head?, blank c = false
  last : ∀ c ∈ text.getLast?, blank c = false

structure CommentLine where
  lead : Blanks
  mark : UInt8
  marks : comments mark = true
  rest : List UInt8
  clean : Clean rest

/-- A header. The parser drops the last byte that is not blank, a bracket or not. -/
structure HeaderLine where
  lead : Blanks
  name : List UInt8
  clean : Clean name
  close : UInt8
  closes : close ≠ 0 ∧ endsLine close = false ∧ blank close = false
  trail : Blanks

/-- A key with its value. Blanks count to the line where the word they follow or precede is
empty. -/
structure EntryLine where
  lead : Blanks
  key : Word
  before : Blanks
  separator : UInt8
  after : Blanks
  value : Word
  trail : Blanks
  separates : separates separator = true
  whole : ∀ c ∈ key.text, IniParser.separates c = false
  plain : ∀ c ∈ key.text.head?, comments c = false ∧ c ≠ bracket
  keyless : key.text = [] → before.text = []
  valueless : value.text = [] → after.text = []

inductive Line where
  | comment (line : CommentLine)
  | header (line : HeaderLine)
  | entry (line : EntryLine)

structure Ends where
  text : List UInt8
  ends : ∀ c ∈ text, endsLine c = true
  some : text ≠ []

/-- The lines that are ended, and the one that the file may break off with. -/
structure ConfigFile where
  lead : List UInt8
  empty : ∀ c ∈ lead, endsLine c = true
  lines : List (Line × Ends)
  broken : Option Line

def CommentLine.text (l : CommentLine) : List UInt8 := l.lead.text ++ l.mark :: l.rest

def HeaderLine.text (l : HeaderLine) : List UInt8 :=
  l.lead.text ++ bracket :: (l.name ++ [l.close]) ++ l.trail.text

def EntryLine.text (l : EntryLine) : List UInt8 :=
  l.lead.text ++ (l.key.text ++ l.before.text ++ l.separator :: (l.after.text ++ l.value.text)) ++
    l.trail.text

def Line.text : Line → List UInt8
  | comment l => l.text
  | header l => l.text
  | entry l => l.text

def linesText (lines : List (Line × Ends)) : List UInt8 :=
  lines.flatMap fun l => l.1.text ++ l.2.text

def brokenText (broken : Option Line) : List UInt8 := (broken.map Line.text).getD []

def ConfigFile.text (f : ConfigFile) : List UInt8 :=
  f.lead ++ (linesText f.lines ++ brokenText f.broken)

def EntryLine.keyVal (l : EntryLine) : KeyVal := ⟨strdup l.key.text, strdup l.value.text⟩

structure Part where
  header : Option HeaderLine
  entries : List EntryLine

def Part.section (p : Part) : Section :=
  ⟨p.header.map fun l => strdup l.name, p.entries.map EntryLine.keyVal⟩

def Part.add (p : Part) (l : EntryLine) : Part := { p with entries := p.entries ++ [l] }

def Part.named (p : Part) (l : HeaderLine) : Part := { p with header := some l }

/-- What the last line does to the section before it: a header renames it. -/
def closed (p : Part) : Option Line → Part
  | none | some (.comment _) => p
  | some (.header l) => p.named l
  | some (.entry l) => p.add l

/-- The sections from the one being read on. A first header names it. -/
def partsFrom (broken : Option Line) : Part → List (Line × Ends) → List Part
  | p, [] => [closed p broken]
  | p, (.comment _, _) :: lines => partsFrom broken p lines
  | p, (.entry l, _) :: lines => partsFrom broken (p.add l) lines
  | p, (.header l, _) :: lines =>
    if p.header.isNone then partsFrom broken (p.named l) lines
    else p :: partsFrom broken ⟨some l, []⟩ lines

def ConfigFile.parts (f : ConfigFile) : List Part := partsFrom f.broken ⟨none, []⟩ f.lines

def ConfigFile.sections (f : ConfigFile) : List Section := f.parts.map Part.section

theorem Part.add_section (p : Part) (l : EntryLine) : (p.add l).section
    = { p.section with configs := p.section.configs ++ [l.keyVal] } := by
  simp [Part.add, Part.section]

theorem Part.named_section (p : Part) (l : HeaderLine) :
    (p.named l).section = { p.section with name := some (strdup l.name) } := rfl

theorem byteAt_append (front : Memory) (c : UInt8) (rest : Memory) :
    byteAt (front ++ c :: rest) front.length = some c := by
  rw [byteAt, if_pos (by omega), Int.toNat_natCast,
    List.getElem?_append_right le_rfl, Nat.sub_self]
  rfl

section

variable {stop : UInt8 → Bool} {run : List UInt8} (hrun : ∀ c ∈ run, stop c = false)
include hrun

theorem advance_run (front rest : Memory) (rounds : ℕ) :
    advance stop (front ++ run ++ rest) front.length (run.length + rounds)
      = advance stop (front ++ run ++ rest) (front.length + run.length : ℕ) rounds := by
  induction run generalizing front with
  | nil => simp
  | cons c run ih =>
    have hc : stop c = false := hrun c List.mem_cons_self
    have hnext := ih (fun d hd => hrun d (List.mem_cons_of_mem _ hd)) (front ++ [c])
    have hmemory : front ++ [c] ++ run ++ rest = front ++ (c :: run) ++ rest := by simp
    have hcount : (c :: run).length + rounds = (run.length + rounds) + 1 := by
      rw [List.length_cons]
      omega
    rw [hmemory, List.length_append, List.length_singleton] at hnext
    rw [hcount, advance, List.append_assoc, List.cons_append, byteAt_append, Option.bind_eq_bind,
      Option.bind_some, hc, if_neg (by decide), ← List.cons_append, ← List.append_assoc]
    refine Eq.trans ?_ (hnext.trans ?_)
    · rw [Nat.cast_add, Nat.cast_one]
    · rw [List.length_cons, Nat.add_assoc, Nat.add_comm 1]

theorem advance_stops (front : Memory) {c : UInt8} (hc : stop c = true) (rest : Memory)
    (rounds : ℕ) (hrounds : run.length < rounds) :
    advance stop (front ++ run ++ c :: rest) front.length rounds
      = some ((front.length + run.length : ℕ) : ℤ) := by
  obtain ⟨k, rfl⟩ := Nat.exists_eq_add_of_lt hrounds
  rw [Nat.add_assoc, advance_run hrun, advance, ← List.length_append, byteAt_append,
    Option.bind_eq_bind, Option.bind_some, hc, if_pos rfl]

theorem retreat_stops (front : Memory) {c : UInt8} (hc : stop c = true) (rest : Memory)
    (rounds : ℕ) (hrounds : run.length < rounds) :
    retreat stop (front ++ c :: run ++ rest) (front.length + run.length : ℕ) rounds
      = some (front.length : ℤ) := by
  induction run using List.reverseRecOn generalizing rest rounds with
  | nil =>
    obtain ⟨k, rfl⟩ := Nat.exists_eq_add_of_lt hrounds
    rw [List.length_nil, Nat.zero_add, retreat, List.append_assoc, Nat.add_zero]
    rw [show front ++ (c :: [] ++ rest) = front ++ c :: rest from rfl, byteAt_append,
      Option.bind_eq_bind, Option.bind_some, hc, if_pos rfl]
  | append_singleton run d ih =>
    have hd : stop d = false := hrun d (by simp)
    have hmemory : front ++ c :: (run ++ [d]) ++ rest = front ++ c :: run ++ d :: rest := by simp
    have hindex : (front.length + (run ++ [d]).length : ℕ) = (front ++ c :: run).length := by
      simp only [List.length_append, List.length_cons, List.length_nil]
    have hback : (((front ++ c :: run).length : ℕ) : ℤ) - 1 = (front.length + run.length : ℕ) := by
      rw [List.length_append, List.length_cons]
      omega
    rw [List.length_append, List.length_singleton] at hrounds
    obtain ⟨k, rfl⟩ : ∃ k, rounds = k + 1 := ⟨rounds - 1, by omega⟩
    rw [hmemory, hindex, retreat, byteAt_append, Option.bind_eq_bind, Option.bind_some, hd,
      if_neg (by decide), hback]
    exact ih (fun e he => hrun e (by simp [he])) (d :: rest) k (by omega)

end

/-- `trim` leaves the first and the last byte of a word between blanks. -/
theorem trim_word (front lead word trail rest : Memory) (hlead : ∀ c ∈ lead, blank c = true)
    (htrail : ∀ c ∈ trail, blank c = true) (hfirst : ∀ c ∈ word.head?, blank c = false)
    (hlast : ∀ c ∈ word.getLast?, blank c = false)
    (hempty : word = [] → lead = [] ∧ trail = []) :
    trim (front ++ lead ++ word ++ trail ++ rest) front.length
        (front.length + lead.length + word.length + trail.length : ℕ)
      = some (((front.length + lead.length : ℕ) : ℤ),
          ((front.length + lead.length + word.length : ℕ) : ℤ) - 1) := by
  have hrounds : (((front.length + lead.length + word.length + trail.length : ℕ) : ℤ)
      - front.length).toNat = lead.length + word.length + trail.length := by
    omega
  have hblank : ∀ s : List UInt8, (∀ c ∈ s, blank c = true) → ∀ c ∈ s, (!blank c) = false := by
    intro s hs c hc
    rw [hs c hc]
    rfl
  rw [trim, hrounds]
  cases word with
  | nil =>
    obtain ⟨rfl, rfl⟩ := hempty rfl
    rfl
  | cons c word =>
    have hc : (!blank c) = true := by rw [hfirst c rfl]; rfl
    have hfound := advance_stops (hblank lead hlead) front hc (word ++ trail ++ rest)
      (lead.length + (c :: word).length + trail.length)
      (by rw [List.length_cons]; omega)
    obtain ⟨init, d, hword⟩ : ∃ init d, c :: word = init ++ [d] :=
      ⟨_, _, (List.dropLast_append_getLast (List.cons_ne_nil c word)).symm⟩
    have hd : (!blank d) = true := by
      rw [hlast d (by rw [hword]; simp)]
      rfl
    have hback := retreat_stops (hblank trail htrail) (front ++ lead ++ init) hd rest
      (lead.length + (c :: word).length + trail.length)
      (by rw [List.length_cons]; omega)
    have hmemory : front ++ lead ++ (c :: word) ++ trail ++ rest
        = front ++ lead ++ c :: (word ++ trail ++ rest) := by simp
    have hmemory' : front ++ lead ++ (c :: word) ++ trail ++ rest
        = front ++ lead ++ init ++ d :: trail ++ rest := by
      rw [hword]
      simp
    have hlength : (c :: word).length = init.length + 1 := by
      rw [hword, List.length_append, List.length_singleton]
    rw [← hmemory] at hfound
    rw [← hmemory'] at hback
    have hend : ((front.length + lead.length + (c :: word).length + trail.length : ℕ) : ℤ) - 1
        = ((front ++ lead ++ init).length + trail.length : ℕ) := by
      rw [hlength]
      simp only [List.length_append]
      omega
    have hlastIndex : (((front ++ lead ++ init).length : ℕ) : ℤ)
        = ((front.length + lead.length + (c :: word).length : ℕ) : ℤ) - 1 := by
      rw [hlength]
      simp only [List.length_append]
      omega
    rw [hend, hfound, hback, hlastIndex]
    rfl

theorem room_some (stale : ℕ → UInt8) {pre more : Memory} (hne : pre ++ more ≠ [])
    (hsmall : pre.length < 2^30) :
    ∃ more', room stale (pre ++ more) pre.length = some (pre ++ more') ∧ more' ≠ [] := by
  by_cases hfull : (pre ++ more).length ≤ pre.length
  · have hmore : more = [] := by
      rw [← List.length_eq_zero_iff]
      rw [List.length_append] at hfull
      omega
    subst hmore
    rw [List.append_nil] at hne ⊢
    obtain ⟨block, hblock, hlength⟩ := malloc_of_lt stale (n := 2 * pre.length) (by omega)
    have hpos : 0 < pre.length := List.length_pos_iff.mpr hne
    refine ⟨block.drop pre.length, ?_, fun h => ?_⟩
    · rw [room, if_pos le_rfl, grow, if_pos (by omega), hblock]
      rfl
    · have hdrop := congrArg List.length h
      rw [List.length_drop, hlength, List.length_nil] at hdrop
      omega
  · refine ⟨more, if_neg hfull, fun h => hfull ?_⟩
    rw [h, List.append_nil]

theorem store_next {pre more : Memory} (hmore : more ≠ []) (c : UInt8) :
    store (pre ++ more) pre.length [c] = some (pre ++ c :: more.tail) := by
  cases more with
  | nil => exact absurd rfl hmore
  | cons d more =>
    rw [store_of_fits (by simp), List.take_left, List.length_singleton,
      List.drop_length_add_append, List.append_assoc]
    rfl

/-- The bytes of a line go into `tmp` one behind the other. -/
theorem readLoop_run (stale : ℕ → UInt8) (state : States) {l : List UInt8}
    (hl : ∀ c ∈ l, endsLine c = false) (fin : List UInt8) (pre more : Memory)
    (hne : pre ++ more ≠ []) (hsmall : pre.length + l.length < 2^30) (new : Bool) :
    ∃ more', pre ++ l ++ more' ≠ [] ∧
      readLoop stale state (l ++ fin) (pre ++ more) pre.length new
        = readLoop stale state fin (pre ++ l ++ more') (pre ++ l).length (new || !l.isEmpty) := by
  induction l generalizing pre more new with
  | nil =>
    rw [List.append_nil, List.isEmpty_nil, Bool.not_true, Bool.or_false]
    exact ⟨more, hne, rfl⟩
  | cons c l ih =>
    have hc : endsLine c = false := hl c List.mem_cons_self
    rw [List.length_cons] at hsmall
    obtain ⟨more₁, hroom, hmore₁⟩ := room_some stale hne (by omega)
    obtain ⟨more', hne', hrun⟩ := ih (fun d hd => hl d (List.mem_cons_of_mem _ hd))
      (pre ++ [c]) more₁.tail (by simp)
      (by rw [List.length_append, List.length_singleton]; omega) true
    have hpre : pre ++ [c] ++ l = pre ++ c :: l := by simp
    rw [hpre] at hne' hrun
    refine ⟨more', hne', ?_⟩
    rw [List.cons_append, readLoop, hroom, Option.bind_eq_bind, Option.bind_some, hc,
      if_neg (by decide), store_next hmore₁, Option.bind_some]
    rw [List.append_assoc, List.singleton_append, List.length_append, List.length_singleton] at hrun
    rw [hrun, Bool.true_or, List.isEmpty_cons, Bool.not_false, Bool.or_true]

section

variable (stale : ℕ → UInt8) (state : States) {l : List UInt8}
  (hl : ∀ c ∈ l, endsLine c = false) {tmp : Memory} (hne : tmp ≠ []) (hsmall : l.length < 2^30)
include hl hne hsmall

theorem readLine_ended {c : UInt8} (hc : endsLine c = true) (fin : List UInt8) (hsome : l ≠ []) :
    ∃ junk, readLine stale ⟨l ++ c :: fin, tmp, state⟩
      = some (true, ⟨fin, l ++ 0 :: junk, state⟩) := by
  obtain ⟨more, hne', hrun⟩ := readLoop_run stale state hl (c :: fin) [] tmp hne
    (by rw [List.length_nil]; omega) false
  rw [List.nil_append] at hrun hne'
  obtain ⟨more', hroom, hmore'⟩ := room_some stale hne' (by omega)
  refine ⟨more'.tail, ?_⟩
  have hnew : (false || !l.isEmpty) = true := by
    cases l with
    | nil => exact absurd rfl hsome
    | cons d l => rfl
  rw [List.nil_append, List.length_nil] at hrun
  rw [readLine, hrun, hnew, readLoop, hroom, Option.bind_eq_bind, Option.bind_some, if_pos hc,
    endLine, if_pos rfl, store_next hmore']
  rfl

theorem readLine_broken (hsome : l ≠ []) :
    ∃ junk, readLine stale ⟨l, tmp, state⟩
      = some (true, ⟨[], l ++ 0 :: junk, .endOfFile⟩) := by
  obtain ⟨more, hne', hrun⟩ := readLoop_run stale state hl [] [] tmp hne
    (by rw [List.length_nil]; omega) false
  rw [List.nil_append] at hrun hne'
  obtain ⟨more', hroom, hmore'⟩ := room_some stale hne' (by omega)
  refine ⟨more'.tail, ?_⟩
  have hnew : (false || !l.isEmpty) = true := by
    cases l with
    | nil => exact absurd rfl hsome
    | cons d l => rfl
  rw [List.append_nil, List.nil_append, List.length_nil] at hrun
  rw [readLine, hrun, hnew, readLoop, hroom, Option.bind_eq_bind, Option.bind_some,
    endLine, if_pos rfl, store_next hmore']
  rfl

end

theorem room_zero (stale : ℕ → UInt8) {tmp : Memory} (hne : tmp ≠ []) :
    room stale tmp 0 = some tmp := by
  refine if_neg fun h => hne ?_
  rwa [Nat.le_zero, List.length_eq_zero_iff] at h

theorem readLine_empty (stale : ℕ → UInt8) (state : States) {tmp : Memory} (hne : tmp ≠ [])
    {c : UInt8} (hc : endsLine c = true) (fin : List UInt8) :
    readLine stale ⟨c :: fin, tmp, state⟩ = some (false, ⟨fin, tmp, state⟩) := by
  rw [readLine, readLoop, room_zero stale hne, Option.bind_eq_bind, Option.bind_some, if_pos hc]
  rfl

theorem readLine_eof (stale : ℕ → UInt8) (state : States) {tmp : Memory} (hne : tmp ≠ []) :
    readLine stale ⟨[], tmp, state⟩ = some (false, ⟨[], tmp, .endOfFile⟩) := by
  rw [readLine, readLoop, room_zero stale hne]
  rfl

theorem zero_not_mem_of_clean {s : List UInt8} (h : Clean s) : 0 ∉ s := fun hz => (h 0 hz).1 rfl

theorem strdupAt_append {s : List UInt8} (h : Clean s) (front rest : Memory) :
    strdupAt (front ++ s ++ 0 :: rest) front.length = some (strdup s) := by
  rw [strdupAt, if_pos (by omega), Int.toNat_natCast, List.append_assoc, List.drop_left,
    text_append (zero_not_mem_of_clean h)]
  rfl

theorem storeAt_next (pre : Memory) {more : Memory} (hmore : more ≠ []) (c : UInt8) :
    storeAt (pre ++ more) pre.length [c] = some (pre ++ c :: more.tail) := by
  rw [storeAt, if_pos (by omega), Int.toNat_natCast, store_next hmore]

theorem not_separates_of_blank {c : UInt8} (h : blank c = true) : separates c = false := by
  simp only [blank, decide_eq_true_eq] at h
  obtain rfl | rfl | rfl | rfl := h <;> rfl

theorem not_blank_of_separates {c : UInt8} (h : separates c = true) : blank c = false := by
  simp only [separates, decide_eq_true_eq] at h
  obtain rfl | rfl := h <;> rfl

theorem not_blank_of_comments {c : UInt8} (h : comments c = true) : blank c = false := by
  simp only [comments, decide_eq_true_eq] at h
  obtain rfl | rfl := h <;> rfl

theorem not_comments_of_separates {c : UInt8} (h : separates c = true) :
    comments c = false ∧ c ≠ bracket := by
  simp only [separates, decide_eq_true_eq] at h
  obtain rfl | rfl := h <;> exact ⟨rfl, by decide⟩

def EntryLine.core (l : EntryLine) : List UInt8 :=
  l.key.text ++ l.before.text ++ l.separator :: (l.after.text ++ l.value.text)

theorem EntryLine.text_eq (l : EntryLine) : l.text = l.lead.text ++ l.core ++ l.trail.text := rfl

theorem EntryLine.core_head (l : EntryLine) : ∃ c rest, l.core = c :: rest ∧ blank c = false ∧
    comments c = false ∧ c ≠ bracket := by
  cases hkey : l.key.text with
  | nil =>
    refine ⟨l.separator, l.after.text ++ l.value.text, ?_, not_blank_of_separates l.separates,
      not_comments_of_separates l.separates⟩
    rw [EntryLine.core, hkey, l.keyless hkey]
    rfl
  | cons c key =>
    refine ⟨c, key ++ l.before.text ++ l.separator :: (l.after.text ++ l.value.text), ?_,
      l.key.first c (by rw [hkey]; rfl), l.plain c (by rw [hkey]; rfl)⟩
    rw [EntryLine.core, hkey]
    rfl

theorem EntryLine.core_last (l : EntryLine) : ∀ c ∈ l.core.getLast?, blank c = false := by
  intro c hc
  cases hvalue : l.value.text with
  | nil =>
    rw [EntryLine.core, hvalue, l.valueless hvalue, List.append_nil, List.getLast?_append] at hc
    obtain rfl : l.separator = c := by simpa using hc
    exact not_blank_of_separates l.separates
  | cons d value =>
    refine l.value.last c ?_
    have hlast : l.core.getLast? = l.value.text.getLast? := by
      have hcore : l.core = (l.key.text ++ l.before.text ++ l.separator :: l.after.text) ++
          l.value.text := by
        simp [EntryLine.core]
      rw [hcore, List.getLast?_append_of_ne_nil _ (by rw [hvalue]; exact List.cons_ne_nil d value)]
    rwa [← hlast]

theorem strdup_word (front : Memory) (lead : Blanks) (word : Word) (trail : Blanks)
    (hempty : word.text = [] → lead.text = [] ∧ trail.text = []) (c : UInt8) (rest : Memory) :
    ∃ behind : Memory, behind.length = trail.text.length ∧
    ∃ x y : ℤ, trim (front ++ lead.text ++ word.text ++ trail.text ++ c :: rest) front.length
        (front.length + lead.text.length + word.text.length + trail.text.length : ℕ)
      = some (x, y) ∧
    storeAt (front ++ lead.text ++ word.text ++ trail.text ++ c :: rest) (y + 1) [0]
      = some (front ++ lead.text ++ word.text ++ 0 :: (behind ++ rest)) ∧
    strdupAt (front ++ lead.text ++ word.text ++ 0 :: (behind ++ rest)) x
      = some (strdup word.text) := by
  have htrim := trim_word front lead.text word.text trail.text (c :: rest) lead.blanks
    trail.blanks word.first word.last hempty
  have hstore := storeAt_next (front ++ lead.text ++ word.text)
    (show trail.text ++ c :: rest ≠ [] by simp) 0
  have hbehind : (trail.text ++ c :: rest).tail = (trail.text ++ [c]).tail ++ rest := by
    cases trail.text with
    | nil => rfl
    | cons d more => simp
  have hcopy := strdupAt_append word.clean (front ++ lead.text)
    ((trail.text ++ [c]).tail ++ rest)
  rw [hbehind, List.length_append, List.length_append, ← List.append_assoc] at hstore
  rw [List.length_append] at hcopy
  exact ⟨(trail.text ++ [c]).tail, by simp, _, _, htrim, by rw [Int.sub_add_cancel, hstore], hcopy⟩

def Blanks.none : Blanks := ⟨[], by simp [Clean], by simp⟩

theorem readConfig_entry (l : EntryLine) (junk : Memory) :
    ∃ tmp, tmp ≠ [] ∧ readConfig (l.text ++ 0 :: junk) l.lead.text.length
      (((l.lead.text.length + l.core.length : ℕ) : ℤ) - 1) = some (l.keyVal, tmp) := by
  obtain ⟨c, more, hmore⟩ := List.exists_cons_of_ne_nil (show l.trail.text ++ 0 :: junk ≠ [] by simp)
  have hrun : ∀ d ∈ l.key.text ++ l.before.text, separates d = false := by
    intro d hd
    rcases List.mem_append.mp hd with hd | hd
    · exact l.whole d hd
    · exact not_separates_of_blank (l.before.blanks d hd)
  obtain ⟨behind, hbehind, x, y, htrim, hstore, hcopy⟩ := strdup_word l.lead.text .none l.key
    l.before (fun h => ⟨rfl, l.keyless h⟩) l.separator (l.after.text ++ l.value.text ++ c :: more)
  let front := l.lead.text ++ l.key.text ++ 0 :: behind
  obtain ⟨behind', -, x', y', htrim', hstore', hcopy'⟩ := strdup_word front l.after l.value .none
    (fun h => ⟨l.valueless h, rfl⟩) c more
  have hfound := advance_stops hrun l.lead.text l.separates
    (l.after.text ++ l.value.text ++ c :: more) l.core.length
    (by simp only [EntryLine.core, List.length_append, List.length_cons]; omega)
  rw [← List.append_assoc, List.length_append, ← Nat.add_assoc] at hfound
  simp only [Blanks.none, List.append_nil, List.length_nil, Nat.add_zero]
    at htrim hstore hcopy htrim' hstore' hcopy'
  have hrounds : ((((l.lead.text.length + l.core.length : ℕ) : ℤ) - 1) + 1
      - l.lead.text.length).toNat = l.core.length := by
    omega
  have hmemory : l.text ++ 0 :: junk = l.lead.text ++ l.key.text ++ l.before.text ++
      l.separator :: (l.after.text ++ l.value.text ++ c :: more) := by
    rw [EntryLine.text_eq, EntryLine.core, ← hmore]
    simp
  have hfront : l.lead.text ++ l.key.text ++ 0 ::
      (behind ++ (l.after.text ++ l.value.text ++ c :: more))
        = front ++ l.after.text ++ l.value.text ++ c :: more := by
    simp [front]
  have hlength : front.length
      = l.lead.text.length + l.key.text.length + l.before.text.length + 1 := by
    simp only [front, List.length_append, List.length_cons, hbehind]
    omega
  have hstart : ((l.lead.text.length + l.key.text.length + l.before.text.length : ℕ) : ℤ) + 1
      = front.length := by
    rw [hlength]
    rfl
  have hend : (((l.lead.text.length + l.core.length : ℕ) : ℤ) - 1) + 1
      = (front.length + l.after.text.length + l.value.text.length : ℕ) := by
    rw [hlength, EntryLine.core]
    simp only [List.length_append, List.length_cons]
    omega
  rw [hfront] at hstore hcopy
  refine ⟨front ++ l.after.text ++ l.value.text ++ 0 :: (behind' ++ more), by simp, ?_⟩
  rw [readConfig, hrounds, hmemory, hfound]
  simp only [Option.bind_eq_bind, Option.bind_some, htrim, hstore, hcopy, hstart, hend, htrim',
    hstore', hcopy']
  rfl

theorem Clean.append {s t : List UInt8} (hs : Clean s) (ht : Clean t) : Clean (s ++ t) := by
  intro c hc
  rcases List.mem_append.mp hc with hc | hc
  · exact hs c hc
  · exact ht c hc

theorem Clean.cons {c : UInt8} {s : List UInt8} (hc : c ≠ 0 ∧ endsLine c = false) (hs : Clean s) :
    Clean (c :: s) := by
  intro d hd
  rcases List.mem_cons.mp hd with rfl | hd
  · exact hc
  · exact hs d hd

theorem clean_of_separates {c : UInt8} (h : separates c = true) : c ≠ 0 ∧ endsLine c = false := by
  simp only [separates, decide_eq_true_eq] at h
  obtain rfl | rfl := h <;> decide

theorem clean_of_comments {c : UInt8} (h : comments c = true) : c ≠ 0 ∧ endsLine c = false := by
  simp only [comments, decide_eq_true_eq] at h
  obtain rfl | rfl := h <;> decide

theorem Line.text_clean (l : Line) : Clean l.text := by
  cases l with
  | comment l => exact l.lead.clean.append (.cons (clean_of_comments l.marks) l.clean)
  | header l =>
    have hclose : Clean [l.close] := .cons ⟨l.closes.1, l.closes.2.1⟩ (by simp [Clean])
    exact (l.lead.clean.append (.cons (by decide) (l.clean.append hclose))).append l.trail.clean
  | entry l =>
    exact (l.lead.clean.append ((l.key.clean.append l.before.clean).append
      (.cons (clean_of_separates l.separates) (l.after.clean.append l.value.clean)))).append
      l.trail.clean

theorem Line.text_ne_nil (l : Line) : l.text ≠ [] := by
  cases l <;> simp [Line.text, CommentLine.text, HeaderLine.text, EntryLine.text]

theorem trim_line {lead core trail : List UInt8} (hlead : ∀ c ∈ lead, blank c = true)
    (htrail : ∀ c ∈ trail, blank c = true) (hne : core ≠ [])
    (hfirst : ∀ c ∈ core.head?, blank c = false) (hlast : ∀ c ∈ core.getLast?, blank c = false)
    (hclean : Clean (lead ++ core ++ trail)) (junk : Memory) :
    strlen (lead ++ core ++ trail ++ 0 :: junk) = some (lead ++ core ++ trail).length ∧
      trim (lead ++ core ++ trail ++ 0 :: junk) 0 ((lead ++ core ++ trail).length : ℕ)
        = some ((lead.length : ℤ), ((lead.length + core.length : ℕ) : ℤ) - 1) := by
  have h := trim_word [] lead core trail (0 :: junk) hlead htrail hfirst hlast
    fun h => absurd h hne
  simp only [List.nil_append, List.length_nil, Nat.zero_add, Nat.cast_zero] at h
  refine ⟨strlen_append (zero_not_mem_of_clean hclean) junk, ?_⟩
  rw [← h, List.length_append, List.length_append]

theorem exists_trail {c : UInt8} (hc : blank c = false) (rest : List UInt8) :
    ∃ core trail, c :: rest = c :: core ++ trail ∧ (∀ d ∈ trail, blank d = true) ∧
      ∀ d ∈ (c :: core).getLast?, blank d = false := by
  induction rest using List.reverseRecOn with
  | nil => exact ⟨[], [], rfl, by simp, by simpa using hc⟩
  | append_singleton rest d ih =>
    by_cases hd : blank d = true
    · obtain ⟨core, trail, hsplit, htrail, hlast⟩ := ih
      refine ⟨core, trail ++ [d], ?_, ?_, hlast⟩
      · rw [← List.append_assoc, ← hsplit]
        rfl
      · intro e he
        rcases List.mem_append.mp he with he | he
        · exact htrail e he
        · rwa [List.mem_singleton.mp he]
    · refine ⟨rest ++ [d], [], (List.append_nil _).symm, by simp, ?_⟩
      rw [← List.cons_append, List.getLast?_concat]
      rintro _ ⟨⟩
      exact Bool.eq_false_of_not_eq_true hd

theorem readEntry_comment (l : CommentLine) (fin junk : Memory) (state : States) (s : Section) :
    readEntry ⟨fin, l.text ++ 0 :: junk, state⟩ s
      = some (true, ⟨fin, l.text ++ 0 :: junk, state⟩, s) := by
  have hclean : Clean l.text := Line.text_clean (.comment l)
  obtain ⟨core, trail, hsplit, htrail, hlast⟩ :=
    exists_trail (not_blank_of_comments l.marks) l.rest
  have htext : l.text = l.lead.text ++ (l.mark :: core) ++ trail := by
    rw [CommentLine.text, hsplit, List.append_assoc]
  rw [htext] at hclean ⊢
  obtain ⟨hlength, htrim⟩ := trim_line l.lead.blanks htrail (List.cons_ne_nil _ _)
    (by simpa using not_blank_of_comments l.marks) hlast hclean junk
  have hbyte : byteAt (l.lead.text ++ (l.mark :: core) ++ trail ++ 0 :: junk)
      l.lead.text.length = some l.mark := by
    rw [List.append_assoc, List.append_assoc, List.cons_append, byteAt_append]
  simp only [readEntry, hlength, htrim, hbyte, Option.bind_eq_bind, Option.bind_some, l.marks,
    if_true]

theorem readEntry_entry (l : EntryLine) (fin junk : Memory) (state : States) (s : Section) :
    ∃ tmp, tmp ≠ [] ∧ readEntry ⟨fin, l.text ++ 0 :: junk, state⟩ s
      = some (true, ⟨fin, tmp, state⟩, { s with configs := s.configs ++ [l.keyVal] }) := by
  have hclean : Clean l.text := Line.text_clean (.entry l)
  obtain ⟨c, rest, hcore, hblank, hcomment, hbracket⟩ := l.core_head
  obtain ⟨tmp, hne, hconfig⟩ := readConfig_entry l junk
  rw [l.text_eq] at hclean hconfig ⊢
  obtain ⟨hlength, htrim⟩ := trim_line l.lead.blanks l.trail.blanks (by simp [hcore])
    (by simpa [hcore] using hblank) l.core_last hclean junk
  have hbyte : byteAt (l.lead.text ++ l.core ++ l.trail.text ++ 0 :: junk)
      l.lead.text.length = some c := by
    rw [hcore, List.append_assoc, List.append_assoc, List.cons_append, byteAt_append]
  refine ⟨tmp, hne, ?_⟩
  simp only [readEntry, hlength, htrim, hbyte, hconfig, Option.bind_eq_bind, Option.bind_some,
    hcomment, if_neg hbracket, Bool.false_eq_true, if_false]

def HeaderLine.core (l : HeaderLine) : List UInt8 := bracket :: (l.name ++ [l.close])

theorem HeaderLine.text_eq (l : HeaderLine) : l.text = l.lead.text ++ l.core ++ l.trail.text := rfl

theorem HeaderLine.core_last (l : HeaderLine) : ∀ c ∈ l.core.getLast?, blank c = false := by
  rw [HeaderLine.core, ← List.cons_append, List.getLast?_concat]
  rintro _ ⟨⟩
  exact l.closes.2.2

/-- How far `readEntry` comes with a header before it looks at the state. -/
theorem header_found (l : HeaderLine) (junk : Memory) :
    strlen (l.text ++ 0 :: junk) = some l.text.length ∧
      trim (l.text ++ 0 :: junk) 0 (l.text.length : ℕ)
        = some ((l.lead.text.length : ℤ), ((l.lead.text.length + l.core.length : ℕ) : ℤ) - 1) ∧
      byteAt (l.text ++ 0 :: junk) l.lead.text.length = some bracket ∧
      comments bracket = false := by
  have hclean : Clean l.text := Line.text_clean (.header l)
  rw [l.text_eq] at hclean ⊢
  obtain ⟨hlength, htrim⟩ := trim_line l.lead.blanks l.trail.blanks (List.cons_ne_nil _ _)
    (by rintro _ ⟨⟩; rfl) l.core_last hclean junk
  refine ⟨hlength, htrim, ?_, rfl⟩
  rw [HeaderLine.core, List.append_assoc, List.append_assoc, List.cons_append, byteAt_append]

theorem readEntry_header_ends (l : HeaderLine) (fin junk : Memory) (s : Section) :
    readEntry ⟨fin, l.text ++ 0 :: junk, .inSection⟩ s
      = some (false, ⟨fin, l.text ++ 0 :: junk, .newSection⟩, s) := by
  obtain ⟨hlength, htrim, hbyte, hmark⟩ := header_found l junk
  simp only [readEntry, hlength, htrim, hbyte, Option.bind_eq_bind, Option.bind_some, hmark,
    Bool.false_eq_true, if_true, if_false]

theorem readEntry_header_names (l : HeaderLine) (fin junk : Memory) {state : States}
    (hstate : state ≠ .inSection) (s : Section) :
    ∃ tmp, tmp ≠ [] ∧ readEntry ⟨fin, l.text ++ 0 :: junk, state⟩ s
      = some (true, ⟨fin, tmp, .inSection⟩, { s with name := some (strdup l.name) }) := by
  obtain ⟨hlength, htrim, hbyte, hmark⟩ := header_found l junk
  have hstore := storeAt_next (l.lead.text ++ bracket :: l.name)
    (show l.close :: (l.trail.text ++ 0 :: junk) ≠ [] by simp) 0
  have hcopy := strdupAt_append l.clean (l.lead.text ++ [bracket]) (l.trail.text ++ 0 :: junk)
  have hmemory : l.text ++ 0 :: junk
      = l.lead.text ++ bracket :: l.name ++ l.close :: (l.trail.text ++ 0 :: junk) := by
    simp [HeaderLine.text]
  have hend : ((l.lead.text.length + l.core.length : ℕ) : ℤ) - 1
      = ((l.lead.text ++ bracket :: l.name).length : ℕ) := by
    simp only [HeaderLine.core, List.length_append, List.length_cons, List.length_nil]
    omega
  have hstart : (l.lead.text.length : ℤ) + 1 = ((l.lead.text ++ [bracket]).length : ℕ) := by
    rw [List.length_append]
    rfl
  rw [← hmemory, ← hend, List.tail_cons] at hstore
  rw [← hstart, List.append_assoc _ [bracket], List.singleton_append] at hcopy
  refine ⟨l.lead.text ++ bracket :: l.name ++ 0 :: (l.trail.text ++ 0 :: junk), by simp, ?_⟩
  simp only [readEntry, hlength, htrim, hbyte, hstore, hcopy, Option.bind_eq_bind,
    Option.bind_some, hmark, if_neg hstate, Bool.false_eq_true, if_true, if_false]

section

variable (stale : ℕ → UInt8) {state : States} (hnew : state ≠ .newSection)
  (heof : state ≠ .endOfFile)
include hnew heof

theorem parseSection_new {fin : List UInt8} {tmp : Memory} {r : ReadIni}
    (hread : readLine stale ⟨fin, tmp, state⟩ = some (true, r)) (rounds : ℕ) (s : Section) :
    parseSection stale (rounds + 1) ⟨fin, tmp, state⟩ s
      = (readEntry r s).bind fun (again, r, s) =>
        if again then parseSection stale rounds r s else some (r, s) := by
  rw [parseSection, if_neg heof, nextLine, if_neg hnew, hread]
  rfl

theorem parseSection_old {fin : List UInt8} {tmp : Memory} {r : ReadIni}
    (hread : readLine stale ⟨fin, tmp, state⟩ = some (false, r)) (rounds : ℕ) (s : Section) :
    parseSection stale (rounds + 1) ⟨fin, tmp, state⟩ s = parseSection stale rounds r s := by
  rw [parseSection, if_neg heof, nextLine, if_neg hnew, hread]
  rfl

theorem parseSection_skip {tmp : Memory} (hne : tmp ≠ []) {ends : List UInt8}
    (hends : ∀ c ∈ ends, endsLine c = true) (rounds : ℕ) (fin : List UInt8) (s : Section) :
    parseSection stale (rounds + ends.length) ⟨ends ++ fin, tmp, state⟩ s
      = parseSection stale rounds ⟨fin, tmp, state⟩ s := by
  induction ends with
  | nil => rw [List.length_nil, Nat.add_zero, List.nil_append]
  | cons c ends ih =>
    rw [List.length_cons, ← Nat.add_assoc, List.cons_append, parseSection_old stale hnew heof
      (readLine_empty stale state hne (hends c List.mem_cons_self) _)]
    exact ih fun d hd => hends d (List.mem_cons_of_mem _ hd)

end

theorem parseSection_eof (stale : ℕ → UInt8) {state : States} (hnew : state ≠ .newSection)
    {tmp : Memory} (hne : tmp ≠ []) (rounds : ℕ) (s : Section) :
    parseSection stale (rounds + 2) ⟨[], tmp, state⟩ s = some (⟨[], tmp, .endOfFile⟩, s) := by
  by_cases heof : state = .endOfFile
  · rw [heof, parseSection, if_pos rfl]
  · rw [parseSection_old stale hnew heof (readLine_eof stale state hne), parseSection, if_pos rfl]

def Reading (state : States) (p : Part) : Prop :=
  state = .start ∧ p.header.isNone ∨ state = .inSection ∧ ¬ p.header.isNone

theorem Reading.states {state : States} {p : Part} (h : Reading state p) :
    state ≠ .newSection ∧ state ≠ .endOfFile := by
  obtain ⟨rfl, -⟩ | ⟨rfl, -⟩ := h <;> exact ⟨by decide, by decide⟩

theorem linesText_cons (l : Line) (ends : Ends) (lines : List (Line × Ends)) :
    linesText ((l, ends) :: lines) = l.text ++ (ends.text ++ linesText lines) := by
  simp [linesText]

section

variable (stale : ℕ → UInt8) {state : States} {p : Part} (hreading : Reading state p)
  {tmp : Memory} (hne : tmp ≠ [])
include hreading hne

theorem parseSection_broken {broken : Option Line} (hsmall : (brokenText broken).length < 2^30)
    {rounds : ℕ} (hrounds : (brokenText broken).length + 2 ≤ rounds) :
    ∃ tmp', parseSection stale rounds ⟨brokenText broken, tmp, state⟩ p.section
      = some (⟨[], tmp', .endOfFile⟩, (closed p broken).section) := by
  obtain ⟨hnew, heof⟩ := hreading.states
  cases broken with
  | none =>
    obtain ⟨k, rfl⟩ := Nat.exists_eq_add_of_le' (show 2 ≤ rounds from hrounds)
    exact ⟨tmp, parseSection_eof stale hnew hne k p.section⟩
  | some l =>
    change l.text.length < 2^30 at hsmall
    change l.text.length + 2 ≤ rounds at hrounds
    have hpos : 0 < l.text.length := List.length_pos_iff.mpr l.text_ne_nil
    obtain ⟨k, rfl⟩ := Nat.exists_eq_add_of_le' (show 3 ≤ rounds by omega)
    obtain ⟨junk, hread⟩ := readLine_broken stale state (fun c hc => (l.text_clean c hc).2) hne
      hsmall l.text_ne_nil
    have hround := parseSection_new stale hnew heof hread (k + 2) p.section
    have hend : States.endOfFile ≠ .newSection := by decide
    change ∃ tmp', parseSection stale (k + 3) ⟨l.text, tmp, state⟩ p.section = _
    rw [hround]
    cases l with
    | comment l =>
      have hne' : l.text ++ 0 :: junk ≠ [] := by simp
      refine ⟨l.text ++ 0 :: junk, ?_⟩
      rw [Line.text, readEntry_comment, Option.bind_some]
      exact parseSection_eof stale hend hne' k p.section
    | header l =>
      obtain ⟨tmp', hne', hentry⟩ := readEntry_header_names l [] junk
        (show States.endOfFile ≠ .inSection by decide) p.section
      have hnamed : States.inSection ≠ .newSection := by decide
      refine ⟨tmp', ?_⟩
      rw [Line.text, hentry, Option.bind_some]
      exact parseSection_eof stale hnamed hne' k _
    | entry l =>
      obtain ⟨tmp', hne', hentry⟩ := readEntry_entry l [] junk .endOfFile p.section
      refine ⟨tmp', ?_⟩
      rw [Line.text, hentry, Option.bind_some, ← p.add_section]
      exact parseSection_eof stale hend hne' k _

theorem parseSection_line (l : Line) (ends : Ends) (fin : List UInt8)
    (hsmall : l.text.length < 2^30) (rounds : ℕ) :
    ∃ c more junk, ends.text = c :: more ∧
      parseSection stale (rounds + 1) ⟨l.text ++ (ends.text ++ fin), tmp, state⟩ p.section
        = (readEntry ⟨more ++ fin, l.text ++ 0 :: junk, state⟩ p.section).bind fun (again, r, s) =>
          if again then parseSection stale rounds r s else some (r, s) := by
  obtain ⟨hnew, heof⟩ := hreading.states
  obtain ⟨c, more, hends⟩ := List.exists_cons_of_ne_nil ends.some
  have hc : endsLine c = true := ends.ends c (by rw [hends]; exact List.mem_cons_self)
  obtain ⟨junk, hread⟩ := readLine_ended stale state (fun c hc => (l.text_clean c hc).2) hne
    hsmall hc (more ++ fin) l.text_ne_nil
  refine ⟨c, more, junk, hends, ?_⟩
  rw [hends, List.cons_append, parseSection_new stale hnew heof hread]

end

theorem Ends.more {ends : Ends} {c : UInt8} {more : List UInt8} (h : ends.text = c :: more) :
    ∀ d ∈ more, endsLine d = true :=
  fun d hd => ends.ends d (by rw [h]; exact List.mem_cons_of_mem c hd)

/-- From within a section on, the lines left give the sections left. -/
theorem parse_lines (stale : ℕ → UInt8) (broken : Option Line) (lines : List (Line × Ends))
    {state : States} {p : Part} (hreading : Reading state p) {tmp : Memory} (hne : tmp ≠ [])
    (sections : List Section) {rounds rounds' : ℕ}
    (hsmall : (linesText lines ++ brokenText broken).length < 2^30)
    (hrounds : (linesText lines ++ brokenText broken).length + 2 ≤ rounds)
    (hrounds' : (linesText lines ++ brokenText broken).length + 3 ≤ rounds') :
    ((parseSection stale rounds ⟨linesText lines ++ brokenText broken, tmp, state⟩
      p.section).bind
      fun (r, s) => parseIni stale rounds' r (sections ++ [s]))
        = some (sections ++ (partsFrom broken p lines).map Part.section) := by
  induction lines generalizing state p tmp sections rounds rounds' with
  | nil =>
    change (brokenText broken).length < 2^30 at hsmall
    change (brokenText broken).length + 2 ≤ rounds at hrounds
    obtain ⟨tmp', hparse⟩ := parseSection_broken stale hreading hne hsmall hrounds
    obtain ⟨k, rfl⟩ := Nat.exists_eq_add_of_le' (show 1 ≤ rounds' by omega)
    change ((parseSection stale rounds ⟨brokenText broken, tmp, state⟩
      p.section).bind _) = _
    rw [hparse]
    rfl
  | cons line lines ih =>
    obtain ⟨l, ends⟩ := line
    rw [linesText_cons, List.append_assoc, List.append_assoc] at hsmall hrounds hrounds' ⊢
    obtain ⟨k, rfl⟩ := Nat.exists_eq_add_of_le' (show 1 ≤ rounds by omega)
    have hfirst : l.text.length < 2^30 := by
      rw [List.length_append] at hsmall
      omega
    obtain ⟨c, more, junk, hends, hparse⟩ := parseSection_line stale hreading hne l ends
      (linesText lines ++ brokenText broken) hfirst k
    have hpos : 0 < l.text.length := List.length_pos_iff.mpr l.text_ne_nil
    rw [hends] at hsmall hrounds hrounds'
    simp only [List.length_append, List.length_cons] at hsmall hrounds hrounds'
    rw [hparse]
    -- the empty lines, and then the lines that are left
    have next : ∀ {state : States} {p : Part}, Reading state p → ∀ {tmp : Memory}, tmp ≠ [] →
        ∀ (sections : List Section) (rounds rounds' : ℕ),
        more.length + ((linesText lines).length + (brokenText broken).length) + 2 ≤ rounds →
        (linesText lines).length + (brokenText broken).length + 3 ≤ rounds' →
        ((parseSection stale rounds ⟨more ++ (linesText lines ++ brokenText broken), tmp, state⟩
          p.section).bind fun (r, s) => parseIni stale rounds' r (sections ++ [s]))
            = some (sections ++ (partsFrom broken p lines).map Part.section) := by
      intro state p hreading tmp hne sections rounds rounds' hrounds hrounds'
      obtain ⟨m, rfl⟩ := Nat.exists_eq_add_of_le' (show more.length ≤ rounds by omega)
      rw [parseSection_skip stale hreading.states.1 hreading.states.2 hne (Ends.more hends)]
      exact ih hreading hne sections (by rw [List.length_append]; omega)
        (by rw [List.length_append]; omega) (by rw [List.length_append]; omega)
    cases l with
    | comment l =>
      rw [Line.text, readEntry_comment, Option.bind_some]
      exact next hreading (by simp) sections k rounds' (by omega) (by omega)
    | entry l =>
      obtain ⟨tmp', hne', hentry⟩ := readEntry_entry l
        (more ++ (linesText lines ++ brokenText broken)) junk state p.section
      have hreading' : Reading state (p.add l) := hreading
      rw [Line.text, hentry, Option.bind_some, ← p.add_section]
      exact next hreading' hne' sections k rounds' (by omega) (by omega)
    | header l =>
      obtain ⟨rfl, hname⟩ | ⟨rfl, hname⟩ := hreading
      · obtain ⟨tmp', hne', hentry⟩ := readEntry_header_names l
          (more ++ (linesText lines ++ brokenText broken)) junk
          (show States.start ≠ .inSection by decide) p.section
        have hnamed : Reading .inSection (p.named l) := .inr ⟨rfl, by simp [Part.named]⟩
        rw [Line.text, hentry, Option.bind_some, partsFrom, if_pos hname, ← p.named_section]
        exact next hnamed hne' sections k rounds' (by omega) (by omega)
      · obtain ⟨m, rfl⟩ := Nat.exists_eq_add_of_le' (show 2 ≤ rounds' by omega)
        obtain ⟨tmp', hne', hentry⟩ := readEntry_header_names l
          (more ++ (linesText lines ++ brokenText broken)) junk
          (show States.newSection ≠ .inSection by decide) ⟨none, []⟩
        have hnamed : Reading .inSection ⟨some l, []⟩ := .inr ⟨rfl, by simp⟩
        have hnext := next hnamed hne' (sections ++ [p.section]) m (m + 1) (by omega) (by omega)
        rw [Line.text, readEntry_header_ends, Option.bind_some, partsFrom, if_neg hname]
        rw [List.append_assoc, List.singleton_append] at hnext
        rw [List.map_cons, ← hnext]
        change parseIni stale (m + 2) ⟨_, l.text ++ 0 :: junk, .newSection⟩
          (sections ++ [p.section]) = _
        rw [parseIni, parseSection, if_neg (fun h => by cases h), nextLine, if_pos rfl]
        simp only [Option.bind_eq_bind, Option.bind_some, hentry, if_true]
        rfl

theorem readIni_text (f : ConfigFile) (stale : ℕ → UInt8) {rounds : ℕ}
    (hsmall : f.text.length < 2^30) (hrounds : f.text.length + 4 ≤ rounds) :
    readIni stale rounds (some f.text) = some f.sections := by
  rw [ConfigFile.text, List.length_append] at hsmall hrounds
  obtain ⟨k, rfl⟩ := Nat.exists_eq_add_of_le' (show f.lead.length + 1 ≤ rounds by omega)
  obtain ⟨tmp, htmp, hlength⟩ := malloc_of_lt stale (show 4 < 2^63 by decide)
  have hne : tmp ≠ [] := by
    rw [← List.length_pos_iff, hlength]
    decide
  have hlines := parse_lines stale f.broken f.lines (p := ⟨none, []⟩) (.inl ⟨rfl, rfl⟩) hne []
    (by omega) (show _ ≤ k by omega) (show _ ≤ k + f.lead.length by omega)
  rw [readIni, htmp, ← Nat.add_assoc]
  change ((parseSection stale (k + f.lead.length) ⟨f.text, tmp, .start⟩ ⟨none, []⟩).bind _) = _
  rw [ConfigFile.text, parseSection_skip stale (by decide) (by decide) hne f.empty]
  exact hlines

/-- A file whose last line is ended: `read_ini` gives the sections that it writes down, in every
layout and whatever the memory held before. -/
theorem readIni_sections (f : ConfigFile) (hended : f.broken = none) (stale : ℕ → UInt8)
    {rounds : ℕ} (hsmall : f.text.length < 2^30) (hrounds : f.text.length + 4 ≤ rounds) :
    readIni stale rounds (some f.text)
      = some ((partsFrom none ⟨none, []⟩ f.lines).map Part.section) := by
  have hparts : f.parts = partsFrom none ⟨none, []⟩ f.lines := by rw [ConfigFile.parts, hended]
  rw [readIni_text f stale hsmall hrounds, ConfigFile.sections, hparts]

def clean (s : List UInt8) : Bool := s.all fun c => c != 0 && !endsLine c

theorem clean_spec {s : List UInt8} (h : clean s) : Clean s := by
  intro c hc
  have hboth := List.all_eq_true.mp h c hc
  rw [Bool.and_eq_true, bne_iff_ne, Bool.not_eq_true'] at hboth
  exact hboth

theorem any_spec {o : Option UInt8} {p : UInt8 → Bool} (h : o.any p) : ∀ c ∈ o, p c = true := by
  rintro c rfl
  exact h

def bare (s : List UInt8) : Bool :=
  clean s && s.head?.any (fun c => !blank c) && s.getLast?.any fun c => !blank c

theorem bare_spec {s : List UInt8} (h : bare s) : Clean s ∧ (∀ c ∈ s.head?, blank c = false) ∧
    (∀ c ∈ s.getLast?, blank c = false) ∧ s ≠ [] := by
  simp only [bare, Bool.and_eq_true] at h
  refine ⟨clean_spec h.1.1, fun c hc => ?_, fun c hc => ?_, fun hs => ?_⟩
  · simpa using any_spec h.1.2 c hc
  · simpa using any_spec h.2 c hc
  · rw [hs] at h
    exact absurd h.2 (by decide)

def plain (s : List UInt8) : Bool :=
  bare s && s.all (fun c => !separates c) && s.head?.any fun c => !comments c && c != bracket

theorem plain_spec {s : List UInt8} (h : plain s) : bare s ∧ (∀ c ∈ s, separates c = false) ∧
    ∀ c ∈ s.head?, comments c = false ∧ c ≠ bracket := by
  simp only [plain, Bool.and_eq_true] at h
  refine ⟨h.1.1, fun c hc => ?_, fun c hc => ?_⟩
  · simpa using List.all_eq_true.mp h.1.2 c hc
  · simpa using any_spec h.2 c hc

def oneBlank : Blanks := ⟨[32], clean_spec rfl, List.all_eq_true.mp rfl⟩

def oneEnd : Ends := ⟨[newline], List.all_eq_true.mp rfl, List.cons_ne_nil _ _⟩

def crlf : Ends := ⟨[13, newline], List.all_eq_true.mp rfl, List.cons_ne_nil _ _⟩

def wordOf (s : String) (h : bare (ascii s)) : Word :=
  ⟨ascii s, (bare_spec h).1, (bare_spec h).2.1, (bare_spec h).2.2.1⟩

def headerOf (s : String) (h : clean (ascii s)) : HeaderLine :=
  ⟨.none, ascii s, clean_spec h, 93, by decide, .none⟩

def entryOf (key value : String) (hkey : plain (ascii key)) (hvalue : bare (ascii value)) :
    Line × Ends :=
  (.entry ⟨oneBlank, wordOf key (plain_spec hkey).1, oneBlank, 61, oneBlank, wordOf value hvalue,
    oneBlank, rfl, (plain_spec hkey).2.1, (plain_spec hkey).2.2,
    fun h => absurd h (bare_spec (plain_spec hkey).1).2.2.2,
    fun h => absurd h (bare_spec hvalue).2.2.2⟩, oneEnd)

/-- A section with blanks, a comment and two ends of line, and a header broken off. -/
def sampleIni : ConfigFile where
  lead := [newline]
  empty := List.all_eq_true.mp rfl
  lines := [(.header (headerOf "Limits" rfl), crlf),
    (.comment ⟨.none, 35, rfl, ascii " bytes ", clean_spec rfl⟩, oneEnd),
    entryOf "size" "7" rfl rfl]
  broken := some (.header (headerOf "Last" rfl))

def ConfigFile.ended (f : ConfigFile) (l : Line) : ConfigFile :=
  { f with lines := f.lines ++ [(l, oneEnd)], broken := none }

theorem ended_text {f : ConfigFile} {l : Line} (h : f.broken = some l) :
    (f.ended l).text = f.text ++ [newline] := by
  simp [ConfigFile.text, ConfigFile.ended, linesText, brokenText, h, oneEnd]

theorem readIni_sections_sampleIni :
    (sampleIni.ended (.header (headerOf "Last" rfl))).text =
        ascii "\n[Limits]" ++ [13] ++ ascii "\n# bytes \n size = 7 \n[Last]\n" ∧
      readIni (fun _ => 65) 100 (some (sampleIni.ended (.header (headerOf "Last" rfl))).text)
        = some [⟨some (strdup (ascii "Limits")), [⟨strdup (ascii "size"), strdup (ascii "7")⟩]⟩,
          ⟨some (strdup (ascii "Last")), []⟩] :=
  ⟨by decide, readIni_sections (sampleIni.ended (.header (headerOf "Last" rfl))) rfl
    (fun _ => 65) (by decide) (by decide)⟩

def Line.isHeader : Line → Bool
  | header _ => true
  | _ => false

theorem partsFrom_same {l : Line} {lines : List (Line × Ends)} {p : Part}
    (h : l.isHeader → p.header.isNone ∧ ∀ line ∈ lines, line.1.isHeader = false) :
    partsFrom none p (lines ++ [(l, oneEnd)]) = partsFrom (some l) p lines := by
  induction lines generalizing p with
  | nil =>
    cases l with
    | comment l => rfl
    | entry l => rfl
    | header l => exact if_pos (h rfl).1
  | cons line lines ih =>
    obtain ⟨line, ends⟩ := line
    have hrest : l.isHeader → p.header.isNone ∧ ∀ line ∈ lines, line.1.isHeader = false :=
      fun hl => ⟨(h hl).1, fun line hline => (h hl).2 line (List.mem_cons_of_mem _ hline)⟩
    cases line with
    | comment line => exact ih hrest
    | entry line => exact ih (p := p.add line) hrest
    | header line =>
      have hl : ¬ l.isHeader := fun hl =>
        absurd ((h hl).2 _ List.mem_cons_self) (by simp [Line.isHeader])
      rw [List.cons_append, partsFrom, partsFrom]
      split_ifs
      · exact ih fun h => absurd h hl
      · rw [ih fun h => absurd h hl]

/-- A later header loses its section: the entries before it come under its name. -/
theorem partsFrom_renamed (l : HeaderLine) {lines : List (Line × Ends)} {p : Part}
    (h : ¬ p.header.isNone ∨ ∃ line ∈ lines, line.1.isHeader) :
    ∃ front old, partsFrom none p (lines ++ [(.header l, oneEnd)]) = front ++ [old, ⟨some l, []⟩] ∧
      partsFrom (some (.header l)) p lines = front ++ [old.named l] := by
  induction lines generalizing p with
  | nil =>
    have hname : ¬ p.header.isNone := h.resolve_right (by simp)
    refine ⟨[], p, ?_, rfl⟩
    rw [List.nil_append, partsFrom, if_neg hname]
    rfl
  | cons line lines ih =>
    obtain ⟨line, ends⟩ := line
    have hrest : line.isHeader = false → ¬ p.header.isNone ∨ ∃ line ∈ lines, line.1.isHeader := by
      intro hline
      simpa [hline] using h
    cases line with
    | comment line => exact ih (hrest rfl)
    | entry line => exact ih (p := p.add line) (hrest rfl)
    | header line =>
      rw [List.cons_append, partsFrom, partsFrom]
      split_ifs
      · exact ih (.inl (by simp [Part.named]))
      · obtain ⟨front, old, hended, hbroken⟩ := ih (p := ⟨some line, []⟩) (.inl (by simp))
        exact ⟨p :: front, old, by rw [hended]; rfl, by rw [hbroken]; rfl⟩

/-- Whether a last line needs its end: only a header that is not the first one does. Without
it the section of that header is lost and the one before has its name. -/
theorem readIni_newline (f : ConfigFile) {l : Line} (hbroken : f.broken = some l)
    (stale : ℕ → UInt8) {rounds : ℕ} (hsmall : f.text.length + 1 < 2^30)
    (hrounds : f.text.length + 5 ≤ rounds) :
    ∃ whole cut, readIni stale rounds (some (f.text ++ [newline])) = some whole ∧
      readIni stale rounds (some f.text) = some cut ∧
      (whole = cut ↔ (l.isHeader → ∀ line ∈ f.lines, line.1.isHeader = false)) ∧
      (whole ≠ cut → ∃ front old name, whole = front ++ [old, ⟨some name, []⟩] ∧
        cut = front ++ [{ old with name := some name }]) := by
  have hlength : (f.ended l).text.length = f.text.length + 1 := by
    rw [ended_text hbroken, List.length_append]
    rfl
  have hwhole := readIni_text (f.ended l) stale (by omega) (show _ ≤ rounds by omega)
  rw [ended_text hbroken] at hwhole
  refine ⟨_, _, hwhole, readIni_text f stale (by omega) (by omega), ?_⟩
  have hcut : f.sections = (partsFrom (some l) ⟨none, []⟩ f.lines).map Part.section := by
    rw [ConfigFile.sections, ConfigFile.parts, hbroken]
  have hended : (f.ended l).sections
      = (partsFrom none ⟨none, []⟩ (f.lines ++ [(l, oneEnd)])).map Part.section := rfl
  rw [hcut, hended]
  by_cases hfirst : l.isHeader → ∀ line ∈ f.lines, line.1.isHeader = false
  · have hsame := partsFrom_same (p := ⟨none, []⟩) fun hl => ⟨rfl, hfirst hl⟩
    rw [hsame]
    exact ⟨iff_of_true rfl hfirst, fun hne => absurd rfl hne⟩
  · obtain ⟨hl, line, hline, hheader⟩ : l.isHeader ∧ ∃ line ∈ f.lines, line.1.isHeader := by
      simpa using hfirst
    cases l with
    | comment l => cases hl
    | entry l => cases hl
    | header l =>
      obtain ⟨front, old, hlast, hrenamed⟩ :=
        partsFrom_renamed l (p := ⟨none, []⟩) (.inr ⟨line, hline, hheader⟩)
      have hsections : (front ++ [old, ⟨some l, []⟩]).map Part.section
          = front.map Part.section ++ [old.section, ⟨some (strdup l.name), []⟩] := by
        rw [List.map_append]
        rfl
      have hsections' : (front ++ [old.named l]).map Part.section
          = front.map Part.section ++ [{ old.section with name := some (strdup l.name) }] := by
        rw [List.map_append]
        rfl
      rw [hlast, hrenamed, hsections, hsections']
      refine ⟨iff_of_false (fun h => ?_) hfirst, fun _ => ⟨_, _, _, rfl, rfl⟩⟩
      simpa using congrArg List.length h

theorem readIni_newline_sampleIni : ∃ whole cut,
    readIni (fun _ => 65) 100 (some (sampleIni.text ++ [newline])) = some whole ∧
      readIni (fun _ => 65) 100 (some sampleIni.text) = some cut ∧ whole ≠ cut := by
  obtain ⟨whole, cut, hwhole, hcut, hsame, -⟩ :=
    readIni_newline sampleIni rfl (fun _ => 65) (by decide) (show _ ≤ 100 by decide)
  refine ⟨whole, cut, hwhole, hcut, fun h => ?_⟩
  exact absurd (hsame.mp h rfl _ List.mem_cons_self) (by decide)

end KudosJudge.IniText
