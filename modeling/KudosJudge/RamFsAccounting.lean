import KudosJudge.RamFsCopy
import KudosJudge.Library.Runs

set_option autoImplicit false

namespace KudosJudge.RamFs
open CText

/-- The file system, and the sizes of the files copied successfully so far. -/
structure Ledger where
  ram : State
  copied : ℕ

inductive Event where
  | copy (src : List UInt8) (target : Option (List UInt8)) (io : Io)
  | change (files : List UInt8 → Option Node)

def fileSize (s : State) (src : List UInt8) : ℕ :=
  match s.files src with
  | some (.file bytes) => bytes.length
  | _ => 0

def Ledger.step (l : Ledger) : Event → Ledger
  | .copy src target io =>
    ⟨(ramfsCp l.ram src target io).2, if (ramfsCp l.ram src target io).1 = 0
      then l.copied + fileSize l.ram src else l.copied⟩
  | .change files => ⟨{ l.ram with files := files }, l.copied⟩

structure Accounted (info : RamfsInfo) (copied : ℕ) : Prop where
  nonneg : 0 ≤ info.used.val
  used : info.used.val ≤ info.memMax.val
  limit : info.memMax.val ≤ info.sizeAlloc.val
  copied : info.used.val = copied

/-- A copy that reaches the accounting is of a file whose size is an `int`, and none of its
closes fails. A size that wraps around to nothing does no harm when one does. -/
def Accountable (l : Ledger) : Event → Prop
  | .copy src target io => ∀ bytes full, Opens l.ram src target io bytes full →
      Copies io bytes.length →
      (Closes io → bytes.length < 2^31) ∧ (¬ Closes io → 2^32 ∣ bytes.length)
  | .change _ => True

theorem CInt.of_small {v : ℤ} (h0 : -2^31 ≤ v) (h1 : v < 2^31) : (CInt.of v).val = v :=
  toInt32_of_small h0 h1

def Ledger.start (rootDir dirname : List UInt8) (sizeAllocMb maxSizeMb : CInt)
    (files : List UInt8 → Option Node) : Ledger :=
  ⟨⟨initRamfs rootDir dirname sizeAllocMb maxSizeMb, files⟩, 0⟩

theorem initRamfs_clamped (rootDir dirname : List UInt8) (sizeAllocMb maxSizeMb : CInt) :
    ∃ s m : ℤ, 0 ≤ m ∧ m ≤ s ∧ (s = 0 ∨ s = sizeAllocMb.val) ∧
      (initRamfs rootDir dirname sizeAllocMb maxSizeMb).sizeAlloc = .of (s * 1000000) ∧
      (initRamfs rootDir dirname sizeAllocMb maxSizeMb).memMax = .of (m * 1000000) ∧
      (initRamfs rootDir dirname sizeAllocMb maxSizeMb).used = .of 0 := by
  refine ⟨_, _, ?_, ?_, ?_, rfl, rfl, rfl⟩
  · split_ifs <;> omega
  · split_ifs <;> omega
  · split_ifs <;> omega

theorem start_accounted (rootDir dirname : List UInt8) {sizeAllocMb : CInt} (maxSizeMb : CInt)
    (h : sizeAllocMb.val ≤ 2147) (files : List UInt8 → Option Node) :
    let l := Ledger.start rootDir dirname sizeAllocMb maxSizeMb files
    Accounted l.ram.info l.copied := by
  have hzero : (CInt.of 0).val = 0 := CInt.of_small (by decide) (by decide)
  have hbytes : ∀ v : ℤ, 0 ≤ v → v ≤ 2147 → (CInt.of (v * 1000000)).val = v * 1000000 := by
    intro v h0 h1
    exact CInt.of_small (by omega) (by omega)
  obtain ⟨s, m, hm, hms, hs, halloc, hmax, hused⟩ :=
    initRamfs_clamped rootDir dirname sizeAllocMb maxSizeMb
  constructor
  · rw [Ledger.start, hused, hzero]
  · rw [Ledger.start, hused, hmax, hzero, hbytes m hm (by omega)]
    omega
  · rw [Ledger.start, hmax, halloc, hbytes m hm (by omega), hbytes s (by omega) (by omega)]
    omega
  · rw [Ledger.start, hused, hzero]
    rfl

theorem fileSize_of_opens {s : State} {src : List UInt8} {target : Option (List UInt8)} {io : Io}
    {bytes full : List UInt8} (h : Opens s src target io bytes full) :
    fileSize s src = bytes.length := by
  rw [fileSize, h.source.1]

section

variable {info : RamfsInfo} {copied size : ℕ}

def RamfsInfo.add (info : RamfsInfo) (size : ℕ) : RamfsInfo :=
  { info with used := .of (info.used.val + (CInt.of size).val) }

theorem Accounted.add_iff (h : Accounted info copied) (hroom : (CInt.of size).val
    ≤ (CInt.of (info.memMax.val - info.used.val)).val) :
    Accounted (info.add size) (copied + size) ↔ size < 2^31 := by
  have hnonneg := h.nonneg
  have hused := h.used
  have hlimit := h.limit
  have hcopied := h.copied
  have hhigh := info.memMax.high
  constructor
  · intro hafter
    have hsum := hafter.copied
    have hbound := (info.add size).used.high
    omega
  · intro hsize
    have hval : (CInt.of size).val = size := CInt.of_small (by omega) (by omega)
    have hfree : (CInt.of (info.memMax.val - info.used.val)).val
        = info.memMax.val - info.used.val := CInt.of_small (by omega) (by omega)
    rw [hval, hfree] at hroom
    have hsum : (info.add size).used.val = info.used.val + size := by
      rw [RamfsInfo.add, hval]
      exact CInt.of_small (by omega) (by omega)
    constructor
    · omega
    · rw [hsum]
      change info.used.val + size ≤ info.memMax.val
      omega
    · exact hlimit
    · omega

theorem Accounted.add_failed_iff (h : Accounted info copied) :
    Accounted (info.add size) copied ↔ 2^32 ∣ size := by
  rw [← CInt.add_eq_self_iff info.used size]
  constructor
  · intro hafter
    exact CInt.ext (hafter.copied.trans h.copied.symm)
  · intro hsame
    have hinfo : info.add size = info := by rw [RamfsInfo.add, hsame]
    rw [hinfo]
    exact h

end

theorem step_accounted_iff (l : Ledger) (e : Event) (h : Accounted l.ram.info l.copied) :
    Accounted (l.step e).ram.info (l.step e).copied ↔ Accountable l e := by
  cases e with
  | change files => exact iff_of_true h trivial
  | copy src target io =>
    rw [Ledger.step]
    obtain ⟨hstopped, hne, hsame⟩ | ⟨bytes, full, hopens, hcopy⟩ :=
      ramfsCp_cases l.ram src target io
    · refine iff_of_true ?_ fun bytes full hopens => absurd hopens (hstopped bytes full)
      rw [hsame, if_neg hne]
      exact h
    · have honly : Accountable l (.copy src target io) ↔ (Copies io bytes.length →
          (Closes io → bytes.length < 2^31) ∧ (¬ Closes io → 2^32 ∣ bytes.length)) :=
        hopens.forall_iff _
      rw [honly, hcopy, fileSize_of_opens hopens]
      obtain ⟨content, -, ⟨hnot, hne, hinfo⟩ | ⟨hcopies, -, hinfo, hzero⟩⟩ :=
        copyTo_spec l.ram full bytes io
      · refine iff_of_true ?_ fun hcopies => absurd hcopies hnot
        rw [hinfo, if_neg hne]
        exact h
      · have hadd : (copyTo l.ram full bytes io).2.info = l.ram.info.add bytes.length := hinfo
        rw [hadd]
        by_cases hcloses : Closes io
        · rw [if_pos (hzero.mpr hcloses), h.add_iff hopens.room]
          simp [hcopies, hcloses]
        · rw [if_neg (mt hzero.mp hcloses), h.add_failed_iff]
          simp [hcopies, hcloses]

/-- From limits that fit an `int` the accounting holds in every state of a run exactly when
every copy of the run can be accounted for. -/
theorem accounting_iff (rootDir dirname : List UInt8) (sizeAllocMb maxSizeMb : CInt)
    (h : sizeAllocMb.val ≤ 2147) (files : List UInt8 → Option Node) (events : List Event) :
    (∀ l ∈ Runs.trail Ledger.step (.start rootDir dirname sizeAllocMb maxSizeMb files) events,
      Accounted l.ram.info l.copied) ↔
    ∀ p ∈ Runs.moves Ledger.step (.start rootDir dirname sizeAllocMb maxSizeMb files) events,
      Accountable p.1 p.2 :=
  Runs.trail_iff step_accounted_iff (start_accounted rootDir dirname maxSizeMb h files) events

def daemonLedger : Ledger :=
  .start (ascii "/var/opt/kudosJudge") (ascii "ramfs") (.of 10) (.of 15) disk.files

def wholeCopy (closeTarget : Bool) : Io :=
  { shortWrite with rounds := fun _ => ⟨some 512, none⟩, closeTarget := closeTarget }

theorem daemon_accounting :
    Accounted
      (daemonLedger.step (.copy (ascii "/s") (some (ascii "t")) (wholeCopy true))).ram.info
      (daemonLedger.step (.copy (ascii "/s") (some (ascii "t")) (wholeCopy true))).copied := by
  have hall := (accounting_iff (ascii "/var/opt/kudosJudge") (ascii "ramfs") (.of 10) (.of 15)
    (by decide) disk.files [.copy (ascii "/s") (some (ascii "t")) (wholeCopy true)]).mpr
  refine hall (fun p hp => ?_) _ (List.mem_cons_of_mem _ List.mem_cons_self)
  obtain rfl := List.mem_singleton.mp hp
  intro bytes full hopens _
  obtain ⟨rfl, rfl⟩ := Opens.unique (disk_opens rfl rfl) hopens
  exact ⟨fun _ => by decide, fun hnot => absurd ⟨rfl, rfl⟩ hnot⟩

theorem accounting_broken :
    (¬ ∀ l ∈ Runs.trail Ledger.step
        (.start (ascii "/var/opt/kudosJudge") (ascii "ramfs") (.of 2148) (.of 2148) disk.files) [],
      Accounted l.ram.info l.copied) ∧
    ¬ ∀ l ∈ Runs.trail Ledger.step daemonLedger
        [.copy (ascii "/s") (some (ascii "t")) (wholeCopy false)],
      Accounted l.ram.info l.copied := by
  constructor
  · intro h
    have hused := (h _ List.mem_cons_self).used
    exact absurd hused (by decide)
  · intro h
    have hstart : Accounted daemonLedger.ram.info daemonLedger.copied :=
      start_accounted _ _ _ (by decide) _
    have hafter := h _ (List.mem_cons_of_mem _ List.mem_cons_self)
    have haccountable := (step_accounted_iff _ _ hstart).mp hafter
    have hwhole : Undisturbed (wholeCopy false).rounds (ascii "hello").length :=
      fun i _ => ⟨rfl, fun _ => rfl⟩
    have hcloses : ¬ Closes (wholeCopy false) := by simp [Closes, wholeCopy]
    have hsize := (haccountable _ _ (disk_opens rfl rfl) ⟨rfl, hwhole⟩).2 hcloses
    exact absurd hsize (by decide)

end KudosJudge.RamFs
