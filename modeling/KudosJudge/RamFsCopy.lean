import KudosJudge.RamFs

set_option autoImplicit false

namespace KudosJudge.RamFs
open CText

/-- A failed copy changes nothing but a target that was there, and a copy that succeeds leaves
the bytes of the source in the target. -/
def Clean (s : State) (src : List UInt8) (target : Option (List UInt8)) (io : Io) : Prop :=
  ((ramfsCp s src target io).1 ≠ 0 →
    (ramfsCp s src target io).2.info.used = s.info.used ∧
    (∀ path, s.files path = none → (ramfsCp s src target io).2.files path = none) ∧
    ∀ path, target.map (fullTarget s.info) ≠ some path →
      (ramfsCp s src target io).2.files path = s.files path) ∧
  ((ramfsCp s src target io).1 = 0 →
    ∃ bytes full, s.files src = some (.file bytes) ∧
      target.map (fullTarget s.info) = some full ∧
      (ramfsCp s src target io).2.files full = some (.file bytes))

def TargetSafe (s : State) (io : Io) (bytes full : List UInt8) : Prop :=
  (s.files full = none → Copies io bytes.length ∧ Closes io) ∧
  ∀ old, s.files full = some (.file old) → Copies io bytes.length →
    (Closes io → old.length ≤ bytes.length) ∧ (¬ Closes io → 2^32 ∣ bytes.length)

theorem overwrite_eq_iff (old bytes : List UInt8) :
    overwrite old bytes = bytes ↔ old.length ≤ bytes.length := by
  rw [overwrite, List.append_right_eq_self, List.drop_eq_nil_iff]

theorem CInt.add_eq_self_iff (u : CInt) (n : ℕ) :
    CInt.of (u.val + (CInt.of n).val) = u ↔ 2^32 ∣ n := by
  rw [CInt.ext_iff, CInt.of_val, CInt.of_val, Int.add_comm, toInt32_add,
    toInt32_eq_iff u.low u.high]
  omega

section

variable {s : State} {src : List UInt8} {target : Option (List UInt8)} {io : Io}
  {bytes full : List UInt8}

theorem clean_created_iff (hopens : Opens s src target io bytes full)
    (hnew : s.files full = none) :
    Clean s src target io ↔ Copies io bytes.length ∧ Closes io := by
  obtain ⟨content, hfiles, hspec⟩ := copyTo_spec s full bytes io
  have hthere : (copyTo s full bytes io).2.files full = some (.file content) := by
    rw [hfiles, Function.update_self]
  unfold Clean
  rw [hopens.copies]
  constructor
  · rintro ⟨hfailed, -⟩
    have hzero : (copyTo s full bytes io).1 = 0 := by
      by_contra hne
      cases hthere.symm.trans ((hfailed hne).2.1 full hnew)
    rcases hspec with ⟨-, hne, -⟩ | ⟨hcopies, -, -, hcloses⟩
    · exact absurd hzero hne
    · exact ⟨hcopies, hcloses.mp hzero⟩
  · rintro ⟨hcopies, hcloses⟩
    rcases hspec with ⟨hnot, -, -⟩ | ⟨-, hcontent, -, hzero⟩
    · exact absurd hcopies hnot
    · refine ⟨fun hne => absurd (hzero.mpr hcloses) hne, fun _ => ?_⟩
      have hempty : openedBytes s.files full = [] := by rw [openedBytes, hnew]
      refine ⟨bytes, full, hopens.source.1, hopens.target, ?_⟩
      rw [hthere, hcontent, hempty, overwrite, List.drop_nil, List.append_nil]

theorem clean_existing_iff (hopens : Opens s src target io bytes full) {old : List UInt8}
    (hold : s.files full = some (.file old)) :
    Clean s src target io ↔ (Copies io bytes.length →
      (Closes io → old.length ≤ bytes.length) ∧ (¬ Closes io → 2^32 ∣ bytes.length)) := by
  obtain ⟨content, hfiles, hspec⟩ := copyTo_spec s full bytes io
  have hthere : (copyTo s full bytes io).2.files full = some (.file content) := by
    rw [hfiles, Function.update_self]
  have hothers : ∀ path, path ≠ full → (copyTo s full bytes io).2.files path = s.files path := by
    intro path hpath
    rw [hfiles, Function.update_of_ne hpath]
  have habsent : ∀ path, s.files path = none → (copyTo s full bytes io).2.files path = none := by
    intro path hpath
    have hne : path ≠ full := fun h => by simp [h, hold] at hpath
    rw [hothers path hne, hpath]
  have hframe : ∀ path, target.map (fullTarget s.info) ≠ some path →
      (copyTo s full bytes io).2.files path = s.files path := by
    intro path hpath
    exact hothers path fun h => hpath (by rw [h]; exact hopens.target)
  unfold Clean
  rw [hopens.copies]
  rcases hspec with ⟨hnot, hne, hinfo⟩ | ⟨hcopies, hcontent, hinfo, hzero⟩
  · refine ⟨fun _ hcopies => absurd hcopies hnot, fun _ => ⟨fun _ => ?_, fun h => absurd h hne⟩⟩
    exact ⟨by rw [hinfo], habsent, hframe⟩
  · have hopened : openedBytes s.files full = old := by rw [openedBytes, hold]
    rw [hopened] at hcontent
    have hused : (copyTo s full bytes io).2.info.used = s.info.used ↔ 2^32 ∣ bytes.length := by
      rw [hinfo]
      exact CInt.add_eq_self_iff s.info.used bytes.length
    constructor
    · rintro ⟨hfailed, hdone⟩ -
      refine ⟨fun hcloses => ?_, fun hcloses => ?_⟩
      · obtain ⟨bytes', full', hsource, htarget, hfull⟩ := hdone (hzero.mpr hcloses)
        cases hsource.symm.trans hopens.source.1
        cases htarget.symm.trans hopens.target
        rw [← overwrite_eq_iff, ← hcontent]
        cases hthere.symm.trans hfull
        rfl
      · exact hused.mp (hfailed (mt hzero.mp hcloses)).1
    · intro hsafe
      obtain ⟨hshort, hwraps⟩ := hsafe hcopies
      refine ⟨fun hne => ⟨hused.mpr (hwraps (mt hzero.mpr hne)), habsent, hframe⟩, fun hcode => ?_⟩
      refine ⟨bytes, full, hopens.source.1, hopens.target, ?_⟩
      rw [hthere, hcontent, (overwrite_eq_iff old bytes).mpr (hshort (hzero.mp hcode))]

end

/-- A copy is clean exactly when the checks stop it, or the target it opens is safe. -/
theorem clean_iff (s : State) (src : List UInt8) (target : Option (List UInt8)) (io : Io) :
    Clean s src target io ↔
      ∀ bytes full, Opens s src target io bytes full → TargetSafe s io bytes full := by
  obtain ⟨hstopped, hne, hsame⟩ | ⟨bytes, full, hopens, -⟩ := ramfsCp_cases s src target io
  · refine ⟨fun _ bytes full h => absurd h (hstopped bytes full), fun _ => ?_⟩
    refine ⟨fun _ => ?_, fun h => absurd h hne⟩
    rw [hsame]
    exact ⟨rfl, fun _ h => h, fun _ _ => rfl⟩
  · rw [hopens.forall_iff, TargetSafe]
    cases hnode : s.files full with
    | none =>
      rw [clean_created_iff hopens hnode]
      simp
    | some node =>
      cases node with
      | directory => exact absurd hnode hopens.opened.2
      | file old =>
        rw [clean_existing_iff hopens hnode]
        simp

def disk : State where
  info := initRamfs (ascii "/var/opt/kudosJudge") (ascii "ramfs") (.of 10) (.of 15)
  files := Function.update (fun _ => none) (ascii "/s") (some (.file (ascii "hello")))

theorem disk_new : disk.files (fullTarget disk.info (ascii "t")) = none := by
  have hother : fullTarget disk.info (ascii "t") ≠ ascii "/s" := by decide
  simp only [disk] at hother ⊢
  rw [Function.update_of_ne hother]

theorem disk_opens {io : Io} (hstat : io.statSource = true) (hopen : io.openTarget = true) :
    Opens disk (ascii "/s") (some (ascii "t")) io (ascii "hello")
      (fullTarget disk.info (ascii "t")) where
  source := ⟨by simp only [disk, Function.update_self], hstat⟩
  target := rfl
  absent := fun _ => disk_new
  room := by decide
  opened := ⟨hopen, by rw [disk_new]; nofun⟩

def shortWrite : Io where
  statSource := true
  statTarget := true
  openTarget := true
  openSource := true
  rounds := fun _ => ⟨some 512, some 3⟩
  closeSource := true
  closeTarget := true

theorem target_left : ¬ Clean disk (ascii "/s") (some (ascii "t")) shortWrite := by
  rw [clean_created_iff (disk_opens rfl rfl) disk_new]
  rintro ⟨⟨-, hwrites⟩, -⟩
  have hwrite := (hwrites 0 (by simp)).2 (by decide)
  cases hwrite

end KudosJudge.RamFs
