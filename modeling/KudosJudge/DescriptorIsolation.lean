import KudosJudge.Library.DescriptorTable
import Mathlib.Logic.Function.Basic

set_option autoImplicit false

/-!
The descriptor tables from `jug_runner_template_init` through the template and the
watcher to the binary. The template is a copy of the daemon, a watcher one of the
template and the binary one of its watcher; no descriptor is close-on-exec.
-/
namespace KudosJudge.DescriptorIsolation
open DescriptorTable

inductive Pipe where
  | input (worker : ℕ)
  | output (worker : ℕ)
  | templateRx
  | templateTx
  | binaryInput
deriving DecidableEq, Repr

inductive Entry where
  | file (id : ℕ)
  | readEnd (pipe : Pipe)
  | writeEnd (pipe : Pipe)
deriving DecidableEq, Repr

def threadsMax : ℕ := 24

/-- The table and the global arrays of descriptors, in which 0 stands where no
pipe was made. -/
structure Pipes where
  table : Table Entry
  ioPipesIn : ℕ → ℕ × ℕ
  ioPipesOut : ℕ → ℕ × ℕ
  templatePipeRx : ℕ × ℕ
  templatePipeTx : ℕ × ℕ

def noPipes (table : Table Entry) : Pipes :=
  ⟨table, fun _ => (0, 0), fun _ => (0, 0), (0, 0), (0, 0)⟩

/-- What the daemon has open: the standard descriptors, and whatever it opened since. -/
def daemonTable (stdin stdout stderr : ℕ) (rest : Table ℕ) : Table Entry :=
  [some (.file stdin), some (.file stdout), some (.file stderr)] ++ rest.map (Option.map .file)

def openIoPipes (p : Pipes) (i : ℕ) : Pipes :=
  let input := pipe p.table (.readEnd (.input i)) (.writeEnd (.input i))
  let output := pipe input.1 (.readEnd (.output i)) (.writeEnd (.output i))
  { p with
    table := output.1
    ioPipesIn := Function.update p.ioPipesIn i input.2
    ioPipesOut := Function.update p.ioPipesOut i output.2 }

def openTemplatePipes (p : Pipes) : Pipes :=
  let rx := pipe p.table (.readEnd .templateRx) (.writeEnd .templateRx)
  let tx := pipe rx.1 (.readEnd .templateTx) (.writeEnd .templateTx)
  { p with table := tx.1, templatePipeRx := rx.2, templatePipeTx := tx.2 }

def jugRunnerTemplateInit (table : Table Entry) (workers : ℕ) : Option Pipes :=
  if threadsMax < workers then none
  else some (openTemplatePipes ((List.range workers).foldl openIoPipes (noPipes table)))

def closeIoPipes (p : Pipes) (table : Table Entry) (i : ℕ) : Table Entry :=
  close (close table (p.ioPipesIn i).2) (p.ioPipesOut i).1

def jugRunnerTemplate (p : Pipes) : Table Entry :=
  (List.range threadsMax).foldl (closeIoPipes p)
    (close (close p.table p.templatePipeRx.1) p.templatePipeTx.2)

def jugSandboxWatcher (p : Pipes) (t : ℕ) (table : Table Entry) : Table Entry × ℕ × ℕ :=
  let redirected := close (dup2 table (p.ioPipesOut t).2 1) (p.ioPipesOut t).2
  let input := pipe redirected (.readEnd .binaryInput) (.writeEnd .binaryInput)
  (dup2 input.1 input.2.1 0, input.2)

def jugSandboxBinary (p : Pipes) (t : ℕ) (table : Table Entry) (binaryInputPipe : ℕ × ℕ) :
    Table Entry :=
  close (close table (p.ioPipesIn t).1) binaryInputPipe.2

/-- The table with which a submission of worker `t` is executed. -/
def execTable (p : Pipes) (t : ℕ) : Table Entry :=
  let watcher := jugSandboxWatcher p t (jugRunnerTemplate p)
  jugSandboxBinary p t watcher.1 watcher.2

def foreign (t : ℕ) : Pipe → Bool
  | .input u => u ≠ t
  | .output u => u ≠ t
  | .templateRx => true
  | .templateTx => true
  | .binaryInput => false

def Isolated (t : ℕ) (table : Table Entry) : Prop :=
  ∀ fd pipe, lookup table fd = some (.readEnd pipe) ∨ lookup table fd = some (.writeEnd pipe) →
    foreign t pipe = false

/-- The ends that reach the submission of worker `t` from other workers and the template. -/
def Leaks (workers t : ℕ) (table : Table Entry) : Prop :=
  (∃ fd, lookup table fd = some (.writeEnd .templateRx)) ∧
    (∃ fd, lookup table fd = some (.readEnd .templateTx)) ∧
    ∀ u < workers, u ≠ t → (∃ fd, lookup table fd = some (.readEnd (.input u))) ∧
      ∃ fd, lookup table fd = some (.writeEnd (.output u))

structure Placed (p : Pipes) (workers : ℕ) : Prop where
  stdin : ∃ id, lookup p.table 0 = some (.file id)
  stdout : ∃ id, lookup p.table 1 = some (.file id)
  inputs : ∀ i < workers, lookup p.table (p.ioPipesIn i).1 = some (.readEnd (.input i)) ∧
    lookup p.table (p.ioPipesIn i).2 = some (.writeEnd (.input i))
  outputs : ∀ i < workers, lookup p.table (p.ioPipesOut i).1 = some (.readEnd (.output i)) ∧
    lookup p.table (p.ioPipesOut i).2 = some (.writeEnd (.output i))
  unused : ∀ i, workers ≤ i → p.ioPipesIn i = (0, 0) ∧ p.ioPipesOut i = (0, 0)

variable {p : Pipes} {workers t : ℕ}

theorem placed_noPipes (stdin stdout stderr : ℕ) (rest : Table ℕ) :
    Placed (noPipes (daemonTable stdin stdout stderr rest)) 0 where
  stdin := ⟨stdin, rfl⟩
  stdout := ⟨stdout, rfl⟩
  inputs := fun i hi => by omega
  outputs := fun i hi => by omega
  unused := fun _ _ => ⟨rfl, rfl⟩

theorem lookup_openIoPipes {fd : ℕ} {entry : Entry} (h : lookup p.table fd = some entry) (i : ℕ) :
    lookup (openIoPipes p i).table fd = some entry :=
  lookup_pipe (lookup_pipe h _ _) _ _

theorem placed_openIoPipes (h : Placed p workers) :
    Placed (openIoPipes p workers) (workers + 1) where
  stdin := by
    obtain ⟨id, hid⟩ := h.stdin
    exact ⟨id, lookup_openIoPipes hid workers⟩
  stdout := by
    obtain ⟨id, hid⟩ := h.stdout
    exact ⟨id, lookup_openIoPipes hid workers⟩
  inputs := by
    intro i hi
    simp only [openIoPipes]
    by_cases heq : i = workers
    · subst heq
      rw [Function.update_self]
      exact ⟨lookup_pipe (lookup_pipe_read _ _ _) _ _, lookup_pipe (lookup_pipe_write _ _ _) _ _⟩
    · rw [Function.update_of_ne heq]
      obtain ⟨hread, hwrite⟩ := h.inputs i (by omega)
      exact ⟨lookup_openIoPipes hread workers, lookup_openIoPipes hwrite workers⟩
  outputs := by
    intro i hi
    simp only [openIoPipes]
    by_cases heq : i = workers
    · subst heq
      rw [Function.update_self]
      exact ⟨lookup_pipe_read _ _ _, lookup_pipe_write _ _ _⟩
    · rw [Function.update_of_ne heq]
      obtain ⟨hread, hwrite⟩ := h.outputs i (by omega)
      exact ⟨lookup_openIoPipes hread workers, lookup_openIoPipes hwrite workers⟩
  unused := by
    intro i hi
    have hne : i ≠ workers := by omega
    simp only [openIoPipes]
    rw [Function.update_of_ne hne, Function.update_of_ne hne]
    exact h.unused i (by omega)

theorem placed_foldl (h : Placed p 0) :
    Placed ((List.range workers).foldl openIoPipes p) workers := by
  induction workers with
  | zero => exact h
  | succ workers ih =>
    rw [List.range_succ, List.foldl_append]
    exact placed_openIoPipes ih

def closed (t : ℕ) : Entry → Bool
  | .file _ => true
  | .readEnd (.input u) => u = t
  | .writeEnd (.input _) => true
  | .readEnd (.output _) => true
  | .writeEnd (.output u) => u = t
  | .readEnd .templateRx => true
  | .writeEnd .templateRx => false
  | .readEnd .templateTx => false
  | .writeEnd .templateTx => true
  | .readEnd .binaryInput => true
  | .writeEnd .binaryInput => true

section

variable {fd : ℕ} {entry : Entry} (hfd : lookup p.table fd = some entry)
    (hopen : closed t entry = false)
include hfd hopen

theorem ne_of_closed {k : ℕ} {other : Entry} (hk : lookup p.table k = some other)
    (hclosed : closed t other = true) : k ≠ fd := by
  apply ne_of_lookup hk hfd
  rintro rfl
  rw [hopen] at hclosed
  cases hclosed

theorem lookup_closeIoPipes (h : Placed p workers) {table : Table Entry}
    (htable : lookup table fd = some entry) (i : ℕ) :
    lookup (closeIoPipes p table i) fd = some entry := by
  unfold closeIoPipes
  by_cases hi : i < workers
  · apply lookup_close
    · apply lookup_close htable
      exact ne_of_closed hfd hopen (h.inputs i hi).2 rfl
    · exact ne_of_closed hfd hopen (h.outputs i hi).1 rfl
  · -- beyond the workers the arrays hold 0, the daemon's standard input
    obtain ⟨hin, hout⟩ := h.unused i (by omega)
    obtain ⟨id, hid⟩ := h.stdin
    have hne := ne_of_closed hfd hopen hid rfl
    rw [hin, hout]
    exact lookup_close (lookup_close htable hne) hne

theorem lookup_jugRunnerTemplate (h : Placed p workers)
    (hrx : lookup p.table p.templatePipeRx.1 = some (.readEnd .templateRx))
    (htx : lookup p.table p.templatePipeTx.2 = some (.writeEnd .templateTx)) :
    lookup (jugRunnerTemplate p) fd = some entry := by
  have hrest : ∀ (is : List ℕ) (table : Table Entry), lookup table fd = some entry →
      lookup (is.foldl (closeIoPipes p) table) fd = some entry := by
    intro is
    induction is with
    | nil => exact fun _ htable => htable
    | cons i is ih =>
      intro table htable
      exact ih _ (lookup_closeIoPipes hfd hopen h htable i)
  apply hrest
  apply lookup_close
  · exact lookup_close hfd (ne_of_closed hfd hopen hrx rfl)
  · exact ne_of_closed hfd hopen htx rfl

theorem lookup_submission (h : Placed p workers) (ht : t < workers) {table : Table Entry}
    (htable : lookup table fd = some entry) :
    lookup (jugSandboxBinary p t (jugSandboxWatcher p t table).1
      (jugSandboxWatcher p t table).2) fd = some entry := by
  obtain ⟨_, hstdin⟩ := h.stdin
  obtain ⟨_, hstdout⟩ := h.stdout
  have hredirected : lookup (close (dup2 table (p.ioPipesOut t).2 1) (p.ioPipesOut t).2) fd =
      some entry := by
    apply lookup_close
    · exact lookup_dup2 htable _ (ne_of_closed hfd hopen hstdout rfl)
    · exact ne_of_closed hfd hopen (h.outputs t ht).2 (by simp [closed])
  have hpiped := lookup_pipe hredirected (.readEnd .binaryInput) (.writeEnd .binaryInput)
  apply lookup_close
  · apply lookup_close
    · exact lookup_dup2 hpiped _ (ne_of_closed hfd hopen hstdin rfl)
    · exact ne_of_closed hfd hopen (h.inputs t ht).1 (by simp [closed])
  · apply ne_of_lookup (lookup_pipe_write _ _ _) hpiped
    rintro rfl
    cases hopen

end

theorem lookup_openTemplatePipes {fd : ℕ} {entry : Entry} (h : lookup p.table fd = some entry) :
    lookup (openTemplatePipes p).table fd = some entry :=
  lookup_pipe (lookup_pipe h _ _) _ _

theorem placed_openTemplatePipes (h : Placed p workers) : Placed (openTemplatePipes p) workers where
  stdin := by
    obtain ⟨id, hid⟩ := h.stdin
    exact ⟨id, lookup_openTemplatePipes hid⟩
  stdout := by
    obtain ⟨id, hid⟩ := h.stdout
    exact ⟨id, lookup_openTemplatePipes hid⟩
  inputs := by
    intro i hi
    obtain ⟨hread, hwrite⟩ := h.inputs i hi
    exact ⟨lookup_openTemplatePipes hread, lookup_openTemplatePipes hwrite⟩
  outputs := by
    intro i hi
    obtain ⟨hread, hwrite⟩ := h.outputs i hi
    exact ⟨lookup_openTemplatePipes hread, lookup_openTemplatePipes hwrite⟩
  unused := h.unused

theorem lookup_execTable (h : Placed p workers) (ht : t < workers) {fd : ℕ} {entry : Entry}
    (hfd : lookup (openTemplatePipes p).table fd = some entry) (hopen : closed t entry = false) :
    lookup (execTable (openTemplatePipes p) t) fd = some entry := by
  have hplaced := placed_openTemplatePipes h
  apply lookup_submission hfd hopen hplaced ht
  apply lookup_jugRunnerTemplate hfd hopen hplaced
  · exact lookup_pipe (lookup_pipe_read _ _ _) _ _
  · exact lookup_pipe_write _ _ _

theorem execTable_leaks (h : Placed p workers) (ht : t < workers) :
    Leaks workers t (execTable (openTemplatePipes p) t) := by
  refine ⟨⟨_, lookup_execTable h ht (lookup_pipe (lookup_pipe_write _ _ _) _ _) rfl⟩,
    ⟨_, lookup_execTable h ht (lookup_pipe_read _ _ _) rfl⟩, ?_⟩
  intro u hu hne
  have hplaced := placed_openTemplatePipes h
  constructor
  · exact ⟨_, lookup_execTable h ht (hplaced.inputs u hu).1 (by simp [closed, hne])⟩
  · exact ⟨_, lookup_execTable h ht (hplaced.outputs u hu).2 (by simp [closed, hne])⟩

theorem Leaks.not_isolated {table : Table Entry} (h : Leaks workers t table) :
    ¬ Isolated t table := by
  intro hisolated
  obtain ⟨⟨fd, hrx⟩, -⟩ := h
  have hforeign := hisolated fd .templateRx (.inr hrx)
  cases hforeign

/-- Whatever the number of workers, no submission is isolated: it holds an end of
each pipe of the template and of every pipe of the other workers. -/
theorem submission_not_isolated (stdin stdout stderr : ℕ) (rest : Table ℕ) (workers t : ℕ)
    (hworkers : workers ≤ threadsMax) (ht : t < workers) :
    ∃ p, jugRunnerTemplateInit (daemonTable stdin stdout stderr rest) workers = some p ∧
      ¬ Isolated t (execTable p t) ∧ Leaks workers t (execTable p t) := by
  have hplaced : Placed ((List.range workers).foldl openIoPipes
      (noPipes (daemonTable stdin stdout stderr rest))) workers :=
    placed_foldl (placed_noPipes stdin stdout stderr rest)
  have hleaks := execTable_leaks hplaced ht
  exact ⟨_, if_neg (Nat.not_lt.mpr hworkers), hleaks.not_isolated, hleaks⟩

theorem submission_not_isolated_last :
    ∃ p, jugRunnerTemplateInit (daemonTable 0 1 2 [none, some 7]) 24 = some p ∧
      ¬ Isolated 23 (execTable p 23) ∧ Leaks 24 23 (execTable p 23) :=
  submission_not_isolated 0 1 2 [none, some 7] 24 23 (by decide) (by decide)

theorem submission_holds_foreign_ends :
    ∃ p, jugRunnerTemplateInit (daemonTable 0 1 2 []) 2 = some p ∧
      execTable p 0 = [some (.readEnd .binaryInput), some (.writeEnd (.output 0)),
        some (.file 2), none, none, none, none, some (.readEnd (.input 1)), none, none,
        some (.writeEnd (.output 1)), none, some (.writeEnd .templateRx),
        some (.readEnd .templateTx), none] ∧ ¬ Isolated 0 (execTable p 0) := by
  refine ⟨_, rfl, rfl, ?_⟩
  intro hisolated
  have hforeign := hisolated 7 (.input 1) (.inl rfl)
  cases hforeign

end KudosJudge.DescriptorIsolation
