import Mathlib.Data.Nat.Notation
import Mathlib.Logic.Relation
import Mathlib.Tactic.SplitIfs

set_option autoImplicit false

/-!
A machine is a partial function `step`: a state and a label to the next state.
`Reaches step ok` relates the ends of runs all of whose steps satisfy `ok`, a
condition on the label and the state before the step; `runWhere` computes them.
-/
namespace Runs

variable {σ α : Type*}

def Moves (step : σ → α → Option σ) (ok : σ → α → Prop) (s s' : σ) : Prop :=
  ∃ a, ok s a ∧ step s a = some s'

def Reaches (step : σ → α → Option σ) (ok : σ → α → Prop) : σ → σ → Prop :=
  Relation.ReflTransGen (Moves step ok)

section

variable {step : σ → α → Option σ} {ok : σ → α → Prop}

/-- What holds at the start and is kept by the steps holds of every state reached. -/
theorem Reaches.invariant {s s' : σ} (h : Reaches step ok s s') (inv : σ → Prop) (hs : inv s)
    (hstep : ∀ s a s', inv s → ok s a → step s a = some s' → inv s') : inv s' := by
  induction h with
  | refl => exact hs
  | tail _ hmove ih =>
    obtain ⟨a, hok, hnext⟩ := hmove
    exact hstep _ a _ ih hok hnext

/-- When every good state that is not final can come nearer to the end, each can get there. -/
theorem reaches_final {good final : σ → Prop} (distance : σ → ℕ)
    (hstep : ∀ s, good s → ¬ final s →
      ∃ s', Reaches step ok s s' ∧ good s' ∧ distance s' < distance s) {s : σ} (hs : good s) :
    ∃ t, Reaches step ok s t ∧ good t ∧ final t := by
  induction hn : distance s using Nat.strongRecOn generalizing s with
  | ind n ih =>
    by_cases hfinal : final s
    · exact ⟨s, Relation.ReflTransGen.refl, hs, hfinal⟩
    · obtain ⟨s', hnear, hs', hless⟩ := hstep s hs hfinal
      obtain ⟨t, hrun, ht, hfinal'⟩ := ih (distance s') (hn ▸ hless) hs' rfl
      exact ⟨t, hnear.trans hrun, ht, hfinal'⟩

theorem Reaches.map {τ β : Type*} {step' : τ → β → Option τ} {ok' : τ → β → Prop} {s s' : σ}
    (h : Reaches step ok s s') (f : σ → τ)
    (hstep : ∀ s a s', ok s a → step s a = some s' → f s' = f s ∨ Moves step' ok' (f s) (f s')) :
    Reaches step' ok' (f s) (f s') := by
  induction h with
  | refl => exact Relation.ReflTransGen.refl
  | tail _ hmove ih =>
    obtain ⟨a, hok, hnext⟩ := hmove
    rcases hstep _ a _ hok hnext with hsame | hmoves
    · rw [hsame]
      exact ih
    · exact ih.tail hmoves

theorem Reaches.weaken {s s' : σ} (h : Reaches step ok s s') {ok' : σ → α → Prop}
    (hok : ∀ s a, ok s a → ok' s a) : Reaches step ok' s s' := by
  induction h with
  | refl => exact Relation.ReflTransGen.refl
  | tail _ hmove ih =>
    obtain ⟨a, ha, hnext⟩ := hmove
    exact Relation.ReflTransGen.tail ih ⟨a, hok _ a ha, hnext⟩

def runWhere (step : σ → α → Option σ) (ok : σ → α → Prop) [∀ s a, Decidable (ok s a)] :
    σ → List α → Option σ
  | s, [] => some s
  | s, a :: as =>
    if ok s a then
      match step s a with
      | none => none
      | some s' => runWhere step ok s' as
    else none

variable [∀ s a, Decidable (ok s a)]

theorem reaches_of_runWhere {s s' : σ} {as : List α} (h : runWhere step ok s as = some s') :
    Reaches step ok s s' := by
  induction as generalizing s with
  | nil =>
    rw [runWhere, Option.some.injEq] at h
    subst h
    exact Relation.ReflTransGen.refl
  | cons a as ih =>
    rw [runWhere] at h
    split_ifs at h with hok
    cases hnext : step s a with
    | none => simp [hnext] at h
    | some t =>
      simp only [hnext] at h
      exact Relation.ReflTransGen.head ⟨a, hok, hnext⟩ (ih h)

theorem runWhere_history (inv : σ → List α → Prop)
    (hstep : ∀ s past a s', inv s past → ok s a → step s a = some s' → inv s' (past ++ [a]))
    {s s' : σ} {past as : List α} (hs : inv s past) (h : runWhere step ok s as = some s') :
    inv s' (past ++ as) := by
  induction as generalizing s past with
  | nil =>
    rw [runWhere, Option.some.injEq] at h
    subst h
    rw [List.append_nil]
    exact hs
  | cons a as ih =>
    rw [runWhere] at h
    split_ifs at h with hok
    cases hnext : step s a with
    | none => simp [hnext] at h
    | some t =>
      simp only [hnext] at h
      have hrest := ih (hstep s past a t hs hok hnext) h
      rwa [List.append_assoc] at hrest

end

section

variable {β : Type*} (step : σ → α → Option σ) (observe : σ → α → List β)

def recordStep (s : σ × List β) (a : α) : Option (σ × List β) :=
  (step s.1 a).map fun s' => (s', s.2 ++ observe s.1 a)

variable {step observe}

theorem recordStep_cases {s s' : σ × List β} {a : α}
    (h : recordStep step observe s a = some s') :
    step s.1 a = some s'.1 ∧ s'.2 = s.2 ++ observe s.1 a := by
  unfold recordStep at h
  obtain ⟨t, ht, rfl⟩ := Option.map_eq_some_iff.mp h
  exact ⟨ht, rfl⟩

theorem Reaches.unrecorded {ok : σ × List β → α → Prop} {ok' : σ → α → Prop}
    {s s' : σ × List β} (h : Reaches (recordStep step observe) ok s s')
    (hok : ∀ s a, ok s a → ok' s.1 a) : Reaches step ok' s.1 s'.1 := by
  induction h with
  | refl => exact Relation.ReflTransGen.refl
  | tail _ hmove ih =>
    obtain ⟨a, ha, hnext⟩ := hmove
    exact Relation.ReflTransGen.tail ih ⟨a, hok _ a ha, (recordStep_cases hnext).1⟩

theorem Reaches.silent {ok : σ → α → Prop} {ok' : σ × List β → α → Prop} {s s' : σ}
    (h : Reaches step ok s s') (past : List β) (hok : ∀ s a, ok s a → ok' (s, past) a)
    (hnone : ∀ s a, ok s a → observe s a = []) :
    Reaches (recordStep step observe) ok' (s, past) (s', past) := by
  induction h with
  | refl => exact Relation.ReflTransGen.refl
  | tail _ hmove ih =>
    obtain ⟨a, ha, hnext⟩ := hmove
    refine Relation.ReflTransGen.tail ih ⟨a, hok _ a ha, ?_⟩
    simp [recordStep, hnext, hnone _ a ha]

end

section

variable {step : σ → α → Option σ} {ok : σ → α → Prop} [∀ s a, Decidable (ok s a)]

theorem runWhere_append (s : σ) (as bs : List α) :
    runWhere step ok s (as ++ bs) = (runWhere step ok s as).bind (runWhere step ok · bs) := by
  induction as generalizing s with
  | nil => rfl
  | cons a as ih =>
    rw [List.cons_append, runWhere, runWhere]
    split_ifs
    · cases step s a with
      | none => rfl
      | some t => exact ih t
    · rfl

end

section

variable (step : σ → α → σ)

def trail : σ → List α → List σ
  | s, [] => [s]
  | s, a :: as => s :: trail (step s a) as

def moves : σ → List α → List (σ × α)
  | _, [] => []
  | s, a :: as => (s, a) :: moves (step s a) as

variable {step}

/-- When a good state stays good exactly under the moves that are `ok`, a run from one stays
good exactly when all its moves are. -/
theorem trail_iff {inv : σ → Prop} {ok : σ → α → Prop}
    (h : ∀ s a, inv s → (inv (step s a) ↔ ok s a)) {s : σ} (hs : inv s) (as : List α) :
    (∀ t ∈ trail step s as, inv t) ↔ ∀ p ∈ moves step s as, ok p.1 p.2 := by
  induction as generalizing s with
  | nil => simp [trail, moves, hs]
  | cons a as ih =>
    rw [trail, moves, List.forall_mem_cons, List.forall_mem_cons]
    by_cases hok : ok s a
    · rw [ih ((h s a hs).mpr hok)]
      simp [hs, hok]
    · have hbad : ¬ ∀ t ∈ trail step (step s a) as, inv t := by
        intro hall
        have hhead : step s a ∈ trail step (step s a) as := by
          cases as with
          | nil => exact List.mem_cons_self
          | cons b as => exact List.mem_cons_self
        exact hok ((h s a hs).mp (hall _ hhead))
      simp [hok, hbad]

end

section

variable {κ π : Type*}

/-- Finished runs of a machine with parameters in `κ`, each begun with what the one before
has left: `Sessions step ok begins ended rest p past q` leads from `p` to `q`, and `past` tells
the parameters and the last states. -/
inductive Sessions (step : κ → σ → α → Option σ) (ok : κ → σ → α → Prop) (begins : κ → π → σ)
    (ended : σ → Prop) (rest : σ → π) (p : π) : List (κ × σ) → π → Prop where
  | nil : Sessions step ok begins ended rest p [] p
  | snoc {past : List (κ × σ)} {q : π} {k : κ} {s : σ}
      (before : Sessions step ok begins ended rest p past q)
      (run : Reaches (step k) (ok k) (begins k q) s) (done : ended s) :
      Sessions step ok begins ended rest p (past ++ [(k, s)]) (rest s)

variable {step : κ → σ → α → Option σ} {ok : κ → σ → α → Prop} {begins : κ → π → σ}
  {ended : σ → Prop} {rest : σ → π} {p q : π} {past : List (κ × σ)}

theorem Sessions.next {q' : π} {k : κ} {s : σ} (h : Sessions step ok begins ended rest p past q)
    (run : Reaches (step k) (ok k) (begins k q) s) (done : ended s) (hrest : rest s = q') :
    Sessions step ok begins ended rest p (past ++ [(k, s)]) q' :=
  hrest ▸ h.snoc run done

theorem Sessions.each (h : Sessions step ok begins ended rest p past q) (good : π → Prop)
    (result : κ → σ → Prop) (hp : good p)
    (hrun : ∀ k q s, good q → Reaches (step k) (ok k) (begins k q) s → ended s →
      good (rest s) ∧ result k s) :
    good q ∧ ∀ r ∈ past, result r.1 r.2 := by
  induction h with
  | nil => exact ⟨hp, nofun⟩
  | snoc before run done ih =>
    obtain ⟨hgood, hresults⟩ := hrun _ _ _ ih.1 run done
    refine ⟨hgood, fun r hr => ?_⟩
    rcases List.mem_append.mp hr with hr | hr
    · exact ih.2 r hr
    · rw [List.mem_singleton.mp hr]
      exact hresults

theorem Sessions.carried (h : Sessions step ok begins ended rest p past q)
    (rel : π → List (κ × σ) → π → Prop) (hnil : rel p [] p)
    (hrun : ∀ past q k s, rel p past q → Reaches (step k) (ok k) (begins k q) s → ended s →
      rel p (past ++ [(k, s)]) (rest s)) :
    rel p past q := by
  induction h with
  | nil => exact hnil
  | snoc before run done ih => exact hrun _ _ _ _ ih run done

end

end Runs
