import KudosJudge.Library.LinkedCells
import KudosJudge.Library.Runs
import Mathlib.Data.Finset.Card

set_option autoImplicit false

/-!
`queue_push_connection` and `queue_pop_connection` of `queue.c`, with the accept
loop that calls the one and the `n` workers that call the other. A push is taken
apart at its accesses to the queue; a pop is one step, since the mutex is held.
-/
namespace KudosJudge.ConnectionQueue
open LinkedCells Runs

abbrev Addr := ℕ
abbrev Connection := ℕ

inductive Push where
  | idle
  | created (entry : Addr)
  | looked (entry : Addr) (empty : Bool)
  | linked (entry : Addr)
  | tailed
deriving DecidableEq, Repr

/-- `granted` are the workers between `sem_wait` and the pop. The lists record
the connections given to pushes and the results of pops. -/
structure Queue (n : ℕ) where
  heap : Addr → Option (Cell Addr Connection)
  head : Option Addr
  tail : Option Addr
  workSemaphore : ℕ
  push : Push
  granted : Finset (Fin n)
  pushed : List Connection
  popped : List (Option Connection)

inductive Action (n : ℕ) where
  | create (connection : Connection) (entry : Addr)
  | readHead
  | link
  | writeTail
  | semPost
  | semWait (worker : Fin n)
  | pop (worker : Fin n)
deriving DecidableEq, Repr

def queueInit (n : ℕ) : Queue n := ⟨fun _ => none, none, none, 0, .idle, ∅, [], []⟩

variable {n : ℕ}

/-- `p->next = entry`. What is written to a freed entry reaches no list: the entry is taken not to
be allocated again before the write. -/
def writeNext (heap : Addr → Option (Cell Addr Connection)) (p : Option Addr) (entry : Addr) :
    Addr → Option (Cell Addr Connection) :=
  match p with
  | none => heap
  | some a =>
    match heap a with
    | none => heap
    | some cell => Function.update heap a (some ⟨cell.value, some entry⟩)

def queuePopConnection (q : Queue n) : Option (Queue n × Option Connection) :=
  match q.head with
  | none => some (q, none)
  | some a =>
    match q.heap a with
    | none => none
    | some cell =>
      some ({ q with head := cell.next, heap := Function.update q.heap a none }, some cell.value)

/-- One step of the accept loop or of a worker; an entry is created where
`malloc` finds room. -/
def step (q : Queue n) : Action n → Option (Queue n)
  | .create connection entry =>
    match q.push, q.heap entry with
    | .idle, none => some { q with
        heap := Function.update q.heap entry (some ⟨connection, none⟩)
        push := .created entry
        pushed := q.pushed ++ [connection] }
    | _, _ => none
  | .readHead =>
    match q.push with
    | .created entry => some { q with push := .looked entry (q.head = none) }
    | _ => none
  | .link =>
    match q.push with
    | .looked entry true => some { q with head := some entry, push := .linked entry }
    | .looked entry false =>
      some { q with heap := writeNext q.heap q.tail entry, push := .linked entry }
    | _ => none
  | .writeTail =>
    match q.push with
    | .linked entry => some { q with tail := some entry, push := .tailed }
    | _ => none
  | .semPost =>
    match q.push with
    | .tailed => some { q with workSemaphore := q.workSemaphore + 1, push := .idle }
    | _ => none
  | .semWait worker =>
    if worker ∉ q.granted ∧ 0 < q.workSemaphore then
      some { q with
        workSemaphore := q.workSemaphore - 1
        granted := insert worker q.granted }
    else none
  | .pop worker =>
    if worker ∈ q.granted then
      match queuePopConnection q with
      | none => none
      | some (q, result) => some { q with
          granted := q.granted.erase worker
          popped := q.popped ++ [result] }
    else none

def lastEntry (q : Queue n) : Bool :=
  match q.head with
  | none => false
  | some a =>
    match q.heap a with
    | none => false
    | some cell => cell.next = none

/-- No pop takes the last entry from under a push that has seen it and not yet
linked its own. -/
def orderly (q : Queue n) : Action n → Bool
  | .pop _ =>
    match q.push with
    | .looked _ false => !lastEntry q
    | _ => true
  | _ => true

/-- Between pushes the popped and the queued connections are the pushed ones in
order, and no pop came back with nothing. -/
def Conserved (q : Queue n) : Prop :=
  (q.push = .idle → ∃ cells, Chain q.heap q.head cells ∧
    q.popped ++ cells.map (some ∘ Prod.snd) = q.pushed.map some) ∧ none ∉ q.popped

section

variable (q : Queue n) (cells : List (Addr × Connection))

def Settled : Prop := ∀ c, cells.getLast? = some c → q.tail = some c.1

def Ordered (extra : List Connection) : Prop :=
  q.popped ++ cells.map (some ∘ Prod.snd) ++ extra.map some = q.pushed.map some

def Unlinked (entry : Addr) : Prop :=
  ∃ v, q.heap entry = some ⟨v, none⟩ ∧ entry ∉ cells.map Prod.fst ∧ Ordered q cells [v]

def PushFacts : Push → Prop
  | .idle => Settled q cells ∧ Ordered q cells []
  | .created entry => Settled q cells ∧ Unlinked q cells entry
  | .looked entry empty => Settled q cells ∧ Unlinked q cells entry ∧ (empty = true ↔ cells = [])
  | .linked entry => Ordered q cells [] ∧ ∃ v, cells.getLast? = some (entry, v)
  | .tailed => Settled q cells ∧ Ordered q cells []

def unposted : Push → ℕ
  | .linked _ => 1
  | .tailed => 1
  | _ => 0

structure Inv : Prop where
  chain : Chain q.heap q.head cells
  nodup : (cells.map Prod.fst).Nodup
  count : cells.length = q.workSemaphore + q.granted.card + unposted q.push
  facts : PushFacts q cells q.push
  served : none ∉ q.popped

end

variable {q q' : Queue n} {cells : List (Addr × Connection)}

theorem inv_queueInit : Inv (queueInit n) [] where
  chain := .nil
  nodup := List.nodup_nil
  count := rfl
  facts := ⟨fun _ hlast => (nomatch hlast), rfl⟩
  served := List.not_mem_nil

theorem Inv.not_mem (h : Inv q cells) {entry : Addr} (hfree : q.heap entry = none) :
    entry ∉ cells.map Prod.fst := by
  intro hmem
  obtain ⟨c, hc, rfl⟩ := List.mem_map.mp hmem
  obtain ⟨_, hcell⟩ := h.chain.allocated hc
  rw [hfree] at hcell
  cases hcell

theorem inv_create (h : Inv q cells) {connection : Connection} {entry : Addr}
    (hstep : step q (.create connection entry) = some q') : Inv q' cells := by
  simp only [step] at hstep
  split at hstep
  · rename_i hpush hfree
    have hnew := h.not_mem hfree
    have hfacts := h.facts
    rw [hpush] at hfacts
    obtain ⟨hsettled, hordered⟩ := hfacts
    rw [Option.some.injEq] at hstep
    subst hstep
    refine ⟨h.chain.frame_update hnew _, h.nodup, ?_, ?_, h.served⟩
    · rw [h.count, hpush]
      rfl
    · refine ⟨hsettled, connection, Function.update_self .., hnew, ?_⟩
      unfold Ordered at hordered ⊢
      rw [List.map_nil, List.append_nil] at hordered
      rw [hordered, List.map_append]
  · cases hstep

theorem inv_readHead (h : Inv q cells) (hstep : step q .readHead = some q') : Inv q' cells := by
  simp only [step] at hstep
  split at hstep
  · rename_i entry hpush
    have hfacts := h.facts
    rw [hpush] at hfacts
    obtain ⟨hsettled, hunlinked⟩ := hfacts
    rw [Option.some.injEq] at hstep
    subst hstep
    refine ⟨h.chain, h.nodup, ?_, ⟨hsettled, hunlinked, ?_⟩, h.served⟩
    · rw [h.count, hpush]
      rfl
    · rw [decide_eq_true_iff]
      constructor
      · intro hhead
        have hchain := h.chain
        rw [hhead] at hchain
        exact hchain.eq_nil_of_none
      · rintro rfl
        have hchain := h.chain
        cases hhead : q.head with
        | none => rfl
        | some a => rw [hhead] at hchain; cases hchain
  · cases hstep

theorem inv_link_head (h : Inv q cells) {entry : Addr} (hpush : q.push = .looked entry true) :
    ∃ cells', Inv { q with head := some entry, push := .linked entry } cells' := by
  have hfacts := h.facts
  rw [hpush] at hfacts
  obtain ⟨-, ⟨v, hentry, -, hordered⟩, hempty⟩ := hfacts
  obtain rfl : cells = [] := hempty.mp rfl
  refine ⟨[(entry, v)], .cons hentry .nil, List.nodup_singleton _, ?_, ⟨?_, v, rfl⟩, h.served⟩
  · have hcount := h.count
    rw [hpush] at hcount
    simp only [unposted, List.length_nil, List.length_singleton] at hcount ⊢
    omega
  · simpa [Ordered] using hordered

theorem inv_link_tail (h : Inv q cells) {entry : Addr} (hpush : q.push = .looked entry false) :
    ∃ cells', Inv { q with heap := writeNext q.heap q.tail entry, push := .linked entry } cells' := by
  have hfacts := h.facts
  rw [hpush] at hfacts
  obtain ⟨hsettled, ⟨v, hentry, hnew, hordered⟩, hempty⟩ := hfacts
  have hne : cells ≠ [] := fun heq => by cases hempty.mpr heq
  obtain ⟨⟨t, w⟩, hlast⟩ := Option.isSome_iff_exists.mp (List.getLast?_isSome.mpr hne)
  obtain ⟨p, hcell⟩ := h.chain.allocated (List.mem_of_getLast? hlast)
  have hwrite : writeNext q.heap q.tail entry =
      Function.update q.heap t (some ⟨w, some entry⟩) := by
    rw [hsettled _ hlast]
    simp only [writeNext, hcell]
  refine ⟨cells ++ [(entry, v)], ?_, ?_, ?_, ⟨?_, v, List.getLast?_concat ..⟩, h.served⟩
  · change Chain (writeNext q.heap q.tail entry) q.head _
    rw [hwrite]
    exact h.chain.link h.nodup hlast hentry hnew
  · rw [List.map_append, List.map_singleton]
    refine List.nodup_append.mpr ⟨h.nodup, List.nodup_singleton _, ?_⟩
    rintro a ha b hb rfl
    rw [List.mem_singleton.mp hb] at ha
    exact hnew ha
  · have hcount := h.count
    rw [hpush] at hcount
    simp only [unposted, List.length_append, List.length_singleton] at hcount ⊢
    omega
  · simpa [Ordered] using hordered

theorem inv_link (h : Inv q cells) (hstep : step q .link = some q') : ∃ cells', Inv q' cells' := by
  simp only [step] at hstep
  split at hstep
  · rename_i entry hpush
    rw [Option.some.injEq] at hstep
    subst hstep
    exact inv_link_head h hpush
  · rename_i entry hpush
    rw [Option.some.injEq] at hstep
    subst hstep
    exact inv_link_tail h hpush
  · cases hstep

theorem inv_writeTail (h : Inv q cells) (hstep : step q .writeTail = some q') : Inv q' cells := by
  simp only [step] at hstep
  split at hstep
  · rename_i entry hpush
    have hfacts := h.facts
    rw [hpush] at hfacts
    obtain ⟨hordered, v, hlast⟩ := hfacts
    rw [Option.some.injEq] at hstep
    subst hstep
    refine ⟨h.chain, h.nodup, ?_, ⟨?_, hordered⟩, h.served⟩
    · rw [h.count, hpush]
      rfl
    · intro c hc
      rw [hlast, Option.some.injEq] at hc
      rw [← hc]
  · cases hstep

theorem inv_semPost (h : Inv q cells) (hstep : step q .semPost = some q') : Inv q' cells := by
  simp only [step] at hstep
  split at hstep
  · rename_i hpush
    have hfacts := h.facts
    rw [hpush] at hfacts
    rw [Option.some.injEq] at hstep
    subst hstep
    refine ⟨h.chain, h.nodup, ?_, hfacts, h.served⟩
    have hcount := h.count
    rw [hpush] at hcount
    simp only [unposted] at hcount ⊢
    omega
  · cases hstep

theorem inv_semWait (h : Inv q cells) {worker : Fin n}
    (hstep : step q (.semWait worker) = some q') : Inv q' cells := by
  simp only [step] at hstep
  split_ifs at hstep with hfree
  rw [Option.some.injEq] at hstep
  subst hstep
  refine ⟨h.chain, h.nodup, ?_, h.facts, h.served⟩
  have hcount := h.count
  simp only [Finset.card_insert_of_notMem hfree.1]
  omega

theorem getLast?_rest {a : Addr × Connection} {rest : List (Addr × Connection)}
    {c : Addr × Connection} (h : rest.getLast? = some c) : (a :: rest).getLast? = some c := by
  rw [List.getLast?_cons, h, Option.getD_some]

theorem Inv.permit (h : Inv q cells) {worker : Fin n} (hgranted : worker ∈ q.granted) :
    1 + unposted q.push ≤ cells.length := by
  have hcard : 0 < q.granted.card := Finset.card_pos.mpr ⟨worker, hgranted⟩
  rw [h.count]
  omega

def afterPop (q : Queue n) (worker : Fin n) (a : Addr) (cell : Cell Addr Connection) : Queue n :=
  { q with
    head := cell.next
    heap := Function.update q.heap a none
    granted := q.granted.erase worker
    popped := q.popped ++ [some cell.value] }

theorem step_pop (h : Inv q cells) {worker : Fin n} (hstep : step q (.pop worker) = some q') :
    worker ∈ q.granted ∧ ∃ a cell, q.head = some a ∧ q.heap a = some cell ∧
      q' = afterPop q worker a cell := by
  simp only [step] at hstep
  split_ifs at hstep with hgranted
  refine ⟨hgranted, ?_⟩
  have hpermit := h.permit hgranted
  have hchain := h.chain
  cases hhead : q.head with
  | none =>
    rw [hhead] at hchain
    rw [hchain.eq_nil_of_none, List.length_nil] at hpermit
    omega
  | some a =>
    cases hcell : q.heap a with
    | none => simp [queuePopConnection, hhead, hcell] at hstep
    | some cell =>
      refine ⟨a, cell, rfl, hcell, ?_⟩
      simp only [queuePopConnection, hhead, hcell, Option.some.injEq] at hstep
      exact hstep.symm

section

variable {a : Addr} {cell : Cell Addr Connection} {rest : List (Addr × Connection)}
  {worker : Fin n} {extra : List Connection}

theorem Ordered.pop (h : Ordered q ((a, cell.value) :: rest) extra) :
    Ordered (afterPop q worker a cell) rest extra := by
  unfold Ordered at h ⊢
  simpa [afterPop] using h

theorem Settled.pop (h : Settled q ((a, cell.value) :: rest)) :
    Settled (afterPop q worker a cell) rest :=
  fun c hc => h c (getLast?_rest hc)

theorem Unlinked.pop {entry : Addr} (h : Unlinked q ((a, cell.value) :: rest) entry) :
    Unlinked (afterPop q worker a cell) rest entry := by
  obtain ⟨v, hentry, hnew, hordered⟩ := h
  rw [List.map_cons, List.mem_cons, not_or] at hnew
  refine ⟨v, ?_, hnew.2, hordered.pop⟩
  change Function.update q.heap a none entry = _
  rw [Function.update_of_ne hnew.1, hentry]

theorem pushFacts_pop (hfacts : PushFacts q ((a, cell.value) :: rest) q.push)
    (hlooked : ∀ entry, q.push = .looked entry false → rest ≠ [])
    (hposted : unposted q.push ≤ rest.length) :
    PushFacts (afterPop q worker a cell) rest q.push := by
  cases hpush : q.push with
  | idle =>
    rw [hpush] at hfacts
    exact ⟨hfacts.1.pop, hfacts.2.pop⟩
  | created entry =>
    rw [hpush] at hfacts
    exact ⟨hfacts.1.pop, hfacts.2.pop⟩
  | looked entry empty =>
    rw [hpush] at hfacts
    obtain ⟨hsettled, hunlinked, hempty⟩ := hfacts
    refine ⟨hsettled.pop, hunlinked.pop, ?_⟩
    cases empty with
    | true => cases hempty.mp rfl
    | false => exact iff_of_false Bool.false_ne_true (hlooked entry hpush)
  | linked entry =>
    rw [hpush] at hfacts hposted
    obtain ⟨hordered, v, hlast⟩ := hfacts
    refine ⟨hordered.pop, v, ?_⟩
    cases rest with
    | nil => simp [unposted] at hposted
    | cons b rest => rwa [List.getLast?_cons_cons] at hlast
  | tailed =>
    rw [hpush] at hfacts
    exact ⟨hfacts.1.pop, hfacts.2.pop⟩

end

theorem inv_pop (h : Inv q cells) {worker : Fin n} (hok : orderly q (.pop worker))
    (hstep : step q (.pop worker) = some q') : ∃ cells', Inv q' cells' := by
  obtain ⟨hgranted, a, cell, hhead, hcell, rfl⟩ := step_pop h hstep
  have hpermit := h.permit hgranted
  have hchain := h.chain
  rw [hhead] at hchain
  obtain ⟨rest, rfl, hrest, hfreed⟩ := hchain.unlink hcell h.nodup
  rw [List.length_cons] at hpermit
  refine ⟨rest, hfreed, h.nodup.of_cons, ?_, pushFacts_pop h.facts ?_ (by omega), ?_⟩
  · have hcount := h.count
    have hcard := Finset.card_erase_add_one hgranted
    change rest.length = q.workSemaphore + (q.granted.erase worker).card + unposted q.push
    rw [List.length_cons] at hcount
    omega
  · intro entry hpush hnil
    subst hnil
    cases hnext : cell.next with
    | none => simp [orderly, hpush, lastEntry, hhead, hcell, hnext] at hok
    | some b => rw [hnext] at hrest; cases hrest
  · change none ∉ q.popped ++ [some cell.value]
    simpa using h.served

theorem inv_step (h : Inv q cells) {act : Action n} (hok : orderly q act)
    (hstep : step q act = some q') : ∃ cells', Inv q' cells' := by
  cases act with
  | create connection entry => exact ⟨cells, inv_create h hstep⟩
  | readHead => exact ⟨cells, inv_readHead h hstep⟩
  | link => exact inv_link h hstep
  | writeTail => exact ⟨cells, inv_writeTail h hstep⟩
  | semPost => exact ⟨cells, inv_semPost h hstep⟩
  | semWait worker => exact ⟨cells, inv_semWait h hstep⟩
  | pop worker => exact inv_pop h hok hstep

/-- In orderly runs no connection is lost or served twice, and no worker pops in vain. -/
theorem queue_conserved (n : ℕ) (q : Queue n)
    (hrun : Reaches step (fun q act => orderly q act = true) (queueInit n) q) : Conserved q := by
  obtain ⟨cells, h⟩ := hrun.invariant (fun q => ∃ cells, Inv q cells)
    ⟨[], inv_queueInit⟩ (fun _ _ _ ⟨_, h⟩ hok hstep => inv_step h hok hstep)
  refine ⟨fun hidle => ⟨cells, h.chain, ?_⟩, h.served⟩
  have hfacts := h.facts
  rw [hidle] at hfacts
  simpa [Ordered] using hfacts.2

def pushing (connection : Connection) (entry : Addr) : List (Action 1) :=
  [.create connection entry, .readHead, .link, .writeTail, .semPost]

theorem queue_conserved_two_served :
    ∃ q : Queue 1, q.popped = [some 7, some 8] ∧ q.push = .idle ∧ Conserved q := by
  have hrun : ∃ q : Queue 1, runWhere step (fun q act => orderly q act = true) (queueInit 1)
      (pushing 7 0 ++ pushing 8 1 ++ [.semWait 0, .pop 0, .semWait 0, .pop 0]) = some q ∧
        q.popped = [some 7, some 8] ∧ q.push = .idle :=
    ⟨_, rfl, rfl, rfl⟩
  obtain ⟨q, hq, hpopped, hidle⟩ := hrun
  exact ⟨q, hpopped, hidle, queue_conserved 1 q (reaches_of_runWhere hq)⟩

/-- The second push sees the first entry; the worker pops and frees that entry;
the push writes its link into it. Connection 8 is on no list, though its permit
is posted. -/
def losing : List (Action 1) :=
  pushing 7 0 ++ [.create 8 1, .readHead, .semWait 0, .pop 0, .link, .writeTail, .semPost]

theorem queue_loses_connection :
    (∃ q, Reaches step (fun _ _ => True) (queueInit 1) q ∧ q.push = .idle ∧ q.head = none ∧
      q.popped = [some 7] ∧ q.pushed = [7, 8] ∧ ¬ Conserved q) ∧
    ∃ q, Reaches step (fun _ _ => True) (queueInit 1) q ∧ q.popped = [some 7, none] := by
  have hlose : ∃ q, runWhere step (fun _ _ => True) (queueInit 1) losing = some q ∧
      q.push = .idle ∧ q.head = none ∧ q.popped = [some 7] ∧ q.pushed = [7, 8] :=
    ⟨_, rfl, rfl, rfl, rfl, rfl⟩
  have hpop : ∃ q, runWhere step (fun _ _ => True) (queueInit 1)
      (losing ++ [.semWait 0, .pop 0]) = some q ∧ q.popped = [some 7, none] :=
    ⟨_, rfl, rfl⟩
  obtain ⟨q, hq, hidle, hhead, hpopped, hpushed⟩ := hlose
  obtain ⟨q', hq', hnone⟩ := hpop
  refine ⟨⟨q, reaches_of_runWhere hq, hidle, hhead, hpopped, hpushed, ?_⟩,
    q', reaches_of_runWhere hq', hnone⟩
  rintro ⟨hall, -⟩
  obtain ⟨cells, hchain, horder⟩ := hall hidle
  rw [hhead] at hchain
  rw [hchain.eq_nil_of_none, hpopped, hpushed] at horder
  simp at horder

end KudosJudge.ConnectionQueue
