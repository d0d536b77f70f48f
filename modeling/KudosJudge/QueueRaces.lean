import KudosJudge.ConnectionQueue
import Mathlib.Data.List.ReduceOption

set_option autoImplicit false

namespace KudosJudge.ConnectionQueue
open LinkedCells Runs

variable {n : ℕ}

def handed (q : Queue n) : List Connection := q.popped.reduceOption

section

variable (q : Queue n) (cells : List (Addr × Connection))

/-- Nothing is handed out twice or before its turn. -/
def InTurn (extra : List Connection) : Prop :=
  (handed q ++ cells.map Prod.snd ++ extra).Sublist q.pushed

def Loose (entry : Addr) : Prop :=
  ∃ v, q.heap entry = some ⟨v, none⟩ ∧ entry ∉ cells.map Prod.fst ∧ InTurn q cells [v]

def RaceFacts : Push → Prop
  | .idle => Settled q cells ∧ InTurn q cells []
  | .created entry => Settled q cells ∧ Loose q cells entry
  | .looked entry true => Settled q cells ∧ Loose q cells entry ∧ cells = []
  | .looked entry false => Settled q cells ∧ Loose q cells entry ∧
      (cells = [] → ∃ a, q.tail = some a ∧ q.heap a = none)
  | .linked entry => InTurn q cells [] ∧ ∀ c, cells.getLast? = some c → c.1 = entry
  | .tailed => Settled q cells ∧ InTurn q cells []

/-- The push has a connection for which it has not yet posted. -/
def underway : Push → ℕ
  | .idle => 0
  | _ => 1

structure Racing : Prop where
  chain : Chain q.heap q.head cells
  nodup : (cells.map Prod.fst).Nodup
  permits : q.pushed.length = q.popped.length + q.workSemaphore + q.granted.card + underway q.push
  facts : RaceFacts q cells q.push

end

variable {q q' : Queue n} {cells : List (Addr × Connection)}

theorem racing_queueInit : Racing (queueInit n) [] where
  chain := .nil
  nodup := List.nodup_nil
  permits := rfl
  facts := ⟨(fun _ hlast => by cases hlast), List.Sublist.refl []⟩

theorem Racing.not_mem (h : Racing q cells) {entry : Addr} (hfree : q.heap entry = none) :
    entry ∉ cells.map Prod.fst := by
  intro hmem
  obtain ⟨c, hc, rfl⟩ := List.mem_map.mp hmem
  obtain ⟨_, hcell⟩ := h.chain.allocated hc
  rw [hfree] at hcell
  cases hcell

theorem racing_create (h : Racing q cells) {connection : Connection} {entry : Addr}
    (hstep : step q (.create connection entry) = some q') : Racing q' cells := by
  simp only [step] at hstep
  split at hstep
  · rename_i hpush hfree
    have hnew := h.not_mem hfree
    have hfacts := h.facts
    have hpermits := h.permits
    rw [hpush] at hfacts hpermits
    obtain ⟨hsettled, hturn⟩ := hfacts
    rw [Option.some.injEq] at hstep
    subst hstep
    refine ⟨h.chain.frame_update hnew _, h.nodup, ?_, hsettled, connection,
      Function.update_self .., hnew, ?_⟩
    · simp only [underway, List.length_append, List.length_singleton] at hpermits ⊢
      omega
    · unfold InTurn at hturn ⊢
      rw [List.append_nil] at hturn
      exact hturn.append (List.Sublist.refl _)
  · cases hstep

theorem racing_readHead (h : Racing q cells) (hstep : step q .readHead = some q') :
    Racing q' cells := by
  simp only [step] at hstep
  split at hstep
  · rename_i entry hpush
    have hfacts := h.facts
    have hpermits := h.permits
    rw [hpush] at hfacts hpermits
    obtain ⟨hsettled, hloose⟩ := hfacts
    rw [Option.some.injEq] at hstep
    subst hstep
    refine ⟨h.chain, h.nodup, hpermits, ?_⟩
    have hchain := h.chain
    cases hhead : q.head with
    | none =>
      rw [hhead] at hchain
      exact ⟨hsettled, hloose, hchain.eq_nil_of_none⟩
    | some a =>
      refine ⟨hsettled, hloose, fun hnil => ?_⟩
      rw [hhead, hnil] at hchain
      cases hchain
  · cases hstep

theorem racing_link_head (h : Racing q cells) {entry : Addr} (hpush : q.push = .looked entry true) :
    ∃ cells', Racing { q with head := some entry, push := .linked entry } cells' := by
  have hfacts := h.facts
  have hpermits := h.permits
  rw [hpush] at hfacts hpermits
  obtain ⟨-, ⟨v, hentry, -, hturn⟩, rfl⟩ := hfacts
  refine ⟨[(entry, v)], .cons hentry .nil, List.nodup_singleton _, hpermits, ?_, ?_⟩
  · simpa [InTurn, handed] using hturn
  · intro c hc
    rw [List.getLast?_singleton, Option.some.injEq] at hc
    rw [← hc]

/-- The new entry goes behind the last one, or is lost with it. -/
theorem racing_link_tail (h : Racing q cells) {entry : Addr}
    (hpush : q.push = .looked entry false) : ∃ cells', Racing
      { q with heap := writeNext q.heap q.tail entry, push := .linked entry } cells' := by
  have hfacts := h.facts
  have hpermits := h.permits
  rw [hpush] at hfacts hpermits
  obtain ⟨hsettled, ⟨v, hentry, hnew, hturn⟩, hfreed⟩ := hfacts
  cases hlast : cells.getLast? with
  | none =>
    obtain rfl := List.getLast?_eq_none_iff.mp hlast
    obtain ⟨a, htail, hnone⟩ := hfreed rfl
    have hsame : writeNext q.heap q.tail entry = q.heap := by
      simp only [writeNext, htail, hnone]
    rw [hsame]
    refine ⟨[], h.chain, List.nodup_nil, hpermits, ?_, fun _ hc => by cases hc⟩
    have hpart : (handed q ++ [] ++ []).Sublist (handed q ++ [] ++ [v]) :=
      (List.Sublist.refl _).append (List.nil_sublist _)
    exact hpart.trans hturn
  | some c =>
    obtain ⟨t, u⟩ := c
    obtain ⟨p, hcell⟩ := h.chain.allocated (List.mem_of_getLast? hlast)
    have hwrite : writeNext q.heap q.tail entry =
        Function.update q.heap t (some ⟨u, some entry⟩) := by
      rw [hsettled _ hlast]
      simp only [writeNext, hcell]
    refine ⟨cells ++ [(entry, v)], ?_, ?_, hpermits, ?_, ?_⟩
    · change Chain (writeNext q.heap q.tail entry) q.head _
      rw [hwrite]
      exact h.chain.link h.nodup hlast hentry hnew
    · rw [List.map_append, List.map_singleton]
      refine List.nodup_append.mpr ⟨h.nodup, List.nodup_singleton _, ?_⟩
      rintro a ha b hb rfl
      rw [List.mem_singleton.mp hb] at ha
      exact hnew ha
    · simpa [InTurn, handed] using hturn
    · intro c hc
      rw [List.getLast?_concat, Option.some.injEq] at hc
      rw [← hc]

theorem racing_link (h : Racing q cells) (hstep : step q .link = some q') :
    ∃ cells', Racing q' cells' := by
  simp only [step] at hstep
  split at hstep
  · rename_i entry hpush
    rw [Option.some.injEq] at hstep
    subst hstep
    exact racing_link_head h hpush
  · rename_i entry hpush
    rw [Option.some.injEq] at hstep
    subst hstep
    exact racing_link_tail h hpush
  · cases hstep

theorem racing_writeTail (h : Racing q cells) (hstep : step q .writeTail = some q') :
    Racing q' cells := by
  simp only [step] at hstep
  split at hstep
  · rename_i entry hpush
    have hfacts := h.facts
    have hpermits := h.permits
    rw [hpush] at hfacts hpermits
    rw [Option.some.injEq] at hstep
    subst hstep
    refine ⟨h.chain, h.nodup, hpermits, fun c hc => ?_, hfacts.1⟩
    rw [hfacts.2 c hc]
  · cases hstep

theorem racing_semPost (h : Racing q cells) (hstep : step q .semPost = some q') :
    Racing q' cells := by
  simp only [step] at hstep
  split at hstep
  · rename_i hpush
    have hfacts := h.facts
    have hpermits := h.permits
    rw [hpush] at hfacts hpermits
    rw [Option.some.injEq] at hstep
    subst hstep
    refine ⟨h.chain, h.nodup, ?_, hfacts⟩
    simp only [underway] at hpermits ⊢
    omega
  · cases hstep

theorem racing_semWait (h : Racing q cells) {worker : Fin n}
    (hstep : step q (.semWait worker) = some q') : Racing q' cells := by
  simp only [step] at hstep
  split_ifs at hstep with hfree
  rw [Option.some.injEq] at hstep
  subst hstep
  refine ⟨h.chain, h.nodup, ?_, h.facts⟩
  have hpermits := h.permits
  simp only [Finset.card_insert_of_notMem hfree.1]
  omega

theorem pop_cases (h : Racing q cells) {worker : Fin n} (hstep : step q (.pop worker) = some q') :
    worker ∈ q.granted ∧
      ((q.head = none ∧ cells = [] ∧
        q' = { q with granted := q.granted.erase worker, popped := q.popped ++ [none] }) ∨
      ∃ a cell rest, q.head = some a ∧ q.heap a = some cell ∧ cells = (a, cell.value) :: rest ∧
        Chain (Function.update q.heap a none) cell.next rest ∧
        q' = afterPop q worker a cell) := by
  simp only [step] at hstep
  split_ifs at hstep with hgranted
  refine ⟨hgranted, ?_⟩
  have hchain := h.chain
  cases hhead : q.head with
  | none =>
    rw [hhead] at hchain
    simp only [queuePopConnection, hhead, Option.some.injEq] at hstep
    exact .inl ⟨rfl, hchain.eq_nil_of_none, hstep.symm⟩
  | some a =>
    rw [hhead] at hchain
    cases hcell : q.heap a with
    | none => simp [queuePopConnection, hhead, hcell] at hstep
    | some cell =>
      obtain ⟨rest, hcells, -, hrest⟩ := hchain.unlink hcell h.nodup
      simp only [queuePopConnection, hhead, hcell, Option.some.injEq] at hstep
      exact .inr ⟨a, cell, rest, rfl, hcell, hcells, hrest, hstep.symm⟩

section

variable {a : Addr} {cell : Cell Addr Connection} {rest : List (Addr × Connection)}
  {worker : Fin n} {extra : List Connection}

theorem InTurn.pop (h : InTurn q ((a, cell.value) :: rest) extra) :
    InTurn (afterPop q worker a cell) rest extra := by
  unfold InTurn handed at h ⊢
  simpa [afterPop, List.reduceOption_append] using h

theorem Loose.pop {entry : Addr} (h : Loose q ((a, cell.value) :: rest) entry) :
    Loose (afterPop q worker a cell) rest entry := by
  obtain ⟨v, hentry, hnew, hturn⟩ := h
  rw [List.map_cons, List.mem_cons, not_or] at hnew
  refine ⟨v, ?_, hnew.2, hturn.pop⟩
  change Function.update q.heap a none entry = _
  rw [Function.update_of_ne hnew.1, hentry]

theorem raceFacts_pop (hfacts : RaceFacts q ((a, cell.value) :: rest) q.push) :
    RaceFacts (afterPop q worker a cell) rest q.push := by
  cases hpush : q.push with
  | idle =>
    rw [hpush] at hfacts
    exact ⟨hfacts.1.pop, hfacts.2.pop⟩
  | created entry =>
    rw [hpush] at hfacts
    exact ⟨hfacts.1.pop, hfacts.2.pop⟩
  | looked entry empty =>
    rw [hpush] at hfacts
    cases empty with
    | true => cases hfacts.2.2
    | false =>
      refine ⟨hfacts.1.pop, hfacts.2.1.pop, fun hnil => ⟨a, ?_, Function.update_self ..⟩⟩
      subst hnil
      exact hfacts.1 (a, cell.value) rfl
  | linked entry =>
    rw [hpush] at hfacts
    exact ⟨hfacts.1.pop, fun c hc => hfacts.2 c (getLast?_rest hc)⟩
  | tailed =>
    rw [hpush] at hfacts
    exact ⟨hfacts.1.pop, hfacts.2.pop⟩

end

theorem racing_pop (h : Racing q cells) {worker : Fin n}
    (hstep : step q (.pop worker) = some q') : ∃ cells', Racing q' cells' := by
  have hpermits := h.permits
  obtain ⟨hgranted, ⟨hhead, rfl, rfl⟩ | ⟨a, cell, rest, hhead, hcell, rfl, hrest, rfl⟩⟩ :=
    pop_cases h hstep
  · have hcard := Finset.card_erase_add_one hgranted
    have hhanded : handed { q with
        granted := q.granted.erase worker, popped := q.popped ++ [none] } = handed q := by
      simp [handed, List.reduceOption_append]
    refine ⟨[], h.chain, List.nodup_nil, ?_, ?_⟩
    · simp only [List.length_append, List.length_singleton]
      omega
    · have hfacts := h.facts
      unfold RaceFacts Loose InTurn at hfacts ⊢
      rw [hhanded]
      exact hfacts
  · have hcard := Finset.card_erase_add_one hgranted
    refine ⟨rest, hrest, h.nodup.of_cons, ?_, raceFacts_pop h.facts⟩
    simp only [afterPop, List.length_append, List.length_singleton]
    omega

theorem racing_step (h : Racing q cells) {act : Action n} (hstep : step q act = some q') :
    ∃ cells', Racing q' cells' := by
  cases act with
  | create connection entry => exact ⟨cells, racing_create h hstep⟩
  | readHead => exact ⟨cells, racing_readHead h hstep⟩
  | link => exact racing_link h hstep
  | writeTail => exact ⟨cells, racing_writeTail h hstep⟩
  | semPost => exact ⟨cells, racing_semPost h hstep⟩
  | semWait worker => exact ⟨cells, racing_semWait h hstep⟩
  | pop worker => exact racing_pop h hstep

theorem racing_run (hrun : Reaches step (fun _ _ => True) (queueInit n) q) :
    ∃ cells, Racing q cells :=
  hrun.invariant (fun q => ∃ cells, Racing q cells) ⟨[], racing_queueInit⟩
    fun _ _ _ ⟨_, h⟩ _ hstep => racing_step h hstep

theorem Racing.inTurn (h : Racing q cells) : InTurn q cells [] := by
  have hfacts := h.facts
  have hloose : ∀ {entry}, Loose q cells entry → InTurn q cells [] := by
    rintro entry ⟨v, -, -, hturn⟩
    exact ((List.Sublist.refl _).append (List.nil_sublist _)).trans hturn
  cases hpush : q.push with
  | idle =>
    rw [hpush] at hfacts
    exact hfacts.2
  | created entry =>
    rw [hpush] at hfacts
    exact hloose hfacts.2
  | looked entry empty =>
    rw [hpush] at hfacts
    cases empty with
    | true => exact hloose hfacts.2.1
    | false => exact hloose hfacts.2.1
  | linked entry =>
    rw [hpush] at hfacts
    exact hfacts.1
  | tailed =>
    rw [hpush] at hfacts
    exact hfacts.2

/-- Whatever the workers do during a push: the connections that are handed out or queued are
connections pushed, each at most once and in their order; and behind a push a connection that
was not handed out has its permit in the semaphore, at a worker that will pop, or spent on a
pop in vain. -/
theorem queue_at_most_once (n : ℕ) (q : Queue n)
    (hrun : Reaches step (fun _ _ => True) (queueInit n) q) :
    ∃ cells, Chain q.heap q.head cells ∧ (handed q ++ cells.map Prod.snd).Sublist q.pushed ∧
      (q.push = .idle → q.pushed.length =
        (handed q).length + q.popped.count none + q.workSemaphore + q.granted.card) := by
  obtain ⟨cells, h⟩ := racing_run hrun
  refine ⟨cells, h.chain, ?_, fun hidle => ?_⟩
  · have hturn := h.inTurn
    unfold InTurn at hturn
    rwa [List.append_nil] at hturn
  · have hpermits := h.permits
    have hnone : (q.popped.filter Option.isNone).length = q.popped.count none := by
      rw [← List.countP_eq_length_filter]
      exact List.countP_congr fun o _ => by cases o <;> simp
    rw [hidle, underway, List.length_eq_reduceOption_length_add_filter_none (l := q.popped),
      hnone] at hpermits
    exact hpermits

theorem queue_at_most_once_losing :
    ∃ q, Reaches step (fun _ _ => True) (queueInit 1) q ∧ handed q = [7] ∧ q.pushed = [7, 8] ∧
      q.pushed.length =
        (handed q).length + q.popped.count none + q.workSemaphore + q.granted.card := by
  have hlose : ∃ q, runWhere step (fun _ _ => True) (queueInit 1)
      (losing ++ [.semWait 0, .pop 0]) = some q ∧ handed q = [7] ∧ q.pushed = [7, 8] ∧
        q.push = .idle :=
    ⟨_, rfl, rfl, rfl, rfl⟩
  obtain ⟨q, hq, hhanded, hpushed, hidle⟩ := hlose
  have hrun := reaches_of_runWhere hq
  obtain ⟨-, -, -, hpermits⟩ := queue_at_most_once 1 q hrun
  exact ⟨q, hrun, hhanded, hpushed, hpermits hidle⟩

end KudosJudge.ConnectionQueue
