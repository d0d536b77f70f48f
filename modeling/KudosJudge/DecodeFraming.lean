import KudosJudge.InterfaceDecode
import Mathlib.Tactic.Tauto

set_option autoImplicit false

/-!
The bodies are those without a NUL, and the memory ends with their terminator,
so a fault of the decoder is a read past it.
-/
namespace KudosJudge.InterfaceDecode
open CText

def LineAt (m m' : Memory) : Prop := ∃ line, newline ∉ line ∧ m = line ++ newline :: m'

def PayloadAt (m : Memory) (payload : List UInt8) (rest : Memory) : Prop :=
  LineAt m (payload ++ rest) ∧ atoi m = some (payload.length : ℤ)

inductive FeedAt : Memory → Feed → Memory → Prop where
  | data {m m' rest : Memory} {payload : List UInt8} (type : atoi m = some feedtypeData)
      (line : LineAt m m') (stored : PayloadAt m' payload rest) :
      FeedAt m ⟨feedtypeData, some payload, none⟩ rest
  | reference {m m' rest : Memory} {r : ℤ} (type : atoi m = some feedtypeReference)
      (line : LineAt m m') (number : atoi m' = some r) (line' : LineAt m' rest) :
      FeedAt m ⟨feedtypeReference, none, some r⟩ (newline :: rest)

/-- Every stored payload lies where the format puts it, with a newline before
each field that follows a feed. -/
def Stored (m : Memory) (request : IntRequest) : Prop :=
  ∃ m₁ m₂ rest, LineAt m m₁ ∧ FeedAt m₁ request.input (newline :: m₂) ∧
    FeedAt m₂ request.output rest ∧
    (request.type = reqTypeJudge → ∃ m₃ source rest', rest = newline :: m₃ ∧
      request.sourcecode = some source ∧ PayloadAt m₃ source rest')

/-- The decoder finishes on this body without reading past its terminator, and
what it accepts is stored as the format says. -/
def DecodesSafely (body : List UInt8) : Prop :=
  jugIntDecode (body ++ [0]) ≠ .fault ∧
    (∀ code, jugIntDecode (body ++ [0]) = .ret code → code = -2 ∨ code = -3 ∨ code = -4) ∧
    ∀ request, jugIntDecode (body ++ [0]) = .ok request → Stored (body ++ [0]) request

theorem LineAt.unique {m m₁ m₂ : Memory} (h₁ : LineAt m m₁) (h₂ : LineAt m m₂) : m₁ = m₂ := by
  obtain ⟨l₁, n₁, rfl⟩ := h₁
  obtain ⟨l₂, n₂, h⟩ := h₂
  have e := skipLine_line n₂ m₂
  rw [← h, skipLine_line n₁] at e
  injection e

theorem PayloadAt.unique {m rest₁ rest₂ : Memory} {p₁ p₂ : List UInt8}
    (h₁ : PayloadAt m p₁ rest₁) (h₂ : PayloadAt m p₂ rest₂) : p₁ = p₂ ∧ rest₁ = rest₂ := by
  have hl := h₁.2.symm.trans h₂.2
  injection hl with hl
  exact List.append_inj (h₁.1.unique h₂.1) (by omega)

theorem FeedAt.unique {m rest₁ rest₂ : Memory} {f₁ f₂ : Feed}
    (h₁ : FeedAt m f₁ rest₁) (h₂ : FeedAt m f₂ rest₂) : f₁ = f₂ ∧ rest₁ = rest₂ := by
  cases h₁ with
  | data t₁ l₁ s₁ =>
    cases h₂ with
    | data t₂ l₂ s₂ =>
      rw [l₁.unique l₂] at s₁
      obtain ⟨rfl, rfl⟩ := s₁.unique s₂
      exact ⟨rfl, rfl⟩
    | reference t₂ => rw [t₁] at t₂; cases t₂
  | reference t₁ l₁ n₁ r₁ =>
    cases h₂ with
    | data t₂ => rw [t₁] at t₂; cases t₂
    | reference t₂ l₂ n₂ r₂ =>
      rw [l₁.unique l₂] at n₁ r₁
      have hn := n₁.symm.trans n₂
      injection hn with hn
      rw [hn, r₁.unique r₂]
      exact ⟨rfl, rfl⟩

def declared (b : List UInt8) : ℕ := toSizeT ((atoi (b ++ [0])).getD 0)

def number (b : List UInt8) : ℤ := (atoi (b ++ [0])).getD 0

theorem atoi_terminated (b : List UInt8) : atoi (b ++ [0]) = some (number b) := by
  obtain ⟨v, hv⟩ := Option.isSome_iff_exists.mp (atoi_isSome (m := b ++ [0]) (by simp))
  rw [number, hv]
  rfl

theorem skipLine_terminated (b : List UInt8) :
    skipLine (b ++ [0]) = (skipLine b).map (· ++ [0]) := by
  induction b with
  | nil => rfl
  | cons c b ih =>
    rw [List.cons_append, skipLine, skipLine, ih]
    split_ifs <;> rfl

theorem skipLine_clean {b b' : List UInt8} (h : skipLine b = some b') (hb : 0 ∉ b) :
    0 ∉ b' ∧ b'.length ≤ b.length := by
  obtain ⟨line, _, rfl⟩ := skipLine_eq_some h
  refine ⟨fun hm => hb (by simp [hm]), ?_⟩
  simp only [List.length_append, List.length_cons]
  omega

theorem declared_eq {b : List UInt8} {n : ℕ} (hn : n < 2^63) (h : declared b ≤ n) :
    (number b).toNat = declared b ∧ (number b) = declared b := by
  have hb := atoi_bounds (atoi_terminated b)
  have hd : declared b = (number b % 2^64).toNat := rfl
  rw [hd] at h ⊢
  omega

theorem parsePayload_terminated {b : List UInt8} (hb : 0 ∉ b) (hlen : b.length < 2^63) :
    parsePayload (b ++ [0]) =
      match skipLine b with
      | none => .fault
      | some b' => if b'.length < declared b then .ret (-2)
          else .ok (b'.take (declared b), b'.drop (declared b) ++ [0]) := by
  simp only [parsePayload, atoi_terminated, skipLine_terminated]
  cases hs : skipLine b with
  | none => rfl
  | some b' =>
    obtain ⟨hclean, hle⟩ := skipLine_clean hs hb
    simp only [Option.map_some, Parse.read_some, Parse.ok_bind, strlen_append hclean []]
    have hd : toSizeT (number b) = declared b := rfl
    rw [hd]
    split_ifs with hshort
    · rfl
    · have hn := (declared_eq (b := b) (n := b'.length) (by omega) (by omega)).1
      rw [hn, List.take_append_of_le_length (by omega), List.drop_append_of_le_length (by omega)]
      rfl

theorem parseFeed_nil : parseFeed [] = .fault := rfl

/-- The lines of a feed are ended inside the body; `next` is asked of what
follows the feed, from its separator on, unless the feed is refused. -/
def FramedFeed (b : List UInt8) (next : List UInt8 → Prop) : Prop :=
  ∃ b₁, skipLine b = some b₁ ∧
    (number b = feedtypeData → ∃ b₂, skipLine b₁ = some b₂ ∧
      (declared b₁ ≤ b₂.length → next (b₂.drop (declared b₁)))) ∧
    (number b = feedtypeReference → ∃ b₂, skipLine b₁ = some b₂ ∧ next (newline :: b₂))

/-- Behind the feeds a judge request has one more line, a feed request needs only
the byte that is skipped. If the rest is accepted, the separators are newlines. -/
def FramedTail (type : ℤ) (after₁ after₂ : List UInt8) : Prop :=
  (type = reqTypeJudge → after₂ ≠ [] ∧ ∃ b, skipLine (after₂.drop 1) = some b ∧
    (declared (after₂.drop 1) ≤ b.length →
      after₁.head? = some newline ∧ after₂.head? = some newline)) ∧
  (type = reqTypeSetfeed → after₂ ≠ [] ∧ (after₂.drop 1 = [] → after₁.head? = some newline))

/-- Every line the decoder goes over is ended by a newline of the body, no
payload before another field reaches up to the end of the body, and the byte
behind such a payload is a newline if the body is accepted. -/
def Framed (body : List UInt8) : Prop :=
  ∃ b, skipLine body = some b ∧ FramedFeed b fun after₁ =>
    after₁ ≠ [] ∧ FramedFeed (after₁.drop 1) fun after₂ => FramedTail (number body) after₁ after₂

def Sound : Parse (IntRequest × Memory × Memory) → Prop
  | .fault => False
  | .ret code => code = -2 ∨ code = -3 ∨ code = -4
  | .ok (request, sep₁, sep₂) => sep₁.head? = some newline ∧
      (request.type = reqTypeJudge → sep₂.head? = some newline)

variable {γ : Type}

theorem feed_question {G : Parse γ → Prop} {K : Feed × Memory → Parse γ} {next : List UInt8 → Prop}
    {b : List UInt8} (hb : 0 ∉ b) (hlen : b.length < 2^63)
    (hfault : ¬ G .fault) (hshort : G (.ret (-2))) (hkind : G (.ret (-3)))
    (hnext : ∀ feed after, 0 ∉ after → after.length ≤ b.length →
      (G (K (feed, after ++ [0])) ↔ next after)) :
    G (parseFeed (b ++ [0]) >>= K) ↔ FramedFeed b next := by
  unfold FramedFeed
  simp only [parseFeed, atoi_terminated, skipLine_terminated, Parse.read_some, Parse.ok_bind]
  cases h₁ : skipLine b with
  | none => simp [hfault]
  | some b₁ =>
    obtain ⟨hb₁, hl₁⟩ := skipLine_clean h₁ hb
    simp only [Option.map_some, Parse.read_some, Parse.ok_bind, Option.some.injEq,
      exists_eq_left']
    by_cases hd : number b = feedtypeData
    · have hr : ¬ number b = feedtypeReference := by rw [hd]; decide
      simp only [hd, if_true, parsePayload_terminated hb₁ (by omega), true_imp_iff]
      rw [hd] at hr
      simp only [hr, false_imp_iff, and_true]
      cases h₂ : skipLine b₁ with
      | none => simp [hfault]
      | some b₂ =>
        obtain ⟨hb₂, hl₂⟩ := skipLine_clean h₂ hb₁
        simp only [Option.some.injEq, exists_eq_left']
        by_cases hs : b₂.length < declared b₁
        · simp only [if_pos hs, Parse.ret_bind]
          exact iff_of_true hshort fun hle => by omega
        · simp only [if_neg hs, Parse.ok_bind, Parse.pure_eq]
          rw [hnext _ _ (fun h => hb₂ (List.mem_of_mem_drop h))
            (by rw [List.length_drop]; omega)]
          exact ⟨fun h _ => h, fun h => h (by omega)⟩
    · simp only [hd, if_false, false_imp_iff, true_and]
      by_cases hr : number b = feedtypeReference
      · simp only [hr, if_true, true_imp_iff, atoi_terminated, skipLine_terminated,
          Parse.read_some, Parse.ok_bind]
        cases h₂ : skipLine b₁ with
        | none => simp [hfault]
        | some b₂ =>
          obtain ⟨hb₂, hl₂⟩ := skipLine_clean h₂ hb₁
          obtain ⟨line, _, hline⟩ := skipLine_eq_some h₂
          simp only [Option.map_some, Parse.read_some, Parse.ok_bind, Parse.pure_eq,
            Option.some.injEq, exists_eq_left']
          rw [← List.cons_append]
          apply hnext
          · rw [List.mem_cons, not_or]
            exact ⟨by decide, hb₂⟩
          · rw [hline] at hl₁
            simp only [List.length_append, List.length_cons] at hl₁ ⊢
            omega
      · simp only [hr, if_false, false_imp_iff, Parse.ret_bind]
        exact iff_of_true hkind trivial

theorem tail_question {type : ℤ} {input output : Feed} {after₁ after₂ : List UInt8}
    (h₁ : after₁ ≠ []) (hb : 0 ∉ after₂) (hlen : after₂.length < 2^63) :
    Sound (parseTail type ((after₂ ++ [0]).drop 1) >>= fun source =>
      .ok (⟨type, input, output, source⟩, after₁ ++ [0], after₂ ++ [0])) ↔
      FramedTail type after₁ after₂ := by
  have head : ∀ l : List UInt8, l ≠ [] → (l ++ [0]).head? = l.head? := by
    intro l hl
    cases l with
    | nil => exact absurd rfl hl
    | cons x l => rfl
  unfold FramedTail parseTail
  by_cases hj : type = reqTypeJudge
  · have hs : ¬ type = reqTypeSetfeed := by rw [hj]; decide
    simp only [hj, if_true, true_imp_iff]
    rw [hj] at hs
    simp only [hs, false_imp_iff, and_true]
    cases after₂ with
    | nil => simp [Sound, parsePayload, atoi, readNumber]
    | cons x rest =>
      have hrest : 0 ∉ rest := fun h => hb (List.mem_cons_of_mem _ h)
      simp only [List.cons_append, List.drop_succ_cons, List.drop_zero, ne_eq, reduceCtorEq,
        not_false_eq_true, true_and,
        parsePayload_terminated hrest (by simp only [List.length_cons] at hlen; omega)]
      cases h : skipLine rest with
      | none => simp [Sound]
      | some b =>
        simp only [Option.some.injEq, exists_eq_left']
        by_cases hshort : b.length < declared rest
        · simp only [if_pos hshort, Parse.ret_bind]
          exact iff_of_true (.inl rfl) fun hle => by omega
        · simp only [if_neg hshort, Parse.ok_bind, Parse.pure_eq, Sound, head after₁ h₁,
            List.head?_cons, true_imp_iff]
          exact ⟨fun h _ => h, fun h => h (by omega)⟩
  · simp only [hj, if_false, false_imp_iff, true_and]
    by_cases hs : type = reqTypeSetfeed
    · simp only [hs, if_true, true_imp_iff]
      cases after₂ with
      | nil => simp [Sound, strlen]
      | cons x rest =>
        have hrest : 0 ∉ rest := fun h => hb (List.mem_cons_of_mem _ h)
        simp only [List.cons_append, List.drop_succ_cons, List.drop_zero, ne_eq, reduceCtorEq,
          not_false_eq_true, true_and, strlen_append hrest [], Parse.read_some, Parse.ok_bind]
        by_cases hpos : rest.length > 0
        · simp only [if_pos hpos, Parse.ret_bind]
          exact iff_of_true (.inr (.inr rfl)) fun he => by rw [he] at hpos; cases hpos
        · have hnil : rest = [] := List.length_eq_zero_iff.mp (by omega)
          have hne : ¬ reqTypeSetfeed = reqTypeJudge := by decide
          simp only [if_neg hpos, Parse.pure_eq, Parse.ok_bind, Sound, head after₁ h₁, hne,
            false_imp_iff, and_true]
          exact ⟨fun h _ => h, fun h => h hnil⟩
    · simp only [hs, if_false, false_imp_iff, Parse.ret_bind]
      exact iff_of_true (.inr (.inl rfl)) trivial

theorem sound_iff_framed {body : List UInt8} (hb : 0 ∉ body) (hlen : body.length < 2^63) :
    Sound (decodeParts (body ++ [0])) ↔ Framed body := by
  unfold Framed
  simp only [decodeParts, atoi_terminated, skipLine_terminated, Parse.read_some, Parse.ok_bind]
  cases h : skipLine body with
  | none => simp [Sound]
  | some b =>
    obtain ⟨hb', hl'⟩ := skipLine_clean h hb
    simp only [Option.map_some, Parse.read_some, Parse.ok_bind, Option.some.injEq,
      exists_eq_left']
    apply feed_question hb' (by omega) (by simp [Sound]) (by simp [Sound]) (by simp [Sound])
    intro input after₁ ha₁ hl₁
    cases after₁ with
    | nil => simp [parseFeed_nil, Sound]
    | cons x rest =>
      have hrest : 0 ∉ rest := fun h => ha₁ (List.mem_cons_of_mem _ h)
      simp only [List.cons_append, List.drop_succ_cons, List.drop_zero, ne_eq, reduceCtorEq,
        not_false_eq_true, true_and]
      simp only [List.length_cons] at hl₁
      apply feed_question hrest (by omega) (by simp [Sound]) (by simp [Sound]) (by simp [Sound])
      intro output after₂ ha₂ hl₂
      exact tail_question (List.cons_ne_nil x rest) ha₂ (by omega)

theorem LineAt.length {m m' : Memory} (h : LineAt m m') : m'.length < m.length := by
  obtain ⟨line, _, rfl⟩ := h
  simp only [List.length_append, List.length_cons]
  omega

theorem lineAt_of_skipLine {m m' : Memory} (h : skipLine m = some m') : LineAt m m' :=
  skipLine_eq_some h

theorem parsePayload_ok {m rest : Memory} {payload : List UInt8} (hm : m.length < 2^63)
    (h : parsePayload m = .ok (payload, rest)) :
    PayloadAt m payload rest ∧ rest.length < m.length := by
  obtain ⟨size, hsize, h⟩ := Parse.bind_eq_ok h
  obtain ⟨m', hm', h⟩ := Parse.bind_eq_ok h
  obtain ⟨len, hlen, h⟩ := Parse.bind_eq_ok h
  replace hsize := Parse.read_eq_ok hsize
  have hline := lineAt_of_skipLine (Parse.read_eq_ok hm')
  have hl := hline.length
  have hstr : len ≤ m'.length := by
    have := Parse.read_eq_ok hlen
    rw [strlen] at this
    split_ifs at this
    injection this with this
    rw [← this]
    exact (List.takeWhile_prefix _).length_le
  have hb := atoi_bounds hsize
  split_ifs at h with hshort
  rw [Parse.pure_eq, Parse.ok.injEq, Prod.mk.injEq] at h
  obtain ⟨rfl, rfl⟩ := h
  have hfit : size.toNat ≤ m'.length ∧ 0 ≤ size := by
    unfold toSizeT at hshort
    omega
  refine ⟨⟨by rw [List.take_append_drop]; exact hline, ?_⟩, by rw [List.length_drop]; omega⟩
  rw [hsize, List.length_take]
  congr 1
  omega

theorem parseFeed_ok {m rest : Memory} {feed : Feed} (hm : m.length < 2^63)
    (h : parseFeed m = .ok (feed, rest)) : FeedAt m feed rest ∧ rest.length < m.length := by
  obtain ⟨type, htype, h⟩ := Parse.bind_eq_ok h
  obtain ⟨m', hm', h⟩ := Parse.bind_eq_ok h
  replace htype := Parse.read_eq_ok htype
  have hline := lineAt_of_skipLine (Parse.read_eq_ok hm')
  have hl := hline.length
  by_cases hd : type = feedtypeData
  · rw [if_pos hd] at h
    obtain ⟨⟨payload, r⟩, hp, h⟩ := Parse.bind_eq_ok h
    injection h with h
    injection h with hfeed hrest
    subst hfeed hrest
    obtain ⟨hp, hlen⟩ := parsePayload_ok (by omega) hp
    subst hd
    exact ⟨.data htype hline hp, by omega⟩
  · rw [if_neg hd] at h
    split_ifs at h with hr
    obtain ⟨r, hnum, h⟩ := Parse.bind_eq_ok h
    obtain ⟨m'', hm'', h⟩ := Parse.bind_eq_ok h
    rw [Parse.pure_eq, Parse.ok.injEq, Prod.mk.injEq] at h
    obtain ⟨rfl, rfl⟩ := h
    have hline' := lineAt_of_skipLine (Parse.read_eq_ok hm'')
    subst hr
    refine ⟨.reference htype hline (Parse.read_eq_ok hnum) hline', ?_⟩
    have := hline'.length
    rw [List.length_cons]
    omega

theorem decodeParts_ok {m sep₁ sep₂ : Memory} {request : IntRequest} (hm : m.length < 2^63)
    (h : decodeParts m = .ok (request, sep₁, sep₂)) :
    ∃ m₁, LineAt m m₁ ∧ FeedAt m₁ request.input sep₁ ∧ FeedAt (sep₁.drop 1) request.output sep₂ ∧
      (request.type = reqTypeJudge → ∃ source rest, request.sourcecode = some source ∧
        PayloadAt (sep₂.drop 1) source rest) := by
  obtain ⟨type, _, h⟩ := Parse.bind_eq_ok h
  obtain ⟨m₁, hm₁, h⟩ := Parse.bind_eq_ok h
  obtain ⟨⟨input, s₁⟩, hin, h⟩ := Parse.bind_eq_ok h
  obtain ⟨⟨output, s₂⟩, hout, h⟩ := Parse.bind_eq_ok h
  obtain ⟨source, hsource, h⟩ := Parse.bind_eq_ok h
  rw [Parse.pure_eq, Parse.ok.injEq, Prod.mk.injEq, Prod.mk.injEq] at h
  obtain ⟨rfl, rfl, rfl⟩ := h
  have hline := lineAt_of_skipLine (Parse.read_eq_ok hm₁)
  have hl := hline.length
  obtain ⟨hin, hl₁⟩ := parseFeed_ok (by omega) hin
  obtain ⟨hout, hl₂⟩ := parseFeed_ok (by rw [List.length_drop]; omega) hout
  refine ⟨m₁, hline, hin, hout, fun hj => ?_⟩
  rw [List.length_drop] at hl₂
  simp only at hj
  rw [parseTail, if_pos hj] at hsource
  obtain ⟨⟨payload, rest⟩, hp, h⟩ := Parse.bind_eq_ok hsource
  injection h with h
  exact ⟨payload, rest, h.symm, (parsePayload_ok (by rw [List.length_drop]; omega) hp).1⟩

theorem stored_iff_separators {m sep₁ sep₂ : Memory} {request : IntRequest} (hm : m.length < 2^63)
    (h : decodeParts m = .ok (request, sep₁, sep₂)) :
    Stored m request ↔ sep₁.head? = some newline ∧
      (request.type = reqTypeJudge → sep₂.head? = some newline) := by
  obtain ⟨m₁, hline, hin, hout, hjudge⟩ := decodeParts_ok hm h
  constructor
  · rintro ⟨n₁, n₂, rest, hline', hin', hout', hjudge'⟩
    rw [← hline.unique hline'] at hin'
    obtain ⟨_, rfl⟩ := hin.unique hin'
    obtain ⟨_, rfl⟩ := hout.unique hout'
    refine ⟨rfl, fun hj => ?_⟩
    obtain ⟨n₃, _, _, hrest, _⟩ := hjudge' hj
    rw [hrest]
    rfl
  · rintro ⟨h₁, h₂⟩
    have cons : ∀ l : Memory, l.head? = some newline → l = newline :: l.drop 1 := by
      intro l hl
      cases l with
      | nil => cases hl
      | cons x l =>
        injection hl with hx
        rw [hx]
        rfl
    refine ⟨m₁, sep₁.drop 1, sep₂, hline, by rw [← cons sep₁ h₁]; exact hin, hout, fun hj => ?_⟩
    obtain ⟨source, rest, hs, hp⟩ := hjudge hj
    exact ⟨sep₂.drop 1, source, rest, cons sep₂ (h₂ hj), hs, hp⟩

theorem decodesSafely_iff_sound {body : List UInt8} (hlen : body.length + 1 < 2^63) :
    DecodesSafely body ↔ Sound (decodeParts (body ++ [0])) := by
  unfold DecodesSafely jugIntDecode
  cases h : decodeParts (body ++ [0]) with
  | fault => simp [Sound]
  | ret code => simp [Sound]
  | ok out =>
    obtain ⟨request, sep₁, sep₂⟩ := out
    have hs := stored_iff_separators (by simpa using hlen) h
    simp only [Parse.ok_bind, Parse.pure_eq, ne_eq, reduceCtorEq, not_false_eq_true,
      false_imp_iff, implies_true, true_and, Parse.ok.injEq, forall_eq', Sound]
    exact hs

/-- The decoder is safe on a body, with all it accepts stored as declared,
exactly when the body is framed. -/
theorem decodesSafely_iff_framed (body : List UInt8) (hb : 0 ∉ body)
    (hlen : body.length < 30000000) : DecodesSafely body ↔ Framed body := by
  rw [decodesSafely_iff_sound (by omega), sound_iff_framed hb (by omega)]

theorem decodesSafely_iff_framed_small_request :
    DecodesSafely [48,10,48,10,49,10,97,10,48,10,49,10,98,10,49,10,99] ↔
      Framed [48,10,48,10,49,10,97,10,48,10,49,10,98,10,49,10,99] :=
  decodesSafely_iff_framed _ (by decide) (by decide)

theorem not_decodesSafely_empty : jugIntDecode ([] ++ [0]) = .fault ∧ ¬ DecodesSafely [] :=
  ⟨by decide, fun h => h.1 (by decide)⟩

-- A separator is skipped unseen: `X` stands where the newline behind the input should.
example : jugIntDecode ([48,10,48,10,49,10,97,88,48,10,49,10,98,10,49,10,99] ++ [0]) =
    .ok ⟨0, ⟨0, some [97], none⟩, ⟨0, some [98], none⟩, some [99]⟩ := by
  decide

end KudosJudge.InterfaceDecode
