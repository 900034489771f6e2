import AdversarialCognition.AgentBackends.Marciana
import AdversarialCognition.Backend.Recall
import AdversarialCognition.Lib.Printing
import AdversarialCognition.Lib.Runs

/-!
# What a session sees, and what it is listed

A memory is visible to a session if some read with a query shows it, on the default day.
`visible_iff` says which memories these are: the stored ones that are current, authorized for the
session's actor, valid on that day and have a token in their text. The token is what a query can
be made of.

`list_ids` asks the ranked recall for the empty query. An empty query shares no token with any
text, so the answer is always the empty list, and it is the right one exactly where nothing is
visible (`lists_visible_iff`).

## Why a token is enough

A query is bounded in length, and a text is too, more generously. A single token of the text has
to fit the bound of a query. Tokens are made of lower-cased characters of ASCII, each of which
comes from one character of the text (`length_filter_lower`), and no stored text exceeds its
bound, so a token that was in the text is short enough to be asked for.

## The invariant

`Sound` is what the runs keep: the registry is the registered one, the core is keyed and within
its size, and the nonces to come are unused. The last is about the counter and the core together,
and it is what makes the recall of a session go through. `marcianaAgent_next` is the inversion it
is proved from: a step starts over, leaves everything, or makes one request.
-/

namespace AdversarialCognition

open Py Py.Str

/-!
## Tokens

The query is cut into tokens before anything is looked for. The empty query has none, which is all
there is to `list_ids`; and for the other direction, a token of a stored text is itself a query
that finds the text and is within the bound on queries.
-/

theorem lower_of_isTokenChar {c : CodePoint} (h : isTokenChar c = true) : c.lower = [c] := by
  simp only [isTokenChar, decide_eq_true_eq] at h
  rw [CodePoint.lower, if_neg (by omega), if_neg (by omega), if_neg (by omega)]

/-- Lower-casing makes at most one character of ASCII out of each. -/
theorem length_filter_lower_le (c : CodePoint) : (c.lower.filter isTokenChar).length ≤ 1 := by
  unfold CodePoint.lower
  split_ifs with _ hdotted
  · exact List.length_filter_le _ _
  · decide
  · exact List.length_filter_le _ _
  · exact List.length_filter_le _ _

theorem length_filter_lower (s : Str) : ((lower s).filter isTokenChar).length ≤ s.length := by
  induction s with
  | nil => exact Nat.le_refl 0
  | cons c s ih =>
    have hc := length_filter_lower_le c
    rw [lower, List.flatMap_cons, List.filter_append, List.length_append, List.length_cons]
    rw [lower] at ih
    omega

theorem length_le_of_mem_words {s t : Str} (ht : t ∈ words s) : t.length ≤ s.length :=
  (length_le_of_mem_runs (List.mem_toFinset.mp ht)).trans (length_filter_lower s)

/-- A token is a text whose only token is itself. -/
theorem words_of_mem_words {s t : Str} (ht : t ∈ words s) : words t = {t} := by
  have hruns := List.mem_toFinset.mp ht
  have hlower : lower t = t := by
    rw [lower]
    have hsingle : t.flatMap CodePoint.lower = t.flatMap fun c => [c] :=
      List.flatMap_congr fun c hc => lower_of_isTokenChar (of_mem_runs hruns c hc)
    rw [hsingle, List.flatMap_singleton']
  rw [words, hlower, runs_of_all (ne_nil_of_mem_runs hruns) (of_mem_runs hruns),
    List.toFinset_cons, List.toFinset_nil, insert_empty_eq]

/-- The empty text has no tokens. This is all there is to `list_ids`. -/
theorem words_nil : words [] = ∅ := rfl

/-!
## The requests of a tool

What a tool may ask of the authenticated backend: a remember, a recall or a forget, with the next
nonce. It never replaces a memory, and it stores nothing over the bounds.
-/

/-- A request that any tool makes: it carries the next nonce, and never replaces a memory. -/
def Request.IsAgent (q : Request) (nonce : Str) : Prop :=
  match q with
  | .remember _ _ _ n => n = nonce
  | .recall _ _ _ _ n => n = nonce
  | .improve _ _ _ _ _ _ _ => False
  | .forget _ _ _ n => n = nonce

theorem Request.IsAgent.call_nonce {q : Request} {nonce : Str} (h : q.IsAgent nonce)
    (actor : Actor) : (q.call actor).nonce = nonce := by
  cases q with
  | improve => exact h.elim
  | _ => exact h

/-- What a tool stores is within bounds, whether or not its receipt can be made. -/
theorem Request.IsAgent.size_of_stores {q : Request} {nonce : Str} (h : q.IsAgent nonce)
    {actor : Actor} {b : AdversarialBackend} {memory : Memory}
    (hs : Stores b (q.call actor) memory) : memory.text.length ≤ maxTextChars := by
  cases q with
  | remember =>
    cases hs with
    | remember admits => exact admits.size
  | «recall» => cases hs
  | improve => exact h.elim
  | forget => cases hs

section Model

variable [Runtime] [CredentialScheme]

/-!
## What every reachable state keeps

The invariant of the agent's backend. The registry is the one it was built with, every record is
stored under its own id and has a text within the bound, and the nonces to come are free for every
did. A request moves the counter and spends one nonce at most, the next or none.
-/

/-- What holds of the backend after every run of the harness: the registry is the built-in one,
    each record is under its id and within the bound on texts, and the numbers above the last one
    make free nonces. -/
structure Sound (m : MarcianaAgentBackend) : Prop where
  registry : m.backend.identities = registered
  keyed : Keyed m.backend.core
  sized : ∀ id r, m.backend.core.memories.get? id = some r → r.text.length ≤ maxTextChars
  fresh : ∀ did n, m.nonce < n → (did, MarcianaAgentBackend.agentNonce n) ∉ m.backend.core.nonces

theorem sound_new : Sound MarcianaAgentBackend.new where
  registry := rfl
  keyed := keyed_after []
  sized id r hr := by simp [MarcianaAgentBackend.new, AuthenticatedBackend.new,
    AdversarialBackend.new] at hr
  fresh did n _ := Finset.notMem_empty _

/-- The backend after the request `q`, made by a tool. -/
def MarcianaAgentBackend.ask (m : MarcianaAgentBackend) (q : Request) : MarcianaAgentBackend where
  backend := (m.backend.perform q).2
  nonce := m.nonce + 1

/-- **The inversion.** A step starts over, or leaves everything, or makes one request. -/
theorem marcianaAgent_next (m : MarcianaAgentBackend) (op : AgentOp) :
    marcianaAgent.next m op = .new ∨ marcianaAgent.next m op = m ∨
      ∃ q : Request, q.IsAgent (MarcianaAgentBackend.agentNonce (m.nonce + 1)) ∧
        marcianaAgent.next m op = m.ask q := by
  cases op with
  | reset => exact Or.inl rfl
  | restart => exact Or.inr (Or.inl rfl)
  | write session memoryId text validFrom validUntil isPrivate derivedFrom =>
    refine Or.inr ?_
    cases session with
    | none => exact Or.inl rfl
    | some session =>
      simp only [Machine.next, marcianaAgent, MarcianaAgentBackend.write]
      cases hmemory : MarcianaAgentBackend.agentMemory session.1 memoryId text validFrom
        validUntil isPrivate derivedFrom with
      | error e => exact Or.inl rfl
      | ok memory =>
        refine Or.inr ⟨.remember memory session.1 session.2 _, rfl, ?_⟩
        dsimp only
        split <;> rfl
  -- a date that cannot be read raises before anything is asked
  | read session query asOf =>
    refine Or.inr ?_
    cases session with
    | none => exact Or.inl rfl
    | some session =>
      simp only [Machine.next, marcianaAgent, MarcianaAgentBackend.read]
      cases hday : parseDate asOf with
      | error e => exact Or.inl rfl
      | ok day =>
        refine Or.inr ⟨.recall query session.1 session.2 (day.getD MarcianaAgentBackend.defaultDate)
          _, rfl, ?_⟩
        dsimp only
        split
        · rfl
        · split <;> rfl
  | delete session memoryId =>
    refine Or.inr ?_
    cases session with
    | none => exact Or.inl rfl
    | some session =>
      refine Or.inr ⟨.forget memoryId session.1 session.2 _, rfl, ?_⟩
      simp only [Machine.next, marcianaAgent, MarcianaAgentBackend.delete]
      split <;> rfl
  | listIds session =>
    refine Or.inr ?_
    cases session with
    | none => exact Or.inl rfl
    | some session =>
      refine Or.inr ⟨.recall [] session.1 session.2 MarcianaAgentBackend.defaultDate _, rfl, ?_⟩
      simp only [Machine.next, marcianaAgent, MarcianaAgentBackend.listIds]
      split <;> rfl

omit [CredentialScheme] in
theorem Ruling.nonces_subset_insert {b b' : AdversarialBackend} {c : Call} {reply : Reply}
    (h : Ruling b c reply b') : b'.nonces ⊆ insert c.token b.nonces := by
  cases h with
  | replayed => exact Finset.subset_insert _ _
  | _ => simp [Call.token, Call.actor, Call.nonce]

/-- A request leaves the core alone, or is one call of it by some actor. -/
theorem ask_core {m : MarcianaAgentBackend} (hm : Sound m) (q : Request) :
    (m.ask q).backend.core = m.backend.core ∨
      ∃ actor, (m.ask q).backend.core = (m.backend.core.exec (q.call actor)).2 := by
  by_cases hby : ∃ record, q.By record
  · obtain ⟨record, hby⟩ := hby
    refine Or.inr ⟨AuthenticatedBackend.actor ⟨record⟩, ?_⟩
    rw [MarcianaAgentBackend.ask, perform_of_by hm.registry hby]
  · refine Or.inl ?_
    rw [MarcianaAgentBackend.ask, (perform_of_not_by hm.registry (not_exists.mp hby)).1]

/-- **A request keeps the invariant.** It spends the next nonce or none, and the counter is moved
    past it either way. -/
theorem sound_ask {m : MarcianaAgentBackend} (hm : Sound m) {q : Request}
    (hq : q.IsAgent (MarcianaAgentBackend.agentNonce (m.nonce + 1))) : Sound (m.ask q) where
  registry := simulation.inv m.backend (.request q) hm.registry
  keyed := by
    rcases ask_core hm q with hcore | ⟨actor, hcore⟩
    · rw [hcore]
      exact hm.keyed
    · rw [hcore]
      exact keyed_exec hm.keyed
  sized := by
    rcases ask_core hm q with hcore | ⟨actor, hcore⟩
    · rw [hcore]
      exact hm.sized
    · intro id r hr
      rw [hcore] at hr
      rcases (exec_ruling m.backend.core (q.call actor)).frame hr with ⟨hs, -⟩ | ⟨r₀, hr₀, hmark⟩
      · exact hq.size_of_stores hs
      · rw [hmark.text]
        exact hm.sized id r₀ hr₀
  fresh := by
    intro did n (hn : m.nonce + 1 < n)
    -- the nonce that was used has the number before, and later numbers are free
    have hold := hm.fresh did n (by omega)
    rcases ask_core hm q with hcore | ⟨actor, hcore⟩
    · rw [hcore]
      exact hold
    · rw [hcore]
      intro hmem
      have hmem := (exec_ruling m.backend.core (q.call actor)).nonces_subset_insert hmem
      rcases Finset.mem_insert.mp hmem with htoken | hmem
      · -- another number makes another nonce
        have hnonce := congrArg Prod.snd htoken
        rw [Call.token, hq.call_nonce] at hnonce
        have := ofNat_injective (List.append_cancel_left hnonce)
        omega
      · exact hold hmem

/-- **After every run.** -/
theorem sound_after (ops : List AgentOp) : Sound (marcianaAgent.after ops) := by
  refine Machine.invariant (P := Sound) sound_new ?_ ops
  intro m op hm
  rcases marcianaAgent_next m op with hnext | hnext | ⟨q, hq, hnext⟩
  · rw [hnext]
    exact sound_new
  · rw [hnext]
    exact hm
  · rw [hnext]
    exact sound_ask hm hq

/-!
## Reading

What a session can read, said twice: by what is stored and whether its record lies within the
authority of the session, and by whether there is a query that finds it. Within the bound on
queries the two are the same, a token of the text being such a query.
-/

/-- `session` authenticates as `s`: what `open_session` checks. -/
def IsSession (m : MarcianaAgentBackend) (session : AgentSession) (s : Session) : Prop :=
  m.backend.authenticate session.1 session.2 = .ok (some s)

/-- A stored memory that a query could find on the default day: it is current, within the
    authority of the session, in its window, and has a token to be found by. -/
structure Readable (b : AdversarialBackend) (actor : Actor) (id : Str) (r : Memory) : Prop where
  stored : b.memories.get? id = some r
  current : r.state = lit "current"
  authorized : AdversarialCognition.authorized r actor = true
  started : r.validFrom ≤ MarcianaAgentBackend.defaultDate
  unexpired : ∀ u, r.validUntil = some u → MarcianaAgentBackend.defaultDate < u
  token : (words r.text).Nonempty

/-- Some read with a query and the default day shows the id. -/
def Visible (m : MarcianaAgentBackend) (session : AgentSession) (id : Str) : Prop :=
  ∃ (query : Str) (result : ToolResult), query ≠ [] ∧
    (m.read (some session) query none).1 = .ok result ∧ id ∈ result.ids

/-- The recall of an authenticated session is never refused for its nonce. -/
theorem recall_of_isSession {m : MarcianaAgentBackend} (hm : Sound m) {session : AgentSession}
    {s : Session} (hs : IsSession m session s) {query : Str} (hsize : query.length ≤ maxQueryChars) :
    ∃ receipt b, m.backend.recall query session.1 session.2 MarcianaAgentBackend.defaultDate
        (MarcianaAgentBackend.agentNonce (m.nonce + 1)) =
      (.ok { allowed := true,
             ids := (m.backend.core.ranked query (AuthenticatedBackend.actor s)
               MarcianaAgentBackend.defaultDate).map Prod.snd,
             receipt := receipt }, b) := by
  obtain ⟨receipt, hreceipt⟩ := digest_ok_iff.mpr (encodable_recallText (m.backend.core.ranked
    query (AuthenticatedBackend.actor s) MarcianaAgentBackend.defaultDate))
  have hfresh := hm.fresh (AuthenticatedBackend.actor s).did (m.nonce + 1) (Nat.lt_succ_self _)
  let core := m.backend.core.spend (AuthenticatedBackend.actor s)
    (MarcianaAgentBackend.agentNonce (m.nonce + 1))
  refine ⟨receipt, { m.backend with core := core }, ?_⟩
  have hs : m.backend.authenticate session.1 session.2 = .ok (some s) := hs
  rw [AuthenticatedBackend.recall, AuthenticatedBackend.withSession, hs]
  dsimp only
  rw [AdversarialBackend.recall_of_fresh hfresh hsize, hreceipt]
  rfl

theorem read_of_isSession {m : MarcianaAgentBackend} (hm : Sound m) {session : AgentSession}
    {s : Session} (hs : IsSession m session s) {query : Str} (hsize : query.length ≤ maxQueryChars) :
    ∃ result, (m.read (some session) query none).1 = .ok result ∧
      result.ids = (m.backend.core.ranked query (AuthenticatedBackend.actor s)
        MarcianaAgentBackend.defaultDate).map Prod.snd := by
  obtain ⟨receipt, b, hrecall⟩ := recall_of_isSession hm hs hsize
  have hrecall' : m.nextNonce.2.backend.recall query session.1 session.2
      ((none : Option Date).getD MarcianaAgentBackend.defaultDate) m.nextNonce.1 = _ := hrecall
  simp only [MarcianaAgentBackend.read, parseDate, hrecall', Bool.not_true, Bool.false_eq_true,
    if_false]
  exact ⟨_, rfl, rfl⟩

theorem read_of_oversized {m : MarcianaAgentBackend} (hm : Sound m) {session : AgentSession}
    {s : Session} (hs : IsSession m session s) {query : Str} (hsize : maxQueryChars < query.length)
    {result : ToolResult} (h : (m.read (some session) query none).1 = .ok result) :
    result.ids = [] := by
  have hfresh := hm.fresh (AuthenticatedBackend.actor s).did (m.nonce + 1) (Nat.lt_succ_self _)
  have hs : m.backend.authenticate session.1 session.2 = .ok (some s) := hs
  have hrecall : (m.nextNonce.2.backend.recall query session.1 session.2
      ((none : Option Date).getD MarcianaAgentBackend.defaultDate) m.nextNonce.1).1 =
      .ok (denied "oversized-query") := by
    change (m.backend.recall query session.1 session.2 MarcianaAgentBackend.defaultDate
      (MarcianaAgentBackend.agentNonce (m.nonce + 1))).1 = _
    rw [AuthenticatedBackend.recall, AuthenticatedBackend.withSession, hs]
    dsimp only
    rw [AdversarialBackend.recall, AdversarialBackend.claim_of_fresh hfresh]
    simp only [Bool.not_true, Bool.false_eq_true, if_false, if_pos hsize]
    rfl
  simp only [MarcianaAgentBackend.read, parseDate, hrecall, denied_allowed, Bool.not_false,
    if_true, Except.ok.injEq] at h
  rw [← h]

/-- **The visible memories are the readable ones.** -/
theorem visible_iff {m : MarcianaAgentBackend} (hm : Sound m) {session : AgentSession}
    {s : Session} (hs : IsSession m session s) (id : Str) :
    Visible m session id ↔
      ∃ r, Readable m.backend.core (AuthenticatedBackend.actor s) id r := by
  constructor
  · rintro ⟨query, result, -, hread, hid⟩
    by_cases hsize : query.length ≤ maxQueryChars
    · obtain ⟨result', hread', hids⟩ := read_of_isSession hm hs hsize
      obtain rfl : result = result' := Except.ok.inj (hread.symm.trans hread')
      rw [hids] at hid
      obtain ⟨⟨score, _⟩, hmem, rfl⟩ := List.mem_map.mp hid
      obtain ⟨r, hstored, hstate, hauth, hfrom, huntil, rfl, hpos⟩ :=
        (mem_ranked_iff hm.keyed).mp hmem
      refine ⟨r, hstored, hstate, hauth, hfrom, huntil, ?_⟩
      exact (Finset.card_pos.mp hpos).mono Finset.inter_subset_right
    · rw [read_of_oversized hm hs (not_le.mp hsize) hread] at hid
      simp at hid
  · rintro ⟨r, h⟩
    -- the token is the query
    obtain ⟨t, ht⟩ := h.token
    have hsize : t.length ≤ maxQueryChars :=
      (length_le_of_mem_words ht).trans (hm.sized id r h.stored)
    obtain ⟨result, hread, hids⟩ := read_of_isSession hm hs hsize
    refine ⟨t, result, ne_nil_of_mem_runs (List.mem_toFinset.mp ht), hread, ?_⟩
    rw [hids]
    refine List.mem_map_of_mem (f := Prod.snd) (a := (1, id)) ((mem_ranked_iff hm.keyed).mpr
      ⟨r, h.stored, h.current, h.authorized, h.started, h.unexpired, ?_, Nat.one_pos⟩)
    rw [words_of_mem_words ht, Finset.singleton_inter_of_mem ht, Finset.card_singleton]

/-!
## Listing

`list_ids` recalls with the empty query, and the empty query finds nothing. The list is therefore
right exactly where there is nothing to list.
-/

/-- **The law**: the list is the visible memories, each once. -/
def ListsVisible (m : MarcianaAgentBackend) (session : AgentSession) : Prop :=
  ∃ result, (m.listIds (some session)).1 = .ok result ∧ result.ids.Nodup ∧
    ∀ id, id ∈ result.ids ↔ Visible m session id

/-- **The list is always empty.** -/
theorem listIds_of_isSession {m : MarcianaAgentBackend} (hm : Sound m) {session : AgentSession}
    {s : Session} (hs : IsSession m session s) :
    (m.listIds (some session)).1 = .ok { ids := [] } := by
  have hsize : ([] : Str).length ≤ maxQueryChars := Nat.zero_le _
  obtain ⟨receipt, b, hrecall⟩ := recall_of_isSession hm hs hsize
  have hempty : m.backend.core.ranked [] (AuthenticatedBackend.actor s)
      MarcianaAgentBackend.defaultDate = [] := by
    rw [List.eq_nil_iff_forall_not_mem]
    rintro ⟨score, id⟩ hmem
    obtain ⟨r, -, -, -, -, -, hscore, hpos⟩ := (mem_ranked_iff hm.keyed).mp hmem
    rw [words_nil, Finset.empty_inter, Finset.card_empty] at hscore
    omega
  rw [hempty] at hrecall
  have hrecall' : m.nextNonce.2.backend.recall [] session.1 session.2
      MarcianaAgentBackend.defaultDate m.nextNonce.1 = _ := hrecall
  simp only [MarcianaAgentBackend.listIds, hrecall', List.map_nil]

/-- **Listing is right exactly where there is nothing to list.** The ids are asked for with the
    empty query, which has no token to share with any text; so the answer is always empty, while a
    query made of a token of the text finds the record. -/
theorem lists_visible_iff (ops : List AgentOp) {session : AgentSession} {s : Session}
    (hs : IsSession (marcianaAgent.after ops) session s) :
    ListsVisible (marcianaAgent.after ops) session ↔
      ∀ id r, ¬ Readable (marcianaAgent.after ops).backend.core (AuthenticatedBackend.actor s)
        id r := by
  have hm := sound_after ops
  have hlist := listIds_of_isSession hm hs
  constructor
  · rintro ⟨result, hresult, -, hids⟩ id r hr
    obtain rfl : result = { ids := [] } := Except.ok.inj (hresult.symm.trans hlist)
    have hmem := (hids id).mpr ((visible_iff hm hs id).mpr ⟨r, hr⟩)
    simp at hmem
  · intro hnone
    refine ⟨{ ids := [] }, hlist, List.nodup_nil, fun id => ?_⟩
    rw [visible_iff hm hs]
    constructor
    · intro hmem
      simp at hmem
    · rintro ⟨r, hr⟩
      exact absurd hr (hnone id r)

/-!
## One write

A write by a session that is authorized for what it writes is admitted, and the store has the
memory under its id afterwards. With this it is known of concrete runs that there is something to
list.
-/

theorem marcianaAgent_next_write (m : MarcianaAgentBackend) (session : Option AgentSession)
    (memoryId text : Str) (validFrom validUntil : Option Str) (isPrivate : Bool)
    (derivedFrom : List Str) :
    marcianaAgent.next m
        (.write session memoryId text validFrom validUntil isPrivate derivedFrom) =
      (m.write session memoryId text validFrom validUntil isPrivate derivedFrom).2 := rfl

/-- What `write` stores, but for the digest of its text, when nothing but an id and a text
    is given. -/
def plainMemory (did memoryId text sourceDigest : Str) : Memory :=
  { memoryId := memoryId, text := text, source := lit "agent:" ++ did,
    sourceDigest := sourceDigest, validFrom := MarcianaAgentBackend.defaultFrom }

/-- **A write that is admitted** stores what it was given: the checks of the core, each from what
    is on record for the writer. -/
theorem write_of_isSession {m : MarcianaAgentBackend} (hm : Sound m) {session : AgentSession}
    {s : Session} (hs : IsSession m session s) (hmutate : s.record.canMutate = true)
    (htenant : lit "agstack" = s.record.tenant) (hspace : lit "coffee" = s.record.space)
    (hclear : 1 ≤ s.record.clearance) {text : Str} (hsize : text.length ≤ maxTextChars)
    (htext : Encodable text) (memoryId : Str) :
    ∃ sourceDigest,
      (m.write (some session) memoryId text none none false []).2.backend.core.memories =
        m.backend.core.memories.set memoryId
          (plainMemory session.1 memoryId text sourceDigest) := by
  obtain ⟨sourceDigest, hdigest⟩ := digest_ok_iff.mpr htext
  refine ⟨sourceDigest, ?_⟩
  have hmemory : MarcianaAgentBackend.agentMemory session.1 memoryId text none none false [] =
      .ok (plainMemory session.1 memoryId text sourceDigest) := by
    rw [MarcianaAgentBackend.agentMemory, hdigest]
    rfl
  have hadmits : m.backend.core.AdmitsRemember (plainMemory session.1 memoryId text sourceDigest)
      (AuthenticatedBackend.actor s) (MarcianaAgentBackend.agentNonce (m.nonce + 1)) :=
    ⟨hm.fresh _ _ (Nat.lt_succ_self _), hmutate, hsize, htenant, hspace, hclear⟩
  have hs : m.backend.authenticate session.1 session.2 = .ok (some s) := hs
  have hstate : (m.write (some session) memoryId text none none false []).2 =
      m.ask (.remember (plainMemory session.1 memoryId text sourceDigest) session.1 session.2
        (MarcianaAgentBackend.agentNonce (m.nonce + 1))) := by
    simp only [MarcianaAgentBackend.write, hmemory]
    split <;> rfl
  rw [hstate, MarcianaAgentBackend.ask, AuthenticatedBackend.perform,
    AuthenticatedBackend.remember, AuthenticatedBackend.withSession, hs]
  dsimp only
  rw [AdversarialBackend.remember_of_admits hadmits]
  rfl

end Model

/-!
## The operator writes a memory

The run on which the list is wrong, and another session for which, on the same store, it is right.
-/

section

attribute [local instance] cpython hmacScheme

/-- The session of a did, opened with its own credential. -/
def sessionOf (did : Str) : AgentSession := (did, CredentialScheme.credential did)

/-- A run of one write, by the operator. -/
def oneWrite : List AgentOp :=
  [.write (some (sessionOf "did:key:operator")) "m" "spot price" none none false []]

theorem isSession_of_record {m : MarcianaAgentBackend} (hm : Sound m) (did : Str)
    {record : IdentityRecord} (h : registered.records.get? did = some record) :
    IsSession m (sessionOf did) ⟨record⟩ := by
  rw [IsSession, AuthenticatedBackend.authenticate, hm.registry]
  exact IdentityRegistry.authenticate_of_authenticates ⟨h, rfl⟩

theorem operator_registered : registered.records.get? (lit "did:key:operator") =
    some { did := lit "did:key:operator", clearance := 3 } := by decide

theorem oneWrite_memories : ∃ sourceDigest,
    (marcianaAgent.after oneWrite).backend.core.memories =
      Dict.empty.set (lit "m")
        (plainMemory (lit "did:key:operator") (lit "m") (lit "spot price") sourceDigest) := by
  have hs : IsSession MarcianaAgentBackend.new (sessionOf (lit "did:key:operator"))
      ⟨{ did := lit "did:key:operator", clearance := 3 }⟩ :=
    isSession_of_record sound_new _ operator_registered
  have hsize : (lit "spot price").length ≤ maxTextChars := by decide
  obtain ⟨sourceDigest, hmemories⟩ := write_of_isSession sound_new hs rfl rfl rfl (by decide)
    hsize (encodable_lit _) (lit "m")
  refine ⟨sourceDigest, ?_⟩
  have hinit : (marcianaAgent.init : MarcianaAgentBackend) = .new := rfl
  have hempty : (MarcianaAgentBackend.new).backend.core.memories = Dict.empty := rfl
  rw [oneWrite, Machine.after, Machine.run_cons, Machine.run_nil, marcianaAgent_next_write, hinit,
    hmemories, hempty]
  rfl

/-- The operator, who wrote it, is not listed it. -/
theorem written_notListed : ¬ ∀ (ops : List AgentOp) (session : AgentSession) (s : Session),
    IsSession (marcianaAgent.after ops) session s →
    ListsVisible (marcianaAgent.after ops) session := by
  intro h
  have hm := sound_after oneWrite
  have hs := isSession_of_record hm (lit "did:key:operator") operator_registered
  obtain ⟨result, hresult, -, hids⟩ := h oneWrite _ _ hs
  obtain rfl : result = { ids := [] } :=
    Except.ok.inj (hresult.symm.trans (listIds_of_isSession hm hs))
  obtain ⟨sourceDigest, hmemories⟩ := oneWrite_memories
  have hvisible := (visible_iff hm hs (lit "m")).mpr ⟨_, {
    stored := by rw [hmemories, Dict.get?_set, if_pos rfl]
    current := rfl
    authorized := by rfl
    started := by
      change Date.lit 2026 1 1 ≤ Date.lit 2026 2 1
      decide
    unexpired := by
      intro u hu
      cases hu
    token := by
      change (words (lit "spot price")).Nonempty
      decide }⟩
  have hmem := (hids (lit "m")).mpr hvisible
  simp at hmem

/-- The outsider, who may not see it, is listed what it sees. -/
theorem lists_visible_outsider :
    ListsVisible (marcianaAgent.after oneWrite) (sessionOf "did:key:outsider") := by
  have hregistered : registered.records.get? (lit "did:key:outsider") =
      some { did := lit "did:key:outsider", tenant := lit "rival" } := by decide
  have hs := isSession_of_record (sound_after oneWrite) _ hregistered
  refine (lists_visible_iff oneWrite hs).mpr fun id r hr => ?_
  obtain ⟨sourceDigest, hmemories⟩ := oneWrite_memories
  have hstored := hr.stored
  rw [hmemories, Dict.get?_set] at hstored
  split at hstored
  · obtain rfl := Option.some.inj hstored
    exact absurd hr.authorized Bool.false_ne_true
  · simp at hstored

end

end AdversarialCognition
