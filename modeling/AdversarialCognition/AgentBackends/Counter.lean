import AdversarialCognition.AgentBackends.Visible

/-!
# The counter and the claims

The nonce counter is the wrapper's, the set of claimed nonces is the core's. A reset starts both
over and a restart leaves both; a call that gets as far as the core has taken a number first. So
the core never holds a nonce that the counter has not issued since the last reset, and a call
always finds its own nonce free (`never_replays`), whichever identity it authenticates as.

A number is also taken by a call that does not authenticate, and then the core never hears of it. The
counter may be ahead of the set, and never behind.

## How a replay would show

The core refuses a nonce it holds with an error of its own, `replay` for a recall and
`replay-or-mutation-denied` for the operations that write, and it does so without touching the set
of nonces. `write`, `read` and `delete` hand the error on, so a replay would be read off their
replies (`IsReplay`). `list_ids` drops it and answers with the ids alone. What it cannot hide is
the set: a call that was not refused for its nonce has put a pair there that was not there before.
`NeverReplays` says both, of the steps that the harness takes and the replies that it gets, and
names no request in between; `asks` below is how the proofs talk of one.

The errors alone would not do for another reason. A principal who may not mutate is refused with
the same text as a replay. Nobody like that is on record (`canMutate_of_by`), which is the one fact
about the registered principals that is used here.
-/

namespace AdversarialCognition

open Py Py.Str

section Model

variable [Runtime] [CredentialScheme]

namespace MarcianaAgentBackend

/-- The request that a tool call makes, if it has a session and arguments that can be read. This
    is for the proofs: `next_eq` and `error_of_step` tie it to what the tools do. -/
def asks (m : MarcianaAgentBackend) : AgentOp → Option Request
  | .reset => none
  | .restart => none
  | .write session memoryId text validFrom validUntil isPrivate derivedFrom =>
      session.bind fun (did, presented) =>
        (agentMemory did memoryId text validFrom validUntil isPrivate derivedFrom).toOption.map
          fun memory => .remember memory did presented m.nextNonce.1
  | .read session query asOf =>
      session.bind fun (did, presented) =>
        (parseDate asOf).toOption.map fun day =>
          .recall query did presented (day.getD defaultDate) m.nextNonce.1
  | .delete session memoryId =>
      session.map fun (did, presented) => .forget memoryId did presented m.nextNonce.1
  | .listIds session =>
      session.map fun (did, presented) => .recall [] did presented defaultDate m.nextNonce.1

omit [CredentialScheme] in
theorem isAgent_of_asks {m : MarcianaAgentBackend} {op : AgentOp} {q : Request}
    (h : m.asks op = some q) : q.IsAgent (agentNonce (m.nonce + 1)) := by
  cases op with
  | reset => cases h
  | restart => cases h
  | write session memoryId text validFrom validUntil isPrivate derivedFrom =>
    obtain ⟨session, -, h⟩ := Option.bind_eq_some_iff.mp h
    obtain ⟨memory, -, rfl⟩ := Option.map_eq_some_iff.mp h
    rfl
  | read session query asOf =>
    obtain ⟨session, -, h⟩ := Option.bind_eq_some_iff.mp h
    obtain ⟨day, -, rfl⟩ := Option.map_eq_some_iff.mp h
    rfl
  | delete session memoryId =>
    obtain ⟨session, -, rfl⟩ := Option.map_eq_some_iff.mp h
    rfl
  | listIds session =>
    obtain ⟨session, -, rfl⟩ := Option.map_eq_some_iff.mp h
    rfl

/-- A step other than a reset makes the request it asks for, or does nothing. -/
theorem next_eq (m : MarcianaAgentBackend) {op : AgentOp} (h : op ≠ .reset) :
    marcianaAgent.next m op = ((m.asks op).map m.ask).getD m := by
  cases op with
  | reset => exact absurd rfl h
  | restart => rfl
  | write session memoryId text validFrom validUntil isPrivate derivedFrom =>
    cases session with
    | none => rfl
    | some session =>
      simp only [Machine.next, marcianaAgent, MarcianaAgentBackend.write, asks, Option.bind_some]
      cases agentMemory session.1 memoryId text validFrom validUntil isPrivate derivedFrom with
      | error e => rfl
      | ok memory =>
        dsimp only
        split <;> rfl
  -- a date that cannot be read is refused before anything is asked
  | read session query asOf =>
    cases session with
    | none => rfl
    | some session =>
      simp only [Machine.next, marcianaAgent, MarcianaAgentBackend.read, asks, Option.bind_some]
      cases parseDate asOf with
      | error e => rfl
      | ok day =>
        dsimp only
        split
        · rfl
        · split <;> rfl
  | delete session memoryId =>
    cases session with
    | none => rfl
    | some session =>
      simp only [Machine.next, marcianaAgent, MarcianaAgentBackend.delete]
      split <;> rfl
  | listIds session =>
    cases session with
    | none => rfl
    | some session =>
      simp only [Machine.next, marcianaAgent, MarcianaAgentBackend.listIds]
      split <;> rfl

/-- The nonces that the counter goes through in one step. -/
def issuedBy (m : MarcianaAgentBackend) (op : AgentOp) : List Str :=
  (List.range ((marcianaAgent.next m op).nonce - m.nonce)).map fun k => agentNonce (m.nonce + k + 1)

/-- The nonces that the counter issues over a run, from the last reset on: those in `since`, and
    those of the steps to come. -/
def issuedFrom (m : MarcianaAgentBackend) (since : List Str) : List AgentOp → List Str
  | [] => since
  | .reset :: ops => issuedFrom (marcianaAgent.next m .reset) [] ops
  | op :: ops => issuedFrom (marcianaAgent.next m op) (since ++ m.issuedBy op) ops

/-- `_next_nonce` since the last reset. -/
def issued (ops : List AgentOp) : List Str := issuedFrom marcianaAgent.init [] ops

/-- The first `n` nonces. -/
def nonces (n : ℕ) : List Str := (List.range n).map fun k => agentNonce (k + 1)

omit [Runtime] [CredentialScheme] in
theorem nonces_succ (n : ℕ) : nonces (n + 1) = nonces n ++ [agentNonce (n + 1)] := by
  rw [nonces, List.range_succ, List.map_append]
  rfl

/-- What a step takes from the counter comes after what has been taken before. -/
theorem nonces_append_issuedBy (m : MarcianaAgentBackend) {op : AgentOp} (h : op ≠ .reset) :
    nonces m.nonce ++ m.issuedBy op = nonces (marcianaAgent.next m op).nonce := by
  rw [issuedBy, next_eq m h]
  cases m.asks op with
  | none =>
    change nonces m.nonce ++ (List.range (m.nonce - m.nonce)).map _ = nonces m.nonce
    rw [Nat.sub_self, List.range_zero, List.map_nil, List.append_nil]
  | some q =>
    change nonces m.nonce ++ (List.range (m.nonce + 1 - m.nonce)).map _ = nonces (m.nonce + 1)
    rw [Nat.add_sub_cancel_left, nonces_succ]
    rfl

/-- **The counter tells what it has issued.** -/
theorem issuedFrom_eq (m : MarcianaAgentBackend) (ops : List AgentOp) :
    issuedFrom m (nonces m.nonce) ops = nonces (marcianaAgent.run m ops).nonce := by
  induction ops generalizing m with
  | nil => rfl
  | cons op ops ih =>
    rw [Machine.run_cons]
    by_cases hreset : op = .reset
    · subst hreset
      exact ih _
    · have hissued : issuedFrom m (nonces m.nonce) (op :: ops) =
          issuedFrom (marcianaAgent.next m op) (nonces m.nonce ++ m.issuedBy op) ops := by
        cases op with
        | reset => exact absurd rfl hreset
        | _ => rfl
      rw [hissued, nonces_append_issuedBy m hreset]
      exact ih _

theorem issued_eq (ops : List AgentOp) : issued ops = nonces (marcianaAgent.after ops).nonce :=
  issuedFrom_eq marcianaAgent.init ops

omit [CredentialScheme] in
/-- A free nonce is claimed, whatever comes of the call. -/
theorem nonces_of_fresh {b b' : AdversarialBackend} {c : Call} {reply : Reply}
    (h : Ruling b c reply b') (hfresh : c.token ∉ b.nonces) :
    b'.nonces = insert c.token b.nonces := by
  cases h with
  | replayed spent => exact absurd spent hfresh
  | _ => simp [Call.token, Call.actor, Call.nonce]

/-- Every claim is of a nonce the counter has issued. -/
def Issued (m : MarcianaAgentBackend) : Prop :=
  ∀ p ∈ m.backend.core.nonces, p.2 ∈ nonces m.nonce

/-- A request puts its own pair into the set, or nothing. Its number has just been issued. -/
theorem issued_ask {m : MarcianaAgentBackend} (hs : Sound m) (hm : Issued m) {q : Request}
    (hq : q.IsAgent (agentNonce (m.nonce + 1))) : Issued (m.ask q) := by
  have hold : ∀ p ∈ m.backend.core.nonces, p.2 ∈ nonces (m.nonce + 1) := by
    intro p hp
    rw [nonces_succ]
    exact List.mem_append_left _ (hm p hp)
  intro p hp
  rcases ask_core hs q with hcore | ⟨actor, hcore⟩
  · rw [hcore] at hp
    exact hold p hp
  · rw [hcore] at hp
    have hp := (exec_ruling m.backend.core (q.call actor)).nonces_subset_insert hp
    rcases Finset.mem_insert.mp hp with rfl | hp
    · have hnonce : (q.call actor).token.2 = agentNonce (m.nonce + 1) := hq.call_nonce actor
      rw [hnonce, MarcianaAgentBackend.ask, nonces_succ]
      exact List.mem_append_right _ List.mem_cons_self
    · exact hold p hp

/-- **After every run**, resets included. -/
theorem issued_after (ops : List AgentOp) : Issued (marcianaAgent.after ops) := by
  have hboth : Sound (marcianaAgent.after ops) ∧ Issued (marcianaAgent.after ops) := by
    refine Machine.invariant (P := fun m => Sound m ∧ Issued m) ⟨sound_new, ?_⟩ ?_ ops
    · exact fun p hp => absurd hp (Finset.notMem_empty _)
    · rintro m op ⟨hs, hm⟩
      by_cases hreset : op = .reset
      · subst hreset
        exact ⟨sound_new, fun p hp => absurd hp (Finset.notMem_empty _)⟩
      · rw [next_eq m hreset]
        cases hq : m.asks op with
        | none => exact ⟨hs, hm⟩
        | some q => exact ⟨sound_ask hs (isAgent_of_asks hq), issued_ask hs hm (isAgent_of_asks hq)⟩
  exact hboth.2

/-!
## What the core answers to a nonce that is free

A replay is told by the text of the error. These lemmas follow that text outwards: the core gives
it for a nonce that is taken and for nothing else, and so neither the authenticated backend nor a
tool comes by it, as each of them uses the next nonce.
-/

/-- The errors that the core refuses a claimed nonce with. -/
def IsReplay (error : Str) : Prop :=
  error = lit "replay" ∨ error = lit "replay-or-mutation-denied"

instance (error : Str) : Decidable (IsReplay error) := inferInstanceAs (Decidable (_ ∨ _))

omit [Runtime] [CredentialScheme] in
theorem not_isReplay_nil : ¬ IsReplay [] := by decide

omit [Runtime] [CredentialScheme] in
theorem canMutate_of_mem : ∀ record ∈ principals, record.canMutate = true := by decide

omit [Runtime] in
theorem canMutate_of_by {q : Request} {record : IdentityRecord} (h : q.By record) :
    (AuthenticatedBackend.actor ⟨record⟩).canMutate = true :=
  canMutate_of_mem record (record_of_registered h.1).2

omit [Runtime] [CredentialScheme] in
/-- A denial is a replay only by its text. -/
theorem not_isReplay_of_denied {error : Str} {d : Decision}
    (h : (.ok (denied error) : Reply) = .ok d) (herror : ¬ IsReplay error) : ¬ IsReplay d.error := by
  obtain rfl := Except.ok.inj h
  exact herror

omit [CredentialScheme] in
/-- **A call with a free nonce is not refused as a replay**, whatever else it is refused for. -/
theorem error_of_fresh {b : AdversarialBackend} {q : Request} {nonce : Str} (hq : q.IsAgent nonce)
    {actor : Actor} (hmutate : actor.canMutate = true) (hfresh : (actor.did, nonce) ∉ b.nonces)
    {d : Decision} (h : (b.exec (q.call actor)).1 = .ok d) : ¬ IsReplay d.error := by
  cases q with
  | remember memory did presented n =>
    obtain rfl : n = nonce := hq
    simp only [Request.call, AdversarialBackend.exec, AdversarialBackend.remember,
      AdversarialBackend.claim_of_fresh hfresh, hmutate, Bool.not_true, Bool.or_self,
      Bool.false_eq_true, if_false] at h
    -- one goal for each check that can refuse, then the digest and the receipt
    split_ifs at h
    · exact not_isReplay_of_denied h (by decide)
    · exact not_isReplay_of_denied h (by decide)
    · exact not_isReplay_of_denied h (by decide)
    · split at h
      · cases h
      · cases h
        exact not_isReplay_nil
  | «recall» query did presented asOf n =>
    obtain rfl : n = nonce := hq
    simp only [Request.call, AdversarialBackend.exec, AdversarialBackend.recall,
      AdversarialBackend.claim_of_fresh hfresh, Bool.not_true, Bool.false_eq_true, if_false] at h
    split_ifs at h
    · exact not_isReplay_of_denied h (by decide)
    · split at h
      · cases h
      · cases h
        exact not_isReplay_nil
  | improve => exact hq.elim
  | forget memoryId did presented n =>
    obtain rfl : n = nonce := hq
    simp only [Request.call, AdversarialBackend.exec, AdversarialBackend.forget,
      AdversarialBackend.claim_of_fresh hfresh, hmutate, Bool.not_true, Bool.or_self,
      Bool.false_eq_true, if_false] at h
    split at h
    · exact not_isReplay_of_denied h (by decide)
    · split_ifs at h
      · exact not_isReplay_of_denied h (by decide)
      · split at h
        · cases h
        · cases h
          exact not_isReplay_nil

/-- A request of the authenticated backend under the next nonce is not refused as a replay. Where
    nobody is authenticated it does not get to the core, and is denied for that. -/
theorem error_of_perform {m : MarcianaAgentBackend} (hm : Sound m) {q : Request}
    (hq : q.IsAgent (agentNonce (m.nonce + 1))) {d : Decision}
    (h : (m.backend.perform q).1 = .ok d) : ¬ IsReplay d.error := by
  by_cases hby : ∃ record, q.By record
  · obtain ⟨record, hby⟩ := hby
    rw [perform_of_by hm.registry hby] at h
    have hexec : (m.backend.core.exec (q.call (AuthenticatedBackend.actor ⟨record⟩))).1 = .ok d := by
      revert h
      cases (m.backend.core.exec (q.call (AuthenticatedBackend.actor ⟨record⟩))).1 with
      | error e => exact fun h => nomatch h
      | ok d' => exact fun h => congrArg _ (Except.ok.inj h)
    exact error_of_fresh hq (canMutate_of_by hby) (hm.fresh _ _ (Nat.lt_succ_self _)) hexec
  · rw [perform_eq, AuthenticatedBackend.withSession, AuthenticatedBackend.authenticate,
      hm.registry] at h
    rcases IdentityRegistry.authenticate_of_not (not_exists.mp hby) with hnone | herror
    · rw [hnone] at h
      cases h
      exact (by decide : ¬ IsReplay authenticationDenied.error)
    · rw [herror.2] at h
      cases h

/-- **No tool hands on the error of a replay.** -/
theorem error_of_step {m : MarcianaAgentBackend} (hm : Sound m) (op : AgentOp) {r : ToolResult}
    (h : (marcianaAgent.step m op).1 = some (.ok r)) : ¬ IsReplay r.error := by
  -- what the backend answers to the request of a tool
  have hperform : ∀ {q : Request} {d : Decision}, q.IsAgent (agentNonce (m.nonce + 1)) →
      (m.backend.perform q).1 = .ok d → ¬ IsReplay d.error := fun hq => error_of_perform hm hq
  have hsession : ¬ IsReplay noSession.error := by decide
  cases op with
  | reset => cases h
  | restart => cases h
  | write session memoryId text validFrom validUntil isPrivate derivedFrom =>
    rcases session with _ | ⟨did, presented⟩
    · cases h
      exact hsession
    · simp only [marcianaAgent, MarcianaAgentBackend.write] at h
      split at h
      · cases h
      · rename_i memory _
        split at h
        · cases h
        · rename_i d hreply
          cases h
          exact hperform (q := .remember memory did presented m.nextNonce.1) rfl hreply
  | read session query asOf =>
    rcases session with _ | ⟨did, presented⟩
    · cases h
      exact hsession
    · simp only [marcianaAgent, MarcianaAgentBackend.read] at h
      split at h
      · cases h
      · rename_i day _
        split at h
        · cases h
        · rename_i d hreply
          have hd := hperform
            (q := .recall query did presented (day.getD defaultDate) m.nextNonce.1) rfl hreply
          split_ifs at h
          · cases h
            exact (by decide : ¬ IsReplay (lit "denied"))
          · cases h
            exact hd
          · cases h
            exact not_isReplay_nil
  | delete session memoryId =>
    rcases session with _ | ⟨did, presented⟩
    · cases h
      exact hsession
    · simp only [marcianaAgent, MarcianaAgentBackend.delete] at h
      split at h
      · cases h
      · rename_i d hreply
        cases h
        exact hperform (q := .forget memoryId did presented m.nextNonce.1) rfl hreply
  | listIds session =>
    rcases session with _ | ⟨did, presented⟩
    · cases h
      exact hsession
    · simp only [marcianaAgent, MarcianaAgentBackend.listIds] at h
      split at h
      · cases h
      · cases h
        exact not_isReplay_nil

/-!
## Which steps get to the core

A tool call asks something of the core if it carries a session and its arguments can be read. Only
such a call takes a number from the counter. The numbers of a run therefore are the successive
ones, each is free when it is taken, and the calls that carry them are answered as they would be
had there been no run.
-/

end MarcianaAgentBackend

/-- The session that a tool call is made under. -/
def AgentOp.session : AgentOp → Option AgentSession
  | .reset => none
  | .restart => none
  | .write session _ _ _ _ _ _ => session
  | .read session _ _ => session
  | .delete session _ => session
  | .listIds session => session

/-- The arguments of a tool call can be read: the text of a write can be digested, and what stands
    for a date is one. -/
def AgentOp.Parses : AgentOp → Prop
  | .write _ _ text validFrom validUntil _ _ =>
      Encodable text ∧ (∃ day, parseDate validFrom = .ok day) ∧
        ∃ day, parseDate validUntil = .ok day
  | .read _ _ asOf => ∃ day, parseDate asOf = .ok day
  | _ => True

namespace MarcianaAgentBackend

omit [CredentialScheme] in
theorem agentMemory_ok_iff (did memoryId text : Str) (validFrom validUntil : Option Str)
    (isPrivate : Bool) (derivedFrom : List Str) :
    (∃ memory, agentMemory did memoryId text validFrom validUntil isPrivate derivedFrom =
        .ok memory) ↔
      Encodable text ∧ (∃ day, parseDate validFrom = .ok day) ∧
        ∃ day, parseDate validUntil = .ok day := by
  rw [← digest_ok_iff, agentMemory]
  cases digest text with
  | error e => simp [bind, Except.bind]
  | ok sourceDigest =>
    cases parseDate validFrom with
    | error e => simp [bind, Except.bind]
    | ok start =>
      cases parseDate validUntil with
      | error e => simp [bind, Except.bind]
      | ok stop => simp [bind, Except.bind, pure, Except.pure]

omit [CredentialScheme] in
/-- A tool asks something of the backend if it has a session and arguments that can be read. -/
theorem asks_isSome_iff (m : MarcianaAgentBackend) (op : AgentOp) :
    (∃ q, m.asks op = some q) ↔ (∃ session, op.session = some session) ∧ op.Parses := by
  cases op with
  | reset => exact ⟨fun ⟨_, h⟩ => (nomatch h), fun ⟨⟨_, h⟩, _⟩ => nomatch h⟩
  | restart => exact ⟨fun ⟨_, h⟩ => (nomatch h), fun ⟨⟨_, h⟩, _⟩ => nomatch h⟩
  | write session memoryId text validFrom validUntil isPrivate derivedFrom =>
    cases session with
    | none => exact ⟨fun ⟨_, h⟩ => (nomatch h), fun ⟨⟨_, h⟩, _⟩ => nomatch h⟩
    | some session =>
      rw [AgentOp.Parses, ← agentMemory_ok_iff session.1 memoryId text validFrom validUntil
        isPrivate derivedFrom, asks, Option.bind_some]
      dsimp only
      cases agentMemory session.1 memoryId text validFrom validUntil isPrivate derivedFrom with
      | error e => simp [Except.toOption]
      | ok memory => simp [Except.toOption, AgentOp.session]
  | read session query asOf =>
    cases session with
    | none => exact ⟨fun ⟨_, h⟩ => (nomatch h), fun ⟨⟨_, h⟩, _⟩ => nomatch h⟩
    | some session =>
      rw [AgentOp.Parses, asks, Option.bind_some]
      cases parseDate asOf with
      | error e => simp [Except.toOption]
      | ok day => simp [Except.toOption, AgentOp.session]
  | delete session memoryId => cases session <;> simp [asks, AgentOp.session, AgentOp.Parses]
  | listIds session => cases session <;> simp [asks, AgentOp.session, AgentOp.Parses]

omit [CredentialScheme] in
/-- The request of a tool call carries the session that the call is made under. -/
theorem session_of_asks {m : MarcianaAgentBackend} {op : AgentOp} {q : Request}
    (h : m.asks op = some q) : op.session = some (q.did, q.presented) := by
  cases op with
  | reset => cases h
  | restart => cases h
  | write session memoryId text validFrom validUntil isPrivate derivedFrom =>
    obtain ⟨session, rfl, h⟩ := Option.bind_eq_some_iff.mp h
    obtain ⟨memory, -, rfl⟩ := Option.map_eq_some_iff.mp h
    rfl
  | read session query asOf =>
    obtain ⟨session, rfl, h⟩ := Option.bind_eq_some_iff.mp h
    obtain ⟨day, -, rfl⟩ := Option.map_eq_some_iff.mp h
    rfl
  | delete session memoryId =>
    obtain ⟨session, rfl, rfl⟩ := Option.map_eq_some_iff.mp h
    rfl
  | listIds session =>
    obtain ⟨session, rfl, rfl⟩ := Option.map_eq_some_iff.mp h
    rfl

omit [Runtime] in
theorem isSession_iff_by {m : MarcianaAgentBackend} (hm : Sound m) {q : Request} {s : Session} :
    IsSession m (q.did, q.presented) s ↔ q.By s.record := by
  rw [IsSession, AuthenticatedBackend.authenticate, hm.registry]
  constructor
  · intro h
    by_cases hby : ∃ record, q.By record
    · obtain ⟨record, hby⟩ := hby
      rw [IdentityRegistry.authenticate_of_authenticates hby] at h
      obtain rfl : ⟨record⟩ = s := Option.some.inj (Except.ok.inj h)
      exact hby
    · rcases IdentityRegistry.authenticate_of_not (not_exists.mp hby) with hnone | herror
      · rw [hnone] at h
        cases h
      · rw [herror.2] at h
        cases h
  · intro h
    exact IdentityRegistry.authenticate_of_authenticates h

/-- **A request that authenticates claims the next nonce, which was free.** -/
theorem claims_ask {m : MarcianaAgentBackend} (hm : Sound m) {q : Request}
    (hq : q.IsAgent (agentNonce (m.nonce + 1))) {record : IdentityRecord} (hby : q.By record) :
    (m.ask q).backend.core.nonces =
      insert (record.did, agentNonce (m.nonce + 1)) m.backend.core.nonces := by
  have hfresh := hm.fresh record.did _ (Nat.lt_succ_self m.nonce)
  have htoken : (q.call (AuthenticatedBackend.actor ⟨record⟩)).token =
      (record.did, agentNonce (m.nonce + 1)) := by
    rw [Call.token, hq.call_nonce]
    cases q <;> rfl
  rw [ask, perform_of_by hm.registry hby]
  rw [← htoken] at hfresh ⊢
  exact nonces_of_fresh (exec_ruling _ _) hfresh

end MarcianaAgentBackend

/-- What a run owes. -/
structure NeverReplays (ops : List AgentOp) : Prop where
  /-- No tool call is answered with the error of a replay, whatever session it comes under. -/
  replies : ∀ op result, (marcianaAgent.step (marcianaAgent.after ops) op).1 = some (.ok result) →
    ¬ MarcianaAgentBackend.IsReplay result.error
  /-- A call under a session that authenticates, with arguments that can be read, claims a pair
      that was free. -/
  claims : ∀ op session (s : Session), op.session = some session → op.Parses →
    IsSession (marcianaAgent.after ops) session s →
    ∃ nonce, (s.record.did, nonce) ∉ (marcianaAgent.after ops).backend.core.nonces ∧
      (marcianaAgent.after (ops ++ [op])).backend.core.nonces =
        insert (s.record.did, nonce) (marcianaAgent.after ops).backend.core.nonces
  /-- Any other step but a reset leaves the core as it is. -/
  others : ∀ op, op ≠ .reset → (¬ ∃ session s, op.session = some session ∧ op.Parses ∧
      IsSession (marcianaAgent.after ops) session s) →
    (marcianaAgent.after (ops ++ [op])).backend.core = (marcianaAgent.after ops).backend.core
  /-- The pairs that are not free have been issued since the last reset. -/
  held : ∀ did nonce, (did, nonce) ∈ (marcianaAgent.after ops).backend.core.nonces →
    nonce ∈ MarcianaAgentBackend.issued ops

/-- **The backend never replays against itself**, in any run. Each operation that asks the core
    takes the next number for its nonce, and a number is never taken back; so the claim is on a
    nonce that is free, and no reply is the denial of a replay. -/
theorem never_replays (ops : List AgentOp) : NeverReplays ops where
  replies op result h := MarcianaAgentBackend.error_of_step (sound_after ops) op h
  claims := by
    intro op session s hsession hparses hs
    have hm := sound_after ops
    obtain ⟨q, hq⟩ := (MarcianaAgentBackend.asks_isSome_iff (marcianaAgent.after ops) op).mpr
      ⟨⟨session, hsession⟩, hparses⟩
    have hreset : op ≠ .reset := by
      rintro rfl
      cases hq
    have hagent := MarcianaAgentBackend.isAgent_of_asks hq
    obtain rfl : session = (q.did, q.presented) :=
      Option.some.inj (hsession.symm.trans (MarcianaAgentBackend.session_of_asks hq))
    refine ⟨_, hm.fresh s.record.did _ (Nat.lt_succ_self _), ?_⟩
    rw [Machine.after_append, Machine.run_cons, Machine.run_nil,
      MarcianaAgentBackend.next_eq _ hreset, hq]
    exact MarcianaAgentBackend.claims_ask hm hagent
      ((MarcianaAgentBackend.isSession_iff_by hm).mp hs)
  others := by
    intro op hreset hnot
    have hm := sound_after ops
    rw [Machine.after_append, Machine.run_cons, Machine.run_nil,
      MarcianaAgentBackend.next_eq _ hreset]
    cases hq : (marcianaAgent.after ops).asks op with
    | none => rfl
    | some q =>
      -- it asks, so its session does not authenticate
      have hby : ∀ record, ¬ q.By record := by
        intro record hby
        have hsome := (MarcianaAgentBackend.asks_isSome_iff _ op).mp ⟨q, hq⟩
        exact hnot ⟨_, ⟨record⟩, MarcianaAgentBackend.session_of_asks hq, hsome.2,
          (MarcianaAgentBackend.isSession_iff_by hm).mpr hby⟩
      exact congrArg _ (perform_of_not_by hm.registry hby).1
  held := by
    intro did nonce hmem
    rw [MarcianaAgentBackend.issued_eq]
    exact MarcianaAgentBackend.issued_after ops (did, nonce) hmem

end Model

end AdversarialCognition
