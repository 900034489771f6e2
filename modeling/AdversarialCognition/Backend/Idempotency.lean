import AdversarialCognition.Backend.Records
import AdversarialCognition.Lib.Sha256

/-!
# What an idempotency key is worth

`improve` keeps a map from keys to decisions, global to all actors, and answers a key it knows
from the map. The map is written once per key (`Ruling.settled`), so an allowed improve, retried,
gives the same decision for ever: `retry_stable` needs nothing.

Two things the map does *not* give, because it holds decisions and not requests, and because it is
written last:

* a key reused for another request is answered with the old request's decision, and the new
  replacement is dropped (`about_own_request_iff`);
* an improve that has stored its replacement and then cannot make its receipt is in the store and
  not in the map, so the key is good for a second effect (`key_effect_once`).

## Three notions of having happened

An improve *commits* when it passes every check: then the target is marked and the replacement is
stored, whatever is answered. It is *allowed* when it is answered so, which takes a receipt, and
then it is on record. It is *effective* when the memories behind it are not those before. A commit
need not be effective, since the replacement may be there and the target marked already, and an
allowed improve need not be a commit, since it may be a retry. The results below are each about a
pair of these, and most of the work is in keeping them apart.
-/

namespace AdversarialCognition

open Py Py.Str

/-- The improve passes every check of an unrecorded key, and so is carried out: the target
    is superseded and the replacement stored. -/
def Commits (b : AdversarialBackend) (c : ImproveCall) : Prop :=
  ∃ current, b.AdmitsImprove c current

/-- One asks for what the other does. The actor, the nonce and the key are left out. -/
def ImproveCall.SameRequest (c c' : ImproveCall) : Prop :=
  c.memoryId = c'.memoryId ∧ c.replacement = c'.replacement ∧
    c.expectedSourceDigest = c'.expectedSourceDigest

theorem encodable_improveText_iff {memoryId replacementId : Str} :
    Encodable (improveText memoryId replacementId) ↔
      Encodable memoryId ∧ Encodable replacementId := by
  simp [improveText, encodable_lit]

section Laws

variable [Runtime] {b b' : AdversarialBackend} {reply : Reply}

/-- What an allowed improve is: a retry of a recorded key, or a commit that got its
    receipt, and then the decision is recorded under the key. -/
theorem Ruling.allowed_improve {c : ImproveCall} {d : Decision}
    (h : Ruling b (.improve c) reply b') (hreply : reply = .ok d) (hd : d.allowed = true) :
    ((c.actor.did, c.nonce) ∉ b.nonces ∧ c.actor.canMutate = true ∧
        b.idempotency.get? c.idempotencyKey = some d) ∨
      (Commits b c ∧ d.ids = [c.memoryId, c.replacement.memoryId] ∧
        b'.idempotency.get? c.idempotencyKey = some d) := by
  cases h with
  | replayed =>
    rw [← Except.ok.inj hreply] at hd
    simp at hd
  | refused =>
    rw [← Except.ok.inj hreply] at hd
    simp at hd
  | retried fresh mutates settled =>
    rw [← Except.ok.inj hreply]
    exact Or.inl ⟨fresh, mutates, settled⟩
  | improved admits hanswer =>
    subst hreply
    exact Or.inr ⟨⟨_, admits⟩, (answer_eq_ok hanswer.symm).2.1,
      by simp [AdversarialBackend.settle_get?]⟩

theorem allowed_improve {c : ImproveCall} {d : Decision}
    (h : (b.exec (.improve c)).1 = .ok d) (hd : d.allowed = true) :
    ((c.actor.did, c.nonce) ∉ b.nonces ∧ c.actor.canMutate = true ∧
        b.idempotency.get? c.idempotencyKey = some d) ∨
      (Commits b c ∧ d.ids = [c.memoryId, c.replacement.memoryId] ∧
        (b.exec (.improve c)).2.idempotency.get? c.idempotencyKey = some d) :=
  (exec_ruling b (.improve c)).allowed_improve h hd

/-- An allowed improve is on record behind it, by itself or by the one it repeats. -/
theorem settled_of_allowed {c : ImproveCall} {d : Decision}
    (h : (b.exec (.improve c)).1 = .ok d) (hd : d.allowed = true) :
    (b.exec (.improve c)).2.idempotency.get? c.idempotencyKey = some d := by
  rcases allowed_improve h hd with ⟨-, -, hkey⟩ | ⟨-, -, hkey⟩
  · exact (exec_ruling b (.improve c)).settled hkey
  · exact hkey

theorem exec_retry {c : ImproveCall} {d : Decision}
    (hfresh : (c.actor.did, c.nonce) ∉ b.nonces) (hmut : c.actor.canMutate = true)
    (hkey : b.idempotency.get? c.idempotencyKey = some d) :
    b.exec (.improve c) = (.ok d, b.spend c.actor c.nonce) :=
  AdversarialBackend.improve_of_settled hfresh hmut hkey

/-!
## Retries

A retry is an improve that repeats an allowed one up to its nonce. The decision is on record by
then, and is answered before the target is looked at, so a retry with a free nonce is answered as
the first time and changes the nonces only.
-/

/-- In this run, an improve that repeats an allowed one, up to the nonce, gets the same
    decision and leaves the memories alone. -/
def RetryStable (ops : List Op) : Prop :=
  ∀ (pre mid post : List Op) (c : ImproveCall) (nonce : Str) (d : Decision),
    let retry : ImproveCall := { c with nonce := nonce }
    let before := backend.after (pre ++ .call (.improve c) :: mid)
    ops = pre ++ .call (.improve c) :: (mid ++ .call (.improve retry) :: post) →
    ((backend.after pre).exec (.improve c)).1 = .ok d → d.allowed = true →
    (c.actor.did, nonce) ∉ before.nonces →
    (before.exec (.improve retry)).1 = .ok d ∧
      (before.exec (.improve retry)).2.memories = before.memories

theorem after_call_append (pre mid : List Op) (c : Call) :
    backend.after (pre ++ .call c :: mid) = backend.run ((backend.after pre).exec c).2 mid := by
  rw [Machine.after_append, Machine.run_cons, backend_next_call]

theorem canMutate_of_allowed {c : ImproveCall} {d : Decision}
    (h : (b.exec (.improve c)).1 = .ok d) (hd : d.allowed = true) :
    c.actor.canMutate = true := by
  rcases allowed_improve h hd with ⟨-, hmut, -⟩ | ⟨⟨_, hadm⟩, -, -⟩
  · exact hmut
  · exact hadm.mutates

/-- **A retry is answered as the first time**, in every run. The nonce of the retry has to be
    free, and nothing else. -/
theorem retry_stable (ops : List Op) : RetryStable ops := by
  intro pre mid post c nonce d retry before _ hallow hd hfresh
  have hkey : before.idempotency.get? c.idempotencyKey = some d := by
    show (backend.after (pre ++ .call (.improve c) :: mid)).idempotency.get? _ = _
    rw [after_call_append]
    exact settled_run (settled_of_allowed hallow hd) mid
  have hmut : c.actor.canMutate = true := canMutate_of_allowed hallow hd
  have hexec : before.exec (.improve retry) = (.ok d, before.spend c.actor nonce) :=
    exec_retry (c := retry) hfresh hmut hkey
  rw [hexec]
  exact ⟨rfl, rfl⟩

/-!
## One effect for each key

An effect under a key is a replacement that is stored. A key has one effect because a decision is
put on record with it; but it is recorded last, after the receipt has been made, and a receipt can
raise. The condition is therefore on the ids that an improve names.
-/

def Effective (b : AdversarialBackend) (c : ImproveCall) : Prop :=
  (b.exec (.improve c)).2.memories ≠ b.memories

/-- In this run, no key has two effects. -/
def OneEffectPerKey (ops : List Op) : Prop :=
  ∀ (pre mid post : List Op) (c c' : ImproveCall),
    ops = pre ++ .call (.improve c) :: (mid ++ .call (.improve c') :: post) →
    c'.idempotencyKey = c.idempotencyKey → Effective (backend.after pre) c →
    ¬ Effective (backend.after (pre ++ .call (.improve c) :: mid)) c'

/-- The step is no improve that is carried out and whose two ids cannot be encoded. Such a step
    leaves its effect in the store and nothing on record. -/
def ImproveEncodable (b : AdversarialBackend) (op : Op) : Prop :=
  ∀ c, op = .call (.improve c) → Commits b c →
    Encodable c.memoryId ∧ Encodable c.replacement.memoryId

theorem Ruling.commits {c : ImproveCall} (h : Ruling b (.improve c) reply b')
    (heff : b'.memories ≠ b.memories) : Commits b c := by
  cases h with
  | replayed => exact absurd rfl heff
  | refused => exact absurd rfl heff
  | retried => exact absurd rfl heff
  | improved admits => exact ⟨_, admits⟩

theorem allowed_of_commits {c : ImproveCall} (h : Commits b c) (h₁ : Encodable c.memoryId)
    (h₂ : Encodable c.replacement.memoryId) :
    ∃ d, (b.exec (.improve c)).1 = .ok d ∧ d.allowed = true := by
  obtain ⟨current, hadm⟩ := h
  obtain ⟨r, hr⟩ := digest_ok_iff.mpr (encodable_improveText_iff.mpr ⟨h₁, h₂⟩)
  refine ⟨{ allowed := true, ids := [c.memoryId, c.replacement.memoryId], receipt := r }, ?_, rfl⟩
  simp only [AdversarialBackend.exec, AdversarialBackend.improve_of_admits hadm, hr]
  rfl

/-- An improve that is no retry of a recorded key, and is allowed. -/
def AllowedFirst (b : AdversarialBackend) (c : ImproveCall) : Prop :=
  b.idempotency.get? c.idempotencyKey = none ∧ Allowed (b.exec (.improve c)).1

theorem commits_of_allowedFirst {c : ImproveCall} (h : AllowedFirst b c) : Commits b c := by
  obtain ⟨d, hd, hallow⟩ := exists_of_allowed h.2
  rcases allowed_improve hd hallow with ⟨-, -, hkey⟩ | ⟨hcommit, -, -⟩
  · rw [h.1] at hkey
    simp at hkey
  · exact hcommit

theorem encodable_of_allowedFirst {c : ImproveCall} (h : AllowedFirst b c) :
    Encodable c.memoryId ∧ Encodable c.replacement.memoryId := by
  obtain ⟨current, hadm⟩ := commits_of_allowedFirst h
  obtain ⟨d, hd, -⟩ := exists_of_allowed h.2
  simp only [AdversarialBackend.exec, AdversarialBackend.improve_of_admits hadm] at hd
  have henc := digest_ok_iff.mp ⟨_, (answer_eq_ok hd).2.2.2⟩
  exact encodable_improveText_iff.mp henc

/-- With every commit on record, a second effect under its key would have to come from an improve
    that is no retry of a recorded key. -/
theorem one_effect_per_key {ops : List Op}
    (h : ∀ p ∈ backend.trace ops, ImproveEncodable p.1 p.2) : OneEffectPerKey ops := by
  intro pre mid post c c' hops hkey heff heff'
  have hcommit := (exec_ruling _ _).commits heff
  have henc := h (backend.after pre, .call (.improve c))
    (Machine.mem_trace.mpr ⟨pre, _, hops, rfl⟩) c rfl hcommit
  obtain ⟨d, hd, hallow⟩ := allowed_of_commits hcommit henc.1 henc.2
  -- The first effect put the key on record, so the second call meets it as a retry.
  have hsettled : (backend.after (pre ++ .call (.improve c) :: mid)).idempotency.get?
      c'.idempotencyKey = some d := by
    rw [after_call_append, hkey]
    exact settled_run (settled_of_allowed hd hallow) mid
  obtain ⟨current, hadm⟩ := (exec_ruling _ _).commits heff'
  rw [hadm.unsettled] at hsettled
  simp at hsettled

/-- **A retry is stable in every run, and in a run whose improves name encodable ids no key has
    two effects.** Where the receipt cannot be made the store is written and the key is not
    recorded, so it is free for another effect: this is the only way to have two. -/
theorem key_effect_once (ops : List Op) :
    RetryStable ops ∧
      ((∀ p ∈ backend.trace ops, ImproveEncodable p.1 p.2) → OneEffectPerKey ops) :=
  ⟨retry_stable ops, one_effect_per_key⟩

end Laws

section

attribute [local instance] cpython

def sharedKeyRun : List Op :=
  [.call (.remember (fact "m") operator "1"), .call (.improve (proposal "m" "n" "2" "job")),
    .call (.improve (proposal "m" "o" "3" "job"))]

/-- Two improves under one key, of ids that can be encoded: the second has no effect. -/
theorem one_effect_in_sharedKeyRun : OneEffectPerKey sharedKeyRun := by
  refine (key_effect_once sharedKeyRun).2 ?_
  rintro ⟨b, op⟩ hp c rfl -
  obtain ⟨pre, post, hops, -⟩ := Machine.mem_trace.mp hp
  have hmem : Op.call (.improve c) ∈ sharedKeyRun := by rw [hops]; simp
  simp only [sharedKeyRun, List.mem_cons, Op.call.injEq, Call.improve.injEq, reduceCtorEq,
    List.not_mem_nil, or_false, false_or] at hmem
  rcases hmem with rfl | rfl
  · exact ⟨encodable_lit _, encodable_lit _⟩
  · exact ⟨encodable_lit _, encodable_lit _⟩

/-- An improve whose replacement id is a lone surrogate is carried out and raises. Between it
    and its retry under the same key the target is written again, and the retry supersedes
    it a second time. -/
theorem key_effect_twice : ¬ ∀ ops : List Op, RetryStable ops ∧ OneEffectPerKey ops := by
  intro h
  have hone := (h [.call (.remember (fact "m") operator "1"),
    .call (.improve (proposal "m" [0xD800] "2" "job")), .call (.remember (fact "m") operator "3"),
    .call (.improve (proposal "m" [0xD800] "4" "job"))]).2
  refine hone [.call (.remember (fact "m") operator "1")]
    [.call (.remember (fact "m") operator "3")] [] (proposal "m" [0xD800] "2" "job")
    (proposal "m" [0xD800] "4" "job") rfl ?_ ?_ ?_
  · show lit "job" = lit "job"
    rfl
  · intro heq
    have hstate := congrArg (fun d => (d.get? "m").map Memory.state) heq
    exact absurd hstate (by decide)
  · intro heq
    have hstate := congrArg (fun d => (d.get? "m").map Memory.state) heq
    exact absurd hstate (by decide)

end

section Requests

variable [Runtime] {b b' : AdversarialBackend} {reply : Reply}

/-!
## Whose decision a key brings back

The key is looked up alone, without the scope it was recorded in or the ids it was recorded for.
So a decision that a key brings back was put there by some call of the run and is about that call,
which need not be the present one.
-/

/-- `c` is the call of the run that put its key on record. -/
def Recorded (ops : List Op) (c : ImproveCall) : Prop :=
  ∃ pre post, ops = pre ++ .call (.improve c) :: post ∧ Commits (backend.after pre) c ∧
    Allowed ((backend.after pre).exec (.improve c)).1

/-- The decision a key was recorded with is still the one it brings back. -/
theorem settled_of_recorded {ops : List Op} {c : ImproveCall} (h : Recorded ops c) :
    ∃ d, (backend.after ops).idempotency.get? c.idempotencyKey = some d ∧
      d.allowed = true ∧ d.ids = [c.memoryId, c.replacement.memoryId] := by
  obtain ⟨pre, post, rfl, ⟨current, hadm⟩, hallow⟩ := h
  obtain ⟨d, hd, hallow⟩ := exists_of_allowed hallow
  refine ⟨d, ?_, hallow, ?_⟩
  · rw [after_call_append]
    exact settled_run (settled_of_allowed hd hallow) post
  · rcases allowed_improve hd hallow with ⟨-, -, hkey⟩ | ⟨-, hids, -⟩
    · rw [hadm.unsettled] at hkey
      simp at hkey
    · exact hids

/-- A step that puts a key on record is an allowed commit under that key. -/
theorem Ruling.records {c : Call} {k : Str} {d : Decision} (h : Ruling b c reply b')
    (hbefore : b.idempotency.get? k ≠ some d) (hafter : b'.idempotency.get? k = some d) :
    ∃ i, c = .improve i ∧ i.idempotencyKey = k ∧ Commits b i ∧ reply = .ok d ∧
      d.allowed = true ∧ d.ids = [i.memoryId, i.replacement.memoryId] := by
  cases h with
  | @improved i current _ admits hanswer =>
    rw [AdversarialBackend.settle_get?] at hafter
    cases reply with
    | error e => exact absurd hafter hbefore
    | ok d' =>
      dsimp only at hafter
      split at hafter
      · rename_i hk
        obtain rfl := Option.some.inj hafter
        have hans := answer_eq_ok hanswer.symm
        exact ⟨i, rfl, hk.symm, ⟨current, admits⟩, rfl, hans.1, hans.2.1⟩
      · exact absurd hafter hbefore
  | _ => exact absurd hafter hbefore

/-- Every decision on record was put there by a call of the run, and is about it. This takes what
    is looked up at the end of a run back to a step of it. -/
theorem exists_recorded {ops : List Op} {k : Str} {d : Decision}
    (h : (backend.after ops).idempotency.get? k = some d) :
    ∃ c, Recorded ops c ∧ c.idempotencyKey = k ∧ d.allowed = true ∧
      d.ids = [c.memoryId, c.replacement.memoryId] := by
  obtain ⟨pre, op, post, rfl, hbefore, hafter⟩ :=
    Machine.exists_turn (P := fun s : AdversarialBackend => s.idempotency.get? k = some d)
      (s := backend.init) (by simp [backend, AdversarialBackend.new]) h
  cases op with
  | restart => exact absurd hafter hbefore
  | call c =>
    obtain ⟨i, rfl, hkey, hcommit, hreply, hallow, hids⟩ :=
      (exec_ruling (backend.after pre) c).records hbefore hafter
    have hrec : Allowed ((backend.after pre).exec (.improve i)).1 := by
      rw [hreply]
      exact hallow
    exact ⟨i, ⟨pre, post, rfl, hcommit, hrec⟩, hkey, hallow, hids⟩

/-- What an allowed improve, made after the run `ops`, owes its caller: the decision names
    the call's own two ids, the replacement was stored by this call or by an earlier one
    with the same request, and if the key was on record for another request then this call
    stored it itself. -/
def AboutOwnRequest (ops : List Op) (c : ImproveCall) : Prop :=
  ∀ d, ((backend.after ops).exec (.improve c)).1 = .ok d → d.allowed = true →
    d.ids = [c.memoryId, c.replacement.memoryId] ∧
    (∃ pre c' post, ops ++ [.call (.improve c)] = pre ++ .call (.improve c') :: post ∧
      c'.SameRequest c ∧ Commits (backend.after pre) c') ∧
    ((∃ c', Recorded ops c' ∧ c'.idempotencyKey = c.idempotencyKey ∧ ¬ c'.SameRequest c) →
      Commits (backend.after ops) c)

/-- The call's key, if it gets past the replay and mutation check and the key is on record,
    was recorded for the same request. -/
def KeepsKey (ops : List Op) (c : ImproveCall) : Prop :=
  (c.actor.did, c.nonce) ∉ (backend.after ops).nonces → c.actor.canMutate = true →
    ∀ c', Recorded ops c' → c'.idempotencyKey = c.idempotencyKey → c'.SameRequest c

/-- If the key is on record for another request, the improve is answered with that one's ids, and
    this is what its caller is not owed. -/
theorem keepsKey_of_aboutOwnRequest {ops : List Op} {c : ImproveCall}
    (h : AboutOwnRequest ops c) : KeepsKey ops c := by
  intro hfresh hmut c' hrec hkey
  by_contra hdiff
  obtain ⟨d, hd, hallow, -⟩ := settled_of_recorded hrec
  rw [hkey] at hd
  have hexec := exec_retry hfresh hmut hd
  obtain ⟨-, -, hcommits⟩ := h d (by rw [hexec]) hallow
  obtain ⟨current, hadm⟩ := hcommits ⟨c', hrec, hkey, hdiff⟩
  rw [hadm.unsettled] at hd
  simp at hd

theorem aboutOwnRequest_of_keepsKey {ops : List Op} {c : ImproveCall}
    (h : KeepsKey ops c) : AboutOwnRequest ops c := by
  intro d hd hallow
  rcases allowed_improve hd hallow with ⟨hfresh, hmut, hkey⟩ | ⟨hcommit, hids, -⟩
  · -- a retry: the recorder made the same request
    obtain ⟨c', hrec, hkey', -, hids⟩ := exists_recorded hkey
    obtain ⟨hid, hrepl, hsrc⟩ := h hfresh hmut c' hrec hkey'
    obtain ⟨pre, post, hops, hcommit, -⟩ := hrec
    refine ⟨by rw [hids, hid, hrepl], ⟨pre, c', post ++ [.call (.improve c)], ?_,
      ⟨hid, hrepl, hsrc⟩, hcommit⟩, ?_⟩
    · rw [hops, List.append_assoc, List.cons_append]
    · rintro ⟨c'', hrec', hkey'', hdiff⟩
      exact absurd (h hfresh hmut c'' hrec' hkey'') hdiff
  · exact ⟨hids, ⟨ops, c, [], rfl, ⟨rfl, rfl, rfl⟩, hcommit⟩, fun _ => hcommit⟩

/-- **An allowed improve is about its caller's own request exactly when its key was not recorded
    for another one**, after every run and for every call. The map has decisions under the keys,
    and no requests to compare with. -/
theorem about_own_request_iff (ops : List Op) (c : ImproveCall) :
    AboutOwnRequest ops c ↔ KeepsKey ops c :=
  ⟨keepsKey_of_aboutOwnRequest, aboutOwnRequest_of_keepsKey⟩

end Requests

section

attribute [local instance] cpython

/-- The second improve is told it was allowed, with the ids of the first. Its own replacement is
    nowhere. -/
theorem shared_key_answers_another_request :
    ¬ ∀ (ops : List Op) (c : ImproveCall), AboutOwnRequest ops c := by
  intro h
  obtain ⟨d, hd, hallow⟩ := exists_of_allowed (show Allowed ((backend.after
    [.call (.remember (fact "a") operator "1"), .call (.remember (fact "b") operator "2"),
      .call (.improve (proposal "a" "a2" "3" "job"))]).exec
    (.improve (proposal "b" "b2" "4" "job"))).1 by decide)
  have hids : replyIds (.ok d) = [lit "b", lit "b2"] := (h _ _ d hd hallow).1
  rw [← hd] at hids
  exact absurd hids (by decide)

end

end AdversarialCognition
