import AdversarialCognition.Backend.Records

/-!
# Nonces are spent once, and a denial leaves no trace but its nonce

A call claims its `(did, nonce)` pair before it asks anything else, and a pair is never
un-claimed, not by any operation and not by a restart. So the spend-once rule of `Machine` applies
with `Call.token` as the token, over runs of any length: `token_spent_once`.

The other half, `Ruling.denied_inert`, is a statement about one call: of all the rulings only the
refusals answer `allowed=False`, besides the retry of a recorded decision, and none of these
touches the store or the idempotency map.

A call that raises is neither allowed nor denied. It has spent its nonce, and it may have written
to the store, and so it is left to the results about atomicity. And a nonce is not given back by a
denial: who sends a call that is refused for its scope has to take another nonce for the next.
-/

namespace AdversarialCognition

open Py Py.Str

variable [Runtime] {b b' : AdversarialBackend} {c : Call} {reply : Reply}

/-- A denied call changes nothing but the nonces, and those by its own pair at most. -/
theorem Ruling.denied_inert {d : Decision} (h : Ruling b c reply b') (hreply : reply = .ok d)
    (hd : d.allowed = false) :
    b'.memories = b.memories ∧ b'.idempotency = b.idempotency ∧
      (b'.nonces = b.nonces ∨ b'.nonces = insert c.token b.nonces) := by
  -- A ruling that commits answers with `answer`, and that is never a denial.
  have hcommit : ∀ {ids : List Str} {r : Except Exn Str}, ¬ answer ids r = .ok d := by
    intro ids r hans
    rw [(answer_eq_ok hans).1] at hd
    simp at hd
  cases h with
  | replayed => exact ⟨rfl, rfl, Or.inl rfl⟩
  | refused => exact ⟨rfl, rfl, Or.inr rfl⟩
  | recalled => exact ⟨rfl, rfl, Or.inr rfl⟩
  | retried => exact ⟨rfl, rfl, Or.inr rfl⟩
  | remembered => exact absurd hreply hcommit
  | improved _ hanswer => exact absurd (hanswer.symm.trans hreply) hcommit
  | forgotten => exact absurd hreply hcommit

/-- The step is a call, and it is allowed where it is taken. -/
def AllowedStep (b : AdversarialBackend) (op : Op) : Prop :=
  ∃ c, op = .call c ∧ Allowed (b.exec c).1

def Op.token : Op → Option (Str × Str)
  | .call c => some c.token
  | .restart => none

/-- **Two allowed calls of one run have two tokens**, whatever came between them. -/
theorem token_spent_once {pre mid : List Op} {c₁ c₂ : Call}
    (h₁ : Allowed ((backend.after pre).exec c₁).1)
    (h₂ : Allowed ((backend.after (pre ++ .call c₁ :: mid)).exec c₂).1) :
    c₁.token ≠ c₂.token := by
  have hs₁ : AllowedStep (backend.after pre) (.call c₁) := ⟨c₁, rfl, h₁⟩
  have hs₂ : AllowedStep (backend.after (pre ++ .call c₁ :: mid)) (.call c₂) := ⟨c₂, rfl, h₂⟩
  have honce := Machine.once (fun s => {t | ∃ k ∈ s.nonces, t = some k}) Op.token AllowedStep
    ?_ ?_ ?_ hs₁ hs₂
  · exact fun heq => honce (congrArg some heq)
  · -- nothing is un-claimed
    rintro s op t ⟨k, hk, rfl⟩
    cases op with
    | call c => exact ⟨k, (exec_ruling s c).nonces_subset hk, rfl⟩
    | restart => exact ⟨k, hk, rfl⟩
  · -- an allowed call finds its token free
    rintro s op ⟨c, rfl, hc⟩ ⟨k, hk, heq⟩
    obtain rfl : c.token = k := Option.some.inj heq
    exact (exec_ruling s c).token_fresh hc hk
  · -- and leaves it claimed
    rintro s op ⟨c, rfl, hc⟩
    exact ⟨c.token, (exec_ruling s c).token_spent hc, rfl⟩

/-- **Each nonce pays for one allowed call in any run, and a denied call changes nothing
    else.** The first half is across operation kinds and restarts; the second holds at
    every state the run passes. -/
theorem nonces_once_denials_inert :
    (∀ (pre mid : List Op) (c₁ c₂ : Call), Allowed ((backend.after pre).exec c₁).1 →
      Allowed ((backend.after (pre ++ .call c₁ :: mid)).exec c₂).1 →
      (c₁.actor.did, c₁.nonce) ≠ (c₂.actor.did, c₂.nonce)) ∧
    ∀ (ops : List Op) (c : Call) (d : Decision),
      ((backend.after ops).exec c).1 = .ok d → d.allowed = false →
      ((backend.after ops).exec c).2.memories = (backend.after ops).memories ∧
      ((backend.after ops).exec c).2.idempotency = (backend.after ops).idempotency ∧
      (((backend.after ops).exec c).2.nonces = (backend.after ops).nonces ∨
        ((backend.after ops).exec c).2.nonces =
          insert (c.actor.did, c.nonce) (backend.after ops).nonces) := by
  refine ⟨fun pre mid c₁ c₂ h₁ h₂ => token_spent_once h₁ h₂, fun ops c d hd hden => ?_⟩
  exact (exec_ruling (backend.after ops) c).denied_inert hd hden

end AdversarialCognition
