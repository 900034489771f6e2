import AdversarialCognition.Backend.Core
import AdversarialCognition.Lib.Machine

/-!
# Calls, and everything a call can do

The four operations become the inputs of one machine, `backend`, together with `restart`. What a
call can do is said once, in `Ruling`: it is refused, and then at most its nonce is gone; or it
passes every check of its operation, which the three `Admits` structures list, and then the store
changes in one stated way. `exec_ruling` is the inversion: whatever `exec` did, it did one of
these. The lemmas named `_of_admits` are the other direction, from the checks to the outcome.
Nothing past this file unfolds an operation, save to read the text of a denial.

## Why both directions

An invariant needs the inversion alone: take the rulings one by one, and show that each keeps it.
A law that says *exactly* needs the other one too, since whoever claims that a condition is
necessary has to bring about what happens without it. With both at hand, the results about the
backend never come back to the order of the checks, and if a check is added to an operation, this
file is where the work is.

The states that a ruling leaves behind have names (`spend`, `store`, `supersede`, `tombstone`,
`settle`), and what each of them does to the three tables is a simp lemma.
-/

namespace AdversarialCognition

open Py Py.Str

/-- The arguments of `improve`, in a record, as there are too many of them to be written out in
    every statement. -/
structure ImproveCall where
  memoryId : Str
  replacement : Memory
  actor : Actor
  nonce : Str
  expectedSourceDigest : Str
  idempotencyKey : Str
  deriving DecidableEq

inductive Call
  | remember (memory : Memory) (actor : Actor) (nonce : Str)
  | recall (query : Str) (actor : Actor) (asOf : Date) (nonce : Str)
  | improve (call : ImproveCall)
  | forget (memoryId : Str) (actor : Actor) (nonce : Str)
  deriving DecidableEq

def Call.actor : Call → Actor
  | .remember _ actor _ => actor
  | .recall _ actor _ _ => actor
  | .improve call => call.actor
  | .forget _ actor _ => actor

def Call.nonce : Call → Str
  | .remember _ _ nonce => nonce
  | .recall _ _ _ nonce => nonce
  | .improve call => call.nonce
  | .forget _ _ nonce => nonce

/-- What a call spends: the DID of its actor with the nonce. -/
def Call.token (c : Call) : Str × Str := (c.actor.did, c.nonce)

/-- A step of the machine. A restart is one, so that it can come anywhere in a run. -/
inductive Op
  | call (c : Call)
  | restart
  deriving DecidableEq

/-- The reply is a decision with `allowed=True`. -/
def Allowed : Reply → Prop
  | .ok d => d.allowed = true
  | .error _ => False

instance : DecidablePred Allowed := fun
  | .ok d => inferInstanceAs (Decidable (d.allowed = true))
  | .error _ => .isFalse id

@[simp] theorem allowed_ok {d : Decision} : Allowed (.ok d) ↔ d.allowed = true := Iff.rfl

@[simp] theorem not_allowed_error {e : Exn} : ¬ Allowed (.error e) := id

theorem exists_of_allowed {reply : Reply} (h : Allowed reply) :
    ∃ d, reply = .ok d ∧ d.allowed = true := by
  cases reply with
  | ok d => exact ⟨d, rfl, h⟩
  | error e => exact absurd h not_allowed_error

def replyIds : Reply → List Str
  | .ok d => d.ids
  | .error _ => []

@[simp] theorem denied_allowed (error : Str) : (denied error).allowed = false := rfl

/-- The reply of an operation that has done its work and has only its receipt to make. -/
def answer (ids : List Str) : Except Exn Str → Reply
  | .ok receipt => .ok { allowed := true, ids := ids, receipt := receipt }
  | .error e => .error e

theorem answer_eq_ok {ids : List Str} {r : Except Exn Str} {d : Decision}
    (h : answer ids r = .ok d) :
    d.allowed = true ∧ d.ids = ids ∧ d.error = [] ∧ r = .ok d.receipt := by
  cases r with
  | ok receipt =>
    simp only [answer, Except.ok.injEq] at h
    subst h
    exact ⟨rfl, rfl, rfl, rfl⟩
  | error e => simp [answer] at h

namespace AdversarialBackend

/-!
## The states a call leaves behind

Each change a call can make to the tables is a function of its own, with its lemmas: what it does
to the one table, and that it leaves the others. No later proof unfolds them.
-/

def spend (b : AdversarialBackend) (actor : Actor) (nonce : Str) : AdversarialBackend :=
  { b with nonces := insert (actor.did, nonce) b.nonces }

def store (b : AdversarialBackend) (memory : Memory) : AdversarialBackend :=
  { b with memories := b.memories.set memory.memoryId memory }

/-- The record under `memoryId`, which is `current`, is marked superseded. -/
def supersede (b : AdversarialBackend) (memoryId : Str) (current : Memory) :
    AdversarialBackend :=
  { b with memories := b.memories.set memoryId { current with state := lit "superseded" } }

/-- The record under `memoryId`, which is `memory`, is marked forgotten, and so is every
    record that names `memoryId` among the ids it is derived from. -/
def tombstone (b : AdversarialBackend) (memoryId : Str) (memory : Memory) :
    AdversarialBackend :=
  { b with
    memories := cascade (b.memories.set memoryId { memory with state := lit "forgotten" })
      memoryId }

/-- A decision is recorded under its key; an exception records nothing, though the store was
    written to. -/
def settle (b : AdversarialBackend) (key : Str) : Reply → AdversarialBackend
  | .ok decision => { b with idempotency := b.idempotency.set key decision }
  | .error _ => b

section Fields

variable (b : AdversarialBackend) (actor : Actor) (nonce memoryId key : Str) (memory : Memory)
  (reply : Reply)

@[simp] theorem spend_memories : (b.spend actor nonce).memories = b.memories := rfl
@[simp] theorem spend_nonces :
    (b.spend actor nonce).nonces = insert (actor.did, nonce) b.nonces := rfl
@[simp] theorem spend_idempotency : (b.spend actor nonce).idempotency = b.idempotency := rfl

@[simp] theorem store_nonces : (b.store memory).nonces = b.nonces := rfl
@[simp] theorem store_idempotency : (b.store memory).idempotency = b.idempotency := rfl
@[simp] theorem store_get? (id : Str) : (b.store memory).memories.get? id =
    if id = memory.memoryId then some memory else b.memories.get? id := by
  simp [store]

@[simp] theorem supersede_nonces : (b.supersede memoryId memory).nonces = b.nonces := rfl
@[simp] theorem supersede_idempotency :
    (b.supersede memoryId memory).idempotency = b.idempotency := rfl
@[simp] theorem supersede_get? (id : Str) : (b.supersede memoryId memory).memories.get? id =
    if id = memoryId then some { memory with state := lit "superseded" }
    else b.memories.get? id := by
  simp [supersede]

@[simp] theorem tombstone_nonces : (b.tombstone memoryId memory).nonces = b.nonces := rfl
@[simp] theorem tombstone_idempotency :
    (b.tombstone memoryId memory).idempotency = b.idempotency := rfl
theorem tombstone_get? (hget : b.memories.get? memoryId = some memory) (id : Str) :
    (b.tombstone memoryId memory).memories.get? id =
      (b.memories.get? id).map fun r =>
        if id = memoryId ∨ memoryId ∈ r.derivedFrom then { r with state := lit "forgotten" }
        else r := by
  simp only [tombstone, cascade, Dict.get?_updateWhere, Dict.get?_set]
  by_cases hid : id = memoryId
  · subst hid
    simp [hget]
  · simp [hid]

@[simp] theorem settle_memories : (b.settle key reply).memories = b.memories := by
  cases reply <;> rfl
@[simp] theorem settle_nonces : (b.settle key reply).nonces = b.nonces := by
  cases reply <;> rfl
theorem settle_get? (k : Str) : (b.settle key reply).idempotency.get? k =
    match reply with
    | .ok d => if k = key then some d else b.idempotency.get? k
    | .error _ => b.idempotency.get? k := by
  cases reply <;> simp [settle]

end Fields

/-!
## The checks

The checks of an operation, collected from its body in the order they are made. A structure of
them is what an allowed call has passed, field by field.
-/

/-- Every check of `remember`. -/
structure AdmitsRemember (b : AdversarialBackend) (memory : Memory) (actor : Actor)
    (nonce : Str) : Prop where
  fresh : (actor.did, nonce) ∉ b.nonces
  mutates : actor.canMutate = true
  size : memory.text.length ≤ maxTextChars
  tenant : memory.tenant = actor.tenant
  space : memory.space = actor.space
  clearance : memory.sensitivity ≤ actor.clearance

/-- Every check of `improve`, for a call whose key is not recorded; `current` is the record it
    targets. Of the replacement there is its sensitivity, and that is all. -/
structure AdmitsImprove (b : AdversarialBackend) (c : ImproveCall) (current : Memory) :
    Prop where
  fresh : (c.actor.did, c.nonce) ∉ b.nonces
  mutates : c.actor.canMutate = true
  unsettled : b.idempotency.get? c.idempotencyKey = none
  stored : b.memories.get? c.memoryId = some current
  source : current.sourceDigest = c.expectedSourceDigest
  authorized : authorized current c.actor = true
  clearance : c.replacement.sensitivity ≤ c.actor.clearance

/-- Every check of `forget`; `memory` is the record it targets. What the cascade will mark is
    asked for nothing. -/
structure AdmitsForget (b : AdversarialBackend) (memoryId : Str) (actor : Actor)
    (nonce : Str) (memory : Memory) : Prop where
  fresh : (actor.did, nonce) ∉ b.nonces
  mutates : actor.canMutate = true
  stored : b.memories.get? memoryId = some memory
  authorized : AdversarialCognition.authorized memory actor = true

theorem AdmitsForget.get? {b : AdversarialBackend} {memoryId : Str} {actor : Actor}
    {nonce : Str} {memory : Memory} (h : b.AdmitsForget memoryId actor nonce memory) (id : Str) :
    ((b.spend actor nonce).tombstone memoryId memory).memories.get? id =
      (b.memories.get? id).map fun r =>
        if id = memoryId ∨ memoryId ∈ r.derivedFrom then { r with state := lit "forgotten" }
        else r :=
  tombstone_get? (b.spend actor nonce) memoryId memory h.stored id

theorem claim_of_fresh {b : AdversarialBackend} {actor : Actor} {nonce : Str}
    (h : (actor.did, nonce) ∉ b.nonces) : b.claim actor nonce = (true, b.spend actor nonce) := by
  simp [claim, h, spend]

theorem claim_of_spent {b : AdversarialBackend} {actor : Actor} {nonce : Str}
    (h : (actor.did, nonce) ∈ b.nonces) : b.claim actor nonce = (false, b) := by
  simp [claim, h]

variable [Runtime]

/-!
## From the checks to the outcome

An operation whose checks pass does what it is for, whatever it then answers. These are the
forward rules, for calls of which the arguments are known.
-/

theorem remember_of_admits {b : AdversarialBackend} {memory : Memory} {actor : Actor}
    {nonce : Str} (h : b.AdmitsRemember memory actor nonce) :
    b.remember memory actor nonce =
      (answer [memory.memoryId] (digest (rememberText memory)),
        (b.spend actor nonce).store memory) := by
  unfold remember
  rw [claim_of_fresh h.fresh]
  simp only [h.mutates, h.tenant, h.space, not_lt.mpr h.size, not_lt.mpr h.clearance,
    Bool.not_true, Bool.or_self, Bool.false_eq_true, ne_eq, not_true_eq_false, or_self, if_false]
  cases digest (rememberText memory) <;> rfl

theorem recall_of_fresh {b : AdversarialBackend} {query : Str} {actor : Actor} {asOf : Date}
    {nonce : Str} (hfresh : (actor.did, nonce) ∉ b.nonces)
    (hsize : query.length ≤ maxQueryChars) :
    b.recall query actor asOf nonce =
      (answer ((b.ranked query actor asOf).map Prod.snd)
        (digest (recallText (b.ranked query actor asOf))), b.spend actor nonce) := by
  unfold «recall»
  rw [claim_of_fresh hfresh]
  have hranked : (b.spend actor nonce).ranked query actor asOf = b.ranked query actor asOf := rfl
  simp only [not_lt.mpr hsize, Bool.not_true, Bool.false_eq_true, if_false, hranked]
  cases digest (recallText (b.ranked query actor asOf)) <;> rfl

theorem improve_of_settled {b : AdversarialBackend} {c : ImproveCall} {d : Decision}
    (hfresh : (c.actor.did, c.nonce) ∉ b.nonces) (hmut : c.actor.canMutate = true)
    (hkey : b.idempotency.get? c.idempotencyKey = some d) :
    b.improve c.memoryId c.replacement c.actor c.nonce c.expectedSourceDigest c.idempotencyKey =
      (.ok d, b.spend c.actor c.nonce) := by
  unfold improve
  rw [claim_of_fresh hfresh]
  simp [hmut, hkey]

theorem improve_of_admits {b : AdversarialBackend} {c : ImproveCall} {current : Memory}
    (h : b.AdmitsImprove c current) :
    b.improve c.memoryId c.replacement c.actor c.nonce c.expectedSourceDigest c.idempotencyKey =
      let reply := answer [c.memoryId, c.replacement.memoryId]
        (digest (improveText c.memoryId c.replacement.memoryId))
      (reply, ((((b.spend c.actor c.nonce).supersede c.memoryId current).store
        c.replacement).settle c.idempotencyKey reply)) := by
  unfold improve
  rw [claim_of_fresh h.fresh]
  simp only [h.mutates, spend_idempotency, h.unsettled, spend_memories, h.stored, Bool.not_true,
    Bool.or_self, Bool.false_eq_true, if_false]
  rw [if_neg (not_not.mpr h.source),
    if_neg (by simp [h.authorized, h.clearance] : ¬ (_ ∨ _))]
  cases digest (improveText c.memoryId c.replacement.memoryId) <;> rfl

theorem forget_of_admits {b : AdversarialBackend} {memoryId : Str} {actor : Actor}
    {nonce : Str} {memory : Memory} (h : b.AdmitsForget memoryId actor nonce memory) :
    b.forget memoryId actor nonce =
      (answer [memoryId] (digest (forgetText memoryId)),
        (b.spend actor nonce).tombstone memoryId memory) := by
  unfold forget
  rw [claim_of_fresh h.fresh]
  simp only [h.mutates, spend_memories, h.stored, h.authorized, Bool.not_true, Bool.or_self,
    Bool.false_eq_true, if_false]
  cases digest (forgetText memoryId) <;> rfl

/-!
## The machine

The backend as a machine of `Lib.Machine`: an operation is a call or a restart. A restart copies
the tables.
-/

def exec (b : AdversarialBackend) : Call → Reply × AdversarialBackend
  | .remember memory actor nonce => b.remember memory actor nonce
  | .recall query actor asOf nonce => b.recall query actor asOf nonce
  | .improve c =>
      b.improve c.memoryId c.replacement c.actor c.nonce c.expectedSourceDigest c.idempotencyKey
  | .forget memoryId actor nonce => b.forget memoryId actor nonce

def step (b : AdversarialBackend) : Op → Option Reply × AdversarialBackend
  | .call c => (some (b.exec c).1, (b.exec c).2)
  | .restart => (none, b.restart)

end AdversarialBackend

variable [Runtime]

/-- The backend as a machine: its reachable states are `backend.after ops`. -/
def backend : Machine AdversarialBackend Op (Option Reply) where
  init := AdversarialBackend.new
  step := AdversarialBackend.step

@[simp] theorem backend_next_call (b : AdversarialBackend) (c : Call) :
    backend.next b (.call c) = (b.exec c).2 := rfl

@[simp] theorem backend_next_restart (b : AdversarialBackend) :
    backend.next b .restart = b := rfl

/-! ## The cast of the tests

`OPERATOR`, `outsider` and `fact` of `tests/test_backend.py`, with the id itself standing
for its digest. -/

def operator : Actor := { did := "did:key:operator" }

def outsider : Actor := { did := "did:key:outsider", tenant := "rival" }

def fact (memoryId : Str) : Memory :=
  { memoryId := memoryId, text := "spot fact", source := "test", sourceDigest := memoryId }

/-- A day on which every `fact` is valid. -/
def june : Date := ⟨2026, 6, 1, by decide, by decide, by decide⟩

/-- The operator replaces one fact by another, with the right digest. -/
def proposal (memoryId replacementId nonce key : Str) : ImproveCall where
  memoryId := memoryId
  replacement := fact replacementId
  actor := operator
  nonce := nonce
  expectedSourceDigest := memoryId
  idempotencyKey := key

/-!
## Everything a call can do

The backward rule, and the one that all invariants rest on: whatever a call did is one of a few
rulings, each with the checks it passed, the state it left and the reply it got. A refusal is two
of them: the nonce was taken, and nothing happens; or a later check fails, and the nonce alone is
gone.
-/

/-- `Ruling b c reply b'`: what `c` may do at `b` is to answer `reply` and leave `b'`. The first
    two are the refusals of all four operations, and the others are what each of them does when it
    does something. -/
inductive Ruling (b : AdversarialBackend) : Call → Reply → AdversarialBackend → Prop
  /-- The nonce was taken already: nothing happens. -/
  | replayed {c : Call} {error : Str} (spent : c.token ∈ b.nonces) :
      Ruling b c (.ok (denied error)) b
  /-- Some check after the nonce fails: only the nonce is gone. -/
  | refused {c : Call} {error : Str} (fresh : c.token ∉ b.nonces) :
      Ruling b c (.ok (denied error)) (b.spend c.actor c.nonce)
  | remembered {memory : Memory} {actor : Actor} {nonce : Str}
      (admits : b.AdmitsRemember memory actor nonce) :
      Ruling b (.remember memory actor nonce)
        (answer [memory.memoryId] (digest (rememberText memory)))
        ((b.spend actor nonce).store memory)
  | recalled {query : Str} {actor : Actor} {asOf : Date} {nonce : Str}
      (fresh : (actor.did, nonce) ∉ b.nonces) (size : query.length ≤ maxQueryChars) :
      Ruling b (.recall query actor asOf nonce)
        (answer ((b.ranked query actor asOf).map Prod.snd)
          (digest (recallText (b.ranked query actor asOf))))
        (b.spend actor nonce)
  /-- The key is recorded: the recorded decision comes back. -/
  | retried {c : ImproveCall} {d : Decision} (fresh : (c.actor.did, c.nonce) ∉ b.nonces)
      (mutates : c.actor.canMutate = true)
      (settled : b.idempotency.get? c.idempotencyKey = some d) :
      Ruling b (.improve c) (.ok d) (b.spend c.actor c.nonce)
  | improved {c : ImproveCall} {current : Memory} {reply : Reply}
      (admits : b.AdmitsImprove c current)
      (hreply : reply = answer [c.memoryId, c.replacement.memoryId]
        (digest (improveText c.memoryId c.replacement.memoryId))) :
      Ruling b (.improve c) reply
        ((((b.spend c.actor c.nonce).supersede c.memoryId current).store
          c.replacement).settle c.idempotencyKey reply)
  | forgotten {memoryId : Str} {actor : Actor} {nonce : Str} {memory : Memory}
      (admits : b.AdmitsForget memoryId actor nonce memory) :
      Ruling b (.forget memoryId actor nonce)
        (answer [memoryId] (digest (forgetText memoryId)))
        ((b.spend actor nonce).tombstone memoryId memory)

namespace Ruling

variable {b : AdversarialBackend}

theorem of_remember (memory : Memory) (actor : Actor) (nonce : Str) :
    Ruling b (.remember memory actor nonce) (b.remember memory actor nonce).1
      (b.remember memory actor nonce).2 := by
  -- the checks in the order of the source, each refusal at its place
  by_cases hspent : (actor.did, nonce) ∈ b.nonces
  · unfold AdversarialBackend.remember
    rw [AdversarialBackend.claim_of_spent hspent]
    exact .replayed hspent
  · by_cases hadm : b.AdmitsRemember memory actor nonce
    · rw [AdversarialBackend.remember_of_admits hadm]
      exact .remembered hadm
    · unfold AdversarialBackend.remember
      rw [AdversarialBackend.claim_of_fresh hspent]
      dsimp only
      split_ifs with h1 h2 h3 h4
      · exact .refused hspent
      · exact .refused hspent
      · exact .refused hspent
      · exact .refused hspent
      · refine absurd ⟨hspent, ?_, not_lt.mp h2, ?_, ?_, not_lt.mp h4⟩ hadm
        · simpa using h1
        · exact not_not.mp fun h => h3 (Or.inl h)
        · exact not_not.mp fun h => h3 (Or.inr h)

theorem of_recall (query : Str) (actor : Actor) (asOf : Date) (nonce : Str) :
    Ruling b (.recall query actor asOf nonce) (b.recall query actor asOf nonce).1
      (b.recall query actor asOf nonce).2 := by
  by_cases hspent : (actor.did, nonce) ∈ b.nonces
  · unfold AdversarialBackend.recall
    rw [AdversarialBackend.claim_of_spent hspent]
    exact .replayed hspent
  · by_cases hsize : query.length ≤ maxQueryChars
    · rw [AdversarialBackend.recall_of_fresh hspent hsize]
      exact .recalled hspent hsize
    · unfold AdversarialBackend.recall
      rw [AdversarialBackend.claim_of_fresh hspent]
      simp only [not_le.mp hsize, if_true, Bool.not_true, Bool.false_eq_true, if_false]
      exact .refused hspent

theorem of_improve (c : ImproveCall) :
    Ruling b (.improve c) (b.exec (.improve c)).1 (b.exec (.improve c)).2 := by
  simp only [AdversarialBackend.exec]
  -- a key that is recorded comes before every check of the target
  by_cases hspent : (c.actor.did, c.nonce) ∈ b.nonces
  · unfold AdversarialBackend.improve
    rw [AdversarialBackend.claim_of_spent hspent]
    exact .replayed hspent
  · by_cases hadm : ∃ current, b.AdmitsImprove c current
    · obtain ⟨current, hadm⟩ := hadm
      rw [AdversarialBackend.improve_of_admits hadm]
      exact .improved hadm rfl
    · unfold AdversarialBackend.improve
      rw [AdversarialBackend.claim_of_fresh hspent]
      dsimp only
      split_ifs with hmut
      · exact .refused hspent
      · have hmut : c.actor.canMutate = true := by simpa using hmut
        rw [AdversarialBackend.spend_idempotency]
        cases hkey : b.idempotency.get? c.idempotencyKey with
        | some d => exact .retried hspent hmut hkey
        | none =>
          rw [AdversarialBackend.spend_memories]
          cases hget : b.memories.get? c.memoryId with
          | none => exact .refused hspent
          | some current =>
            dsimp only
            split_ifs with hsource hauth
            · exact .refused hspent
            · exact .refused hspent
            · simp only [Bool.not_eq_true', gt_iff_lt, not_or, Bool.not_eq_false, not_lt] at hauth
              exact absurd ⟨current, hspent, hmut, hkey, hget, not_not.mp hsource, hauth.1,
                hauth.2⟩ hadm

theorem of_forget (memoryId : Str) (actor : Actor) (nonce : Str) :
    Ruling b (.forget memoryId actor nonce) (b.forget memoryId actor nonce).1
      (b.forget memoryId actor nonce).2 := by
  by_cases hspent : (actor.did, nonce) ∈ b.nonces
  · unfold AdversarialBackend.forget
    rw [AdversarialBackend.claim_of_spent hspent]
    exact .replayed hspent
  · by_cases hadm : ∃ memory, b.AdmitsForget memoryId actor nonce memory
    · obtain ⟨memory, hadm⟩ := hadm
      rw [AdversarialBackend.forget_of_admits hadm]
      exact .forgotten hadm
    · unfold AdversarialBackend.forget
      rw [AdversarialBackend.claim_of_fresh hspent]
      dsimp only
      split_ifs with hmut
      · exact .refused hspent
      · rw [AdversarialBackend.spend_memories]
        cases hget : b.memories.get? memoryId with
        | none => exact .refused hspent
        | some memory =>
          dsimp only
          split_ifs with hauth
          · exact .refused hspent
          · exact absurd ⟨memory, hspent, by simpa using hmut, hget, by simpa using hauth⟩ hadm

end Ruling

/-- **The inversion.** Whatever a call did, it is one of the rulings. Every result about what a
    call can bring about starts here, with a case for each ruling. -/
theorem exec_ruling (b : AdversarialBackend) (c : Call) : Ruling b c (b.exec c).1 (b.exec c).2 := by
  cases c with
  | remember memory actor nonce => exact Ruling.of_remember memory actor nonce
  | «recall» query actor asOf nonce => exact Ruling.of_recall query actor asOf nonce
  | improve c => exact Ruling.of_improve c
  | forget memoryId actor nonce => exact Ruling.of_forget memoryId actor nonce

/-- A remember is answered by its arguments and by whether its nonce is taken. -/
theorem remember_eq_of_nonces {b b' : AdversarialBackend} {memory : Memory} {actor : Actor}
    {nonce : Str} (h : (actor.did, nonce) ∈ b.nonces ↔ (actor.did, nonce) ∈ b'.nonces) :
    (b.remember memory actor nonce).1 = (b'.remember memory actor nonce).1 := by
  unfold AdversarialBackend.remember
  by_cases hspent : (actor.did, nonce) ∈ b.nonces
  · rw [AdversarialBackend.claim_of_spent hspent, AdversarialBackend.claim_of_spent (h.mp hspent)]
    rfl
  · rw [AdversarialBackend.claim_of_fresh hspent,
      AdversarialBackend.claim_of_fresh fun hmem => hspent (h.mpr hmem)]
    dsimp only
    split_ifs
    · rfl
    · rfl
    · rfl
    · rfl
    · cases digest (rememberText memory) <;> rfl

end AdversarialCognition
