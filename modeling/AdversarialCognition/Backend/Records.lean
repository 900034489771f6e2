import AdversarialCognition.Backend.Calls

/-!
# What a step keeps

Three facts about one ruling carry every temporal law of this backend:

* nonces are only ever added, and an allowed call adds its own (`Ruling.nonces_subset`,
  `Ruling.token_spent`);
* a recorded decision is never replaced (`Ruling.settled`);
* a record is either *stored* by the call, as the argument the caller passed, or it is as it was
  up to its `state`, which the call may have marked superseded or forgotten (`Ruling.frame`).

Each has its run form below it, got from the rules of `Machine`.

## Stored or marked

The third is the frame, and the division in it is what most results turn on. Marking changes the
state and nothing else, and only ever to a state in which a record is not recalled. So a fact
about a record that does not mention its state outlives every step that does not store under its
id (`unwritten_run`), and a fact about all records holds of all that a run leaves if it holds of
all that the run stores (`records_run`). Which calls store what is `Stores`. It is about the
checks and not about the reply, since a call that raises has stored its record all the same.
-/

namespace AdversarialCognition

open Py Py.Str

/-!
## Marks

A record that is stored changes in one way only: it is marked as superseded or as forgotten. A
mark may replace a mark, and neither is taken back.
-/

/-- The states a record can be marked with. -/
def IsMark (state : Str) : Prop := state = lit "superseded" ∨ state = lit "forgotten"

theorem IsMark.ne_current {state : Str} (h : IsMark state) : state ≠ lit "current" := by
  rcases h with rfl | rfl <;> decide

/-- `r'` is `r`, or `r` with a mark. Marks are not undone, and one may replace the other. -/
def MarkOf (r r' : Memory) : Prop := r' = r ∨ ∃ s, IsMark s ∧ r' = { r with state := s }

theorem MarkOf.refl (r : Memory) : MarkOf r r := Or.inl rfl

theorem MarkOf.memoryId {r r' : Memory} (h : MarkOf r r') : r'.memoryId = r.memoryId := by
  rcases h with rfl | ⟨s, -, rfl⟩ <;> rfl

theorem MarkOf.isMark {r r' : Memory} (h : IsMark r.state) (hm : MarkOf r r') :
    IsMark r'.state := by
  rcases hm with rfl | ⟨s, hs, rfl⟩
  · exact h
  · exact hs

theorem MarkOf.text {r r' : Memory} (h : MarkOf r r') : r'.text = r.text := by
  rcases h with rfl | ⟨s, -, rfl⟩ <;> rfl

variable [Runtime] {b b' : AdversarialBackend} {c : Call} {reply : Reply}

/-!
## Nonces

A nonce that is spent stays spent. Behind a call its own nonce is spent, however the call was
answered.
-/

theorem Ruling.nonces_subset (h : Ruling b c reply b') : b.nonces ⊆ b'.nonces := by
  cases h with
  | replayed => exact Finset.Subset.refl _
  | _ => simp [Finset.subset_insert]

theorem Ruling.token_fresh (h : Ruling b c reply b') (ha : Allowed reply) :
    c.token ∉ b.nonces := by
  cases h with
  | replayed => simp at ha
  | refused fresh => exact fresh
  | remembered admits => exact admits.fresh
  | recalled fresh => exact fresh
  | retried fresh => exact fresh
  | improved admits => exact admits.fresh
  | forgotten admits => exact admits.fresh

theorem Ruling.token_spent (h : Ruling b c reply b') (ha : Allowed reply) :
    c.token ∈ b'.nonces := by
  cases h with
  | replayed => simp at ha
  | _ => simp [Call.token, Call.actor, Call.nonce]

/-!
## Recorded decisions

What is on record under a key is never overwritten, since an improve under a key that has a
decision answers with it and does nothing else.
-/

/-- **What is recorded under a key stays.** An improve records only where nothing is, since a key
    that has a decision is answered with it. -/
theorem Ruling.settled (h : Ruling b c reply b') {k : Str} {d : Decision}
    (hk : b.idempotency.get? k = some d) : b'.idempotency.get? k = some d := by
  cases h with
  | improved admits =>
    -- The one step that records finds its own key free, so it is another key's decision.
    have hne : ∀ {c : ImproveCall}, b.idempotency.get? c.idempotencyKey = none →
        k ≠ c.idempotencyKey := by
      intro c hnone hkc
      rw [hkc, hnone] at hk
      simp at hk
    rw [AdversarialBackend.settle_get?]
    cases reply with
    | error e => simpa using hk
    | ok d' => simpa [hne admits.unsettled] using hk
  | _ => simpa using hk

theorem settled_run {k : Str} {d : Decision} (hk : b.idempotency.get? k = some d)
    (ops : List Op) : (backend.run b ops).idempotency.get? k = some d := by
  refine Machine.run_stable (P := fun s : AdversarialBackend => s.idempotency.get? k = some d) ?_ hk ops
  intro s op hs
  cases op with
  | call c => exact (exec_ruling s c).settled hs
  | restart => exact hs

/-!
## Records

The frame of a call: a record that is there afterwards is the one the call stored, or was there
before, up to a mark. From this comes the rule by which the invariants of records are proved, one
step and then a run.
-/

/-- `c`, at `b`, passes every check and puts `memory` into the store as it was passed in.
    (It does so even when it goes on to raise for want of a receipt.) -/
inductive Stores (b : AdversarialBackend) : Call → Memory → Prop
  | remember {memory : Memory} {actor : Actor} {nonce : Str}
      (admits : b.AdmitsRemember memory actor nonce) :
      Stores b (.remember memory actor nonce) memory
  | improve {c : ImproveCall} {current : Memory} (admits : b.AdmitsImprove c current) :
      Stores b (.improve c) c.replacement

theorem exec_stored {m : Memory} (h : Stores b c m) :
    (b.exec c).2.memories.get? m.memoryId = some m := by
  cases h with
  | remember admits =>
    simp only [AdversarialBackend.exec, AdversarialBackend.remember_of_admits admits]
    simp
  | improve admits =>
    simp only [AdversarialBackend.exec, AdversarialBackend.improve_of_admits admits]
    simp

/-- **The frame.** A record there is afterwards is one the call stored, or one there was
    before, up to a mark. -/
theorem Ruling.frame (h : Ruling b c reply b') {id : Str} {r : Memory}
    (hr : b'.memories.get? id = some r) :
    (Stores b c r ∧ r.memoryId = id) ∨ ∃ r₀, b.memories.get? id = some r₀ ∧ MarkOf r₀ r := by
  -- the refusals and recalls leave the table alone, and the others are taken one by one
  cases h with
  | replayed => exact Or.inr ⟨r, hr, MarkOf.refl r⟩
  | refused => exact Or.inr ⟨r, hr, MarkOf.refl r⟩
  | recalled => exact Or.inr ⟨r, hr, MarkOf.refl r⟩
  | retried => exact Or.inr ⟨r, hr, MarkOf.refl r⟩
  | remembered admits =>
    rw [AdversarialBackend.store_get?] at hr
    split at hr
    · rename_i hid
      obtain rfl := Option.some.inj hr
      exact Or.inl ⟨.remember admits, hid.symm⟩
    · exact Or.inr ⟨r, hr, MarkOf.refl r⟩
  | @improved c current _ admits =>
    rw [AdversarialBackend.settle_memories, AdversarialBackend.store_get?] at hr
    split at hr
    · rename_i hid
      obtain rfl := Option.some.inj hr
      exact Or.inl ⟨.improve admits, hid.symm⟩
    · rw [AdversarialBackend.supersede_get?] at hr
      split at hr
      · rename_i hid
        obtain rfl := Option.some.inj hr
        exact Or.inr ⟨current, hid ▸ admits.stored, Or.inr ⟨_, Or.inl rfl, rfl⟩⟩
      · exact Or.inr ⟨r, hr, MarkOf.refl r⟩
  | forgotten admits =>
    rw [admits.get? id] at hr
    obtain ⟨r₀, hr₀, rfl⟩ := Option.map_eq_some_iff.mp hr
    refine Or.inr ⟨r₀, hr₀, ?_⟩
    split
    · exact Or.inr ⟨_, Or.inr rfl, rfl⟩
    · exact MarkOf.refl r₀

/-- `Writes b op id`: the step `op`, at `b`, stores a record under `id`. -/
def Writes (b : AdversarialBackend) (op : Op) (id : Str) : Prop :=
  ∃ c m, op = .call c ∧ Stores b c m ∧ m.memoryId = id

/-- **The record invariant rule.** What marking keeps, and what holds of every record the
    steps of a run store, holds of every record the run leaves behind. -/
theorem records_run {P : Memory → Prop} {ops : List Op}
    (hmark : ∀ r r', P r → MarkOf r r' → P r')
    (hstore : ∀ p ∈ backend.traceFrom b ops, ∀ c m, p.2 = .call c → Stores p.1 c m → P m)
    (hb : ∀ id r, b.memories.get? id = some r → P r) :
    ∀ id r, (backend.run b ops).memories.get? id = some r → P r := by
  refine Machine.run_keeps
    (P := fun s : AdversarialBackend => ∀ id r, s.memories.get? id = some r → P r) ?_ hb
  rintro ⟨s, op⟩ hp hs id r hr
  cases op with
  | restart => exact hs id r hr
  | call c =>
    rw [backend_next_call] at hr
    rcases (exec_ruling s c).frame hr with ⟨hm, -⟩ | ⟨r₀, hr₀, hmk⟩
    · exact hstore _ hp c r rfl hm
    · exact hmark r₀ r (hs id r₀ hr₀) hmk

/-!
## Keys are ids

A first instance of the rule.
-/

/-- Every record is stored under its own id. -/
def Keyed (b : AdversarialBackend) : Prop :=
  ∀ id r, b.memories.get? id = some r → r.memoryId = id

theorem keyed_exec (hb : Keyed b) : Keyed (b.exec c).2 := by
  intro id r hr
  rcases (exec_ruling b c).frame hr with ⟨-, hid⟩ | ⟨r₀, hr₀, hmk⟩
  · exact hid
  · rw [hmk.memoryId, hb id r₀ hr₀]

/-- **Every reachable store keeps key = record.memory_id.** The source never checks it, and its
    recall lists ids out of the values, so that no id is listed twice rests on it. -/
theorem keyed_after (ops : List Op) : Keyed (backend.after ops) := by
  refine Machine.invariant (P := Keyed) ?_ ?_ ops
  · intro id r hr
    simp [backend, AdversarialBackend.new] at hr
  · intro s op hs
    cases op with
    | call c => exact keyed_exec hs
    | restart => exact hs

/-!
## What no step writes, only marks can change

A second rule, for one id: over a run that stores nothing under it, whatever marking keeps remains
true of the record there.
-/

/-- **The unwritten rule.** A fact that marking keeps stays true of the record under `id`
    for as long as no step writes `id`. -/
theorem unwritten_run {P : Memory → Prop} {id : Str} {ops : List Op}
    (hmark : ∀ r r', P r → MarkOf r r' → P r')
    (hquiet : ∀ p ∈ backend.traceFrom b ops, ¬ Writes p.1 p.2 id)
    (hb : ∀ r, b.memories.get? id = some r → P r) :
    ∀ r, (backend.run b ops).memories.get? id = some r → P r := by
  refine Machine.run_keeps
    (P := fun s : AdversarialBackend => ∀ r, s.memories.get? id = some r → P r) ?_ hb
  rintro ⟨s, op⟩ hp hs r hr
  cases op with
  | restart => exact hs r hr
  | call c =>
    rw [backend_next_call] at hr
    rcases (exec_ruling s c).frame hr with ⟨hm, hid⟩ | ⟨r₀, hr₀, hmk⟩
    · exact absurd ⟨c, r, rfl, hm, hid⟩ (hquiet _ hp)
    · exact hmark r₀ r (hs r₀ hr₀) hmk

end AdversarialCognition
