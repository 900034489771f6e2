import AdversarialCognition.Backend.Recall

/-!
# The order of ingestion

A store keeps its records in the order they came in, and `recall` visits them in that order. None
of it shows. Two backends whose tables hold the same under every key, in whatever order, answer
every call alike and stay so (`sameStore_bisimulation`): what is collected in iteration order is
sorted by a total order on it, and everything else is read by key.

That leaves the decisions. A remember decides on the memory, the actor and whether the nonce is
taken, and never on what is stored, so two remembers with different ids and different nonces do
not see each other (`remember_commuting`). `Machine.outcomes_perm` makes the law of these two
facts.

## Why not equality

Two orders of the same remembers do not lead to one store: the dictionaries list their items
differently, and a definition of the state that forgot the order would have to be compared with
the source again. So the states are related by `SameStore` and the law is about what can be
observed, the decisions of the remembers and every recall behind them. That the ids are distinct
is needed, since the later of two remembers under one id wins; that the nonces are is needed as
well, since the later of two under one nonce is refused.
-/

namespace AdversarialCognition

open Py Py.Str

/-- The same nonces, decisions and records under every key, in any order. A dictionary keeps the
    order of its insertions, so two such backends need not be equal. -/
structure SameStore (b b' : AdversarialBackend) : Prop where
  nonces : b.nonces = b'.nonces
  idempotency : ∀ k, b.idempotency.get? k = b'.idempotency.get? k
  memories : ∀ id, b.memories.get? id = b'.memories.get? id

theorem sameStore_equivalence : Equivalence SameStore where
  refl _ := ⟨rfl, fun _ => rfl, fun _ => rfl⟩
  symm h := ⟨h.nonces.symm, fun k => (h.idempotency k).symm, fun id => (h.memories id).symm⟩
  trans h h' := ⟨h.nonces.trans h'.nonces, fun k => (h.idempotency k).trans (h'.idempotency k),
    fun id => (h.memories id).trans (h'.memories id)⟩

section Bisimulation

variable {b b' : AdversarialBackend} {actor : Actor} {nonce : Str}

theorem SameStore.claim (h : SameStore b b') (actor : Actor) (nonce : Str) :
    (b.claim actor nonce).1 = (b'.claim actor nonce).1 ∧
      SameStore (b.claim actor nonce).2 (b'.claim actor nonce).2 := by
  by_cases hspent : (actor.did, nonce) ∈ b.nonces
  · rw [AdversarialBackend.claim_of_spent hspent,
      AdversarialBackend.claim_of_spent (h.nonces ▸ hspent)]
    exact ⟨rfl, h⟩
  · rw [AdversarialBackend.claim_of_fresh hspent,
      AdversarialBackend.claim_of_fresh (h.nonces ▸ hspent)]
    refine ⟨rfl, ?_, h.idempotency, h.memories⟩
    show insert _ b.nonces = insert _ b'.nonces
    rw [h.nonces]

theorem SameStore.set (h : SameStore b b') (id : Str) (r : Memory) :
    SameStore { b with memories := b.memories.set id r }
      { b' with memories := b'.memories.set id r } := by
  refine ⟨h.nonces, h.idempotency, fun j => ?_⟩
  show (b.memories.set id r).get? j = (b'.memories.set id r).get? j
  rw [Dict.get?_set, Dict.get?_set, h.memories]

theorem SameStore.cascade (h : SameStore b b') (id : Str) :
    SameStore { b with memories := AdversarialBackend.cascade b.memories id }
      { b' with memories := AdversarialBackend.cascade b'.memories id } := by
  refine ⟨h.nonces, h.idempotency, fun j => ?_⟩
  show (AdversarialBackend.cascade b.memories id).get? j =
    (AdversarialBackend.cascade b'.memories id).get? j
  rw [AdversarialBackend.cascade, AdversarialBackend.cascade, Dict.get?_updateWhere,
    Dict.get?_updateWhere, h.memories]

theorem SameStore.settle (h : SameStore b b') (key : Str) (d : Decision) :
    SameStore { b with idempotency := b.idempotency.set key d }
      { b' with idempotency := b'.idempotency.set key d } := by
  refine ⟨h.nonces, fun k => ?_, h.memories⟩
  show (b.idempotency.set key d).get? k = (b'.idempotency.set key d).get? k
  rw [Dict.get?_set, Dict.get?_set, h.idempotency]

/-- The loop collects the same pairs, and the sort puts them in the same order. -/
theorem SameStore.ranked (h : SameStore b b') (query : Str) (actor : Actor) (asOf : Date) :
    b.ranked query actor asOf = b'.ranked query actor asOf := by
  have hitems : b.memories.items.Perm b'.memories.items := by
    rw [List.perm_ext_iff_of_nodup b.memories.nodup_items b'.memories.nodup_items]
    intro item
    rw [Dict.mem_items_iff, Dict.mem_items_iff, h.memories]
  exact Ranking.sort_eq_of_perm ((hitems.map Prod.snd).filterMap _)

variable [Runtime]

theorem SameStore.remember (h : SameStore b b') (memory : Memory) (actor : Actor) (nonce : Str) :
    (b.remember memory actor nonce).1 = (b'.remember memory actor nonce).1 ∧
      SameStore (b.remember memory actor nonce).2 (b'.remember memory actor nonce).2 := by
  obtain ⟨hclaimed, hstore⟩ := h.claim actor nonce
  have hset := hstore.set memory.memoryId memory
  unfold AdversarialBackend.remember
  dsimp only
  rw [← hclaimed]
  split_ifs
  · exact ⟨rfl, hstore⟩
  · exact ⟨rfl, hstore⟩
  · exact ⟨rfl, hstore⟩
  · exact ⟨rfl, hstore⟩
  · cases digest (rememberText memory) with
    | error e => exact ⟨rfl, hset⟩
    | ok receipt => exact ⟨rfl, hset⟩

theorem SameStore.recall (h : SameStore b b') (query : Str) (actor : Actor) (asOf : Date)
    (nonce : Str) :
    (b.recall query actor asOf nonce).1 = (b'.recall query actor asOf nonce).1 ∧
      SameStore (b.recall query actor asOf nonce).2 (b'.recall query actor asOf nonce).2 := by
  obtain ⟨hclaimed, hstore⟩ := h.claim actor nonce
  unfold AdversarialBackend.recall
  dsimp only
  rw [← hclaimed, hstore.ranked]
  split_ifs
  · exact ⟨rfl, hstore⟩
  · exact ⟨rfl, hstore⟩
  · cases digest (recallText ((b'.claim actor nonce).2.ranked query actor asOf)) with
    | error e => exact ⟨rfl, hstore⟩
    | ok receipt => exact ⟨rfl, hstore⟩

theorem SameStore.improve (h : SameStore b b') (c : ImproveCall) :
    (b.exec (.improve c)).1 = (b'.exec (.improve c)).1 ∧
      SameStore (b.exec (.improve c)).2 (b'.exec (.improve c)).2 := by
  obtain ⟨hclaimed, hstore⟩ := h.claim c.actor c.nonce
  simp only [AdversarialBackend.exec]
  unfold AdversarialBackend.improve
  dsimp only
  rw [← hclaimed, hstore.idempotency, hstore.memories]
  split_ifs
  · exact ⟨rfl, hstore⟩
  · cases (b'.claim c.actor c.nonce).2.idempotency.get? c.idempotencyKey with
    | some d => exact ⟨rfl, hstore⟩
    | none =>
      cases (b'.claim c.actor c.nonce).2.memories.get? c.memoryId with
      | none => exact ⟨rfl, hstore⟩
      | some current =>
        dsimp only
        have hset := (hstore.set c.memoryId { current with state := lit "superseded" }).set
          c.replacement.memoryId c.replacement
        split_ifs
        · exact ⟨rfl, hstore⟩
        · exact ⟨rfl, hstore⟩
        · cases digest (improveText c.memoryId c.replacement.memoryId) with
          | error e => exact ⟨rfl, hset⟩
          | ok receipt => exact ⟨rfl, hset.settle _ _⟩

theorem SameStore.forget (h : SameStore b b') (memoryId : Str) (actor : Actor) (nonce : Str) :
    (b.forget memoryId actor nonce).1 = (b'.forget memoryId actor nonce).1 ∧
      SameStore (b.forget memoryId actor nonce).2 (b'.forget memoryId actor nonce).2 := by
  obtain ⟨hclaimed, hstore⟩ := h.claim actor nonce
  unfold AdversarialBackend.forget
  dsimp only
  rw [← hclaimed, hstore.memories]
  split_ifs
  · exact ⟨rfl, hstore⟩
  · cases (b'.claim actor nonce).2.memories.get? memoryId with
    | none => exact ⟨rfl, hstore⟩
    | some memory =>
      dsimp only
      have hmarked := (hstore.set memoryId { memory with state := lit "forgotten" }).cascade memoryId
      split_ifs
      · exact ⟨rfl, hstore⟩
      · cases digest (forgetText memoryId) with
        | error e => exact ⟨rfl, hmarked⟩
        | ok receipt => exact ⟨rfl, hmarked⟩

/-- **No call tells the order of the tables**, and what it leaves is in the same relation. The
    operations are taken one by one, as the relation is about each table and they write to
    different ones. -/
theorem SameStore.exec (h : SameStore b b') (c : Call) :
    (b.exec c).1 = (b'.exec c).1 ∧ SameStore (b.exec c).2 (b'.exec c).2 := by
  cases c with
  | remember memory actor nonce => exact h.remember memory actor nonce
  | «recall» query actor asOf nonce => exact h.recall query actor asOf nonce
  | improve c => exact h.improve c
  | forget memoryId actor nonce => exact h.forget memoryId actor nonce

/-- **The order of the tables is invisible**, to every call and for good. -/
theorem sameStore_bisimulation : Machine.Bisimulation backend SameStore where
  output h op := by
    cases op with
    | call c => exact congrArg some (h.exec c).1
    | restart => rfl
  next h op := by
    cases op with
    | call c => exact (h.exec c).2
    | restart => exact h

end Bisimulation

/-!
## Remembers do not see each other

Two remembers of different ids under different nonces lead to the same tables in both orders, and
each is answered as it would be without the other. Their actors may be any, as a remember looks at
nothing that is stored.
-/

structure RememberCall where
  memory : Memory
  actor : Actor
  nonce : Str

def RememberCall.op (r : RememberCall) : Op := .call (.remember r.memory r.actor r.nonce)

def RememberCall.token (r : RememberCall) : Str × Str := (r.actor.did, r.nonce)

section Remembers

variable [Runtime] {b b' : AdversarialBackend}

omit [Runtime] in
theorem admitsRemember_congr {memory : Memory} {actor : Actor} {nonce : Str}
    (h : (actor.did, nonce) ∈ b.nonces ↔ (actor.did, nonce) ∈ b'.nonces) :
    b.AdmitsRemember memory actor nonce ↔ b'.AdmitsRemember memory actor nonce := by
  constructor
  · intro hadm
    exact { hadm with fresh := fun hmem => hadm.fresh (h.mpr hmem) }
  · intro hadm
    exact { hadm with fresh := fun hmem => hadm.fresh (h.mp hmem) }

theorem Ruling.remember_tables {memory : Memory} {actor : Actor} {nonce : Str} {reply : Reply}
    (h : Ruling b (.remember memory actor nonce) reply b') :
    b'.nonces = insert (actor.did, nonce) b.nonces ∧ b'.idempotency = b.idempotency ∧
      (b'.memories = b.memories ∨ b.AdmitsRemember memory actor nonce) := by
  cases h with
  | replayed spent => exact ⟨(Finset.insert_eq_of_mem spent).symm, rfl, Or.inl rfl⟩
  | refused => exact ⟨rfl, rfl, Or.inl rfl⟩
  | remembered admits => exact ⟨rfl, rfl, Or.inr admits⟩

theorem remember_nonces (r : RememberCall) :
    (backend.next b r.op).nonces = insert r.token b.nonces :=
  (exec_ruling b (.remember r.memory r.actor r.nonce)).remember_tables.1

theorem remember_idempotency (r : RememberCall) :
    (backend.next b r.op).idempotency = b.idempotency :=
  (exec_ruling b (.remember r.memory r.actor r.nonce)).remember_tables.2.1

/-- What is under an id behind a remember: the record, if it was admitted under that id, or what
    was there. -/
theorem remember_get? (r : RememberCall) (id : Str) [Decidable
    (b.AdmitsRemember r.memory r.actor r.nonce ∧ id = r.memory.memoryId)] :
    (backend.next b r.op).memories.get? id =
      if b.AdmitsRemember r.memory r.actor r.nonce ∧ id = r.memory.memoryId then some r.memory
      else b.memories.get? id := by
  show (b.exec (.remember r.memory r.actor r.nonce)).2.memories.get? id = _
  by_cases hadm : b.AdmitsRemember r.memory r.actor r.nonce
  · simp [AdversarialBackend.exec, AdversarialBackend.remember_of_admits hadm, hadm]
  · rw [if_neg fun h => hadm h.1]
    cases (exec_ruling b (.remember r.memory r.actor r.nonce)).remember_tables.2.2 with
    | inl hsame => rw [hsame]
    | inr admits => exact absurd admits hadm

/-- Two remembers of different ids under different nonces. Their actors may be any. -/
def RememberApart (i j : Op) : Prop :=
  ∃ r r' : RememberCall, i = r.op ∧ j = r'.op ∧ r.memory.memoryId ≠ r'.memory.memoryId ∧
    r.token ≠ r'.token

theorem fresh_after_remember {r r' : RememberCall} (h : r.token ≠ r'.token) :
    r'.token ∈ (backend.next b r.op).nonces ↔ r'.token ∈ b.nonces := by
  rw [remember_nonces, Finset.mem_insert, or_iff_right (Ne.symm h)]

/-- Two such remembers lead to the same tables in both orders. -/
theorem sameStore_swap {r r' : RememberCall}
    (hids : r.memory.memoryId ≠ r'.memory.memoryId) (htokens : r.token ≠ r'.token) :
    SameStore (backend.next (backend.next b r.op) r'.op)
      (backend.next (backend.next b r'.op) r.op) := by
  classical
  refine ⟨?_, ?_, ?_⟩
  · simp only [remember_nonces]
    exact Finset.insert_comm _ _ _
  · intro k
    simp only [remember_idempotency]
  · intro id
    have hadm : (backend.next b r'.op).AdmitsRemember r.memory r.actor r.nonce ↔ _ :=
      admitsRemember_congr (fresh_after_remember htokens.symm)
    have hadm' : (backend.next b r.op).AdmitsRemember r'.memory r'.actor r'.nonce ↔ _ :=
      admitsRemember_congr (fresh_after_remember htokens)
    simp only [remember_get?, hadm, hadm']
    -- what is under an id was stored by the one remember that has it
    by_cases hid : id = r.memory.memoryId
    · have hid' : id ≠ r'.memory.memoryId := fun h => hids (hid.symm.trans h)
      simp [hid, hids]
    · simp [hid]

theorem remember_commuting : Machine.Commuting backend SameStore RememberApart where
  symm := by
    rintro i j ⟨r, r', hi, hj, hids, htokens⟩
    exact ⟨r', r, hj, hi, hids.symm, htokens.symm⟩
  output := by
    rintro i j ⟨r, r', rfl, rfl, -, htokens⟩ b
    exact congrArg some (remember_eq_of_nonces (fresh_after_remember htokens))
  next := by
    rintro i j ⟨r, r', rfl, rfl, hids, htokens⟩ b
    exact sameStore_swap hids htokens

/-!
## The law

A permutation is made of such swaps, so the law for lists follows from the law for two. It is
stated of every reachable state and of every prefix.
-/

/-- **Ingestion order does not matter.** From every reachable state, remembers with
    distinct ids and distinct nonces get the same decisions in any order, each its own, and
    no recall afterwards knows which order it was. -/
theorem ingestion_order (ops : List Op) {rs rs' : List RememberCall} (hperm : rs.Perm rs')
    (hids : (rs.map fun r => r.memory.memoryId).Nodup) (htokens : (rs.map RememberCall.token).Nodup) :
    (backend.outcomes (backend.after ops) (rs.map RememberCall.op)).Perm
        (backend.outcomes (backend.after ops) (rs'.map RememberCall.op)) ∧
      ∀ query actor asOf nonce,
        ((backend.run (backend.after ops) (rs.map RememberCall.op)).recall query actor asOf nonce).1 =
          ((backend.run (backend.after ops) (rs'.map RememberCall.op)).recall
            query actor asOf nonce).1 := by
  have hapart : (rs.map RememberCall.op).Pairwise RememberApart := by
    rw [List.pairwise_map]
    have hids := List.pairwise_map.mp hids
    have htokens := List.pairwise_map.mp htokens
    exact (hids.and htokens).imp fun h => ⟨_, _, rfl, rfl, h.1, h.2⟩
  obtain ⟨houtcomes, hstore⟩ := Machine.outcomes_perm sameStore_equivalence sameStore_bisimulation
    remember_commuting (hperm.map RememberCall.op) hapart
    (sameStore_equivalence.refl (backend.after ops))
  exact ⟨houtcomes, fun query actor asOf nonce => (hstore.recall query actor asOf nonce).1⟩

end Remembers

section

attribute [local instance] cpython

/-- Two facts, and the same two the other way round. -/
theorem ingestion_order_two_facts :
    (backend.outcomes backend.init [.call (.remember (fact "a") operator "1"),
        .call (.remember (fact "b") operator "2")]).Perm
      (backend.outcomes backend.init [.call (.remember (fact "b") operator "2"),
        .call (.remember (fact "a") operator "1")]) := by
  have h := ingestion_order [] (List.Perm.swap ⟨fact "b", operator, "2"⟩
    ⟨fact "a", operator, "1"⟩ []) (by decide) (by decide)
  exact h.1

end

end AdversarialCognition
