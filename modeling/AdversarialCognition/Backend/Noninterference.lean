import AdversarialCognition.Backend.Recall

/-!
# What a reply gives away

Two backends that an actor cannot tell apart by rights: same nonces, same recorded decisions, same
records as far as the actor is authorized for them, anything at all beyond that. The question is
whether a reply tells them apart.

Three operations cannot. `remember` never reads the store; `forget` folds a missing record and a
foreign one into one denial; and `recall` tests authorization before it ranks, so its ranking, and
the receipt printed from it, are made of the actor's own records (`ranked_eq_of_agree`).

`improve` asks in the other order. It compares digests first and asks for authority second, with a
text for each denial, so it answers whether a foreign record of a given digest is stored under the
id. `replies_agree_iff` says that this is the whole of what leaks.

## Two states and one call

The relation is between two states, and nothing is asked of how they came about; reachable states
are a special case. The result is about the answer to one call, and the states that the call
leaves are not compared. The nonces and decisions are the same in both, because an actor can try
its own nonces and present any key without reading a record.
-/

namespace AdversarialCognition

open Py Py.Str

section Views

variable {b₁ b₂ : AdversarialBackend} {actor : Actor}

/-- The two backends differ in nothing the actor is authorized for. The nonces and the decisions
    are the same, as these answer whoever asks; the other records may be any. -/
structure AgreeFor (actor : Actor) (b₁ b₂ : AdversarialBackend) : Prop where
  nonces : b₁.nonces = b₂.nonces
  idempotency : ∀ k, b₁.idempotency.get? k = b₂.idempotency.get? k
  records : ∀ id r, authorized r actor = true →
    (b₁.memories.get? id = some r ↔ b₂.memories.get? id = some r)

/-- What is under the id, if anything is, the actor may not read. -/
def Foreign (b : AdversarialBackend) (actor : Actor) (id : Str) : Prop :=
  ∀ r, b.memories.get? id = some r → authorized r actor = false

/-- Under any id, both have the same record within the actor's authority, or neither has
    one. -/
theorem AgreeFor.lookup (h : AgreeFor actor b₁ b₂) (id : Str) :
    (∃ r, b₁.memories.get? id = some r ∧ b₂.memories.get? id = some r ∧
        authorized r actor = true) ∨
      (Foreign b₁ actor id ∧ Foreign b₂ actor id) := by
  by_cases hown : ∃ r, b₁.memories.get? id = some r ∧ authorized r actor = true
  · obtain ⟨r, hr, hauth⟩ := hown
    exact Or.inl ⟨r, hr, (h.records id r hauth).mp hr, hauth⟩
  · refine Or.inr ⟨?_, ?_⟩
    · intro r hr
      exact Bool.eq_false_iff.mpr fun hauth => hown ⟨r, hr, hauth⟩
    · intro r hr
      exact Bool.eq_false_iff.mpr fun hauth => hown ⟨r, (h.records id r hauth).mpr hr, hauth⟩

/-- Stores with nothing in them for the actor are alike to it. -/
theorem agreeFor_of_foreign (hnonces : b₁.nonces = b₂.nonces)
    (hkeys : b₁.idempotency.items = b₂.idempotency.items)
    (h₁ : ∀ item ∈ b₁.memories.items, authorized item.2 actor = false)
    (h₂ : ∀ item ∈ b₂.memories.items, authorized item.2 actor = false) :
    AgreeFor actor b₁ b₂ := by
  refine ⟨hnonces, fun k => by rw [Dict.get?, Dict.get?, hkeys],
    fun id r hauth => iff_of_false ?_ ?_⟩
  · intro hr
    exact Bool.false_ne_true ((h₁ _ (Dict.mem_items_iff.mpr hr)).symm.trans hauth)
  · intro hr
    exact Bool.false_ne_true ((h₂ _ (Dict.mem_items_iff.mpr hr)).symm.trans hauth)

theorem rankEntry_of_foreign {queryWords : Finset Str} {asOf : Date} {r : Memory}
    (h : authorized r actor = false) :
    AdversarialBackend.rankEntry queryWords actor asOf r = none := by
  unfold AdversarialBackend.rankEntry
  rw [if_pos (Or.inr (by simp [h]))]

end Views

section Laws

variable [Runtime] {b b₁ b₂ : AdversarialBackend} {actor : Actor}

/-!
## The three that agree

Each of them is answered from the call, the nonces, and what the actor may read of the store. For
`recall` this takes the lemma that the ranking is a function of its hits, since the two loops go
over stores of different sizes.
-/

theorem remember_agrees (h : AgreeFor actor b₁ b₂) (memory : Memory) (nonce : Str) :
    (b₁.remember memory actor nonce).1 = (b₂.remember memory actor nonce).1 :=
  remember_eq_of_nonces (by rw [h.nonces])

omit [Runtime] in
/-- **The ranking is a function of the actor's own records.** The two loops collect over
    stores of different sizes and orders, and the sort makes up for it. -/
theorem ranked_eq_of_agree (h : AgreeFor actor b₁ b₂) (query : Str) (asOf : Date) :
    b₁.ranked query actor asOf = b₂.ranked query actor asOf := by
  have hcollect : ∀ b : AdversarialBackend,
      b.memories.values.filterMap (AdversarialBackend.rankEntry (words query) actor asOf) =
        (b.memories.items.filter fun item => authorized item.2 actor).filterMap
          fun item => AdversarialBackend.rankEntry (words query) actor asOf item.2 := by
    intro b
    rw [Dict.values, List.filterMap_map, List.filterMap_filter]
    refine List.filterMap_congr fun item _ => ?_
    cases hauth : authorized item.2 actor with
    | true => simp
    | false => simpa using rankEntry_of_foreign hauth
  unfold AdversarialBackend.ranked
  rw [hcollect b₁, hcollect b₂]
  refine Ranking.sort_eq_of_perm (List.Perm.filterMap _ (Dict.filter_items_perm ?_))
  exact fun id r hauth => h.records id r hauth

theorem recall_agrees (h : AgreeFor actor b₁ b₂) (query : Str) (asOf : Date) (nonce : Str) :
    (b₁.recall query actor asOf nonce).1 = (b₂.recall query actor asOf nonce).1 := by
  by_cases hspent : (actor.did, nonce) ∈ b₁.nonces
  · have hspent₂ := h.nonces ▸ hspent
    unfold AdversarialBackend.recall
    rw [AdversarialBackend.claim_of_spent hspent, AdversarialBackend.claim_of_spent hspent₂]
    rfl
  · exact recall_eq_of_ranked hspent (h.nonces ▸ hspent) fun _ => ranked_eq_of_agree h query asOf

theorem forget_of_foreign {memoryId nonce : Str} (hfresh : (actor.did, nonce) ∉ b.nonces)
    (hmut : actor.canMutate = true) (h : Foreign b actor memoryId) :
    (b.forget memoryId actor nonce).1 = .ok (denied (lit "authorization-denied")) := by
  unfold AdversarialBackend.forget
  rw [AdversarialBackend.claim_of_fresh hfresh]
  simp only [hmut, AdversarialBackend.spend_memories, Bool.not_true, Bool.or_self,
    Bool.false_eq_true, if_false]
  cases hget : b.memories.get? memoryId with
  | none => rfl
  | some r => simp [h r hget]

theorem forget_agrees (h : AgreeFor actor b₁ b₂) (memoryId nonce : Str) :
    (b₁.forget memoryId actor nonce).1 = (b₂.forget memoryId actor nonce).1 := by
  by_cases hspent : (actor.did, nonce) ∈ b₁.nonces
  · have hspent₂ := h.nonces ▸ hspent
    unfold AdversarialBackend.forget
    rw [AdversarialBackend.claim_of_spent hspent, AdversarialBackend.claim_of_spent hspent₂]
    rfl
  · have hfresh₂ := h.nonces ▸ hspent
    cases hmut : actor.canMutate with
    | false =>
      unfold AdversarialBackend.forget
      rw [AdversarialBackend.claim_of_fresh hspent, AdversarialBackend.claim_of_fresh hfresh₂]
      simp [hmut]
    | true =>
      rcases h.lookup memoryId with ⟨r, hr₁, hr₂, hauth⟩ | ⟨hf₁, hf₂⟩
      · rw [AdversarialBackend.forget_of_admits ⟨hspent, hmut, hr₁, hauth⟩,
          AdversarialBackend.forget_of_admits ⟨hfresh₂, hmut, hr₂, hauth⟩]
      · rw [forget_of_foreign hspent hmut hf₁, forget_of_foreign hfresh₂ hmut hf₂]

/-!
## The one that does not

An improve that gets as far as its target is answered from the record under the target id alone.
If that record is the actor's own it is the same in both backends. If it is foreign, or not there,
there are two texts of denial, and which of them is given depends on the digest.
-/

/-- The improve is past the replay check, the mutation check and the map. -/
structure Judged (b : AdversarialBackend) (c : ImproveCall) : Prop where
  fresh : (c.actor.did, c.nonce) ∉ b.nonces
  mutates : c.actor.canMutate = true
  unsettled : b.idempotency.get? c.idempotencyKey = none

/-- What is then answered, from the record under the target id alone. Of the two refusals the
    first is for a wrong digest, and it is asked first. -/
def ImproveCall.verdict (c : ImproveCall) : Option Memory → Reply
  | none => .ok (denied (lit "stale-source"))
  | some current =>
      if current.sourceDigest ≠ c.expectedSourceDigest then .ok (denied (lit "stale-source"))
      else if !authorized current c.actor ∨ c.replacement.sensitivity > c.actor.clearance then
        .ok (denied (lit "authorization-denied"))
      else answer [c.memoryId, c.replacement.memoryId]
        (digest (improveText c.memoryId c.replacement.memoryId))

/-- A judged improve is answered from the record under the target alone. -/
theorem Judged.reply {c : ImproveCall} (h : Judged b c) :
    (b.exec (.improve c)).1 = c.verdict (b.memories.get? c.memoryId) := by
  simp only [AdversarialBackend.exec, AdversarialBackend.improve]
  rw [AdversarialBackend.claim_of_fresh h.fresh]
  simp only [h.mutates, h.unsettled, AdversarialBackend.spend_idempotency,
    AdversarialBackend.spend_memories, Bool.not_true, Bool.or_self, Bool.false_eq_true, if_false]
  cases b.memories.get? c.memoryId with
  | none => rfl
  | some current =>
    dsimp only [ImproveCall.verdict]
    split_ifs
    · rfl
    · rfl
    · cases digest (improveText c.memoryId c.replacement.memoryId) <;> rfl

/-- A foreign record is stored under the target id, and the digest presented is its own. This can
    be brought about on purpose by whoever knows or guesses the digest. -/
def Probes (b : AdversarialBackend) (c : ImproveCall) : Prop :=
  ∃ r, b.memories.get? c.memoryId = some r ∧ authorized r c.actor = false ∧
    r.sourceDigest = c.expectedSourceDigest

theorem Judged.reply_of_probes {c : ImproveCall} (h : Judged b c) (hprobe : Probes b c) :
    (b.exec (.improve c)).1 = .ok (denied (lit "authorization-denied")) := by
  obtain ⟨r, hr, hauth, hdigest⟩ := hprobe
  rw [h.reply, hr]
  simp [ImproveCall.verdict, hauth, hdigest]

theorem Judged.reply_of_foreign {c : ImproveCall} (h : Judged b c)
    (hforeign : Foreign b c.actor c.memoryId) (hno : ¬ Probes b c) :
    (b.exec (.improve c)).1 = .ok (denied (lit "stale-source")) := by
  rw [h.reply]
  cases hr : b.memories.get? c.memoryId with
  | none => rfl
  | some r =>
    have hdigest : r.sourceDigest ≠ c.expectedSourceDigest :=
      fun hd => hno ⟨r, hr, hforeign r hr, hd⟩
    simp [ImproveCall.verdict, hdigest]

/-- An improve that is judged is a probe in both backends or in neither. -/
def SameProbe (b₁ b₂ : AdversarialBackend) (c : Call) : Prop :=
  ∀ i, c = .improve i → Judged b₁ i → (Probes b₁ i ↔ Probes b₂ i)

omit [Runtime] in
theorem AgreeFor.judged {c : ImproveCall} (h : AgreeFor c.actor b₁ b₂) (hj : Judged b₁ c) :
    Judged b₂ c :=
  ⟨h.nonces ▸ hj.fresh, hj.mutates, by rw [← h.idempotency]; exact hj.unsettled⟩

theorem improve_agrees_of_not_judged {c : ImproveCall} (h : AgreeFor c.actor b₁ b₂)
    (hj : ¬ Judged b₁ c) : (b₁.exec (.improve c)).1 = (b₂.exec (.improve c)).1 := by
  by_cases hspent : (c.actor.did, c.nonce) ∈ b₁.nonces
  · have hspent₂ := h.nonces ▸ hspent
    simp only [AdversarialBackend.exec, AdversarialBackend.improve]
    rw [AdversarialBackend.claim_of_spent hspent, AdversarialBackend.claim_of_spent hspent₂]
    rfl
  · have hfresh₂ := h.nonces ▸ hspent
    cases hmut : c.actor.canMutate with
    | false =>
      simp only [AdversarialBackend.exec, AdversarialBackend.improve]
      rw [AdversarialBackend.claim_of_fresh hspent, AdversarialBackend.claim_of_fresh hfresh₂]
      simp [hmut]
    | true =>
      cases hkey : b₁.idempotency.get? c.idempotencyKey with
      | none => exact absurd ⟨hspent, hmut, hkey⟩ hj
      | some d =>
        simp only [AdversarialBackend.exec]
        rw [AdversarialBackend.improve_of_settled hspent hmut hkey,
          AdversarialBackend.improve_of_settled hfresh₂ hmut (h.idempotency _ ▸ hkey)]

/-- For a judged improve, the texts of the two denials tell a probe from a miss. -/
theorem improve_agrees_iff {c : ImproveCall} (h : AgreeFor c.actor b₁ b₂) (hj : Judged b₁ c) :
    (b₁.exec (.improve c)).1 = (b₂.exec (.improve c)).1 ↔ (Probes b₁ c ↔ Probes b₂ c) := by
  have hj₂ := h.judged hj
  have hdiffer : (.ok (denied (lit "authorization-denied")) : Reply) ≠
      .ok (denied (lit "stale-source")) := by decide
  rcases h.lookup c.memoryId with ⟨r, hr₁, hr₂, hauth⟩ | ⟨hf₁, hf₂⟩
  · -- the target is the actor's own, and then no call is a probe
    have hown : ∀ {b : AdversarialBackend}, b.memories.get? c.memoryId = some r → ¬ Probes b c := by
      rintro b hr ⟨r', hr', hauth', -⟩
      obtain rfl : r = r' := Option.some.inj (hr.symm.trans hr')
      simp [hauth] at hauth'
    rw [hj.reply, hj₂.reply, hr₁, hr₂]
    exact iff_of_true rfl (iff_of_false (hown hr₁) (hown hr₂))
  · by_cases hp₁ : Probes b₁ c <;> by_cases hp₂ : Probes b₂ c
    · rw [hj.reply_of_probes hp₁, hj₂.reply_of_probes hp₂]
      exact iff_of_true rfl (iff_of_true hp₁ hp₂)
    · rw [hj.reply_of_probes hp₁, hj₂.reply_of_foreign hf₂ hp₂]
      exact iff_of_false hdiffer fun heq => hp₂ (heq.mp hp₁)
    · rw [hj.reply_of_foreign hf₁ hp₁, hj₂.reply_of_probes hp₂]
      exact iff_of_false hdiffer.symm fun heq => hp₁ (heq.mpr hp₂)
    · rw [hj.reply_of_foreign hf₁ hp₁, hj₂.reply_of_foreign hf₂ hp₂]
      exact iff_of_true rfl (iff_of_false hp₁ hp₂)

/-- **Two backends alike to an actor answer it alike exactly when its call is a probe of both or
    of neither.** A probe is an improve that gets past the first checks with the digest of a
    record its actor is not authorized for: it is told so, where any other digest is told to be
    stale. -/
theorem replies_agree_iff (b₁ b₂ : AdversarialBackend) (c : Call)
    (h : AgreeFor c.actor b₁ b₂) : (b₁.exec c).1 = (b₂.exec c).1 ↔ SameProbe b₁ b₂ c := by
  cases c with
  | remember memory actor nonce =>
    exact iff_of_true (remember_agrees h memory nonce) (fun i hi => nomatch hi)
  | «recall» query actor asOf nonce =>
    exact iff_of_true (recall_agrees h query asOf nonce) (fun i hi => nomatch hi)
  | forget memoryId actor nonce =>
    exact iff_of_true (forget_agrees h memoryId nonce) (fun i hi => nomatch hi)
  | improve c =>
    by_cases hj : Judged b₁ c
    · rw [improve_agrees_iff h hj]
      constructor
      · rintro hsame i ⟨rfl⟩ -
        exact hsame
      · exact fun hsame => hsame c rfl hj
    · refine iff_of_true (improve_agrees_of_not_judged h hj) ?_
      rintro i ⟨rfl⟩ hi
      exact absurd hi hj

end Laws

section

attribute [local instance] cpython

/-- The operator's `m`, stored with one digest or another, is all the same to the
    outsider. -/
def storedWith (sourceDigest : Str) : AdversarialBackend :=
  backend.after [.call (.remember { fact "m" with sourceDigest := sourceDigest } operator "1")]

theorem agreeFor_storedWith : AgreeFor outsider (storedWith "m") (storedWith "other") := by
  refine agreeFor_of_foreign (by decide) (by decide) ?_ ?_
  · decide
  · decide

def outsiderRecall : Call :=
  .recall "spot" outsider june "2"

/-- A recall is no probe, so the outsider's is answered alike. -/
theorem recall_agrees_storedWith :
    ((storedWith "m").exec outsiderRecall).1 = ((storedWith "other").exec outsiderRecall).1 :=
  (replies_agree_iff (storedWith "m") (storedWith "other") outsiderRecall
    agreeFor_storedWith).mpr fun _ hi => nomatch hi

/-- The outsider's improve is not: with the right digest it is told it lacks authority, with
    a wrong one that its source is stale. -/
theorem improve_tells_apart : ¬ ∀ (b₁ b₂ : AdversarialBackend) (c : Call),
    AgreeFor c.actor b₁ b₂ → (b₁.exec c).1 = (b₂.exec c).1 := by
  intro h
  have heq := h (storedWith "m") (storedWith "other")
    (.improve { proposal "m" "n" "2" "job" with actor := outsider }) agreeFor_storedWith
  exact absurd heq (by decide)

end

end AdversarialCognition
