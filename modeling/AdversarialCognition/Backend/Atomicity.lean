import AdversarialCognition.Backend.Recall

/-!
# A call that raises

An operation writes to the store, then makes its receipt, then records its decision. What can fail
is the receipt: `digest` raises on a text with a lone surrogate in it. So a call that passes every
check of its operation, with such an id or digest among its arguments, leaves its writes behind
and no decision.

`Atomic` is the law that a raise leaves the memories and the decisions alone. Of an admitted call
it holds where the receipt can be made, for then nothing raises, or where the records it writes
are the ones that are there (`atomic_iff`).

Nothing else in an operation can raise on arguments of the declared types. A recall never does, as
its receipt is made of a text in which the ids are escaped. That the nonce of a call that raises
is gone is not counted against it: the source takes it before anything is asked, and for a denied
call it does so too.
-/

namespace AdversarialCognition

open Py Py.Str

/-- The text a call's receipt is the digest of. A recall's is not its arguments' and can
    always be encoded. -/
def Call.receiptText : Call → Str
  | .remember memory _ _ => rememberText memory
  | .recall _ _ _ _ => []
  | .improve c => improveText c.memoryId c.replacement.memoryId
  | .forget memoryId _ _ => forgetText memoryId

/-- `c`, at `b`, passes every check of an operation that writes. Whether its receipt can be made
    is not among them. -/
def Admitted (b : AdversarialBackend) : Call → Prop
  | .remember memory actor nonce => b.AdmitsRemember memory actor nonce
  | .recall _ _ _ _ => False
  | .improve c => ∃ current, b.AdmitsImprove c current
  | .forget memoryId actor nonce => ∃ memory, b.AdmitsForget memoryId actor nonce memory

/-- Every record that `c` would write is in the store already, as `c` would write it. Then the
    writes cannot be seen, and there is nothing to undo. -/
def Redundant (b : AdversarialBackend) : Call → Prop
  | .remember memory _ _ => b.memories.get? memory.memoryId = some memory
  | .recall _ _ _ _ => True
  | .improve c =>
      b.memories.get? c.replacement.memoryId = some c.replacement ∧
        (c.replacement.memoryId ≠ c.memoryId →
          ∀ r, b.memories.get? c.memoryId = some r → r.state = lit "superseded")
  | .forget memoryId _ _ =>
      ∀ id r, b.memories.get? id = some r → id = memoryId ∨ memoryId ∈ r.derivedFrom →
        r.state = lit "forgotten"

theorem mark_eq_self_iff {r : Memory} {state : Str} :
    { r with state := state } = r ↔ r.state = state := by
  cases r
  simp [eq_comm]

namespace AdversarialBackend

variable {b : AdversarialBackend}

theorem tombstone_memories_eq_iff {memoryId : Str} {memory : Memory}
    (hget : b.memories.get? memoryId = some memory) :
    (b.tombstone memoryId memory).memories = b.memories ↔
      ∀ id r, b.memories.get? id = some r → id = memoryId ∨ memoryId ∈ r.derivedFrom →
        r.state = lit "forgotten" := by
  constructor
  · intro h id r hr hid
    have hmark := b.tombstone_get? memoryId memory hget id
    rw [h, hr, Option.map_some, if_pos hid] at hmark
    exact mark_eq_self_iff.mp (Option.some.inj hmark).symm
  · intro h
    have hset : b.memories.set memoryId { memory with state := lit "forgotten" } = b.memories := by
      rw [Dict.set_eq_self_iff, hget, mark_eq_self_iff.mpr (h _ _ hget (Or.inl rfl))]
    rw [tombstone, hset]
    refine Dict.updateWhere_eq_self_iff.mpr fun id r hr hderived => ?_
    exact mark_eq_self_iff.mpr (h id r hr (Or.inr hderived))

theorem supersede_store_eq_iff {memoryId : Str} {current replacement : Memory}
    (hget : b.memories.get? memoryId = some current) :
    ((b.supersede memoryId current).store replacement).memories = b.memories ↔
      b.memories.get? replacement.memoryId = some replacement ∧
        (replacement.memoryId ≠ memoryId →
          ∀ r, b.memories.get? memoryId = some r → r.state = lit "superseded") := by
  constructor
  · intro h
    -- both writes, as they are looked up
    have hrow : ∀ id, b.memories.get? id = if id = replacement.memoryId then some replacement
        else if id = memoryId then some { current with state := lit "superseded" }
        else b.memories.get? id := by
      intro id
      rw [← supersede_get?, ← store_get?, h]
    refine ⟨by rw [hrow, if_pos rfl], fun hne r hr => ?_⟩
    rw [hrow, if_neg hne.symm, if_pos rfl] at hr
    rw [← Option.some.inj hr]
  · rintro ⟨hreplacement, hcurrent⟩
    by_cases hid : replacement.memoryId = memoryId
    · -- the replacement is the current record, and is put back in its place
      obtain rfl : current = replacement := by
        rw [hid, hget] at hreplacement
        exact Option.some.inj hreplacement
      have hset : ∀ r : Memory, (b.memories.set memoryId r).set memoryId current = b.memories := by
        intro r
        rw [Dict.set_set, Dict.set_eq_self_iff]
        exact hget
      rw [store, supersede, hid]
      exact hset _
    · have hset : b.memories.set memoryId { current with state := lit "superseded" } =
          b.memories := by
        rw [Dict.set_eq_self_iff, hget, mark_eq_self_iff.mpr (hcurrent hid _ hget)]
      rw [store, supersede, hset]
      exact Dict.set_eq_self_iff.mpr hreplacement

end AdversarialBackend

section Laws

variable [Runtime]

/-- **The law.** Where the call raises, it has changed neither table. -/
def Atomic (b : AdversarialBackend) (c : Call) : Prop :=
  ∀ e, (b.exec c).1 = .error e →
    (b.exec c).2.memories = b.memories ∧ (b.exec c).2.idempotency = b.idempotency

theorem answer_eq_error_iff {ids : List Str} {text : Str} :
    (∃ e, answer ids (digest text) = .error e) ↔ ¬ Encodable text := by
  rw [← digest_ok_iff]
  cases digest text with
  | ok receipt => simp [answer]
  | error e => exact ⟨fun _ hok => by simp at hok, fun _ => ⟨e, rfl⟩⟩

variable {b : AdversarialBackend} {c : Call}

/-- Only an admitted call raises, and only for want of a receipt. -/
theorem admitted_of_error {e : Exn} (h : (b.exec c).1 = .error e) :
    Admitted b c ∧ ¬ Encodable c.receiptText := by
  have hruling := exec_ruling b c
  rw [h] at hruling
  generalize (b.exec c).2 = b', hreply : (Except.error e : Reply) = reply at hruling
  cases hruling with
  | replayed => simp at hreply
  | refused => simp at hreply
  | retried => simp at hreply
  | recalled =>
    -- a ranking is printed with its ids escaped
    obtain ⟨receipt, hreceipt⟩ := digest_ok_iff.mpr (encodable_recallText _)
    rw [hreceipt] at hreply
    simp [answer] at hreply
  | remembered admits => exact ⟨admits, answer_eq_error_iff.mp ⟨e, hreply.symm⟩⟩
  | improved admits hanswer =>
    exact ⟨⟨_, admits⟩, answer_eq_error_iff.mp ⟨e, hanswer.symm.trans hreply.symm⟩⟩
  | forgotten admits => exact ⟨⟨_, admits⟩, answer_eq_error_iff.mp ⟨e, hreply.symm⟩⟩

/-- What an admitted call leaves behind that cannot make its receipt. -/
theorem exec_of_admitted (hadm : Admitted b c) (henc : ¬ Encodable c.receiptText) :
    (∃ e, (b.exec c).1 = .error e) ∧ (b.exec c).2.idempotency = b.idempotency ∧
      ((b.exec c).2.memories = b.memories ↔ Redundant b c) := by
  have herror : ∀ ids, ∃ e, answer ids (digest c.receiptText) = .error e :=
    fun ids => answer_eq_error_iff.mpr henc
  cases c with
  | remember memory actor nonce =>
    simp only [AdversarialBackend.exec, AdversarialBackend.remember_of_admits hadm]
    exact ⟨herror _, rfl, Dict.set_eq_self_iff⟩
  | «recall» => exact hadm.elim
  | improve c =>
    obtain ⟨current, hadm⟩ := hadm
    obtain ⟨e, herror⟩ := herror [c.memoryId, c.replacement.memoryId]
    have herror : answer [c.memoryId, c.replacement.memoryId]
      (digest (improveText c.memoryId c.replacement.memoryId)) = .error e := herror
    simp only [AdversarialBackend.exec, AdversarialBackend.improve_of_admits hadm, herror,
      AdversarialBackend.settle]
    refine ⟨⟨e, trivial⟩, rfl, ?_⟩
    exact AdversarialBackend.supersede_store_eq_iff
      (b := b.spend c.actor c.nonce) hadm.stored
  | forget memoryId actor nonce =>
    obtain ⟨memory, hadm⟩ := hadm
    simp only [AdversarialBackend.exec, AdversarialBackend.forget_of_admits hadm]
    refine ⟨herror _, rfl, ?_⟩
    exact AdversarialBackend.tombstone_memories_eq_iff (b := b.spend actor nonce) hadm.stored

/-- **A raise is atomic exactly where nothing raises or nothing was there to write.** The receipt
    is digested after the store was written, so what cannot be encoded is stored by the time that
    it raises; no harm is done only if the store was so already. -/
theorem atomic_iff (b : AdversarialBackend) (c : Call) :
    Atomic b c ↔ (Admitted b c → Encodable c.receiptText ∨ Redundant b c) := by
  constructor
  · intro h hadm
    by_cases henc : Encodable c.receiptText
    · exact Or.inl henc
    · obtain ⟨⟨e, herror⟩, -, hmemories⟩ := exec_of_admitted hadm henc
      exact Or.inr (hmemories.mp (h e herror).1)
  · intro h e herror
    obtain ⟨hadm, henc⟩ := admitted_of_error herror
    obtain ⟨-, hidempotency, hmemories⟩ := exec_of_admitted hadm henc
    exact ⟨hmemories.mpr ((h hadm).resolve_left henc), hidempotency⟩

end Laws

section

attribute [local instance] cpython

/-- The operator stores a fact whose id is a lone surrogate: the call raises, and the fact is
    stored. It can be recalled by its text from then on. -/
theorem surrogate_notAtomic : ¬ ∀ (ops : List Op) (c : Call), Atomic (backend.after ops) c := by
  intro h
  have hempty := (h [] (.remember (fact [0xD800]) operator "1") .unicodeEncodeError rfl).1
  have hget := congrArg (fun d => Dict.get? d ([0xD800] : Str)) hempty
  exact absurd hget (by decide)

end

end AdversarialCognition
