import AdversarialCognition.Backend.Core
import AdversarialCognition.Lib.IsoDate
import AdversarialCognition.Lib.Literal
import AdversarialCognition.Lib.Machine
import AdversarialCognition.Lib.Rdf
import AdversarialCognition.Lib.Sha256

/-!
# The ledger adapter

`adapters/akka_fluree/adapter.py`. The memories, the claimed nonces and the jobs are triples of
one ledger, and a guarded write is one update of it, which is sent as text.

* An update that has no UTF-8 form is never sent.
* A text goes into an update as a string literal, in which `_triples` escapes the quotation mark
  and the backslash. A text with a line end in it makes no literal (`readable_iff`), so the server
  has no update to execute and the call raises, before anything is claimed or written.
* A name goes into an update as it is, and is taken for the name it is: that an id, a nonce or a
  key is no syntax of its own is assumed here. What is sent as JSON, the entity of an unguarded
  write and the expected digest of an `improve`, is read back as it was.

What a write answers is not what its update did. `remember` and `improve` look afterwards whether
the entity they may have written is there and not tombstoned, and whoever has written it and
whoever has tombstoned it since, that is the answer (`remember_eq_true_iff`,
`improve_eq_true_iff`). So a nonce that is spent is reported as accepted where a memory of that id
is live, and a retry of a job reports a failure where its replacement is not.

## The ledger

The server is not part of the repository. What is relied on is that an update is executed as a
whole, with its condition looked at before: `Graph.update` is this, of a set of triples. Facts are
of three parts, of which the first and the second are names. A property has as many values as
triples say so, so that writing under an id a second time leaves the first text where it is.

The guard of a nonce and the guard of a job are conditions of the update and not of the adapter,
which is why they hold across restarts and why nothing but a reset undoes them (`has_run`).

A recall is one query, which the server filters and ranks. It has no part in what a write reports
and is left out.
-/

namespace AdversarialCognition.AkkaFluree

open Py Py.Str Rdf

/-!
## The ledger

A ledger is a set of triples, as the server keeps it. An entity is an id with its properties, and
what stands for a spent nonce or for a committed job is an entity as well, so that one table
serves for all three. What `_triples` prints of an entity is read back as the texts it was printed
of only where no text has a line end, since the short strings of SPARQL may not contain one and
the adapter escapes the backslash and the quote alone.
-/

/-- The properties, in `b:`. -/
inductive Property
  | text
  | owner
  | isPrivate
  | tombstoned
  | sourceDigest
  | validFrom
  | validUntil
  | derivedFrom
  | claimed
  | committed
  deriving DecidableEq

/-- An entity in `bench:`, or a literal. -/
inductive Term
  | iri (name : Str)
  | text (value : Str)
  | boolean (value : Bool)
  | date (value : Str)
  deriving DecidableEq

/-- A triple of the ledger. -/
abbrev Fact := Triple Str Property Term

/-- The triples of the ledger, without an order. -/
abbrev Ledger := Graph Str Property Term

/-- The entity that stands for a nonce. -/
def nonceName (nonce : Str) : Str := lit "nonce-" ++ nonce

/-- The entity that stands for a job. -/
def jobName (idempotencyKey : Str) : Str := lit "job-" ++ idempotencyKey

/-- `name b:tombstoned false` -/
def current (name : Str) : Fact := ⟨name, .tombstoned, .boolean false⟩

/-- `name b:tombstoned true` -/
def retired (name : Str) : Fact := ⟨name, .tombstoned, .boolean true⟩

/-- What an operation raises: a string of it has no UTF-8 form, or the server takes what it is
    sent for no update (`HTTPError`). -/
inductive LedgerError
  | encode (e : Exn)
  | badRequest
  deriving DecidableEq

/-- An entity of the adapter, with its properties. -/
structure Entity where
  id : Str
  text : Str
  owner : Str
  isPrivate : Bool
  sourceDigest : Str
  validFrom : Str
  validUntil : Str
  derivedFrom : List Str := []

/-- The literals that `_triples` prints of an entity are read as the texts they were printed of.
    What else it prints has nothing to escape. -/
def Entity.Readable (e : Entity) : Prop :=
  ∀ s ∈ [e.text, e.owner], Literal.readString (Literal.quoted s) = some (s, [])

instance (e : Entity) : Decidable e.Readable := inferInstanceAs (Decidable (∀ s ∈ _, _))

theorem Entity.readable_iff (e : Entity) :
    e.Readable ↔ Literal.OnOneLine e.text ∧ Literal.OnOneLine e.owner := by
  have hread : ∀ s : Str, Literal.readString (Literal.quoted s) = some (s, []) ↔
      Literal.OnOneLine s := by
    intro s
    have hquoted := Literal.readString_quoted s []
    rw [List.append_nil] at hquoted
    rw [hquoted]
    by_cases h : Literal.OnOneLine s
    · rw [if_pos h]
      exact iff_of_true rfl h
    · rw [if_neg h]
      exact iff_of_false (Option.some_ne_none _).symm h
  simp [Entity.Readable, hread]

/-- `_triples`: what is written of an entity, live and with an arrow to each source. -/
def Entity.triples (e : Entity) : Ledger :=
  let rows : List Fact := [
    ⟨e.id, .text, .text e.text⟩, ⟨e.id, .owner, .text e.owner⟩,
    ⟨e.id, .isPrivate, .boolean e.isPrivate⟩, current e.id,
    ⟨e.id, .sourceDigest, .text e.sourceDigest⟩, ⟨e.id, .validFrom, .date e.validFrom⟩,
    ⟨e.id, .validUntil, .date e.validUntil⟩]
  let sources : List Fact := e.derivedFrom.map fun item => ⟨e.id, .derivedFrom, .iri item⟩
  (rows ++ sources).toFinset

theorem current_mem_triples (e : Entity) : current e.id ∈ e.triples := by
  simp [Entity.triples]

/-!
## The operations

Each operation of the adapter is one update with a condition, or two of them, and a question to
the ledger. The condition is evaluated by the server on the ledger it finds; what the adapter then
reports it reads off the ledger it finds afterwards, and not off what its own update did. That
difference is what the law below is about.
-/

/-- The arguments of `remember`. -/
structure RememberCall where
  memoryId : Str
  text : Str
  principal : Str
  validFrom : Option Date := none
  validUntil : Option Date := none
  isPrivate : Bool := false
  nonce : Option Str := none
  derivedFrom : List Str := []

/-- The arguments of `improve`. -/
structure ImproveCall where
  memoryId : Str
  replacementId : Str
  text : Str
  principal : Str
  expectedSourceDigest : Str
  idempotencyKey : Str

/-- `_exists` -/
def «exists» (g : Ledger) (entity : Str) : Bool := decide (current entity ∈ g)

section Operations

variable [Runtime]

/-- The entity that `remember` writes. -/
def RememberCall.entity (c : RememberCall) (sourceDigest : Str) : Entity where
  id := c.memoryId
  text := c.text
  owner := c.principal
  isPrivate := c.isPrivate
  sourceDigest := sourceDigest
  validFrom := (c.validFrom.map Date.isoformat).getD (lit "1900-01-01")
  validUntil := (c.validUntil.map Date.isoformat).getD (lit "9999-12-31")
  derivedFrom := c.derivedFrom

/-- What of a guarded `remember` is put into its update has a UTF-8 form. -/
def RememberCall.Encodable (c : RememberCall) (nonce : Str) : Prop :=
  ∀ s ∈ c.memoryId :: c.text :: c.principal :: nonce :: c.derivedFrom, s.Encodable

instance (c : RememberCall) (nonce : Str) : Decidable (c.Encodable nonce) :=
  inferInstanceAs (Decidable (∀ s ∈ _, _))

/-- `remember`. Without a nonce the entity is sent as JSON, and a server that takes it is all that
    is waited for. With one it is an update under the condition that the nonce is unclaimed. -/
def remember (g : Ledger) (c : RememberCall) : Except LedgerError Bool × Ledger :=
  match digest c.memoryId with
  | .error e => (.error (.encode e), g)
  | .ok sourceDigest =>
    let triples := (c.entity sourceDigest).triples
    match c.nonce with
    | none => (.ok true, g ∪ triples)
    | some nonce =>
      if ¬ c.Encodable nonce then (.error (.encode .unicodeEncodeError), g)
      else if ¬ (c.entity sourceDigest).Readable then (.error .badRequest, g)
      else
        let g := g.update (¬ g.Has (nonceName nonce) .claimed) ∅
          (insert ⟨nonceName nonce, .claimed, .boolean true⟩ triples)
        (.ok («exists» g c.memoryId), g)

/-- The entities derived from `memoryId` that are not tombstoned. -/
def derived (g : Ledger) (memoryId : Str) : Finset Str :=
  (g.filter fun t => t.property = .derivedFrom ∧ t.object = .iri memoryId ∧
    current t.subject ∈ g).image Triple.subject

/-- `forget`, of the operator alone: two updates, of the memory and of what is derived from it
    directly. The second looks at the ledger that the first has left. -/
def forget (g : Ledger) (memoryId principal : Str) : Except LedgerError Bool × Ledger :=
  if principal ≠ lit "operator" then (.ok false, g)
  else if memoryId.Encodable then
    let g := g.update (current memoryId ∈ g) {current memoryId} {retired memoryId}
    let ds := derived g memoryId
    let g := g.update ds.Nonempty (ds.image current) (ds.image retired)
    (.ok (!«exists» g memoryId), g)
  else (.error (.encode .unicodeEncodeError), g)

/-- The entity that replaces another in `improve`. -/
def ImproveCall.entity (c : ImproveCall) (sourceDigest : Str) : Entity where
  id := c.replacementId
  text := c.text
  owner := c.principal
  isPrivate := false
  sourceDigest := sourceDigest
  validFrom := lit "2026-02-01"
  validUntil := lit "9999-12-31"

/-- What of an `improve` is put into its update as it is has a UTF-8 form. The expected digest goes
    into it as JSON, which is ASCII. -/
def ImproveCall.Encodable (c : ImproveCall) : Prop :=
  ∀ s ∈ [c.memoryId, c.replacementId, c.text, c.principal, c.idempotencyKey], s.Encodable

instance (c : ImproveCall) : Decidable c.Encodable := inferInstanceAs (Decidable (∀ s ∈ _, _))

/-- The condition of the update of `improve`. -/
def ImproveCall.Guard (c : ImproveCall) (g : Ledger) : Prop :=
  current c.memoryId ∈ g ∧ ⟨c.memoryId, .sourceDigest, .text c.expectedSourceDigest⟩ ∈ g ∧
    ¬ g.Has (jobName c.idempotencyKey) .committed

instance (c : ImproveCall) (g : Ledger) : Decidable (c.Guard g) :=
  inferInstanceAs (Decidable (_ ∧ _ ∧ _))

/-- `improve`: one update that retires the memory, marks the job and writes the replacement. It
    reports that the job is marked and the replacement is live. -/
def improve (g : Ledger) (c : ImproveCall) : Except LedgerError Bool × Ledger :=
  match digest c.replacementId with
  | .error e => (.error (.encode e), g)
  | .ok sourceDigest =>
    if ¬ c.Encodable then (.error (.encode .unicodeEncodeError), g)
    else if ¬ (c.entity sourceDigest).Readable then (.error .badRequest, g)
    else
      let g := g.update (c.Guard g) {current c.memoryId}
        (insert (retired c.memoryId) (insert ⟨jobName c.idempotencyKey, .committed, .boolean true⟩
          (c.entity sourceDigest).triples))
      (.ok (decide (g.Has (jobName c.idempotencyKey) .committed) && «exists» g c.replacementId), g)

/-!
## What an operation answers

For each operation there is a lemma about what can be sent and one about what cannot. What cannot
be sent raises before anything is written. What can be sent is executed, and its answer is given
as a condition on the ledger.
-/

omit [Runtime] in
theorem exists_iff {g : Ledger} {entity : Str} : «exists» g entity = true ↔ current entity ∈ g :=
  decide_eq_true_iff

theorem digest_of_encodable {s : Str} (h : s.Encodable) : ∃ d, digest s = .ok d :=
  digest_ok_iff.mpr h

/-- The update of a guarded `remember` is one: all of it has a UTF-8 form, and its texts have no
    line end. -/
def RememberCall.Sendable (c : RememberCall) (nonce : Str) : Prop :=
  c.Encodable nonce ∧ Literal.OnOneLine c.text ∧ Literal.OnOneLine c.principal

/-- The update of an `improve` is one: all of it has a UTF-8 form, and its texts have no line end.
    -/
def ImproveCall.Sendable (c : ImproveCall) : Prop :=
  c.Encodable ∧ Literal.OnOneLine c.text ∧ Literal.OnOneLine c.principal

omit [Runtime] in
theorem RememberCall.readable_entity {c : RememberCall} {sourceDigest : Str} :
    (c.entity sourceDigest).Readable ↔ Literal.OnOneLine c.text ∧ Literal.OnOneLine c.principal :=
  Entity.readable_iff _

omit [Runtime] in
theorem ImproveCall.readable_entity {c : ImproveCall} {sourceDigest : Str} :
    (c.entity sourceDigest).Readable ↔ Literal.OnOneLine c.text ∧ Literal.OnOneLine c.principal :=
  Entity.readable_iff _

/-- **What cannot be sent raises, and leaves the ledger as it was.** -/
theorem remember_of_not_sendable {g : Ledger} {c : RememberCall} {nonce : Str}
    (h : ¬ c.Sendable nonce) : ∃ e, remember g { c with nonce := some nonce } = (.error e, g) := by
  have hsame : RememberCall.Encodable { c with nonce := some nonce } nonce ↔ c.Encodable nonce :=
    Iff.rfl
  unfold remember
  cases hdigest : digest c.memoryId with
  | error e => exact ⟨.encode e, rfl⟩
  | ok sourceDigest =>
    dsimp only
    by_cases hencodable : c.Encodable nonce
    · have hreadable : ¬ (RememberCall.entity { c with nonce := some nonce } sourceDigest).Readable :=
        fun hread => h ⟨hencodable, RememberCall.readable_entity.mp hread⟩
      rw [if_neg (not_not_intro (hsame.mpr hencodable)), if_pos hreadable]
      exact ⟨_, rfl⟩
    · rw [if_pos fun h => hencodable (hsame.mp h)]
      exact ⟨_, rfl⟩

/-- What can be sent is executed, and answers whether its memory is live then. -/
theorem remember_of_sendable {g : Ledger} {c : RememberCall} {nonce : Str}
    (h : c.Sendable nonce) : ∃ sourceDigest, digest c.memoryId = .ok sourceDigest ∧
      remember g { c with nonce := some nonce } =
        (.ok («exists» (g.update (¬ g.Has (nonceName nonce) .claimed) ∅
            (insert ⟨nonceName nonce, .claimed, .boolean true⟩ (c.entity sourceDigest).triples))
            c.memoryId),
          g.update (¬ g.Has (nonceName nonce) .claimed) ∅
            (insert ⟨nonceName nonce, .claimed, .boolean true⟩ (c.entity sourceDigest).triples)) := by
  obtain ⟨sourceDigest, hdigest⟩ := digest_of_encodable (h.1 _ List.mem_cons_self)
  have hencodable : RememberCall.Encodable { c with nonce := some nonce } nonce := h.1
  have hreadable : (RememberCall.entity { c with nonce := some nonce } sourceDigest).Readable :=
    RememberCall.readable_entity.mpr h.2
  refine ⟨sourceDigest, hdigest, ?_⟩
  unfold remember
  rw [hdigest]
  dsimp only
  rw [if_neg (not_not_intro hencodable), if_neg (not_not_intro hreadable)]
  rfl

theorem improve_of_not_sendable {g : Ledger} {c : ImproveCall} (h : ¬ c.Sendable) :
    ∃ e, improve g c = (.error e, g) := by
  unfold improve
  cases hdigest : digest c.replacementId with
  | error e => exact ⟨.encode e, rfl⟩
  | ok sourceDigest =>
    dsimp only
    by_cases hencodable : c.Encodable
    · have hreadable : ¬ (c.entity sourceDigest).Readable :=
        fun hread => h ⟨hencodable, ImproveCall.readable_entity.mp hread⟩
      rw [if_neg (not_not_intro hencodable), if_pos hreadable]
      exact ⟨_, rfl⟩
    · rw [if_pos hencodable]
      exact ⟨_, rfl⟩

/-- The ledger after the update of an `improve`. -/
def ImproveCall.updated (c : ImproveCall) (sourceDigest : Str) (g : Ledger) : Ledger :=
  g.update (c.Guard g) {current c.memoryId}
    (insert (retired c.memoryId) (insert ⟨jobName c.idempotencyKey, .committed, .boolean true⟩
      (c.entity sourceDigest).triples))

/-- An `improve` that can be sent is executed. -/
theorem improve_of_sendable {g : Ledger} {c : ImproveCall} (h : c.Sendable) :
    ∃ sourceDigest, digest c.replacementId = .ok sourceDigest ∧ improve g c =
      (.ok (decide ((c.updated sourceDigest g).Has (jobName c.idempotencyKey) .committed) &&
        «exists» (c.updated sourceDigest g) c.replacementId), c.updated sourceDigest g) := by
  obtain ⟨sourceDigest, hdigest⟩ := digest_of_encodable (h.1 c.replacementId (by simp))
  have hreadable : (c.entity sourceDigest).Readable := ImproveCall.readable_entity.mpr h.2
  refine ⟨sourceDigest, hdigest, ?_⟩
  unfold improve
  rw [hdigest]
  dsimp only
  rw [if_neg (not_not_intro h.1), if_neg (not_not_intro hreadable)]
  rfl

/-- **Whoever claimed its nonce, a guarded `remember` is accepted where its memory is live
    afterwards.** -/
theorem remember_eq_true_iff (g : Ledger) (c : RememberCall) (nonce : Str) :
    (remember g { c with nonce := some nonce }).1 = .ok true ↔
      c.Sendable nonce ∧ (g.Has (nonceName nonce) .claimed → current c.memoryId ∈ g) := by
  by_cases hsendable : c.Sendable nonce
  · obtain ⟨sourceDigest, -, heq⟩ := remember_of_sendable (g := g) hsendable
    rw [heq, Except.ok.injEq, exists_iff]
    refine Iff.trans ?_ (and_iff_right hsendable).symm
    by_cases hclaimed : g.Has (nonceName nonce) .claimed
    · rw [Graph.update_of_not (not_not_intro hclaimed)]
      exact ⟨fun h _ => h, fun h => h hclaimed⟩
    · refine iff_of_true (Graph.mem_update_of_mem_inserted hclaimed ?_)
        (fun h => absurd h hclaimed)
      exact Finset.mem_insert_of_mem (current_mem_triples (c.entity sourceDigest))
  · obtain ⟨e, heq⟩ := remember_of_not_sendable (g := g) hsendable
    rw [heq]
    refine iff_of_false (fun h => ?_) (fun h => hsendable h.1)
    cases h

/-- **Once its job is committed, an `improve` changes nothing, and is accepted where its
    replacement is live.** -/
theorem improve_of_committed {g : Ledger} {c : ImproveCall}
    (hjob : g.Has (jobName c.idempotencyKey) .committed) :
    (improve g c).2 = g ∧
      ((improve g c).1 = .ok true ↔ c.Sendable ∧ current c.replacementId ∈ g) := by
  by_cases hsendable : c.Sendable
  · obtain ⟨sourceDigest, -, heq⟩ := improve_of_sendable (g := g) hsendable
    have hguard : ¬ c.Guard g := fun h => h.2.2 hjob
    have hsame : c.updated sourceDigest g = g := Graph.update_of_not hguard
    rw [heq, hsame, decide_eq_true hjob, Bool.true_and]
    refine ⟨rfl, ?_⟩
    rw [Except.ok.injEq, exists_iff]
    exact (and_iff_right hsendable).symm
  · obtain ⟨e, heq⟩ := improve_of_not_sendable (g := g) hsendable
    rw [heq]
    refine ⟨rfl, iff_of_false (fun h => ?_) (fun h => hsendable h.1)⟩
    cases h

/-- An `improve` whose condition holds is accepted. -/
theorem improve_of_guard {g : Ledger} {c : ImproveCall} (hsendable : c.Sendable)
    (hguard : c.Guard g) : (improve g c).1 = .ok true := by
  obtain ⟨sourceDigest, -, heq⟩ := improve_of_sendable (g := g) hsendable
  rw [heq, Except.ok.injEq, Bool.and_eq_true, decide_eq_true_iff, exists_iff]
  constructor
  · have hjob : (⟨jobName c.idempotencyKey, .committed, .boolean true⟩ : Fact) ∈
        insert (retired c.memoryId) (insert ⟨jobName c.idempotencyKey, .committed, .boolean true⟩
          (c.entity sourceDigest).triples) :=
      Finset.mem_insert_of_mem (Finset.mem_insert_self _ _)
    exact ⟨_, Graph.mem_update_of_mem_inserted hguard hjob, rfl, rfl⟩
  · refine Graph.mem_update_of_mem_inserted hguard ?_
    exact Finset.mem_insert_of_mem (Finset.mem_insert_of_mem
      (current_mem_triples (c.entity sourceDigest)))

/-- An `improve` that is accepted leaves its job committed. -/
theorem committed_of_improve {g : Ledger} {c : ImproveCall} (h : (improve g c).1 = .ok true) :
    c.Sendable ∧ (improve g c).2.Has (jobName c.idempotencyKey) .committed := by
  by_cases hsendable : c.Sendable
  · obtain ⟨sourceDigest, -, heq⟩ := improve_of_sendable (g := g) hsendable
    rw [heq] at h ⊢
    rw [Except.ok.injEq, Bool.and_eq_true] at h
    exact ⟨hsendable, of_decide_eq_true h.1⟩
  · obtain ⟨e, heq⟩ := improve_of_not_sendable (g := g) hsendable
    rw [heq] at h
    cases h

end Operations

/-!
## Runs

What holds over any run is that claims stay. No operation but a reset deletes anything, except
that an entity is no longer live, and so a nonce that is claimed remains claimed and a job that is
committed remains committed, whatever comes between.
-/

section Runs

variable [Runtime]

/-- What is asked of the adapter, reading aside. -/
inductive LedgerOp
  | reset
  | restart
  | remember (c : RememberCall)
  | forget (memoryId principal : Str)
  | improve (c : ImproveCall)

/-- The adapter as a machine; a restart is of the adapter, and leaves the ledger. -/
def akkaFluree : Machine Ledger LedgerOp (Option (Except LedgerError Bool)) where
  init := ∅
  step g
    | .reset => (none, ∅)
    | .restart => (none, g)
    | .remember c => (some (remember g c).1, (remember g c).2)
    | .forget memoryId principal =>
        (some (forget g memoryId principal).1, (forget g memoryId principal).2)
    | .improve c => (some (improve g c).1, (improve g c).2)

/-- No operation but a reset deletes anything except that an entity is not tombstoned. -/
theorem has_next {g : Ledger} (op : LedgerOp) (hop : op ≠ .reset) {name : Str} {p : Property}
    (hp : p ≠ .tombstoned) (h : g.Has name p) : (akkaFluree.next g op).Has name p := by
  have hnone : ∀ t ∈ (∅ : Ledger), t.property ≠ p := fun t ht => absurd ht (Finset.notMem_empty t)
  have hone : ∀ id, ∀ t ∈ ({current id} : Ledger), t.property ≠ p := by
    intro id t ht
    rw [Finset.mem_singleton.mp ht]
    exact hp.symm
  have hmany : ∀ ds : Finset Str, ∀ t ∈ (ds.image current : Ledger), t.property ≠ p := by
    intro ds t ht
    obtain ⟨d, -, rfl⟩ := Finset.mem_image.mp ht
    exact hp.symm
  cases op with
  | reset => exact absurd rfl hop
  | restart => exact h
  | remember c =>
    change (remember g c).2.Has name p
    unfold remember
    split
    · exact h
    · dsimp only
      split
      · exact h.mono Finset.subset_union_left
      · split
        · exact h
        · split
          · exact h
          · exact h.update hnone
  -- both updates take out nothing but that something is live
  | forget memoryId principal =>
    change (forget g memoryId principal).2.Has name p
    unfold forget
    split
    · exact h
    · split
      · exact (h.update (hone memoryId)).update (hmany _)
      · exact h
  | improve c =>
    change (improve g c).2.Has name p
    unfold improve
    split
    · exact h
    · dsimp only
      split
      · exact h
      · split
        · exact h
        · exact h.update (hone c.memoryId)

/-- A claimed nonce stays claimed and a committed job stays committed, over any steps but a reset.
    -/
theorem has_run {g : Ledger} {ops : List LedgerOp} (hops : LedgerOp.reset ∉ ops) {name : Str}
    {p : Property} (hp : p ≠ .tombstoned) (h : g.Has name p) : (akkaFluree.run g ops).Has name p := by
  refine Machine.run_keeps (P := fun g : Ledger => g.Has name p) ?_ h
  rintro ⟨s, op⟩ hmem hs
  obtain ⟨pre, post, hsplit, -⟩ := Machine.mem_traceFrom.mp hmem
  refine has_next op (fun hreset => hops ?_) hp hs
  rw [hsplit, ← hreset]
  exact List.mem_append_right _ List.mem_cons_self

omit [Runtime] in
theorem not_current_of_forget {g : Ledger} {memoryId principal : Str}
    (hprincipal : principal = lit "operator") (hid : memoryId.Encodable) :
    current memoryId ∉ (forget g memoryId principal).2 := by
  have hretired : ∀ a b, current a ≠ retired b := by
    intro a b heq
    cases heq
  have hfirst : current memoryId ∉
      g.update (current memoryId ∈ g) {current memoryId} {retired memoryId} := by
    by_cases hmem : current memoryId ∈ g
    · rw [Graph.update_of hmem, Finset.mem_union, Finset.mem_sdiff]
      rintro (⟨-, hno⟩ | heq)
      · exact hno (Finset.mem_singleton_self _)
      · exact hretired _ _ (Finset.mem_singleton.mp heq)
    · rw [Graph.update_of_not hmem]
      exact hmem
  unfold forget
  rw [if_neg (not_not_intro hprincipal), if_pos hid]
  dsimp only
  by_cases hds : (derived (g.update (current memoryId ∈ g) {current memoryId}
      {retired memoryId}) memoryId).Nonempty
  · rw [Graph.update_of hds, Finset.mem_union, Finset.mem_sdiff]
    rintro (⟨hmem, -⟩ | hmem)
    · exact hfirst hmem
    · obtain ⟨d, -, heq⟩ := Finset.mem_image.mp hmem
      exact hretired _ _ heq.symm
  · rw [Graph.update_of_not hds]
    exact hfirst

@[simp] theorem next_forget (g : Ledger) (memoryId principal : Str) :
    akkaFluree.next g (.forget memoryId principal) = (forget g memoryId principal).2 := rfl

theorem after_remember (c : RememberCall) :
    akkaFluree.after [.remember c] = (remember ∅ c).2 := rfl

theorem after_forget (ops : List LedgerOp) (memoryId principal : Str) :
    akkaFluree.after (ops ++ [.forget memoryId principal]) =
      (forget (akkaFluree.after ops) memoryId principal).2 := Machine.after_append _ _

theorem after_improve (ops : List LedgerOp) (c : ImproveCall) :
    akkaFluree.after (ops ++ [.improve c]) = (improve (akkaFluree.after ops) c).2 :=
  Machine.after_append _ _

/-!
## The law

A guarded `remember` should report the claim of its own nonce: accepted if it made the claim, and
refused if the nonce had been claimed before. It does so exactly where it is `Clean`, and the
equivalence is shown for one step and then for every state a run reaches.
-/

/-- A guarded `remember` reports the claim of its nonce, and has written if it made it. -/
structure ReportsClaim (g : Ledger) (c : RememberCall) (nonce : Str) : Prop where
  /-- It reports success exactly if the nonce was free. -/
  reply : (remember g { c with nonce := some nonce }).1 = .ok true ↔
    ¬ g.Has (nonceName nonce) .claimed
  /-- And then it has written what it was asked to. -/
  written : (remember g { c with nonce := some nonce }).1 = .ok true →
    ¬ g.Has (nonceName nonce) .claimed →
    ∃ sourceDigest, digest c.memoryId = .ok sourceDigest ∧
      (c.entity sourceDigest).triples ⊆ (remember g { c with nonce := some nonce }).2

/-- The nonce is unclaimed and the update can be sent; or the nonce is claimed, and no live
    memory has the id, unless the update cannot be sent. -/
def Clean (g : Ledger) (c : RememberCall) (nonce : Str) : Prop :=
  if g.Has (nonceName nonce) .claimed then c.Sendable nonce → current c.memoryId ∉ g
  else c.Sendable nonce

/-- After a guarded `remember` its nonce is claimed, by it or by another. -/
theorem claimed_of_remember {g : Ledger} {c : RememberCall} {nonce : Str}
    (hsendable : c.Sendable nonce) :
    (remember g { c with nonce := some nonce }).2.Has (nonceName nonce) .claimed := by
  by_cases hclaimed : g.Has (nonceName nonce) .claimed
  · exact has_next (.remember { c with nonce := some nonce }) (fun h => nomatch h) (by decide) hclaimed
  · obtain ⟨sourceDigest, -, heq⟩ := remember_of_sendable (g := g) hsendable
    rw [heq]
    exact ⟨_, Graph.mem_update_of_mem_inserted hclaimed (Finset.mem_insert_self _ _), rfl, rfl⟩

theorem written_of_unclaimed {g : Ledger} {c : RememberCall} {nonce : Str}
    (hsendable : c.Sendable nonce) (hclaimed : ¬ g.Has (nonceName nonce) .claimed) :
    ∃ sourceDigest, digest c.memoryId = .ok sourceDigest ∧
      (c.entity sourceDigest).triples ⊆ (remember g { c with nonce := some nonce }).2 := by
  obtain ⟨sourceDigest, hdigest, heq⟩ := remember_of_sendable (g := g) hsendable
  refine ⟨sourceDigest, hdigest, fun t ht => ?_⟩
  rw [heq]
  exact Graph.mem_update_of_mem_inserted hclaimed (Finset.mem_insert_of_mem ht)

/-- **A guarded `remember` reports its own claim exactly where it is clean.** The cases are
    whether its nonce is claimed. -/
theorem reportsClaim_iff {g : Ledger} {c : RememberCall} {nonce : Str} :
    ReportsClaim g c nonce ↔ Clean g c nonce := by
  have htrue := remember_eq_true_iff g c nonce
  unfold Clean
  by_cases hclaimed : g.Has (nonceName nonce) .claimed
  · rw [if_pos hclaimed]
    constructor
    · intro h hsendable hlive
      exact h.reply.mp (htrue.mpr ⟨hsendable, fun _ => hlive⟩) hclaimed
    · intro h
      refine ⟨iff_of_false (fun hreply => ?_) (not_not_intro hclaimed),
        fun _ hno => absurd hclaimed hno⟩
      obtain ⟨hsendable, hlive⟩ := htrue.mp hreply
      exact h hsendable (hlive hclaimed)
  · rw [if_neg hclaimed]
    constructor
    · exact fun h => (htrue.mp (h.reply.mpr hclaimed)).1
    · intro hsendable
      refine ⟨iff_of_true (htrue.mpr ⟨hsendable, fun h => absurd h hclaimed⟩) hclaimed, ?_⟩
      exact fun _ _ => written_of_unclaimed hsendable hclaimed

theorem not_reportsClaim_again {g : Ledger} {c : RememberCall} {nonce : Str}
    (hsendable : c.Sendable nonce) (hclaimed : ¬ g.Has (nonceName nonce) .claimed) :
    ¬ ReportsClaim (remember g { c with nonce := some nonce }).2 c nonce := by
  intro h
  obtain ⟨sourceDigest, -, hwritten⟩ := written_of_unclaimed hsendable hclaimed
  have hlive := hwritten (current_mem_triples (c.entity sourceDigest))
  exact h.reply.mp ((remember_eq_true_iff _ c nonce).mpr ⟨hsendable, fun _ => hlive⟩)
    (claimed_of_remember hsendable)

/-- A job whose replacement has been forgotten is not accepted again. -/
theorem not_improve_again {g : Ledger} {c : ImproveCall} {principal : Str}
    (hprincipal : principal = lit "operator") (h : (improve g c).1 = .ok true) :
    (improve (forget (improve g c).2 c.replacementId principal).2 c).1 ≠ .ok true := by
  intro hagain
  obtain ⟨hsendable, hjob⟩ := committed_of_improve h
  have hkept := has_next (.forget c.replacementId principal) (fun h => nomatch h) (by decide) hjob
  rw [next_forget] at hkept
  have hid : c.replacementId.Encodable := hsendable.1 _ (by simp)
  have hlive := ((improve_of_committed hkept).2.mp hagain).2
  exact not_current_of_forget hprincipal hid hlive

end Runs

/-!
## A nonce spent twice, and a job whose replacement is gone

The run on which it fails, in both directions. The memory is written under a nonce; under the same
nonce it is accepted again. Its revision is carried out and then forgotten, and the job, though
committed, is refused.
-/

section

attribute [local instance] cpython

/-- A memory, and what replaces it. -/
def note : RememberCall :=
  { memoryId := lit "m", text := lit "first", principal := lit "operator" }

def revision (sourceDigest : Str) : ImproveCall where
  memoryId := lit "m"
  replacementId := lit "r"
  text := lit "second"
  principal := lit "operator"
  expectedSourceDigest := sourceDigest
  idempotencyKey := lit "j"

theorem sendable_note : note.Sendable (lit "n") := by
  refine ⟨fun s hs => ?_, Literal.onOneLine_ofList (by decide), Literal.onOneLine_ofList (by decide)⟩
  simp only [note, List.mem_cons, List.not_mem_nil, or_false] at hs
  rcases hs with rfl | rfl | rfl | rfl
  all_goals exact encodable_lit _

theorem sendable_revision (sourceDigest : Str) : (revision sourceDigest).Sendable := by
  refine ⟨fun s hs => ?_, Literal.onOneLine_ofList (by decide), Literal.onOneLine_ofList (by decide)⟩
  simp only [revision, List.mem_cons, List.not_mem_nil, or_false] at hs
  rcases hs with rfl | rfl | rfl | rfl | rfl
  all_goals exact encodable_lit _

/-- Once the memory is written, the condition of its revision holds. -/
theorem guard_revision {sourceDigest : Str} (h : digest (lit "m") = .ok sourceDigest) :
    (revision sourceDigest).Guard (remember ∅ note).2 := by
  have hledger : (remember ∅ note).2 = ∅ ∪ (note.entity sourceDigest).triples := by
    unfold remember
    rw [show digest note.memoryId = .ok sourceDigest from h]
    rfl
  rw [hledger, Finset.empty_union]
  refine ⟨current_mem_triples (note.entity sourceDigest), ?_, ?_⟩
  · simp [Entity.triples, revision, RememberCall.entity, note]
  · rintro ⟨t, ht, -, hp⟩
    simp only [Entity.triples, RememberCall.entity, note, List.map_nil, List.append_nil,
      List.mem_toFinset, List.mem_cons, List.not_mem_nil, or_false] at ht
    rcases ht with rfl | rfl | rfl | rfl | rfl | rfl | rfl
    all_goals cases hp

end

end AdversarialCognition.AkkaFluree
