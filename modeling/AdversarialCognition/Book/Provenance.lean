import AdversarialCognition.Book.Catalog
import AdversarialCognition.Report.Manifest

/-!
# What the catalog proves of its past

## The stores

Everything the catalog stores is a function of its journal, and most of it of the receipts alone
(`stores_of_journal`). The tables are what the receipts of their present lives leave behind, an
audit, an outbox and a lineage are those of the receipts in order, a hash leads to the last
receipt that has it, and a key to the one that was recorded under it.

## The chain

Walked back from its head, the chain of a table is its transitions since it was created
(`walk_eq_life`). A table that is created anew begins a new chain: what its earlier lives left in
the store of receipts is still there, but not reached.

## One pointer, one key

No two accepted commits asserted one pointer, unless the table was created anew in between
(`created_of_same_pointer`). The pointer is the digest of the table, the snapshot and the update,
and the snapshots of a table grow. Under one key at most one commit was accepted, and whoever asks
under the key is told of that one (`once_per_key`).

## Replay

What `replay` attests is what was recorded (`replay_iff_recorded`).

## What is asked of the digest

Of the stores and of the keys, nothing. Of the pointers, that SHA-256 does not collide on those of
the run: the snapshot is a number, and is read off the print whatever the texts are. Of the chain
and of `replay`, that it does not collide on the receipts, and that the texts are of valid
Unicode. This cannot be spared there: the print does not tell two surrogates from the character
that they encode, so two receipts may differ in such texts and have one hash.
-/

namespace AdversarialCognition

namespace CatalogProvenance

open Py Py.Str Py.Json Book

/-!
## Receipts of a journal

The journal of a run is the list of its events. What a store is to hold is defined on the journal
alone: the receipts that were recorded, those of the present life of a table, the table that they
leave behind, and the walk along the hashes that an audit would take.
-/

/-- The receipt that was recorded, if one was. -/
def Event.receipt? : Event → Option Receipt
  | .created _ => none
  | .recorded r => some r

/-- The receipts of a journal, oldest first. -/
def recorded (es : List Event) : List Receipt := es.filterMap Event.receipt?

theorem recorded_created (es : List Event) (table : Str) :
    recorded (es ++ [.created table]) = recorded es := by
  rw [recorded, List.filterMap_append]
  exact List.append_nil _

theorem recorded_recorded (es : List Event) (r : Receipt) :
    recorded (es ++ [.recorded r]) = recorded es ++ [r] := by
  rw [recorded, List.filterMap_append]
  rfl

theorem mem_recorded {es : List Event} {r : Receipt} : r ∈ recorded es ↔ .recorded r ∈ es := by
  rw [recorded, List.mem_filterMap]
  constructor
  · intro h
    obtain ⟨e, he, hr⟩ := h
    cases e with
    | created table => cases hr
    | recorded found =>
      cases hr
      exact he
  · exact fun h => ⟨_, h, rfl⟩

section Catalog

variable [Runtime]

/-- What an event adds to the present life of a table. To create the table begins a new one. -/
def lifeStep (table : Str) (life : Option (List Receipt)) : Event → Option (List Receipt)
  | .created name => if name = table then some [] else life
  | .recorded r => if r.table = table then life.map (r :: ·) else life

/-- The receipts of a table since it was last created, newest first. -/
def life (table : Str) (es : List Event) : Option (List Receipt) :=
  es.foldl (lifeStep table) none

/-- The table its receipts leave behind. -/
def entryOf (table : Str) : List Receipt → Table
  | [] => ⟨genesis table, 0, [], false⟩
  | r :: _ => r.entry

/-- Each receipt extends what the older ones left: it verifies, it asserts their pointer, it names
    the last of them as its predecessor, and it is of the next snapshot if it is of a commit. A
    dropped table has no later receipt. -/
def Linked (table : Str) : List Receipt → Prop
  | [] => True
  | r :: older =>
      r.table = table ∧ r.verifies = .ok true ∧ (entryOf table older).tombstoned = false ∧
        r.previousMetadata = (entryOf table older).metadata ∧
        r.prevReceipt = (entryOf table older).headReceipt ∧
        (r.op = lit "commit" ∧ r.snapshotId = (entryOf table older).snapshotId + 1 ∨
          r.op = lit "tombstone" ∧ r.snapshotId = (entryOf table older).snapshotId) ∧
        Linked table older

/-- The audit of a chain, from a hash backwards: `n` receipts of it at most. It ends where no
    receipt has the hash. -/
def walk (receipts : Dict Str Receipt) : ℕ → Str → List Receipt
  | 0, _ => []
  | n + 1, hash =>
    match receipts.get? hash with
    | none => []
    | some r => r :: walk receipts n r.prevReceipt

omit [Runtime] in
theorem life_created (table name : Str) (es : List Event) :
    life table (es ++ [.created name]) = if name = table then some [] else life table es := by
  rw [life, List.foldl_append]
  rfl

omit [Runtime] in
theorem life_recorded (table : Str) (r : Receipt) (es : List Event) :
    life table (es ++ [.recorded r]) =
      if r.table = table then (life table es).map (r :: ·) else life table es := by
  rw [life, List.foldl_append]
  rfl

omit [Runtime] in
theorem mem_recorded_of_life {table : Str} {es : List Event} {l : List Receipt}
    (h : life table es = some l) : ∀ r ∈ l, r ∈ recorded es := by
  induction es using List.reverseRecOn generalizing l with
  | nil => cases h
  | append_singleton es e ih =>
    cases e with
    | created name =>
      rw [life_created] at h
      rw [recorded_created]
      split_ifs at h
      · cases h
        exact List.forall_mem_nil _
      · exact ih h
    | recorded r =>
      rw [life_recorded] at h
      rw [recorded_recorded]
      have hold : ∀ {l}, life table es = some l → ∀ r' ∈ l, r' ∈ recorded es ++ [r] :=
        fun hl r' hr' => List.mem_append_left _ (ih hl r' hr')
      split_ifs at h
      · obtain ⟨older, holder, rfl⟩ := Option.map_eq_some_iff.mp h
        exact List.forall_mem_cons.mpr ⟨List.mem_append_right _ List.mem_cons_self, hold holder⟩
      · exact hold h

/-!
## The six stores

One store after the other, by induction over the journal. Each event changes a store in one way,
so the step is short; what carries it is that a receipt that is recorded extends the table that it
found.
-/

theorem event_extends {pre : List Command} {i : Command} {r : Receipt}
    (h : sourced.event (catalog.after pre) i = some (.recorded r)) :
    ∃ entry, Extends (catalog.after pre) entry r := by
  obtain ⟨entry, hextends, _⟩ := eventOf_recorded h
  exact ⟨entry, hextends⟩

/-- The tables are what the receipts say, and the receipts follow on each other. -/
theorem tables_of_journal (is : List Command) (table : Str) :
    (catalog.after is).tables.get? table =
        (life table (sourced.journal is)).map (entryOf table) ∧
      ∀ l, life table (sourced.journal is) = some l → Linked table l := by
  refine Machine.Sourced.journal_induction (S := sourced)
    (P := fun es c => c.tables.get? table = (life table es).map (entryOf table) ∧
      ∀ l, life table es = some l → Linked table l) ⟨rfl, by simp [life]⟩ ?_
  intro pre i post e _ he hpre
  obtain ⟨htables, hlinked⟩ := hpre
  cases e with
  | created name =>
    rw [life_created]
    show ((catalog.after pre).tables.set name _).get? table = _ ∧ _
    rw [Dict.get?_set]
    -- to create the table begins a life
    by_cases hname : name = table
    · subst hname
      rw [if_pos rfl, if_pos rfl]
      refine ⟨rfl, fun l hl => ?_⟩
      cases hl
      trivial
    · rw [if_neg (Ne.symm hname), if_neg hname]
      exact ⟨htables, hlinked⟩
  | recorded r =>
    obtain ⟨entry, hextends⟩ := event_extends he
    rw [life_recorded]
    show ((catalog.after pre).tables.set r.table r.entry).get? table = _ ∧ _
    rw [Dict.get?_set]
    by_cases hname : r.table = table
    · obtain ⟨hentry, halive⟩ := live_eq_some_iff.mp hextends.live
      rw [hname, htables] at hentry
      obtain ⟨older, holder, rfl⟩ := Option.map_eq_some_iff.mp hentry
      rw [if_pos hname.symm, if_pos hname, holder]
      refine ⟨rfl, fun l hl => ?_⟩
      cases hl
      refine ⟨hname, verifies_iff.mpr hextends.hash, halive, hextends.previous, hextends.prev, ?_, hlinked _ holder⟩
      rcases hextends.kind with ⟨hop, hsnapshot, _, _⟩ | ⟨hop, hsnapshot, _⟩
      · exact .inl ⟨hop, hsnapshot⟩
      · exact .inr ⟨hop, hsnapshot⟩
    · rw [if_neg (Ne.symm hname), if_neg hname]
      exact ⟨htables, hlinked⟩

theorem evidence_of_journal (is : List Command) :
    (catalog.after is).audit =
        (recorded (sourced.journal is)).map (fun r => evidence "audit" r.receiptHash) ∧
      (catalog.after is).outbox =
        (recorded (sourced.journal is)).map (fun r => evidence "outbox" r.receiptHash) ∧
      (catalog.after is).lineage =
        ((recorded (sourced.journal is)).filter (·.op = lit "commit")).map
          fun r => evidence "lineage" r.receiptHash := by
  refine Machine.Sourced.journal_induction (S := sourced)
    (P := fun es c => c.audit = (recorded es).map (fun r => evidence "audit" r.receiptHash) ∧
      c.outbox = (recorded es).map (fun r => evidence "outbox" r.receiptHash) ∧
      c.lineage = ((recorded es).filter (·.op = lit "commit")).map
        fun r => evidence "lineage" r.receiptHash) ⟨rfl, rfl, rfl⟩ ?_
  intro pre i post e _ _ hpre
  obtain ⟨haudit, houtbox, hlineage⟩ := hpre
  cases e with
  | created name =>
    rw [recorded_created]
    exact ⟨haudit, houtbox, hlineage⟩
  | recorded r =>
    rw [recorded_recorded, List.map_append, List.map_append, List.filter_append, List.map_append,
      ← haudit, ← houtbox, ← hlineage]
    refine ⟨rfl, rfl, ?_⟩
    show (if r.op = lit "commit" then _ else _) = _
    by_cases hop : r.op = lit "commit"
    · simp [hop]
    · simp [hop]

/-- A hash leads to the last receipt that was recorded with it. -/
theorem receipts_of_journal (is : List Command) (hash : Str) :
    (catalog.after is).receipts.get? hash =
      (recorded (sourced.journal is)).reverse.find? (·.receiptHash = hash) := by
  refine Machine.Sourced.journal_induction (S := sourced)
    (P := fun es c => c.receipts.get? hash = (recorded es).reverse.find? (·.receiptHash = hash))
    rfl ?_
  intro pre i post e _ _ hpre
  cases e with
  | created name =>
    rw [recorded_created]
    exact hpre
  | recorded r =>
    rw [recorded_recorded, List.reverse_append, List.reverse_singleton, List.singleton_append,
      List.find?_cons, ← hpre]
    show ((catalog.after pre).receipts.set r.receiptHash r).get? hash = _
    rw [Dict.get?_set]
    by_cases hhash : r.receiptHash = hash
    · simp [hhash]
    · simp [hhash, Ne.symm hhash]

/-- A key leads to the one receipt that was recorded under it. -/
theorem idempotency_of_journal (is : List Command) {key : Str} (hkey : key ≠ []) :
    (catalog.after is).idempotency.get? key =
        ((recorded (sourced.journal is)).find? (·.idempotencyKey = key)).map committed ∧
      ((recorded (sourced.journal is)).filter (·.idempotencyKey = key)).length ≤ 1 := by
  refine Machine.Sourced.journal_induction (S := sourced)
    (P := fun es c =>
      c.idempotency.get? key = ((recorded es).find? (·.idempotencyKey = key)).map committed ∧
        ((recorded es).filter (·.idempotencyKey = key)).length ≤ 1) ⟨rfl, Nat.zero_le _⟩ ?_
  intro pre i post e _ he hpre
  obtain ⟨hget, hone⟩ := hpre
  cases e with
  | created name =>
    rw [recorded_created]
    exact ⟨hget, hone⟩
  | recorded r =>
    obtain ⟨entry, hextends⟩ := event_extends he
    rw [recorded_recorded, List.find?_append, List.filter_append]
    show (if r.idempotencyKey = [] then (catalog.after pre).idempotency
      else (catalog.after pre).idempotency.set r.idempotencyKey (committed r)).get? key = _ ∧ _
    by_cases hsame : r.idempotencyKey = key
    · -- a receipt under the key is recorded only where the key is free
      have hfree : (catalog.after pre).idempotency.get? key = none := by
        rcases hextends.kind with ⟨_, _, _, hstored⟩ | ⟨_, _, hempty⟩
        · rwa [ReferenceCatalog.stored, if_neg (hsame ▸ hkey), hsame] at hstored
        · exact absurd (hsame.symm.trans hempty) hkey
      have hnone : (recorded (sourced.journal pre)).find? (·.idempotencyKey = key) = none := by
        rw [hfree] at hget
        exact Option.map_eq_none_iff.mp hget.symm
      have hnil : (recorded (sourced.journal pre)).filter (·.idempotencyKey = key) = [] :=
        List.filter_eq_nil_iff.mpr fun found hfound => List.find?_eq_none.mp hnone found hfound
      rw [if_neg (hsame ▸ hkey), Dict.get?_set, if_pos hsame.symm, hnone, hnil]
      simp [hsame]
    -- a receipt under another key, or under none, leaves this key as it was
    · have hget' : (if r.idempotencyKey = [] then (catalog.after pre).idempotency
          else (catalog.after pre).idempotency.set r.idempotencyKey (committed r)).get? key =
          (catalog.after pre).idempotency.get? key := by
        split_ifs
        · rfl
        · rw [Dict.get?_set, if_neg (Ne.symm hsame)]
      rw [hget', hget]
      refine ⟨?_, ?_⟩
      · simp [hsame]
      · simpa [hsame] using hone

/-- **The catalog is its journal.** What is in each store is read off the tables created and the
    receipts recorded, and what a raising operation leaves is what it found. Each store has its
    own induction over the journal, and each uses only what an event says of that store. -/
theorem stores_of_journal (is : List Command) :
    (∀ table, (catalog.after is).tables.get? table =
        (life table (sourced.journal is)).map (entryOf table)) ∧
      (∀ hash, (catalog.after is).receipts.get? hash =
        (recorded (sourced.journal is)).reverse.find? (·.receiptHash = hash)) ∧
      (∀ key, key ≠ [] → (catalog.after is).idempotency.get? key =
        ((recorded (sourced.journal is)).find? (·.idempotencyKey = key)).map committed) ∧
      (catalog.after is).audit =
        (recorded (sourced.journal is)).map (fun r => evidence "audit" r.receiptHash) ∧
      (catalog.after is).outbox =
        (recorded (sourced.journal is)).map (fun r => evidence "outbox" r.receiptHash) ∧
      (catalog.after is).lineage =
        ((recorded (sourced.journal is)).filter (·.op = lit "commit")).map
          (fun r => evidence "lineage" r.receiptHash) ∧
      ∀ cmd e, (catalog.step (catalog.after is) cmd).1 = .error e →
        catalog.next (catalog.after is) cmd = catalog.after is := by
  refine ⟨fun table => (tables_of_journal is table).1, receipts_of_journal is,
    fun key hkey => (idempotency_of_journal is hkey).1, (evidence_of_journal is).1,
    (evidence_of_journal is).2.1, (evidence_of_journal is).2.2, fun cmd e he => ?_⟩
  exact Machine.Sourced.next_of_none (S := sourced) (eventOf_of_raises he)

/-!
## One receipt for each hash

A receipt is looked up by its hash. The one that is found is the one that was meant if the print
of a receipt gives away what it is, which takes texts of valid Unicode, and if SHA-256 does not
collide on the receipts of the run.
-/

/-- The texts that go into a receipt are of valid Unicode. -/
def Command.Scalar : Command → Prop
  | .create table _ => Encodable table
  | .commit q =>
      Encodable q.table ∧ Encodable q.update ∧ Encodable q.principal ∧ Encodable q.idempotencyKey
  | .tombstone table principal _ _ => Encodable table ∧ Encodable principal
  | .scan _ _ _ => True
  | .replay _ => True
  | .restart => True

/-- The texts that a receipt is printed with. -/
def Receipt.texts (r : Receipt) : List Str :=
  [r.table, r.op, r.previousMetadata, r.newMetadata, r.principal, r.policyHash, r.idempotencyKey,
    r.requestHash, r.responseHash, r.prevReceipt]

/-- The texts of the receipt are of valid Unicode. -/
def Receipt.Scalar (r : Receipt) : Prop := ∀ s ∈ r.texts, Encodable s

omit [Runtime] in
theorem printable_body {r : Receipt} (h : r.Scalar) (hints : printsInts (list r.body) = true) :
    Printable (list r.body) := by
  have hsnapshot : r.snapshotId.natAbs < 10 ^ 4300 := by
    rwa [printsInts_body, decide_eq_true_eq] at hints
  have hlit : ∀ s : String, Encodable (lit s) := encodable_lit
  simp only [Receipt.Scalar, Receipt.texts, List.forall_mem_cons] at h
  obtain ⟨h₁, h₂, h₃, h₄, h₅, h₆, h₇, h₈, h₉, h₁₀, _⟩ := h
  simp only [Receipt.body, Printable, PrintableItems]
  exact ⟨hlit _, h₁, h₂, h₃, h₄, hsnapshot, h₅, h₆, h₇, h₈, h₉, h₁₀, trivial⟩

omit [Runtime] in
theorem floatless_body (r : Receipt) : Floatless (list r.body) := by
  simp [Receipt.body, Floatless, FloatlessItems]

omit [Runtime] in
theorem receipt_eq_of_body {r r' : Receipt} (h : sortKeys (list r.body) = sortKeys (list r'.body))
    (hhash : r.receiptHash = r'.receiptHash) : r = r' := by
  obtain ⟨table, op, previous, new, snapshot, principal, policy, key, request, response, prev,
    hash⟩ := r
  obtain ⟨table', op', previous', new', snapshot', principal', policy', key', request', response',
    prev', hash'⟩ := r'
  obtain rfl : hash = hash' := hhash
  simpa [Receipt.body, sortKeys, sortItems] using h

omit [Runtime] in
theorem encodable_domain : Encodable domain := encodable_lit _

/-- A receipt has the texts of its command, digests, and what the table had. -/
theorem scalar_of_event {c : ReferenceCatalog} {cmd : Command} {r : Receipt} (hcmd : cmd.Scalar)
    (hc : ∀ table entry, c.tables.get? table = some entry →
      Encodable entry.metadata ∧ Encodable entry.headReceipt)
    (h : eventOf c cmd = some (.recorded r)) : r.Scalar := by
  obtain ⟨entry, hextends, hcase⟩ := eventOf_recorded h
  obtain ⟨hmeta, hhead⟩ := hc _ _ (live_eq_some_iff.mp hextends.live).1
  have hdigest : ∀ {parts hash}, digest parts = .ok hash → Encodable hash := by
    intro parts hash hhash
    rw [(digest_eq_ok_iff.mp hhash).2]
    exact encodable_hashed _ _
  rw [Receipt.Scalar, Receipt.texts]
  simp only [List.forall_mem_cons]
  rw [hextends.previous, hextends.prev]
  rcases hcase with ⟨q, rfl, hq⟩ | ⟨table, principal, policy, nonce, rfl, ht⟩
  · obtain ⟨htable, hop, _, _, hprincipal, hkey, _, hnew, hrequest, hresponse, hpolicy, _⟩ :=
      commitReceipt_eq_ok_iff.mp hq
    rw [htable, hop, hprincipal, hkey, hrequest]
    exact ⟨hcmd.1, encodable_lit _, hmeta, hdigest hnew, hcmd.2.2.1, encodable_sha256Hex hpolicy,
      hcmd.2.2.2, encodable_hashed _ _, hdigest hresponse, hhead, List.forall_mem_nil _⟩
  · obtain ⟨htable, hop, _, hnew, _, hprincipal, hkey, hrequest, hresponse, _, hpolicy, _⟩ :=
      tombstoneReceipt_eq_ok_iff.mp ht
    rw [htable, hop, hnew, hprincipal, hkey, hrequest, hresponse]
    exact ⟨hcmd.1, encodable_lit _, hmeta, encodable_hashed _ _, hcmd.2,
      encodable_sha256Hex hpolicy, List.forall_mem_nil _, encodable_hashed _ _,
      encodable_hashed _ _, hhead, List.forall_mem_nil _⟩

theorem scalar_of_recorded {is : List Command} (h : ∀ cmd ∈ is, cmd.Scalar) :
    ∀ r ∈ recorded (sourced.journal is), r.Scalar := by
  refine (Machine.Sourced.journal_induction (S := sourced) 
    (P := fun es c => (∀ r ∈ recorded es, r.Scalar) ∧ ∀ table entry,
      c.tables.get? table = some entry → Encodable entry.metadata ∧ Encodable entry.headReceipt)
    ⟨List.forall_mem_nil _, fun table entry hentry => by cases hentry⟩ ?_).1
  intro pre i post e hsplit he hpre
  obtain ⟨hscalar, htables⟩ := hpre
  have hi : i.Scalar := h i (hsplit ▸ List.mem_append_right _ List.mem_cons_self)
  cases e with
  | created name =>
    rw [recorded_created]
    refine ⟨hscalar, fun table entry hentry => ?_⟩
    have hset : ((catalog.after pre).tables.set name _).get? table = some entry := hentry
    rw [Dict.get?_set] at hset
    split_ifs at hset
    · cases hset
      exact ⟨encodable_hashed _ _, List.forall_mem_nil _⟩
    · exact htables _ _ hset
  | recorded r =>
    -- carried along: what the tables have is of valid Unicode too, as receipts are made of it
    have hr : r.Scalar := scalar_of_event hi htables he
    rw [recorded_recorded]
    refine ⟨List.forall_mem_append.mpr ⟨hscalar, List.forall_mem_singleton.mpr hr⟩,
      fun table entry hentry => ?_⟩
    have hset : ((catalog.after pre).tables.set r.table r.entry).get? table = some entry := hentry
    rw [Dict.get?_set] at hset
    split_ifs at hset
    · cases hset
      obtain ⟨_, hextends⟩ := event_extends he
      have hhash : Encodable r.receiptHash := by
        rw [(digest_eq_ok_iff.mp hextends.hash).2]
        exact encodable_hashed _ _
      simp only [Receipt.Scalar, Receipt.texts, List.forall_mem_cons] at hr
      unfold Receipt.entry
      split_ifs
      · exact ⟨hr.2.2.1, hhash⟩
      · exact ⟨hr.2.2.2.1, hhash⟩
    · exact htables _ _ hset

/-- The texts of the run are of valid Unicode, and SHA-256 does not collide on its receipts. -/
structure Distinguished (is : List Command) : Prop where
  scalar : ∀ cmd ∈ is, cmd.Scalar
  apart : ∀ r ∈ recorded (sourced.journal is), ∀ r' ∈ recorded (sourced.journal is),
    NoCollision (payload domain r.body) (payload domain r'.body)

/-- What a command of the run records is among the receipts of the run. -/
theorem recorded_of_event {is pre post : List Command} {i : Command} {r : Receipt}
    (hsplit : is = pre ++ i :: post) (h : eventOf (catalog.after pre) i = some (.recorded r)) :
    r ∈ recorded (sourced.journal is) :=
  mem_recorded.mpr (Machine.Sourced.mem_journal.mpr ⟨pre, i, post, hsplit, h⟩)

theorem digest_of_recorded {is : List Command} {r : Receipt}
    (h : r ∈ recorded (sourced.journal is)) : digest r.body = .ok r.receiptHash := by
  obtain ⟨pre, i, post, _, he⟩ := Machine.Sourced.mem_journal.mp (mem_recorded.mp h)
  obtain ⟨entry, hextends⟩ := event_extends he
  exact hextends.hash

/-- Two sealed receipts of one hash are one, if their texts do not collide. -/
theorem receipt_eq_of_hash {r r' : Receipt} (hr : r.Scalar) (hr' : r'.Scalar)
    (hdigest : digest r.body = .ok r.receiptHash) (hdigest' : digest r'.body = .ok r'.receiptHash)
    (hapart : NoCollision (payload domain r.body) (payload domain r'.body))
    (h : r.receiptHash = r'.receiptHash) : r = r' := by
  obtain ⟨hints, hhash⟩ := digest_eq_ok_iff.mp hdigest
  obtain ⟨hints', hhash'⟩ := digest_eq_ok_iff.mp hdigest'
  refine receipt_eq_of_body (hashed_inj encodable_domain (printable_body hr hints)
    (printable_body hr' hints') hapart ?_) h
  rw [← hhash, ← hhash', h]

/-- In a run that distinguishes them, a hash leads to the receipt that has it. -/
theorem Distinguished.get?_receiptHash {is : List Command} (h : Distinguished is) {r : Receipt}
    (hr : r ∈ recorded (sourced.journal is)) :
    (catalog.after is).receipts.get? r.receiptHash = some r := by
  rw [receipts_of_journal]
  cases hfind : (recorded (sourced.journal is)).reverse.find? (·.receiptHash = r.receiptHash) with
  | none =>
    have hne := List.find?_eq_none.mp hfind r (List.mem_reverse.mpr hr)
    simp at hne
  | some found =>
    have hhash : found.receiptHash = r.receiptHash := by simpa using List.find?_some hfind
    have hmem := List.mem_reverse.mp (List.mem_of_find?_eq_some hfind)
    have hscalar := scalar_of_recorded h.scalar
    rw [receipt_eq_of_hash (hscalar _ hmem) (hscalar _ hr) (digest_of_recorded hmem)
      (digest_of_recorded hr) (h.apart _ hmem _ hr) hhash]

/-!
## The chain of a table

Each receipt names the hash of the one before it, and the first names none. So the walk from the
head goes through the receipts of the present life and stops at its beginning: the empty hash
leads nowhere, as no digest is empty.
-/

/-- No recorded receipt has the empty hash, since a digest is not empty. -/
theorem receiptHash_ne_nil {is : List Command} {r : Receipt}
    (hr : r ∈ recorded (sourced.journal is)) : r.receiptHash ≠ [] := by
  rw [(digest_eq_ok_iff.mp (digest_of_recorded hr)).2]
  exact hashed_ne_nil encodable_domain (floatless_body r)

theorem get?_nil (is : List Command) : (catalog.after is).receipts.get? [] = none := by
  rw [receipts_of_journal, List.find?_eq_none]
  intro r hr
  have hne := receiptHash_ne_nil (List.mem_reverse.mp hr)
  simpa using hne

omit [Runtime] in
theorem headReceipt_entry (r : Receipt) : r.entry.headReceipt = r.receiptHash := by
  unfold Receipt.entry
  split_ifs <;> rfl

/-- A linked chain is walked back to its beginning, if each of its hashes leads to the receipt
    that has it. The empty hash leads nowhere, so the walk ends there. -/
theorem walk_eq {receipts : Dict Str Receipt} {table : Str} (hempty : receipts.get? [] = none)
    {l : List Receipt} {n : ℕ} (hlinked : Linked table l)
    (hget : ∀ r ∈ l, receipts.get? r.receiptHash = some r) (hn : l.length ≤ n) :
    walk receipts n (entryOf table l).headReceipt = l := by
  induction l generalizing n with
  | nil =>
    show walk receipts n [] = []
    cases n with
    | zero => rfl
    | succ n => rw [walk, hempty]
  | cons r older ih =>
    obtain ⟨_, _, _, _, hprev, _, holder⟩ := hlinked
    obtain ⟨hr, hrest⟩ := List.forall_mem_cons.mp hget
    cases n with
    | zero => exact absurd hn (Nat.not_succ_le_zero _)
    | succ n =>
      show walk receipts (n + 1) r.entry.headReceipt = r :: older
      rw [headReceipt_entry, walk, hr]
      dsimp only
      rw [hprev, ih holder hrest (Nat.le_of_succ_le_succ hn)]

/-- **Walked back from its head, the chain of a table is its transitions since it was created**,
    newest first, each one sealed and asserting what the one before it left. A hash leads to the
    receipt that has it, as the run distinguishes its receipts, and the receipt of a new table
    names no predecessor. -/
theorem walk_eq_life {is : List Command} (h : Distinguished is) {table : Str} {entry : Table}
    (hentry : (catalog.after is).tables.get? table = some entry) :
    ∃ l, life table (sourced.journal is) = some l ∧ Linked table l ∧
      ∀ n, l.length ≤ n → walk (catalog.after is).receipts n entry.headReceipt = l := by
  obtain ⟨htables, hlinked⟩ := tables_of_journal is table
  rw [hentry] at htables
  obtain ⟨l, hl, rfl⟩ := Option.map_eq_some_iff.mp htables.symm
  refine ⟨l, hl, hlinked l hl, fun n hn => walk_eq (get?_nil is) (hlinked l hl) ?_ hn⟩
  intro r hr
  exact h.get?_receiptHash (mem_recorded_of_life hl r hr)

/-!
## One pointer, one commit

A pointer is the digest of the table, the snapshot and the update. The snapshot is a number and
can be read off the print, whatever the texts next to it are, so that commits with one pointer are
commits at one snapshot; and the snapshots of a table grow.
-/

/-- The pointer a command makes, or would make: that of a table as created, or of a commit to one
    that is live. -/
def minted (c : ReferenceCatalog) : Command → List (List Json)
  | .create table _ => [metaParts table 0 none]
  | .commit q =>
      (c.live q.table).toList.map fun entry =>
        metaParts q.table (entry.snapshotId + 1) (some q.update)
  | .scan _ _ _ => []
  | .tombstone _ _ _ _ => []
  | .replay _ => []
  | .restart => []

/-- The pointers of a run. -/
def pointers (is : List Command) : List (List Json) :=
  (catalog.trace is).flatMap fun p => minted p.1 p.2

/-- The pointer of a table is the digest of its name and its snapshot. -/
def Pointed (ps : List (List Json)) (table : Str) (entry : Table) : Prop :=
  0 ≤ entry.snapshotId ∧ ∃ update, metaParts table entry.snapshotId update ∈ ps ∧
    printsInts (list (metaParts table entry.snapshotId update)) = true ∧
    entry.metadata = hashed domain (metaParts table entry.snapshotId update)

omit [Runtime] in
theorem floatless_metaParts (table : Str) (n : ℤ) (update : Option Str) :
    Floatless (list (metaParts table n update)) := by
  cases update <;> simp [metaParts, Floatless, FloatlessItems]

omit [Runtime] in
theorem printsInts_genesis (table : Str) :
    printsInts (list (metaParts table 0 none)) = true := by
  have hzero : (0 : ℤ).natAbs ≤ 10 := by decide
  rw [printsInts_metaParts]
  exact decide_eq_true (lt_limit hzero)

omit [Runtime] in
theorem sendable_metaParts [Decoder] {table : Str} {n : ℤ} {update : Option Str}
    (hints : printsInts (list (metaParts table n update)) = true) :
    Sendable (list (metaParts table n update)) := by
  rw [printsInts_metaParts, decide_eq_true_eq] at hints
  cases update with
  | none => exact ⟨trivial, trivial, hints, trivial⟩
  | some u => exact ⟨trivial, trivial, hints, trivial, trivial⟩

omit [Runtime] in
theorem sortKeys_metaParts (table : Str) (n : ℤ) (update : Option Str) :
    sortKeys (list (metaParts table n update)) = list (metaParts table n update) := by
  cases update <;> rfl

/-- **A pointer is of one snapshot**, whatever its table and its update are called: a number is
    not among the texts in which halves of a surrogate pair could be joined. -/
theorem snapshotId_of_hashed {table table' : Str} {n n' : ℤ} {update update' : Option Str}
    (hints : printsInts (list (metaParts table n update)) = true)
    (hints' : printsInts (list (metaParts table' n' update')) = true)
    (hapart : NoCollision (payload domain (metaParts table n update))
      (payload domain (metaParts table' n' update')))
    (h : hashed domain (metaParts table n update) = hashed domain (metaParts table' n' update')) :
    n = n' := by
  let _ := Decoder.verbatim
  have hcompact := compact_eq_of_hashed encodable_domain (floatless_metaParts _ _ _)
    (floatless_metaParts _ _ _) hapart h
  rw [sortKeys_metaParts, sortKeys_metaParts] at hcompact
  have hjoined := joinStrings_eq_of_compact (floatless_metaParts _ _ _) (floatless_metaParts _ _ _)
    (sendable_metaParts hints) (sendable_metaParts hints') hcompact
  cases update <;> cases update' <;> simp [metaParts, joinStrings, joinItems] at hjoined
  · exact hjoined.2
  · exact hjoined.2.1

/-- What a command of the run makes is among the pointers of the run. -/
theorem mem_pointers {is pre post : List Command} {i : Command} {p : List Json}
    (hsplit : is = pre ++ i :: post) (h : p ∈ minted (catalog.after pre) i) : p ∈ pointers is :=
  List.mem_flatMap.mpr ⟨(catalog.after pre, i), Machine.mem_trace.mpr ⟨pre, post, hsplit, rfl⟩, h⟩

/-- What a recorded receipt leaves is pointed, if what it found was. -/
theorem pointed_entry {is pre post : List Command} {i : Command} {r : Receipt} {table : Str}
    (hsplit : is = pre ++ i :: post)
    (he : eventOf (catalog.after pre) i = some (.recorded r)) (htable : r.table = table)
    (hpre : ∀ entry, (catalog.after pre).tables.get? table = some entry →
      Pointed (pointers is) table entry) : Pointed (pointers is) table r.entry := by
  subst htable
  obtain ⟨entry, hextends, hcase⟩ := eventOf_recorded he
  obtain ⟨hnonneg, update, hmem, hints, hmeta⟩ :=
    hpre _ (live_eq_some_iff.mp hextends.live).1
  rcases hcase with ⟨q, rfl, hq⟩ | ⟨name, principal, policy, nonce, rfl, ht⟩
  · obtain ⟨htable, hop, _, hsnapshot, _, _, _, hnew, _⟩ := commitReceipt_eq_ok_iff.mp hq
    obtain ⟨hints, hnew⟩ := digest_eq_ok_iff.mp hnew
    have hentry : r.entry = ⟨r.newMetadata, r.snapshotId, r.receiptHash, false⟩ := by
      rw [Receipt.entry, hop, if_neg (by decide)]
    rw [hentry, hsnapshot, hnew, htable]
    refine ⟨Int.le_add_one hnonneg, some q.update, mem_pointers hsplit ?_, hints, rfl⟩
    rw [minted, ← htable, hextends.live]
    exact List.mem_cons_self
  · obtain ⟨_, hop, hprevious, _, hsnapshot, _⟩ := tombstoneReceipt_eq_ok_iff.mp ht
    have hentry : r.entry = ⟨entry.metadata, entry.snapshotId, r.receiptHash, true⟩ := by
      rw [Receipt.entry, if_pos hop, hprevious, hsnapshot]
    rw [hentry]
    exact ⟨hnonneg, update, hmem, hints, hmeta⟩

/-- **Every table is pointed, after every run.** -/
theorem pointed_of_run {is pre post : List Command} (hsplit : is = pre ++ post) {table : Str} {entry : Table}
    (hentry : (catalog.after pre).tables.get? table = some entry) :
    Pointed (pointers is) table entry := by
  refine Machine.Sourced.journal_induction (S := sourced)
    (P := fun _ c => ∀ entry, c.tables.get? table = some entry → Pointed (pointers is) table entry)
    (fun entry h => by cases h) ?_ entry hentry
  intro before i later e hbefore he ih entry hset
  have hsplit' : is = before ++ i :: (later ++ post) := by
    rw [hsplit, hbefore, List.append_assoc, List.cons_append]
  cases e with
  | created name =>
    have hget : ((catalog.after before).tables.set name _).get? table = some entry := hset
    rw [Dict.get?_set] at hget
    split_ifs at hget with hname
    · obtain ⟨principal, rfl⟩ := eventOf_created he
      cases hget
      subst hname
      exact ⟨le_refl 0, none, mem_pointers hsplit' List.mem_cons_self, printsInts_genesis _, rfl⟩
    · exact ih entry hget
  | recorded r =>
    have hget : ((catalog.after before).tables.set r.table r.entry).get? table = some entry := hset
    rw [Dict.get?_set] at hget
    split_ifs at hget with hname
    · cases hget
      exact pointed_entry hsplit' he hname.symm ih
    · exact ih entry hget

/-- Unless it is created anew, a table is there to stay, and its snapshots only grow. -/
theorem snapshot_le {c : ReferenceCatalog} {table : Str} {n : ℤ} {mid : List Command}
    (hmid : ∀ principal, .create table principal ∉ mid)
    (hc : ∃ entry, c.tables.get? table = some entry ∧ n ≤ entry.snapshotId) :
    ∃ entry, (catalog.run c mid).tables.get? table = some entry ∧ n ≤ entry.snapshotId := by
  refine Machine.run_keeps (P := fun c : ReferenceCatalog =>
    ∃ entry, c.tables.get? table = some entry ∧ n ≤ entry.snapshotId) ?_ hc
  intro p hp hstep
  obtain ⟨before, later, hsplit, _⟩ := Machine.mem_traceFrom.mp (show (p.1, p.2) ∈ _ from hp)
  have hnext : catalog.next p.1 p.2 = (eventOf p.1 p.2).elim p.1 (applied p.1) :=
    step_eq_applied p.1 p.2
  rw [hnext]
  cases he : eventOf p.1 p.2 with
  | none => exact hstep
  | some e =>
    obtain ⟨entry, hentry, hn⟩ := hstep
    cases e with
    | created name =>
      show ∃ found, (p.1.tables.set name _).get? table = some found ∧ _
      rw [Dict.get?_set]
      split_ifs with hname
      · obtain ⟨principal, hcreate⟩ := eventOf_created he
        refine absurd ?_ (hmid principal)
        rw [hsplit, hname, ← hcreate]
        exact List.mem_append_right _ List.mem_cons_self
      · exact ⟨entry, hentry, hn⟩
    | recorded r =>
      show ∃ found, (p.1.tables.set r.table r.entry).get? table = some found ∧ _
      rw [Dict.get?_set]
      split_ifs with hname
      · obtain ⟨found, hextends, _⟩ := eventOf_recorded he
        have hfound := (live_eq_some_iff.mp hextends.live).1
        rw [← hname, hentry] at hfound
        cases hfound
        -- a receipt leaves the snapshot it found, or the next one
        have hsnapshot : r.entry.snapshotId = r.snapshotId := by
          unfold Receipt.entry
          split_ifs <;> rfl
        refine ⟨_, rfl, ?_⟩
        rw [hsnapshot]
        rcases hextends.kind with ⟨_, hnext, _⟩ | ⟨_, hsame, _⟩ <;> omega
      · exact ⟨entry, hentry, hn⟩

theorem commit_of_event {c : ReferenceCatalog} {q : CommitRequest} {r : Receipt}
    (h : eventOf c (.commit q) = some (.recorded r)) :
    ∃ outcome, (c.commit q).1 = .ok outcome ∧ outcome.receipt = some r := by
  rw [eventOf] at h
  split_ifs at h
  revert h
  cases (c.commit q).1 with
  | error e =>
    intro h
    cases h
  | ok outcome =>
    intro h
    obtain ⟨found, hfound, heq⟩ := Option.map_eq_some_iff.mp h
    cases heq
    exact ⟨outcome, rfl, hfound⟩

omit [Runtime] in
theorem toList_head? {l : List Receipt} (h : l.length ≤ 1) : l.head?.toList = l := by
  cases l with
  | nil => rfl
  | cons r l =>
    cases l with
    | nil => rfl
    | cons r' l => simp at h

omit [Runtime] in
theorem head?_of_mem {l : List Receipt} {r : Receipt} (h : l.length ≤ 1) (hr : r ∈ l) :
    l.head? = some r := by
  rw [← toList_head? h, Option.mem_toList] at hr
  exact hr

/-- **Under one key at most one commit is accepted**, and whoever asks under the key, then or
    later, is told of that one. The stored outcome is looked up before anything is, but for the
    lengths; and a tombstone, which is recorded under no key, cannot be taken for it. -/
theorem once_per_key (is : List Command) {key : Str} (hkey : key ≠ []) :
    ∃ once : Option Receipt,
      (recorded (sourced.journal is)).filter (·.idempotencyKey = key) = once.toList ∧
        (∀ c q, (c, .commit q) ∈ catalog.trace is → q.idempotencyKey = key →
          ∀ outcome r, (c.commit q).1 = .ok outcome → outcome.receipt = some r → once = some r) ∧
        ∀ r, once = some r → ∀ q, q.idempotencyKey = key →
          ((catalog.after is).commit q).2 = catalog.after is ∧
            (ReferenceCatalog.badText [q.update, q.policy] = false →
              ((catalog.after is).commit q).1 = .ok (committed r)) := by
  obtain ⟨hget, hone⟩ := idempotency_of_journal is hkey
  refine ⟨(recorded (sourced.journal is)).find? (·.idempotencyKey = key), ?_, ?_, ?_⟩
  · rw [← List.head?_filter]
    exact (toList_head? hone).symm
  · intro c q hmem hq outcome r houtcome hr
    obtain ⟨pre, post, hsplit, rfl⟩ := Machine.mem_trace.mp hmem
    have hrecorded : r ∈ recorded (sourced.journal is) ∧ r.idempotencyKey = key := by
      obtain ⟨_, hreply⟩ | ⟨entry, found, hextends, hfound, heq⟩ :=
        commit_cases (catalog.after pre) q
      · -- a stored outcome is that of a receipt recorded before
        rcases hreply outcome houtcome with hnone | hstored
        · rw [hr] at hnone
          cases hnone
        rw [ReferenceCatalog.stored, hq, if_neg hkey, (idempotency_of_journal pre hkey).1] at hstored
        obtain ⟨found, hfind, rfl⟩ := Option.map_eq_some_iff.mp hstored
        cases hr
        have hmem := mem_recorded.mp (List.mem_of_find?_eq_some hfind)
        refine ⟨mem_recorded.mpr ?_, by simpa using List.find?_some hfind⟩
        rw [hsplit]
        exact Machine.Sourced.journal_subset _ _ _ hmem
      · rw [heq] at houtcome
        cases houtcome
        cases hr
        refine ⟨recorded_of_event hsplit (eventOf_of_commit hextends hfound heq), ?_⟩
        rw [(commitReceipt_eq_ok_iff.mp hfound).2.2.2.2.2.1, hq]
    rw [← List.head?_filter]
    exact head?_of_mem hone (List.mem_filter.mpr ⟨hrecorded.1, decide_eq_true hrecorded.2⟩)
  · intro r hr q hq
    rw [hr, Option.map_some] at hget
    -- once it is recorded, the outcome is found under the key before the table is looked at
    have hstored : (catalog.after is).stored q.idempotencyKey = some (committed r) := by
      rw [ReferenceCatalog.stored, hq, if_neg hkey, hget]
    cases hbad : ReferenceCatalog.badText [q.update, q.policy] with
    | true =>
      rw [ReferenceCatalog.commit, hbad]
      exact ⟨rfl, Bool.noConfusion⟩
    | false =>
      rw [ReferenceCatalog.commit, hbad, hstored]
      exact ⟨rfl, fun _ => rfl⟩

/-!
## What is attested

`replay` looks up the hash of a receipt and computes it anew.
-/

/-- **What `replay` attests is what was recorded.** It looks the hash up and computes it anew, so
    a receipt that passes has the hash of a recorded one and is sealed under it; as SHA-256 does
    not collide on the two, they are one. -/
theorem replay_iff_recorded {is : List Command} (hscalar : ∀ cmd ∈ is, cmd.Scalar) {r : Receipt}
    (hr : r.Scalar) (hapart : ∀ r' ∈ recorded (sourced.journal is),
      NoCollision (payload domain r.body) (payload domain r'.body)) :
    (catalog.after is).replay r = .ok true ↔ r ∈ recorded (sourced.journal is) := by
  have hreplay : (catalog.after is).replay r = .ok true ↔ r.verifies = .ok true ∧
      ((catalog.after is).receipts.get? r.receiptHash).isSome = true := by
    rw [ReferenceCatalog.replay]
    cases r.verifies with
    | error e => exact iff_of_false (fun h => by cases h) fun h => by cases h.1
    | ok b =>
      show (.ok (b && _) : Except Fault Bool) = .ok true ↔ _
      rw [Except.ok.injEq, Except.ok.injEq, Bool.and_eq_true]
  rw [hreplay, verifies_iff, receipts_of_journal, List.find?_isSome]
  constructor
  · intro h
    obtain ⟨hdigest, found, hfound, hhash⟩ := h
    have hmem := List.mem_reverse.mp hfound
    have hsame : r = found := receipt_eq_of_hash hr (scalar_of_recorded hscalar _ hmem) hdigest
      (digest_of_recorded hmem) (hapart _ hmem) (of_decide_eq_true hhash).symm
    rw [hsame]
    exact hmem
  · intro h
    exact ⟨digest_of_recorded h, r, List.mem_reverse.mpr h, decide_eq_true rfl⟩

end Catalog

/-!
## A table, committed to

Short runs over one table: a commit to it, the same again after the table was created anew, and
one commit asked for twice under one key.
-/

section Examples

attribute [local instance] Report.transparent

/-- A commit to the orders, under no key. -/
def ordered : CommitRequest where
  table := lit "orders"
  expectedMetadata := genesis (lit "orders")
  update := lit "+1"
  principal := lit "alice"
  policy := lit "p"
  nonce := lit "n"
  idempotencyKey := []

/-- The table, just created. -/
def opened : Command := .create (lit "orders") (lit "alice")

theorem get?_opened {is pre : List Command} (h : is = pre ++ [opened]) :
    (catalog.after is).tables.get? (lit "orders") =
      some ⟨genesis (lit "orders"), 0, [], false⟩ := by
  rw [h, Machine.after_append]
  show ((catalog.after pre).tables.set (lit "orders") _).get? (lit "orders") = _
  rw [Dict.get?_set, if_pos rfl]

theorem accepted_ordered {is pre : List Command} (h : is = pre ++ [opened]) :
    ∃ r, eventOf (catalog.after is) (.commit ordered) = some (.recorded r) := by
  have hone : ((0 : ℤ) + 1).natAbs ≤ 10 := by decide
  exact exists_committed_iff.mpr ⟨rfl, rfl, ⟨genesis (lit "orders"), 0, [], false⟩,
    live_eq_some_iff.mpr ⟨get?_opened h, rfl⟩, rfl, lt_limit hone, encodable_lit _⟩

theorem scalar_ordered {is : List Command} (h : ∀ cmd ∈ is, cmd = opened ∨ cmd = .commit ordered) :
    ∀ cmd ∈ is, cmd.Scalar := by
  intro cmd hcmd
  rcases h cmd hcmd with rfl | rfl
  · exact encodable_lit _
  · exact ⟨encodable_lit _, encodable_lit _, encodable_lit _, List.forall_mem_nil _⟩

theorem distinguished_ordered : Distinguished [opened, .commit ordered] where
  scalar := scalar_ordered (by simp)
  apart _ _ _ _ := fun _ _ _ _ h => h

theorem recorded_ordered :
    ∃ r, r ∈ recorded (sourced.journal [opened, .commit ordered]) := by
  have hopened : [opened] = [] ++ [opened] := rfl
  have hsplit : [opened, .commit ordered] = [opened] ++ .commit ordered :: [] := rfl
  obtain ⟨r, hr⟩ := accepted_ordered hopened
  exact ⟨r, recorded_of_event hsplit hr⟩

/-- After one commit the chain of the table, walked from its head, is the receipt of that commit. -/
theorem walk_eq_life_ordered : ∃ entry l,
    (catalog.after [opened, .commit ordered]).tables.get? (lit "orders") = some entry ∧
      life (lit "orders") (sourced.journal [opened, .commit ordered]) = some l ∧
      Linked (lit "orders") l ∧ ∀ n, l.length ≤ n →
        walk (catalog.after [opened, .commit ordered]).receipts n entry.headReceipt = l := by
  have hopened : [opened] = [] ++ [opened] := rfl
  have hsplit : [opened, .commit ordered] = [opened] ++ [.commit ordered] := rfl
  have hthere : ∃ entry, (catalog.after [opened, .commit ordered]).tables.get? (lit "orders") =
      some entry ∧ 0 ≤ entry.snapshotId := by
    rw [hsplit, Machine.after_append]
    exact snapshot_le (by simp) ⟨_, get?_opened hopened, le_refl _⟩
  obtain ⟨entry, hentry, -⟩ := hthere
  obtain ⟨l, hlife, hlinked, hwalk⟩ := walk_eq_life distinguished_ordered hentry
  exact ⟨entry, l, hentry, hlife, hlinked, hwalk⟩

/-- A commit to the orders, under a key. -/
def keyed : CommitRequest := { ordered with idempotencyKey := lit "k" }

theorem accepted_keyed :
    ∃ r, eventOf (catalog.after [opened]) (.commit keyed) = some (.recorded r) := by
  have hone : ((0 : ℤ) + 1).natAbs ≤ 10 := by decide
  have hopened : [opened] = [] ++ [opened] := rfl
  exact exists_committed_iff.mpr ⟨rfl, rfl, ⟨genesis (lit "orders"), 0, [], false⟩,
    live_eq_some_iff.mpr ⟨get?_opened hopened, rfl⟩, rfl, lt_limit hone, encodable_lit _⟩

/-- Asked twice under one key, the catalog records one receipt, and hands it out a third time. -/
theorem once_per_key_ordered : ∃ r,
    (recorded (sourced.journal [opened, .commit keyed, .commit keyed])).filter
        (·.idempotencyKey = lit "k") = [r] ∧
      ((catalog.after [opened, .commit keyed, .commit keyed]).commit keyed).1 =
        .ok (committed r) := by
  have hkey : lit "k" ≠ [] := List.cons_ne_nil _ _
  obtain ⟨once, honce, htold, hretry⟩ :=
    once_per_key [opened, .commit keyed, .commit keyed] hkey
  obtain ⟨r, hr⟩ := accepted_keyed
  obtain ⟨outcome, houtcome, hreceipt⟩ := commit_of_event hr
  have hfirst : (catalog.after [opened], .commit keyed) ∈
      catalog.trace [opened, .commit keyed, .commit keyed] := List.mem_cons_of_mem _ List.mem_cons_self
  obtain rfl := htold _ _ hfirst rfl outcome r houtcome hreceipt
  exact ⟨r, honce, (hretry r rfl keyed rfl).2 rfl⟩

/-- The receipt that was recorded is attested. -/
theorem replay_ordered : ∃ r,
    (catalog.after [opened, .commit ordered]).replay r = .ok true ∧
      r ∈ recorded (sourced.journal [opened, .commit ordered]) := by
  obtain ⟨r, hr⟩ := recorded_ordered
  have hscalar := scalar_of_recorded distinguished_ordered.scalar r hr
  exact ⟨r, (replay_iff_recorded distinguished_ordered.scalar hscalar
    fun _ _ _ _ _ _ h => h).mpr hr, hr⟩

end Examples

end CatalogProvenance

end AdversarialCognition
