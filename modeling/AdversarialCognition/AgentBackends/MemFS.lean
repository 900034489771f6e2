import AdversarialCognition.Backend.Recall
import AdversarialCognition.Harness.Tools
import AdversarialCognition.Lib.Printing

/-!
# The flat baseline

`adapters/agent_backends/memfs_agent.py`: one store of texts under ids, kept twice, with keyword
retrieval. A delete takes the text out; nothing is authorized, dated or derived.

What it reads is what the reference recalls to one operator who is authorized for everything it
stores, cut to eight ids. `Reference` is such an operator with its supply of nonces,
`Reference.ops` the run of the reference that goes with a run of the baseline. `Mirrors` is the
relation the two runs keep: a text is in the store exactly where the reference has a current
record with it, and a deleted text is a record marked forgotten, or no record.

## Where the two differ, and where it does not show

The baseline keeps no record of what was deleted, and the reference keeps all of it, marked. A
text written again under a deleted id is a new entry here and there the same record, made current.
The baseline has no bounds on texts, so the runs that are compared are those within the
reference's (`FlatOp.WithinBounds`), and it has no query bound either, so reads are compared
within that one.

Both rank by the size of the common tokens and break ties by id. The orders of the two stores
differ, and since no two rows have one key, sorting makes the same list of them
(`Mirrors.ranked_eq`).

## Steps that nothing corresponds to

A read is no step of the reference's run, as a recall would spend a nonce: it is what is compared,
after the run. A delete of an unknown id is an error here and a denial there, and the store stays
as it is in both.
-/

namespace AdversarialCognition

open Py Py.Str

/-- `_tokens`: the lower-cased text, cut into runs of letters and digits of ASCII. -/
def tokens (text : Str) : Finset Str := (runs isTokenChar (lower text)).toFinset

/-- The volatile store and the durable one. -/
structure MemFSAgentBackend where
  store : Dict Str Str
  durable : Dict Str Str

namespace MemFSAgentBackend

/-- `__init__` -/
def new : MemFSAgentBackend where
  store := Dict.empty
  durable := Dict.empty

/-- `reset` -/
def reset (_ : MemFSAgentBackend) : MemFSAgentBackend := new

/-- `restart`: the volatile store is rebuilt from the durable copy. -/
def restart (m : MemFSAgentBackend) : MemFSAgentBackend := { m with store := m.durable }

/-- `open_session`: the session is the name, and nobody is turned away. -/
def openSession (_ : MemFSAgentBackend) (credential : Credential) : Option Str :=
  some credential.name

/-- `write`. The dates, the visibility and the derivation are accepted and not kept. -/
def write (m : MemFSAgentBackend) (_session : Option Str) (memoryId text : Str)
    (_validFrom _validUntil : Option Str) (_isPrivate : Bool) (_derivedFrom : List Str) :
    ToolResult × MemFSAgentBackend :=
  if memoryId = [] then ({ ok := false, error := lit "empty id" }, m)
  else ({ ids := [memoryId] },
    { store := m.store.set memoryId text, durable := m.durable.set memoryId text })

/-- The score of a text, with what the result will show of it, if any of its tokens is wanted. -/
def scoreEntry (wanted : Finset Str) (item : Str × Str) : Option (ℕ × Str × Str) :=
  if (wanted ∩ tokens item.2).Nonempty then
    some ((wanted ∩ tokens item.2).card, item.1, item.2)
  else none

/-- `key=lambda row: (-row[0], row[1])` -/
def rowKey (row : ℕ × Str × Str) : ℕ × Str := (row.1, row.2.1)

/-- `scored`, sorted. -/
def scored (m : MemFSAgentBackend) (wanted : Finset Str) : List (ℕ × Str × Str) :=
  (m.store.items.filterMap (scoreEntry wanted)).insertionSort
    fun p q => Ranking.Le (rowKey p) (rowKey q)

/-- A row of the result, its text cut to 200 characters. -/
def resultRow (row : ℕ × Str × Str) : List (Str × Json) :=
  [(lit "id", .str row.2.1), (lit "text", .str (row.2.2.take 200))]

/-- `read`. A query without tokens finds nothing. -/
def read (m : MemFSAgentBackend) (_session : Option Str) (query : Str) (_asOf : Option Str) :
    ToolResult :=
  if tokens query = ∅ then {}
  else
    let rows := (m.scored (tokens query)).take 8
    { results := rows.map resultRow, ids := rows.map fun row => row.2.1 }

/-- `delete` -/
def delete (m : MemFSAgentBackend) (_session : Option Str) (memoryId : Str) :
    ToolResult × MemFSAgentBackend :=
  if m.store.get? memoryId = none then ({ ok := false, error := lit "not found" }, m)
  else ({ ids := [memoryId] },
    { store := m.store.erase memoryId, durable := m.durable.erase memoryId })

/-- `list_ids`, for any session. -/
def listIds (m : MemFSAgentBackend) (_session : Option Str) : ToolResult :=
  { ids := (m.store.items.map Prod.fst).insertionSort (· ≤ ·) }

end MemFSAgentBackend

/-- The operations of the baseline after a reset. -/
inductive FlatOp
  | write (session : Option Str) (memoryId text : Str) (validFrom validUntil : Option Str)
      (isPrivate : Bool) (derivedFrom : List Str)
  | read (session : Option Str) (query : Str) (asOf : Option Str)
  | delete (session : Option Str) (memoryId : Str)
  | restart

/-- The baseline as a machine: its reachable states, from one reset to the next, are
    `memFS.after ops`. -/
def memFS : Machine MemFSAgentBackend FlatOp (Option ToolResult) where
  init := MemFSAgentBackend.new
  step m
    | .write session memoryId text validFrom validUntil isPrivate derivedFrom =>
        let (result, m) := m.write session memoryId text validFrom validUntil isPrivate derivedFrom
        (some result, m)
    | .read session query asOf => (some (m.read session query asOf), m)
    | .delete session memoryId =>
        let (result, m) := m.delete session memoryId
        (some result, m)
    | .restart => (none, m.restart)

/-!
## The two copies

The baseline keeps its files in memory and on a disk. After every step the two are the same, so a
restart, which reads the one from the other, changes nothing.
-/

/-- The durable copy is the store. -/
def Copies (m : MemFSAgentBackend) : Prop := m.durable = m.store

theorem restart_of_copies {m : MemFSAgentBackend} (hm : Copies m) : m.restart = m := by
  cases m with
  | mk store durable =>
    have h : durable = store := hm
    rw [h]
    rfl

theorem copies_next {m : MemFSAgentBackend} (hm : Copies m) (op : FlatOp) :
    Copies (memFS.next m op) := by
  cases op with
  | write session memoryId text validFrom validUntil isPrivate derivedFrom =>
    change Copies (m.write session memoryId text validFrom validUntil isPrivate derivedFrom).2
    unfold MemFSAgentBackend.write
    split_ifs
    · exact hm
    · exact congrArg (fun d => Dict.set d memoryId text) hm
  | read session query asOf => exact hm
  | delete session memoryId =>
    change Copies (m.delete session memoryId).2
    unfold MemFSAgentBackend.delete
    split_ifs
    · exact hm
    · exact congrArg (fun d => Dict.erase d memoryId) hm
  | restart => rfl

/-- **A restart is not noticed**, at any point of any run. -/
theorem restart_after (ops : List FlatOp) : (memFS.after ops).restart = memFS.after ops :=
  restart_of_copies (Machine.invariant (M := memFS) (P := Copies) (rfl : Copies memFS.init)
    (fun _ op hm => copies_next hm op) ops)

/-!
## The reference run

The baseline is compared with the reference backend on the run that an operator would make of it:
every write is a `remember` of a memory of the operator's own, every delete a `forget`, each with
a nonce of its own. What is assumed is that the operator is authorized for all of it and that the
texts are within the bound of the reference.
-/

/-- An operator of the reference who is authorized for all it stores, with a fresh nonce for
    every step, and something to say about where a text is from. -/
structure Reference where
  actor : Actor
  mutates : actor.canMutate = true
  tenant : actor.tenant = lit "agstack"
  space : actor.space = lit "coffee"
  purpose : actor.purpose = lit "market-research"
  clearance : 1 ≤ actor.clearance
  nonce : ℕ → Str
  nonce_injective : Function.Injective nonce
  source : ℕ → Str
  sourceDigest : ℕ → Str

namespace Reference

variable (ref : Reference)

/-- The memory of the `n`-th step, with the default window and derived from nothing. -/
def memory (n : ℕ) (memoryId text : Str) : Memory :=
  { fact memoryId with text := text, source := ref.source n, sourceDigest := ref.sourceDigest n }

/-- The `n`-th step. A read has none: it is what is compared. -/
def op (n : ℕ) : FlatOp → List Op
  | .write _ memoryId text _ _ _ _ =>
      [.call (.remember (ref.memory n memoryId text) ref.actor (ref.nonce n))]
  | .read _ _ _ => []
  | .delete _ memoryId => [.call (.forget memoryId ref.actor (ref.nonce n))]
  | .restart => [.restart]

/-- The steps from the `n`-th on. -/
def opsFrom : ℕ → List FlatOp → List Op
  | _, [] => []
  | n, o :: ops => ref.op n o ++ opsFrom (n + 1) ops

/-- The run of the reference that goes with a run of the baseline. The steps are numbered as the
    baseline takes them, so a nonce goes unused where a read is. -/
def ops (ops : List FlatOp) : List Op := ref.opsFrom 0 ops

end Reference

/-- Non-empty ids and texts within the reference's bound. -/
def FlatOp.WithinBounds : FlatOp → Prop
  | .write _ memoryId text _ _ _ _ => memoryId ≠ [] ∧ text.length ≤ maxTextChars
  | _ => True

instance : DecidablePred FlatOp.WithinBounds := fun
  | .write _ memoryId text _ _ _ _ =>
      inferInstanceAs (Decidable (memoryId ≠ [] ∧ text.length ≤ maxTextChars))
  | .read _ _ _ => inferInstanceAs (Decidable True)
  | .delete _ _ => inferInstanceAs (Decidable True)
  | .restart => inferInstanceAs (Decidable True)

/-!
## The simulation

`Mirrors` relates a store of the baseline and one of the reference: under every id there is the
same text on both sides, or none. It holds of the empty stores and is kept by a step on both
sides, and so by a run. A write has to pass each check of the reference, which is where the
assumptions about the operator are used.
-/

/-- What is under `memoryId` on both sides: a text and a current record of it, or no text
    and no current record. -/
def SameAt (text : Option Str) (record : Option Memory) : Prop :=
  match text, record with
  | some text, some r => r.state = lit "current" ∧ r.text = text
  | some _, none => False
  | none, some r => r.state ≠ lit "current"
  | none, none => True

/-- Every record is the operator's own, under its id and not derived from anything. -/
structure Own (ref : Reference) (id : Str) (r : Memory) : Prop where
  key : r.memoryId = id
  authorized : AdversarialCognition.authorized r ref.actor = true
  started : r.validFrom = Date.lit 2026 1 1
  unexpired : r.validUntil = none
  underived : r.derivedFrom = []

/-- The baseline `m` and the reference `b`, `n` steps on: under every id both have the same text
    or none, everything in the reference is the operator's own, and the nonces from `n` on are
    free. -/
structure Mirrors (ref : Reference) (m : MemFSAgentBackend) (b : AdversarialBackend) (n : ℕ) :
    Prop where
  /-- The durable copy of the baseline is its store. -/
  copies : Copies m
  same : ∀ id, SameAt (m.store.get? id) (b.memories.get? id)
  own : ∀ id r, b.memories.get? id = some r → Own ref id r
  fresh : ∀ k, n ≤ k → (ref.actor.did, ref.nonce k) ∉ b.nonces

theorem Reference.own_memory (ref : Reference) (n : ℕ) (memoryId text : Str) :
    Own ref memoryId (ref.memory n memoryId text) where
  key := rfl
  authorized := by
    rw [authorized, decide_eq_true_eq]
    exact ⟨ref.tenant.symm, ref.space.symm, ref.clearance, ref.purpose.symm⟩
  started := rfl
  unexpired := rfl
  underived := rfl

theorem Own.mark {ref : Reference} {id : Str} {r : Memory} (h : Own ref id r) (state : Str) :
    Own ref id { r with state := state } :=
  ⟨h.key, h.authorized, h.started, h.unexpired, h.underived⟩

/-- One more nonce is spent, and it is not one of those to come. -/
theorem Reference.fresh_spend (ref : Reference) {b b' : AdversarialBackend} {n : ℕ}
    (h : ∀ k, n ≤ k → (ref.actor.did, ref.nonce k) ∉ b.nonces)
    (hb : b'.nonces = insert (ref.actor.did, ref.nonce n) b.nonces) :
    ∀ k, n + 1 ≤ k → (ref.actor.did, ref.nonce k) ∉ b'.nonces := by
  intro k hk hmem
  rw [hb] at hmem
  rcases Finset.mem_insert.mp hmem with heq | hmem
  · have := ref.nonce_injective (congrArg Prod.snd heq)
    omega
  · exact h k (by omega) hmem

section Steps

variable [Runtime] {ref : Reference} {m : MemFSAgentBackend} {b : AdversarialBackend} {n : ℕ}

/-- A write is admitted by every check of the reference, and stores the text on both sides. -/
theorem mirrors_write (h : Mirrors ref m b n) {memoryId text : Str}
    (hsize : text.length ≤ maxTextChars) {d : MemFSAgentBackend} (hcopies : Copies d)
    (hd : d.store = m.store.set memoryId text) :
    Mirrors ref d (b.exec (.remember (ref.memory n memoryId text) ref.actor (ref.nonce n))).2
      (n + 1) := by
  have hadmits : b.AdmitsRemember (ref.memory n memoryId text) ref.actor (ref.nonce n) :=
    ⟨h.fresh n (Nat.le_refl n), ref.mutates, hsize, ref.tenant.symm, ref.space.symm,
      ref.clearance⟩
  rw [AdversarialBackend.exec, AdversarialBackend.remember_of_admits hadmits]
  have hget : ∀ id, ((b.spend ref.actor (ref.nonce n)).store
      (ref.memory n memoryId text)).memories.get? id =
      if id = memoryId then some (ref.memory n memoryId text) else b.memories.get? id :=
    fun id => AdversarialBackend.store_get? _ _ id
  refine ⟨hcopies, ?_, ?_, ref.fresh_spend h.fresh rfl⟩
  · intro id
    rw [hget, hd, Dict.get?_set]
    split_ifs
    · exact ⟨rfl, rfl⟩
    · exact h.same id
  · intro id r hr
    rw [hget] at hr
    split_ifs at hr with hid
    · rw [hid, ← Option.some.inj hr]
      exact ref.own_memory n memoryId text
    · exact h.own id r hr

theorem forget_of_missing {memoryId : Str} {actor : Actor} {nonce : Str}
    (hfresh : (actor.did, nonce) ∉ b.nonces) (hget : b.memories.get? memoryId = none) :
    (b.forget memoryId actor nonce).2 = b.spend actor nonce := by
  unfold AdversarialBackend.forget
  rw [AdversarialBackend.claim_of_fresh hfresh]
  dsimp only
  split_ifs
  · rfl
  · rw [AdversarialBackend.spend_memories, hget]

/-- A forget leaves the text out on the one side, and marks the record, if there is one, on
    the other. -/
theorem mirrors_delete (h : Mirrors ref m b n) {memoryId : Str} {d : MemFSAgentBackend}
    (hcopies : Copies d)
    (hd : ∀ id, d.store.get? id = if id = memoryId then none else m.store.get? id) :
    Mirrors ref d (b.exec (.forget memoryId ref.actor (ref.nonce n))).2 (n + 1) := by
  have hfresh := h.fresh n (Nat.le_refl n)
  rw [AdversarialBackend.exec]
  cases hget : b.memories.get? memoryId with
  | none =>
    rw [forget_of_missing hfresh hget]
    refine ⟨hcopies, ?_, h.own, ref.fresh_spend h.fresh rfl⟩
    intro id
    rw [hd]
    split_ifs with hid
    · rw [hid, AdversarialBackend.spend_memories, hget]
      trivial
    · exact h.same id
  | some r₀ =>
    have hadmits : b.AdmitsForget memoryId ref.actor (ref.nonce n) r₀ :=
      ⟨hfresh, ref.mutates, hget, (h.own _ _ hget).authorized⟩
    rw [AdversarialBackend.forget_of_admits hadmits]
    have hrecord : ∀ id r, ((b.spend ref.actor (ref.nonce n)).tombstone memoryId
        r₀).memories.get? id = some r → ∃ r', b.memories.get? id = some r' ∧
          r = if id = memoryId then { r' with state := lit "forgotten" } else r' := by
      intro id r hr
      rw [hadmits.get? id] at hr
      obtain ⟨r', hr', rfl⟩ := Option.map_eq_some_iff.mp hr
      refine ⟨r', hr', ?_⟩
      -- nothing is derived from anything
      simp only [(h.own id r' hr').underived, List.not_mem_nil, or_false]
    refine ⟨hcopies, ?_, ?_, ref.fresh_spend h.fresh rfl⟩
    · intro id
      rw [hd]
      cases hr : ((b.spend ref.actor (ref.nonce n)).tombstone memoryId r₀).memories.get? id with
      | none =>
        have hnone : b.memories.get? id = none := by
          rw [hadmits.get? id] at hr
          exact Option.map_eq_none_iff.mp hr
        have hsame := h.same id
        rw [hnone] at hsame
        split_ifs
        · trivial
        · exact hsame
      | some r =>
        obtain ⟨r', hr', hmark⟩ := hrecord id r hr
        split_ifs at hmark ⊢ with hid
        · rw [hmark]
          change lit "forgotten" ≠ lit "current"
          decide
        · rw [hmark, ← hr']
          exact h.same id
    · intro id r hr
      obtain ⟨r', hr', hmark⟩ := hrecord id r hr
      rw [hmark]
      split_ifs
      · exact (h.own id r' hr').mark _
      · exact h.own id r' hr'

/-- **One step of each.** -/
theorem mirrors_step (h : Mirrors ref m b n) {op : FlatOp} (hop : op.WithinBounds) :
    Mirrors ref (memFS.next m op) (backend.run b (ref.op n op)) (n + 1) := by
  have hcopies := copies_next h.copies op
  cases op with
  | write session memoryId text validFrom validUntil isPrivate derivedFrom =>
    refine mirrors_write h hop.2 hcopies ?_
    change (m.write session memoryId text validFrom validUntil isPrivate derivedFrom).2.store = _
    rw [MemFSAgentBackend.write, if_neg hop.1]
  | read session query asOf => exact ⟨h.copies, h.same, h.own, fun k hk => h.fresh k (by omega)⟩
  | delete session memoryId =>
    refine mirrors_delete h hcopies fun id => ?_
    change (m.delete session memoryId).2.store.get? id = _
    unfold MemFSAgentBackend.delete
    split_ifs with hmissing hid hid
    · rw [hid, hmissing]
    · rfl
    · rw [Dict.get?_erase, if_pos hid]
    · rw [Dict.get?_erase, if_neg hid]
  | restart =>
    change Mirrors ref m.restart b (n + 1)
    rw [restart_of_copies h.copies]
    exact ⟨h.copies, h.same, h.own, fun k hk => h.fresh k (by omega)⟩

/-- **The two runs, side by side.** -/
theorem mirrors_run (h : Mirrors ref m b n) {ops : List FlatOp}
    (hops : ∀ op ∈ ops, op.WithinBounds) :
    Mirrors ref (memFS.run m ops) (backend.run b (ref.opsFrom n ops)) (n + ops.length) := by
  induction ops generalizing m b n with
  | nil => exact h
  | cons op ops ih =>
    have hstep := mirrors_step h (hops op List.mem_cons_self)
    have hrun := ih hstep fun o ho => hops o (List.mem_cons_of_mem _ ho)
    have hlength : n + (op :: ops).length = n + 1 + ops.length := by
      rw [List.length_cons]
      omega
    rw [Machine.run_cons, Reference.opsFrom, Machine.run_append, hlength]
    exact hrun

theorem mirrors_after (ref : Reference) {ops : List FlatOp}
    (hops : ∀ op ∈ ops, op.WithinBounds) :
    Mirrors ref (memFS.after ops) (backend.after (ref.ops ops)) ops.length := by
  have hinit : Mirrors ref memFS.init backend.init 0 := {
    copies := rfl
    same := fun _ => trivial
    own := by
      intro id r hr
      simp [backend, AdversarialBackend.new] at hr
    fresh := fun k _ => Finset.notMem_empty _ }
  have h := mirrors_run hinit hops
  rwa [Nat.zero_add] at h

end Steps

/-!
## The two rankings

A query scores a text by the tokens they share, on both sides alike, and both sort by score and
then by id. As the stores mirror each other the lists that are sorted have the same elements, and
since no id comes twice the sorted lists are equal.
-/

/-- A text is scored if it has a token of the query, and its score is the number of these. -/
theorem scoreEntry_eq_some_iff {wanted : Finset Str} {item : Str × Str} {row : ℕ × Str × Str} :
    MemFSAgentBackend.scoreEntry wanted item = some row ↔
      row = ((wanted ∩ tokens item.2).card, item.1, item.2) ∧ 0 < row.1 := by
  have hcard := Finset.card_pos (s := wanted ∩ tokens item.2)
  rw [MemFSAgentBackend.scoreEntry]
  split_ifs with hpos
  · rw [Option.some.injEq]
    rw [← hcard] at hpos
    constructor
    · rintro rfl
      exact ⟨rfl, hpos⟩
    · rintro ⟨rfl, -⟩
      rfl
  · rw [← hcard] at hpos
    simp only [false_iff, not_and]
    rintro rfl
    exact hpos

/-- The keys of the rows, in their order, are sorted like a ranking. -/
theorem scored_map_rowKey (m : MemFSAgentBackend) (wanted : Finset Str) :
    (m.scored wanted).map MemFSAgentBackend.rowKey =
      Ranking.sort ((m.store.items.filterMap (MemFSAgentBackend.scoreEntry wanted)).map
        MemFSAgentBackend.rowKey) :=
  List.map_insertionSort _ _ _ _ fun _ _ _ _ => Iff.rfl

theorem mem_rowKeys_iff {m : MemFSAgentBackend} {wanted : Finset Str} {score : ℕ} {id : Str} :
    (score, id) ∈ (m.store.items.filterMap (MemFSAgentBackend.scoreEntry wanted)).map
        MemFSAgentBackend.rowKey ↔
      ∃ text, m.store.get? id = some text ∧ score = (wanted ∩ tokens text).card ∧ 0 < score := by
  simp only [List.mem_map, List.mem_filterMap, scoreEntry_eq_some_iff, Prod.exists]
  constructor
  · rintro ⟨score', id', text', ⟨k, text, hitem, hrow, hpos⟩, hkey⟩
    obtain ⟨rfl, rfl⟩ := Prod.mk.inj hkey
    obtain ⟨rfl, rfl, rfl⟩ := Prod.mk.injEq .. ▸ hrow
    exact ⟨_, Dict.mem_items_iff.mp hitem, rfl, hpos⟩
  · rintro ⟨text, htext, rfl, hpos⟩
    exact ⟨_, id, text, ⟨id, text, Dict.mem_items_iff.mpr htext, rfl, hpos⟩, rfl⟩

theorem nodup_rowKeys (m : MemFSAgentBackend) (wanted : Finset Str) :
    ((m.store.items.filterMap (MemFSAgentBackend.scoreEntry wanted)).map
      MemFSAgentBackend.rowKey).Nodup := by
  refine List.Nodup.of_map Prod.snd ?_
  rw [List.map_map]
  refine (filterMap_map_sublist (h := Prod.fst) ?_ _).nodup m.store.nodupKeys
  intro item row hrow
  rw [(scoreEntry_eq_some_iff.mp hrow).1]
  rfl

/-- The ids that are read are the names of the ranking, the first eight. -/
theorem read_ids (m : MemFSAgentBackend) (session : Option Str) (query : Str)
    (asOf : Option Str) : (m.read session query asOf).ids =
      (((m.scored (tokens query)).map MemFSAgentBackend.rowKey).map Prod.snd).take 8 := by
  unfold MemFSAgentBackend.read
  split_ifs with hempty
  · have hnone : m.store.items.filterMap (MemFSAgentBackend.scoreEntry ∅) = [] := by
      rw [List.filterMap_eq_nil_iff]
      intro item _
      rw [MemFSAgentBackend.scoreEntry, Finset.empty_inter, if_neg Finset.not_nonempty_empty]
    rw [hempty, MemFSAgentBackend.scored, hnone]
    rfl
  · rw [List.map_map, ← List.map_take]
    rfl

section Agreement

variable {ref : Reference} {m : MemFSAgentBackend} {b : AdversarialBackend} {n : ℕ}

/-- On both sides a hit is a stored text that shares a token with the query. -/
theorem Mirrors.hit_iff (h : Mirrors ref m b n) {query : Str} {asOf : Date}
    (hday : Date.lit 2026 1 1 ≤ asOf) {score : ℕ} {id : Str} :
    Hit b query ref.actor asOf score id ↔
      ∃ text, m.store.get? id = some text ∧ score = (tokens query ∩ tokens text).card ∧
        0 < score := by
  have hsame := h.same id
  constructor
  · rintro ⟨r, hr, hcurrent, -, -, -, hscore, hpos⟩
    rw [hr] at hsame
    cases htext : m.store.get? id with
    | none =>
      rw [htext] at hsame
      exact absurd hcurrent hsame
    | some text =>
      rw [htext] at hsame
      obtain ⟨-, rfl⟩ := hsame
      exact ⟨r.text, rfl, hscore, hpos⟩
  · rintro ⟨text, htext, hscore, hpos⟩
    rw [htext] at hsame
    cases hr : b.memories.get? id with
    | none =>
      rw [hr] at hsame
      exact hsame.elim
    | some r =>
      rw [hr] at hsame
      obtain ⟨hcurrent, rfl⟩ := hsame
      -- a memory of the session is authorized, has begun and does not expire
      have hown := h.own id r hr
      refine ⟨r, hr, hcurrent, hown.authorized, ?_, ?_, hscore, hpos⟩
      · rw [hown.started]
        exact hday
      · intro u hu
        rw [hown.unexpired] at hu
        cases hu

/-- **The two rankings are equal**, on mirroring stores and for every query. -/
theorem Mirrors.ranked_eq (h : Mirrors ref m b n) (query : Str) {asOf : Date}
    (hday : Date.lit 2026 1 1 ≤ asOf) :
    (m.scored (tokens query)).map MemFSAgentBackend.rowKey = b.ranked query ref.actor asOf := by
  have hkeyed : Keyed b := fun id r hr => (h.own id r hr).key
  rw [scored_map_rowKey, AdversarialBackend.ranked]
  apply Ranking.sort_eq_of_perm
  rw [List.perm_ext_iff_of_nodup (nodup_rowKeys m _) (nodup_collected hkeyed _ _ _).of_map]
  rintro ⟨score, id⟩
  have hranked : (score, id) ∈ b.ranked query ref.actor asOf ↔
      Hit b query ref.actor asOf score id := mem_ranked_iff hkeyed
  rw [AdversarialBackend.ranked, Ranking.mem_sort] at hranked
  rw [mem_rowKeys_iff, hranked, h.hit_iff hday]

end Agreement

/-!
## The contract

The baseline reads what the reference recalls, after every run within bounds. The run of the tests
is an instance: two facts, one of them deleted and written again.
-/

section Contract

variable [Runtime]

/-- **The law**, after the run `ops` of the baseline. -/
structure AgreesWith (ref : Reference) (ops : List FlatOp) : Prop where
  /-- A read gives the first eight ids of the operator's recall, on any day from the first of
      the year and under any nonce not yet spent. -/
  reads : ∀ (session : Option Str) (query : Str) (date : Option Str) (asOf : Date) (nonce : Str),
    query.length ≤ maxQueryChars → Date.lit 2026 1 1 ≤ asOf →
    (ref.actor.did, nonce) ∉ (backend.after (ref.ops ops)).nonces →
    ∃ decision, ((backend.after (ref.ops ops)).recall query ref.actor asOf nonce).1 =
        .ok decision ∧ decision.allowed = true ∧
      ((memFS.after ops).read session query date).ids = decision.ids.take 8
  /-- A restart leaves everything there is to read, list and delete. -/
  restarts : memFS.after (ops ++ [.restart]) = memFS.after ops

/-- **The baseline reads what the reference recalls**, after every run within bounds. The files
    mirror the current records one for one, by a simulation over the operations, and both score by
    the tokens that are shared and break ties by the id. -/
theorem agrees_with_reference (ref : Reference) (ops : List FlatOp)
    (hops : ∀ op ∈ ops, op.WithinBounds) : AgreesWith ref ops where
  reads := by
    intro session query date asOf nonce hsize hday hfresh
    have hmirrors := mirrors_after ref hops
    obtain ⟨receipt, hreceipt⟩ := digest_ok_iff.mpr (encodable_recallText
      ((backend.after (ref.ops ops)).ranked query ref.actor asOf))
    rw [AdversarialBackend.recall_of_fresh hfresh hsize, hreceipt]
    refine ⟨_, rfl, rfl, ?_⟩
    rw [read_ids, hmirrors.ranked_eq query hday]
  restarts := by
    rw [Machine.after_append]
    exact restart_after ops

end Contract

section

attribute [local instance] cpython

/-- The operator of the tests, numbering its nonces. -/
def numbered : Reference where
  actor := operator
  mutates := rfl
  tenant := rfl
  space := rfl
  purpose := rfl
  clearance := le_refl 1
  nonce := ofNat
  nonce_injective := ofNat_injective
  source _ := lit "test"
  sourceDigest _ := lit "test"

/-- Two facts are written, and one is deleted and written again. -/
theorem agrees_with_numbered : AgreesWith numbered [
    .write none "m" "spot fact" none none false [], .write none "n" "spot price" none none false [],
    .delete none "m", .restart, .write none "m" "new fact" none none false []] :=
  agrees_with_reference numbered _ (by decide)

end

end AdversarialCognition
