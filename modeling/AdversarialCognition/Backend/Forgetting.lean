import AdversarialCognition.Backend.Recall
import Mathlib.Data.Fintype.EquivFin
import Mathlib.Logic.Relation

/-!
# How far a forget reaches

A forget marks its target and, in one pass over the store, every record that names the target
among the ids it is derived from. Derivation goes on from there: a summary of a summary names the
summary, not the fact. So the records a forget ought to silence are those that lead to its target
through any number of links (`Leads`), and the ones it does silence are the target and its first
neighbours.

What the pass marks stays silent for good, over any later run, until its id is written again; what
it does not mark and could have been recalled before is recalled as before. Put together
(`forget_holds_iff`): a forget keeps its promise exactly when every record that leads to its
target is within one link, or could not be recalled anyway.

## The promise

It is about recalls, by anyone and at any later time, and not about marks: a record that nobody
can recall is silent whether it is marked or not, and that is why `Recallable` stands in the
condition. A record is recallable if some actor, day and query bring it up; the reader is made to
measure (`readerOf`), so nothing hinges on which actors there are. The promise ends where an id is
written again, which the source allows at any time and which is a new record under an old name.
-/

namespace AdversarialCognition

open Py Py.Str

/-- The record under `x` names `y` among the ids it is derived from. -/
def DerivesFrom (b : AdversarialBackend) (x y : Str) : Prop :=
  ∃ r, b.memories.get? x = some r ∧ y ∈ r.derivedFrom

/-- Through any number of links, none included. The links are those of the store as it is before
    the forget. -/
def Leads (b : AdversarialBackend) : Str → Str → Prop := Relation.ReflTransGen (DerivesFrom b)

/-- There is a recall the record would be an answer to: it is current, its window is not
    empty, and some query within bounds shares a token with it. -/
def Recallable (r : Memory) : Prop :=
  r.state = lit "current" ∧ (∀ u, r.validUntil = some u → r.validFrom < u) ∧
    ∃ query : Str, query.length ≤ maxQueryChars ∧ 0 < (words query ∩ words r.text).card

theorem MarkOf.not_recallable {r r' : Memory} (h : ¬ Recallable r) (hm : MarkOf r r') :
    ¬ Recallable r' := by
  rcases hm with rfl | ⟨s, hs, rfl⟩
  · exact h
  · exact fun hr => hs.ne_current hr.1

/-- An actor that may read the record: its scope and purpose, and just its clearance. -/
def readerOf (r : Memory) : Actor where
  did := lit "reader"
  tenant := r.tenant
  space := r.space
  purpose := r.purpose
  clearance := r.sensitivity

theorem authorized_readerOf (r : Memory) : authorized r (readerOf r) = true := by
  simp [authorized, readerOf]

/-- There is always a nonce left, as texts are infinitely many. -/
theorem exists_fresh (b : AdversarialBackend) (actor : Actor) :
    ∃ nonce, (actor.did, nonce) ∉ b.nonces := by
  obtain ⟨nonce, hnonce⟩ := Infinite.exists_notMem_finset (b.nonces.image Prod.snd)
  exact ⟨nonce, fun hmem => hnonce (Finset.mem_image_of_mem Prod.snd hmem)⟩

theorem recallable_of_hit {b : AdversarialBackend} {query : Str} {actor : Actor} {asOf : Date}
    {score : ℕ} {id : Str} (hsize : query.length ≤ maxQueryChars)
    (h : Hit b query actor asOf score id) :
    ∃ r, b.memories.get? id = some r ∧ Recallable r := by
  obtain ⟨r, hr, hstate, -, hfrom, huntil, rfl, hpos⟩ := h
  exact ⟨r, hr, hstate, fun u hu => lt_of_le_of_lt hfrom (huntil u hu), query, hsize, hpos⟩

theorem encodable_forgetText_iff {memoryId : Str} :
    Encodable (forgetText memoryId) ↔ Encodable memoryId := by
  simp [forgetText, encodable_lit]

section Laws

variable [Runtime] {b : AdversarialBackend}

theorem exists_recall (hkeyed : Keyed b) {id : Str} {r : Memory}
    (hr : b.memories.get? id = some r) (hrec : Recallable r) :
    ∃ query reader asOf nonce, id ∈ replyIds (b.exec (.recall query reader asOf nonce)).1 := by
  obtain ⟨hstate, hwindow, query, hsize, hpos⟩ := hrec
  obtain ⟨nonce, hfresh⟩ := exists_fresh b (readerOf r)
  exact ⟨query, readerOf r, r.validFrom, nonce, mem_recall_of_hit hkeyed hfresh hsize
    ⟨r, hr, hstate, authorized_readerOf r, le_refl _, hwindow, rfl, hpos⟩⟩

/-!
## The promise and its condition

A forget promises that what was stored and led to its target is not recalled any more, in any
later run that does not store it again. What it does is to mark the target and the records that
name it, in one pass. The promise is kept exactly if there is nothing recallable behind those, and
the two directions are shown separately: a run that keeps silent about what is marked, and the
recall that finds what is not.
-/

/-- If forgetting `memoryId` after the run `ops` is allowed, then whatever was stored and
    led to `memoryId` is named by no recall of any later state, for as long as its id is
    not written again. -/
def ForgetHolds (ops : List Op) (memoryId : Str) (actor : Actor) (nonce : Str) : Prop :=
  let forgotten := (backend.after ops).exec (.forget memoryId actor nonce)
  Allowed forgotten.1 →
    ∀ x r, (backend.after ops).memories.get? x = some r → Leads (backend.after ops) x memoryId →
      ∀ later, (∀ p ∈ backend.traceFrom forgotten.2 later, ¬ Writes p.1 p.2 x) →
        ∀ query reader asOf n,
          x ∉ replyIds ((backend.run forgotten.2 later).exec (.recall query reader asOf n)).1

/-- If the forget passes its checks and its receipt can be made, then whatever leads to its
    target is the target, or names it, or is not recallable. -/
def CascadeReaches (b : AdversarialBackend) (memoryId : Str) (actor : Actor) (nonce : Str) :
    Prop :=
  ∀ memory, b.AdmitsForget memoryId actor nonce memory → Encodable memoryId →
    ∀ x r, b.memories.get? x = some r → Leads b x memoryId →
      x = memoryId ∨ memoryId ∈ r.derivedFrom ∨ ¬ Recallable r

theorem Ruling.admitsForget {memoryId : Str} {actor : Actor} {nonce : Str} {reply : Reply}
    {b' : AdversarialBackend} (h : Ruling b (.forget memoryId actor nonce) reply b')
    (hallow : Allowed reply) :
    (∃ memory, b.AdmitsForget memoryId actor nonce memory) ∧ Encodable memoryId := by
  cases h with
  | replayed => simp at hallow
  | refused => simp at hallow
  | forgotten admits =>
    obtain ⟨d, hd, -⟩ := exists_of_allowed hallow
    have henc := digest_ok_iff.mp ⟨_, (answer_eq_ok hd).2.2.2⟩
    exact ⟨⟨_, admits⟩, encodable_forgetText_iff.mp henc⟩

/-- A forget is allowed when it passes its checks and its receipt can be made. -/
theorem allowed_forget_iff {memoryId : Str} {actor : Actor} {nonce : Str} :
    Allowed (b.exec (.forget memoryId actor nonce)).1 ↔
      (∃ memory, b.AdmitsForget memoryId actor nonce memory) ∧ Encodable memoryId := by
  constructor
  · intro hallow
    exact (exec_ruling b _).admitsForget hallow
  · rintro ⟨⟨memory, hadm⟩, henc⟩
    obtain ⟨receipt, hreceipt⟩ := digest_ok_iff.mpr (encodable_forgetText_iff.mpr henc)
    simp only [AdversarialBackend.exec, AdversarialBackend.forget_of_admits hadm, hreceipt]
    rfl

/-- Within its reach a forget leaves nothing recallable, and out of it nothing changed. -/
theorem silent_after_forget {memoryId : Str} {actor : Actor} {nonce : Str} {memory : Memory}
    (hadm : b.AdmitsForget memoryId actor nonce memory) {x : Str} {r : Memory}
    (hr : b.memories.get? x = some r)
    (hreach : x = memoryId ∨ memoryId ∈ r.derivedFrom ∨ ¬ Recallable r) :
    ∀ r', (b.exec (.forget memoryId actor nonce)).2.memories.get? x = some r' →
      ¬ Recallable r' := by
  intro r' hr'
  simp only [AdversarialBackend.exec, AdversarialBackend.forget_of_admits hadm] at hr'
  rw [hadm.get? x, hr, Option.map_some, Option.some.injEq] at hr'
  subst hr'
  split
  · exact fun hrec => (IsMark.ne_current (Or.inr rfl)) hrec.1
  · rename_i hout
    rcases hreach with hx | hx | hx
    · exact absurd (Or.inl hx) hout
    · exact absurd (Or.inr hx) hout
    · exact hx

theorem keyed_after_call (ops later : List Op) (c : Call) :
    Keyed (backend.run ((backend.after ops).exec c).2 later) := by
  have h := keyed_after (ops ++ .call c :: later)
  rw [Machine.after_append, Machine.run_cons, backend_next_call] at h
  exact h

/-- What is not recallable behind the forget stays so over the later run, for as long as its id is
    not written. -/
theorem forgetHolds_of_cascadeReaches {ops : List Op} {memoryId : Str} {actor : Actor}
    {nonce : Str} (h : CascadeReaches (backend.after ops) memoryId actor nonce) :
    ForgetHolds ops memoryId actor nonce := by
  intro hallow x r hr hlead later hquiet query reader asOf n hmem
  obtain ⟨⟨memory, hadm⟩, henc⟩ := allowed_forget_iff.mp hallow
  have hsilent := silent_after_forget hadm hr (h memory hadm henc x r hr hlead)
  have hlater := unwritten_run (P := fun r' => ¬ Recallable r')
    (fun r r' hr hm => MarkOf.not_recallable hr hm) hquiet hsilent
  obtain ⟨hsize, score, hhit⟩ := (exec_ruling _ _).hit_of_mem (keyed_after_call ops later _) hmem
  obtain ⟨r', hr', hrec⟩ := recallable_of_hit hsize hhit
  exact hlater r' hr' hrec

theorem cascadeReaches_of_forgetHolds {ops : List Op} {memoryId : Str} {actor : Actor}
    {nonce : Str} (h : ForgetHolds ops memoryId actor nonce) :
    CascadeReaches (backend.after ops) memoryId actor nonce := by
  intro memory hadm henc x r hr hlead
  by_contra hout
  rw [not_or, not_or, not_not] at hout
  obtain ⟨hx, hderived, hrec⟩ := hout
  -- out of reach, the record is as it was, and someone recalls it at once
  have hkept : ((backend.after ops).exec (.forget memoryId actor nonce)).2.memories.get? x =
      some r := by
    simp only [AdversarialBackend.exec, AdversarialBackend.forget_of_admits hadm]
    rw [hadm.get? x, hr, Option.map_some, if_neg (by simp [hx, hderived])]
  obtain ⟨query, reader, asOf, n, hmem⟩ := exists_recall (keyed_after_call ops [] _) hkept hrec
  refine h (allowed_forget_iff.mpr ⟨⟨memory, hadm⟩, henc⟩) x r hr hlead [] ?_ query reader asOf n
    hmem
  intro p hp
  simp [Machine.traceFrom] at hp

/-- **A forget holds, over every later run, exactly when every recallable record that leads to its
    target is the target or names it.** The cascade is one pass over direct links. What it misses
    is recalled at once, by a query made of a token of the record; and what it marks stays marked
    for as long as nothing is written under its id. -/
theorem forget_holds_iff (ops : List Op) (memoryId : Str) (actor : Actor) (nonce : Str) :
    ForgetHolds ops memoryId actor nonce ↔
      CascadeReaches (backend.after ops) memoryId actor nonce :=
  ⟨cascadeReaches_of_forgetHolds, forgetHolds_of_cascadeReaches⟩

end Laws

section

attribute [local instance] cpython

/-- A fact, a summary of it, and a summary of the summary. -/
def summaryChain : List Op :=
  [.call (.remember (fact "a") operator "1"),
    .call (.remember { fact "b" with derivedFrom := [lit "a"] } operator "2"),
    .call (.remember { fact "c" with derivedFrom := [lit "b"] } operator "3")]

/-- The fact is forgotten and the second summary is recalled. It names the first summary, which
    was marked, and not the fact. -/
theorem second_summary_recalled : ¬ ∀ (ops : List Op) (memoryId : Str) (actor : Actor)
    (nonce : Str), ForgetHolds ops memoryId actor nonce := by
  intro h
  have hb : (backend.after summaryChain).memories.get? "b" =
      some { fact "b" with derivedFrom := [lit "a"] } := by decide
  have hc : (backend.after summaryChain).memories.get? "c" =
      some { fact "c" with derivedFrom := [lit "b"] } := by decide
  have hlead : Leads (backend.after summaryChain) "c" "a" :=
    .head ⟨_, hc, List.mem_singleton_self _⟩ (.single ⟨_, hb, List.mem_singleton_self _⟩)
  refine h summaryChain "a" operator "4" (by decide) "c" _ hc hlead [] (by simp [Machine.traceFrom])
    "spot" operator june "5" ?_
  decide

end

end AdversarialCognition
