import AdversarialCognition.Backend.Records
import AdversarialCognition.Lib.Sha256

/-!
# What `recall` answers

`Hit` is the specification: which ids a recall owes its caller, and with what score, read off the
store with no loop and no sort in sight. `mem_ranked_iff` says the loop collects exactly the hits,
and `recall_answers` is the whole contract over every store a run can build.

Two things in it are not visible in `recall`'s own lines. That no id is listed twice rests on
every store keeping key = record.memory_id (`keyed_after`): the loop ranges over values and never
looks at the keys. And that the call returns at all rests on `repr`: ids with surrogates in them
are escaped before the list is digested.

## The order

Best score first, and among equals the smaller id, compared code point by code point. The pairs
that are ranked are distinct, so this is a strict order on them and the list is determined by its
members. `ranked_eq_of_hits` draws the conclusion that is used most: two stores with the same hits
answer alike, in whatever order their items were put in.

The interval of validity is half open. A record is valid on the day it begins and no more on the
day it ends.
-/

namespace AdversarialCognition

open Py Py.Str

/-- `id` names a stored record that is current, authorized, valid at `asOf`, and shares
    exactly `score` distinct tokens with the query, at least one. -/
def Hit (b : AdversarialBackend) (query : Str) (actor : Actor) (asOf : Date) (score : ℕ)
    (id : Str) : Prop :=
  ∃ r, b.memories.get? id = some r ∧ r.state = lit "current" ∧ authorized r actor = true ∧
    r.validFrom ≤ asOf ∧ (∀ u, r.validUntil = some u → asOf < u) ∧
    score = (words query ∩ words r.text).card ∧ 0 < score

/-!
## The loop

The loop collects the hits, and the sort puts them in an order that depends on nothing but the
score and the id. So two tables with the same hits are ranked alike, in whatever order they are
gone through.
-/

/-- What the body of the loop adds, and when. The two early exits of the source are the first four
    conjuncts. -/
theorem rankEntry_eq_some_iff {queryWords : Finset Str} {actor : Actor} {asOf : Date}
    {r : Memory} {p : ℕ × Str} :
    AdversarialBackend.rankEntry queryWords actor asOf r = some p ↔
      r.state = lit "current" ∧ authorized r actor = true ∧ r.validFrom ≤ asOf ∧
        (∀ u, r.validUntil = some u → asOf < u) ∧
        p = ((queryWords ∩ words r.text).card, r.memoryId) ∧ 0 < p.1 := by
  unfold AdversarialBackend.rankEntry
  dsimp only
  split_ifs with hskip hwindow hscore
  · -- not current, or not authorized
    simp only [false_iff]
    rintro ⟨hstate, hauth, -⟩
    rcases hskip with h | h
    · exact h hstate
    · simp [hauth] at h
  · -- outside the validity window
    simp only [false_iff]
    rintro ⟨-, -, hfrom, huntil, -⟩
    rcases hwindow with h | h
    · exact absurd h (not_lt.mpr hfrom)
    · obtain ⟨u, hu, hle⟩ := (Option.any_eq_true _ _).mp h
      exact absurd (of_decide_eq_true hle) (not_le.mpr (huntil u hu))
  -- inside the window, by the words that are shared
  all_goals
    simp only [not_or, not_not, Bool.not_eq_true', Bool.not_eq_false] at hskip
    simp only [not_or, not_lt, Bool.not_eq_true] at hwindow
    have huntil : ∀ u, r.validUntil = some u → asOf < u := by
      intro u hu
      have h := hwindow.2
      rw [hu] at h
      simpa using h
  · simp only [Option.some.injEq]
    constructor
    · rintro rfl
      exact ⟨hskip.1, hskip.2, hwindow.1, huntil, rfl, Nat.pos_of_ne_zero hscore⟩
    · rintro ⟨-, -, -, -, rfl, -⟩
      rfl
  · simp only [false_iff]
    rintro ⟨-, -, -, -, rfl, hpos⟩
    exact hscore (Nat.pos_iff_ne_zero.mp hpos)

/-- What is ranked was collected from some value of the table. -/
theorem mem_ranked {b : AdversarialBackend} {query : Str} {actor : Actor} {asOf : Date}
    {p : ℕ × Str} : p ∈ b.ranked query actor asOf ↔
      ∃ k r, b.memories.get? k = some r ∧
        AdversarialBackend.rankEntry (words query) actor asOf r = some p := by
  simp only [AdversarialBackend.ranked, Ranking.mem_sort, List.mem_filterMap, Dict.mem_values_iff]
  constructor
  · rintro ⟨r, ⟨k, hk⟩, hp⟩
    exact ⟨k, r, hk, hp⟩
  · rintro ⟨k, r, hk, hp⟩
    exact ⟨r, ⟨k, hk⟩, hp⟩

/-- **The loop collects exactly the hits.** -/
theorem mem_ranked_iff {b : AdversarialBackend} (hkeyed : Keyed b) {query : Str}
    {actor : Actor} {asOf : Date} {score : ℕ} {id : Str} :
    (score, id) ∈ b.ranked query actor asOf ↔ Hit b query actor asOf score id := by
  rw [mem_ranked]
  constructor
  · rintro ⟨k, r, hk, hr⟩
    obtain ⟨hstate, hauth, hfrom, huntil, hp, hpos⟩ := rankEntry_eq_some_iff.mp hr
    obtain ⟨rfl, rfl⟩ := Prod.mk.inj hp
    refine ⟨r, ?_, hstate, hauth, hfrom, huntil, rfl, hpos⟩
    rw [hkeyed k r hk]
    exact hk
  · rintro ⟨r, hr, hstate, hauth, hfrom, huntil, rfl, hpos⟩
    refine ⟨id, r, hr, rankEntry_eq_some_iff.mpr ⟨hstate, hauth, hfrom, huntil, ?_, hpos⟩⟩
    rw [hkeyed id r hr]

/-- What a loop collects, it collects in the order of the values it came from. -/
theorem filterMap_map_sublist {α β γ : Type*} {f : α → Option β} {g : β → γ} {h : α → γ}
    (hf : ∀ a y, f a = some y → g y = h a) :
    ∀ l : List α, ((l.filterMap f).map g).Sublist (l.map h) := by
  intro l
  induction l with
  | nil => exact List.Sublist.refl _
  | cons a l ih =>
    cases hfa : f a with
    | none =>
      rw [List.filterMap_cons_none hfa, List.map_cons]
      exact ih.cons _
    | some y =>
      rw [List.filterMap_cons_some hfa, List.map_cons, List.map_cons, hf a y hfa]
      exact ih.cons_cons _

theorem nodup_collected {b : AdversarialBackend} (hkeyed : Keyed b) (queryWords : Finset Str)
    (actor : Actor) (asOf : Date) :
    ((b.memories.values.filterMap
      (AdversarialBackend.rankEntry queryWords actor asOf)).map Prod.snd).Nodup := by
  have hids : b.memories.values.map Memory.memoryId = b.memories.items.map Prod.fst := by
    rw [Dict.values, List.map_map]
    refine List.map_congr_left fun p hp => ?_
    exact hkeyed p.1 p.2 (Dict.mem_items_iff.mp hp)
  refine (filterMap_map_sublist (h := Memory.memoryId) ?_ _).nodup ?_
  · intro r p hr
    rw [(rankEntry_eq_some_iff.mp hr).2.2.2.2.1]
  · rw [hids]
    exact b.memories.nodupKeys

/-- **The ranking is a function of the hits**: two stores with the same hits are ranked
    alike, whatever order they iterate in. -/
theorem ranked_eq_of_hits {b b' : AdversarialBackend} (hb : Keyed b) (hb' : Keyed b')
    {query : Str} {actor : Actor} {asOf : Date}
    (h : ∀ score id, Hit b query actor asOf score id ↔ Hit b' query actor asOf score id) :
    b.ranked query actor asOf = b'.ranked query actor asOf := by
  apply Ranking.sort_eq_of_perm
  rw [List.perm_ext_iff_of_nodup (nodup_collected hb _ _ _).of_map
    (nodup_collected hb' _ _ _).of_map]
  intro p
  rw [← Ranking.mem_sort, ← Ranking.mem_sort (l := List.filterMap _ b'.memories.values)]
  exact (mem_ranked_iff hb).trans ((h p.1 p.2).trans (mem_ranked_iff hb').symm)

/-!
## The receipt

The receipt of a recall is the digest of the printed ranking. It never raises: an id is printed in
quotes with its escapes, and what stands there is ASCII.
-/

section Receipt

variable [Runtime]

theorem encodable_entryText (entry : ℕ × Str) : Encodable (entryText entry) := by
  unfold entryText
  simp only [encodable_append]
  exact ⟨⟨⟨⟨encodable_lit _, encodable_ofNat _⟩, encodable_lit _⟩, encodable_repr _⟩,
    encodable_lit _⟩

/-- The printed ranking can always be encoded, whatever the ids in it. -/
theorem encodable_recallText (ranked : List (ℕ × Str)) : Encodable (recallText ranked) := by
  unfold recallText
  refine encodable_append.mpr ⟨encodable_append.mpr ⟨encodable_lit _, ?_⟩, encodable_lit _⟩
  refine encodable_flatten (encodable_intersperse (encodable_lit _) fun t ht => ?_)
  obtain ⟨entry, -, rfl⟩ := List.mem_map.mp ht
  exact encodable_entryText entry

/-- Two stores that rank a query alike answer it alike, receipt included. -/
theorem recall_eq_of_ranked {b b' : AdversarialBackend} {query : Str} {actor : Actor}
    {asOf : Date} {nonce : Str} (hfresh : (actor.did, nonce) ∉ b.nonces)
    (hfresh' : (actor.did, nonce) ∉ b'.nonces)
    (h : query.length ≤ maxQueryChars → b.ranked query actor asOf = b'.ranked query actor asOf) :
    (b.recall query actor asOf nonce).1 = (b'.recall query actor asOf nonce).1 := by
  by_cases hsize : query.length ≤ maxQueryChars
  · rw [AdversarialBackend.recall_of_fresh hfresh hsize,
      AdversarialBackend.recall_of_fresh hfresh' hsize, h hsize]
  · unfold AdversarialBackend.recall
    rw [AdversarialBackend.claim_of_fresh hfresh, AdversarialBackend.claim_of_fresh hfresh']
    simp [not_le.mp hsize]

/-- An id that a recall names is a hit. So a recall tells of nothing that its actor may not read. -/
theorem Ruling.hit_of_mem {b b' : AdversarialBackend} (hkeyed : Keyed b) {query : Str}
    {actor : Actor} {asOf : Date} {nonce id : Str} {reply : Reply}
    (h : Ruling b (.recall query actor asOf nonce) reply b') (hid : id ∈ replyIds reply) :
    query.length ≤ maxQueryChars ∧ ∃ score, Hit b query actor asOf score id := by
  cases h with
  | replayed => simp [replyIds, denied] at hid
  | refused => simp [replyIds, denied] at hid
  | recalled fresh size =>
    refine ⟨size, ?_⟩
    cases hdigest : digest (recallText (b.ranked query actor asOf)) with
    | error e => simp [hdigest, answer, replyIds] at hid
    | ok receipt =>
      rw [hdigest] at hid
      obtain ⟨⟨score, _⟩, hmem, rfl⟩ := List.mem_map.mp hid
      exact ⟨score, (mem_ranked_iff hkeyed).mp hmem⟩

theorem mem_recall_of_hit {b : AdversarialBackend} (hkeyed : Keyed b) {query : Str}
    {actor : Actor} {asOf : Date} {nonce id : Str} {score : ℕ}
    (hfresh : (actor.did, nonce) ∉ b.nonces) (hsize : query.length ≤ maxQueryChars)
    (hhit : Hit b query actor asOf score id) :
    id ∈ replyIds (b.exec (.recall query actor asOf nonce)).1 := by
  obtain ⟨receipt, hreceipt⟩ := digest_ok_iff.mpr (encodable_recallText (b.ranked query actor asOf))
  simp only [AdversarialBackend.exec, AdversarialBackend.recall_of_fresh hfresh hsize, hreceipt]
  exact List.mem_map_of_mem (f := Prod.snd) ((mem_ranked_iff hkeyed).mpr hhit)

/-!
## The contract

The loop, the sort, the cut and the receipt, put together: what is answered to a fresh recall
within bounds is said in full, and nothing else of the store shows in it.
-/

/-- **A fresh recall of a query within bounds is answered, and answered exactly.** The ids
    are the hits, each once, best score first and ties by increasing id; the receipt is
    the digest of the printed ranking, so it is a function of that list alone; and the
    store the answer was read from keeps key = record.memory_id. -/
theorem recall_answers (ops : List Op) (query : Str) (actor : Actor) (asOf : Date)
    (nonce : Str) (hfresh : (actor.did, nonce) ∉ (backend.after ops).nonces)
    (hsize : query.length ≤ maxQueryChars) :
    ∃ (ranked : List (ℕ × Str)) (receipt : Str),
      ((backend.after ops).recall query actor asOf nonce).1 =
        .ok { allowed := true, ids := ranked.map Prod.snd, error := [], receipt := receipt } ∧
      (∀ score id, (score, id) ∈ ranked ↔ Hit (backend.after ops) query actor asOf score id) ∧
      (ranked.map Prod.snd).Nodup ∧
      ranked.Pairwise (fun p q => q.1 < p.1 ∨ (p.1 = q.1 ∧ p.2 < q.2)) ∧
      digest (recallText ranked) = .ok receipt ∧
      ∀ id r, (backend.after ops).memories.get? id = some r → r.memoryId = id := by
  have hkeyed := keyed_after ops
  have hnodup := nodup_collected hkeyed (words query) actor asOf
  obtain ⟨receipt, hreceipt⟩ := digest_ok_iff.mpr
    (encodable_recallText ((backend.after ops).ranked query actor asOf))
  refine ⟨(backend.after ops).ranked query actor asOf, receipt, ?_,
    fun score id => mem_ranked_iff hkeyed, Ranking.nodup_sort_names hnodup,
    Ranking.pairwise_sort_before hnodup, hreceipt, hkeyed⟩
  rw [AdversarialBackend.recall_of_fresh hfresh hsize, hreceipt]
  rfl

end Receipt

section

attribute [local instance] cpython

/-- The operator recalls the one fact it has stored, on one shared token. -/
theorem recall_answers_stored_fact : ∃ (ranked : List (ℕ × Str)) (receipt : Str),
    ((backend.after [.call (.remember (fact "m") operator "1")]).recall "spot" operator june
      "2").1 =
      .ok { allowed := true, ids := ranked.map Prod.snd, error := [], receipt := receipt } ∧
    (1, lit "m") ∈ ranked := by
  obtain ⟨ranked, receipt, hreply, hhits, -⟩ := recall_answers
    [.call (.remember (fact "m") operator "1")] "spot" operator june "2" (by decide) (by decide)
  refine ⟨ranked, receipt, hreply, (hhits 1 "m").mpr ⟨fact "m", ?_, rfl, ?_, ?_, ?_, ?_⟩⟩
  · decide
  · decide
  · decide
  · intro u hu
    simp [fact] at hu
  · decide

end

end AdversarialCognition
