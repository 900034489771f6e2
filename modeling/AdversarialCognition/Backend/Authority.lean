import AdversarialCognition.Backend.Idempotency
import AdversarialCognition.Backend.Recall

/-!
# The reach of an actor

What an actor may touch and what it may be told are both bounded by `authorized`, and the
operations check it on the record a call *names*. Two routes go round that check.

A call can change a record it does not name. `remember` and `improve` store under an id without
asking what is stored there, and the cascade of `forget` marks whatever names the forgotten id.
`changes_within_authority_iff` says that these are the only two routes.

A call can be told of a record it does not name. The idempotency map is shared by all actors, and
a key is answered with the decision it was recorded with, ids and receipt.
`discloses_within_scope_iff` says that this is the only route: a recall never names a record its
actor may not read.

## How the two are put

Both are about a call at any reachable state, and both conditions are about that state and the
arguments. `WithinAuthority` closes the two routes one by one; there is nothing in it of what the
call answers. `KeyWithinScope` is about what was recorded under the key, and with `Recorded` this
is a fact about the run so far. Replacing a record by one that equals it is no change, and marking
a forgotten record forgotten is none either, so the conditions leave both out.
-/

namespace AdversarialCognition

open Py Py.Str

section Changes

variable [Runtime] {b : AdversarialBackend}

/-!
## What a call changes

A call may change a record by storing another in its place, by improving it, or by forgetting it
or what it was derived from. For the target of a call the authority of the actor is checked. It is
not checked for a record that is displaced, or that the cascade of a forget reaches;
`WithinAuthority` says of a call and a state that neither of these is foreign to the actor, and it
is exactly when the call changes its own.
-/

/-- What the call leaves different, its actor was authorized for. A record that was not there
    before is not spoken of. -/
def ChangesOwn (b : AdversarialBackend) (c : Call) : Prop :=
  ∀ id r, b.memories.get? id = some r → (b.exec c).2.memories.get? id ≠ some r →
    authorized r c.actor = true

/-- The two routes round the check, closed. -/
structure WithinAuthority (b : AdversarialBackend) (c : Call) : Prop where
  /-- A record the call stores takes the place of itself, or of one the actor may touch. -/
  stores : ∀ m r, Stores b c m → b.memories.get? m.memoryId = some r →
    r = m ∨ authorized r c.actor = true
  /-- What names the id the call forgets is forgotten already, or the actor may touch it. -/
  cascade : ∀ memoryId actor nonce memory id r, c = .forget memoryId actor nonce →
    b.AdmitsForget memoryId actor nonce memory → b.memories.get? id = some r →
    memoryId ∈ r.derivedFrom → r.state = lit "forgotten" ∨ authorized r actor = true

/-- **The ways a record can change**: another is stored in its place, an improve targets
    it, or a forget names it or one it is derived from. -/
theorem Ruling.change_cases {c : Call} {reply : Reply} {b' : AdversarialBackend} {id : Str}
    {r : Memory} (h : Ruling b c reply b') (hr : b.memories.get? id = some r)
    (hchange : b'.memories.get? id ≠ some r) :
    (∃ m, Stores b c m ∧ m.memoryId = id ∧ r ≠ m) ∨
      (∃ i, c = .improve i ∧ i.memoryId = id ∧ b.AdmitsImprove i r) ∨
        ∃ memoryId actor nonce memory, c = .forget memoryId actor nonce ∧
          b.AdmitsForget memoryId actor nonce memory ∧
          (id = memoryId ∨ memoryId ∈ r.derivedFrom) ∧ r.state ≠ lit "forgotten" := by
  cases h with
  | replayed => exact absurd hr hchange
  | refused => exact absurd hr hchange
  | recalled => exact absurd hr hchange
  | retried => exact absurd hr hchange
  | @remembered memory actor nonce admits =>
    rw [AdversarialBackend.store_get?] at hchange
    split at hchange
    · rename_i hid
      exact Or.inl ⟨memory, .remember admits, hid.symm, fun heq => hchange (by rw [heq])⟩
    · exact absurd hr hchange
  | @improved i current _ admits =>
    rw [AdversarialBackend.settle_memories, AdversarialBackend.store_get?] at hchange
    split at hchange
    · rename_i hid
      exact Or.inl ⟨i.replacement, .improve admits, hid.symm, fun heq => hchange (by rw [heq])⟩
    · rw [AdversarialBackend.supersede_get?] at hchange
      split at hchange
      · rename_i hid
        obtain rfl : current = r := Option.some.inj (admits.stored.symm.trans (hid ▸ hr))
        exact Or.inr (Or.inl ⟨i, rfl, hid.symm, admits⟩)
      · exact absurd hr hchange
  | @forgotten memoryId actor nonce memory admits =>
    rw [admits.get? id, hr, Option.map_some] at hchange
    split at hchange
    · rename_i hcovered
      refine Or.inr (Or.inr ⟨memoryId, actor, nonce, memory, rfl, admits, hcovered, ?_⟩)
      -- marking a forgotten record forgotten is no change
      intro hforgotten
      exact hchange (by rw [← hforgotten])
    · exact absurd rfl hchange

theorem changesOwn_of_withinAuthority {c : Call} (h : WithinAuthority b c) :
    ChangesOwn b c := by
  intro id r hr hchange
  rcases (exec_ruling b c).change_cases hr hchange with ⟨m, hm, rfl, hne⟩ | ⟨i, rfl, -, hadm⟩ |
    ⟨memoryId, actor, nonce, memory, rfl, hadm, hcovered, hstate⟩
  · exact (h.stores m r hm hr).resolve_left hne
  · exact hadm.authorized
  · rcases hcovered with rfl | hderived
    · obtain rfl : memory = r := Option.some.inj (hadm.stored.symm.trans hr)
      exact hadm.authorized
    · exact (h.cascade _ _ _ _ id r rfl hadm hr hderived).resolve_left hstate

/-- Each of the routes, when taken, changes something: a record that is displaced by another one,
    and a mark where there was a different state. -/
theorem withinAuthority_of_changesOwn {c : Call} (h : ChangesOwn b c) :
    WithinAuthority b c := by
  refine ⟨?_, ?_⟩
  · intro m r hm hr
    by_cases heq : r = m
    · exact Or.inl heq
    · refine Or.inr (h m.memoryId r hr ?_)
      rw [exec_stored hm]
      exact fun hsome => heq (Option.some.inj hsome).symm
  · rintro memoryId actor nonce memory id r rfl hadm hr hderived
    by_cases hstate : r.state = lit "forgotten"
    · exact Or.inl hstate
    · refine Or.inr (h id r hr ?_)
      simp only [AdversarialBackend.exec, AdversarialBackend.forget_of_admits hadm]
      rw [hadm.get? id, hr, Option.map_some, if_pos (Or.inr hderived)]
      intro hsome
      exact hstate (congrArg Memory.state (Option.some.inj hsome)).symm

/-- **A call stays within its actor's authority exactly when what it stores displaces nothing
    foreign and what its cascade marks is not foreign**, after every run. To improve and to forget
    ask for authority over the record they name, but neither what is stored under the id of a new
    record nor what is derived from a forgotten one is asked about. -/
theorem changes_within_authority_iff (ops : List Op) (c : Call) :
    ChangesOwn (backend.after ops) c ↔ WithinAuthority (backend.after ops) c :=
  ⟨withinAuthority_of_changesOwn, changesOwn_of_withinAuthority⟩

end Changes

section

attribute [local instance] cpython

/-- An outsider remembers a record of its own under the operator's id. Its tenant is the
    outsider's, so every check of `remember` is passed. -/
theorem outsider_overwrites : ¬ ∀ (ops : List Op) (c : Call), ChangesOwn (backend.after ops) c := by
  intro h
  have hauth : authorized (fact "m") outsider = true :=
    h [.call (.remember (fact "m") operator "1")]
      (.remember { fact "m" with tenant := lit "rival" } outsider "2") "m" (fact "m")
      (by decide) (by decide)
  exact absurd hauth (by decide)

end

section Disclosure

variable [Runtime] {ops : List Op}

/-!
## What a call is told

An allowed call is told ids, in its decision. Those it named itself it knew, and those it may read
it could have found. What remains is the decision recorded under an idempotency key, which is
handed out to whoever presents the key: a call discloses what is not its own exactly if its key
was recorded by another scope or for other ids.
-/

/-- The ids a call passes as such. -/
def Call.ids : Call → List Str
  | .remember memory _ _ => [memory.memoryId]
  | .recall _ _ _ _ => []
  | .improve i => [i.memoryId, i.replacement.memoryId]
  | .forget memoryId _ _ => [memoryId]

/-- The actor named the id itself, or may read the record under it. -/
def MayLearn (b : AdversarialBackend) (c : Call) (id : Str) : Prop :=
  id ∈ c.ids ∨ ∃ r, b.memories.get? id = some r ∧ authorized r c.actor = true

def Actor.SameScope (a a' : Actor) : Prop := a.tenant = a'.tenant ∧ a.space = a'.space

/-- An allowed call tells its actor nothing from outside the actor's reach. -/
structure DisclosesOwn (ops : List Op) (c : Call) : Prop where
  /-- The ids that it tells are the actor's to learn. -/
  ids : ∀ d, ((backend.after ops).exec c).1 = .ok d → d.allowed = true →
    ∀ id ∈ d.ids, MayLearn (backend.after ops) c id
  /-- No key brings back the decision, with its receipt, of another scope's improvement. -/
  scope : ∀ i i', c = .improve i → Recorded ops i' → i'.idempotencyKey = i.idempotencyKey →
    Allowed ((backend.after ops).exec c).1 → i'.actor.SameScope i.actor

/-- The key of an improve, if the call gets as far as the map, was recorded in the actor's
    scope and for ids the actor may learn. -/
def KeyWithinScope (ops : List Op) (c : Call) : Prop :=
  ∀ i i', c = .improve i → (i.actor.did, i.nonce) ∉ (backend.after ops).nonces →
    i.actor.canMutate = true → Recorded ops i' → i'.idempotencyKey = i.idempotencyKey →
    i'.actor.SameScope i.actor ∧ MayLearn (backend.after ops) c i'.memoryId ∧
      MayLearn (backend.after ops) c i'.replacement.memoryId

theorem mayLearn_of_ranked {query : Str} {actor : Actor} {asOf : Date} {nonce id : Str}
    (h : id ∈ ((backend.after ops).ranked query actor asOf).map Prod.snd) :
    MayLearn (backend.after ops) (.recall query actor asOf nonce) id := by
  obtain ⟨⟨score, _⟩, hmem, rfl⟩ := List.mem_map.mp h
  obtain ⟨r, hr, -, hauth, -⟩ := (mem_ranked_iff (keyed_after ops)).mp hmem
  exact Or.inr ⟨r, hr, hauth⟩

/-- What an allowed call names, it was passed, or may read, or got from a key within
    scope. -/
theorem Ruling.mayLearn {c : Call} {reply : Reply} {b' : AdversarialBackend} {d : Decision}
    (h : Ruling (backend.after ops) c reply b') (hscope : KeyWithinScope ops c)
    (hreply : reply = .ok d) (hallow : d.allowed = true) :
    ∀ id ∈ d.ids, MayLearn (backend.after ops) c id := by
  intro id hid
  cases h with
  | replayed =>
    rw [← Except.ok.inj hreply] at hallow
    simp at hallow
  | refused =>
    rw [← Except.ok.inj hreply] at hallow
    simp at hallow
  | remembered =>
    rw [(answer_eq_ok hreply).2.1] at hid
    exact Or.inl hid
  | recalled =>
    rw [(answer_eq_ok hreply).2.1] at hid
    exact mayLearn_of_ranked hid
  -- a retry is answered with what is stored, which the scope of the key is about
  | @retried i d' fresh mutates settled =>
    obtain rfl := Except.ok.inj hreply
    obtain ⟨i', hrec, hkey, -, hids⟩ := exists_recorded settled
    obtain ⟨-, htarget, hrepl⟩ := hscope i i' rfl fresh mutates hrec hkey
    rw [hids] at hid
    cases List.mem_pair.mp hid with
    | inl heq => exact heq ▸ htarget
    | inr heq => exact heq ▸ hrepl
  | improved _ hanswer =>
    rw [(answer_eq_ok (hanswer.symm.trans hreply)).2.1] at hid
    exact Or.inl hid
  | forgotten =>
    rw [(answer_eq_ok hreply).2.1] at hid
    exact Or.inl hid

theorem disclosesOwn_of_keyWithinScope {c : Call} (h : KeyWithinScope ops c) :
    DisclosesOwn ops c := by
  refine ⟨?_, ?_⟩
  · intro d hd hallow
    exact (exec_ruling (backend.after ops) c).mayLearn h hd hallow
  · rintro i i' rfl hrec hkey hallow
    obtain ⟨d, hd, hallow⟩ := exists_of_allowed hallow
    rcases allowed_improve hd hallow with ⟨hfresh, hmut, -⟩ | ⟨⟨current, hadm⟩, -, -⟩
    · exact (h i i' rfl hfresh hmut hrec hkey).1
    · -- a commit found the key free, and it is not
      obtain ⟨d', hd', -⟩ := settled_of_recorded hrec
      rw [hkey, hadm.unsettled] at hd'
      simp at hd'

theorem keyWithinScope_of_disclosesOwn {c : Call} (h : DisclosesOwn ops c) :
    KeyWithinScope ops c := by
  rintro i i' rfl hfresh hmut hrec hkey
  obtain ⟨d, hd, hallow, hids⟩ := settled_of_recorded hrec
  rw [hkey] at hd
  have hreply : ((backend.after ops).exec (.improve i)).1 = .ok d := by
    rw [exec_retry hfresh hmut hd]
  refine ⟨h.scope i i' rfl hrec hkey (by rw [hreply]; exact hallow), ?_, ?_⟩
  · exact h.ids d hreply hallow _ (by simp [hids])
  · exact h.ids d hreply hallow _ (by simp [hids])

/-- **An allowed call discloses only what is its actor's to know exactly when its idempotency key
    was not recorded out of the actor's reach**, after every run. A recorded key is answered
    before the target is looked at, and the map of keys is shared by all actors; on every other
    way to be allowed, the ids that are told are the caller's own or were filtered. -/
theorem discloses_within_scope_iff (ops : List Op) (c : Call) :
    DisclosesOwn ops c ↔ KeyWithinScope ops c :=
  ⟨keyWithinScope_of_disclosesOwn, disclosesOwn_of_keyWithinScope⟩

end Disclosure

section

attribute [local instance] cpython

/-- An outsider presents the operator's key and is told of the operator's improvement: the ids of
    both records, and the receipt. -/
theorem outsider_learns_improvement :
    ¬ ∀ (ops : List Op) (c : Call), DisclosesOwn ops c := by
  intro h
  obtain ⟨d, hd, hallow⟩ := exists_of_allowed (show Allowed ((backend.after
    [.call (.remember (fact "m") operator "1"), .call (.improve (proposal "m" "n" "2" "job"))]).exec
    (.improve { proposal "x" "y" "3" "job" with actor := outsider })).1 by decide)
  have hids : lit "n" ∈ replyIds (.ok d) := by
    rw [← hd]
    decide
  rcases (h _ _).ids d hd hallow _ hids with hpassed | ⟨r, hr, hauth⟩
  · exact absurd hpassed (by decide)
  · have hstored : (backend.after [.call (.remember (fact "m") operator "1"),
        .call (.improve (proposal "m" "n" "2" "job"))]).memories.get? "n" = some (fact "n") := by
      decide
    rw [hstored, Option.some.injEq] at hr
    rw [← hr] at hauth
    exact absurd hauth (by decide)

end

end AdversarialCognition
