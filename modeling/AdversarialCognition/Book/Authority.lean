import AdversarialCognition.Book.Capability
import Mathlib.Algebra.Order.BigOperators.Group.List
import Mathlib.Data.Finset.Option

/-!
# What the guard lets happen

Whatever the guard lets happen, the policy once allowed it, for that subject and that resource,
and nothing has ended it since: no revocation of the capability, no revocation of all, and no
ticks beyond the lease (`authority_rooted`).

## Verification

Whether a capability verifies after a run is read off the run: the ids that were revoked, the
times all was revoked, and the ticks (`verify_after_iff`). An operation changes no more of the
rule than its command says, whether it is denied or raises (`next_rule`); the policy and the audit
do not enter.

## Ids

The ids that the guard gives out are distinct (`capId_ne_of_issues`), so to revoke one is to
revoke that one alone. This takes that the number is read back from its padded form
(`capId_injective`), and that no operation takes an id back, a restart included.

## Roots

A capability that was given out goes back to a mint, through any number of attenuations, each of a
parent that was given out before (`Descends`). What it is for is that of the mint, and what it
grants is implied by what was granted there, since implication is transitive (`Descends.rooted`).
The lease never grows along the way.

## What is asked

Whoever is to be let do anything has to present such a capability, if seals cannot be made up.
This is `Unforged`, about a run: a capability that is presented with the engine's seal has the
seal of one that was given out before, HMAC does not collide on the two texts, and the texts of
the commands are of valid Unicode, so that they can be read back from what is sealed.
-/

namespace AdversarialCognition

namespace CapabilityAdversarial

open Py Py.Str Py.Json Book

/-!
## Grants

The read levels and the implication between grants. That it is transitive is what carries a grant
from an attenuated capability back to the mint.
-/

/-- A level is reached by the loop if it was reached before it, or if some grant lets read it. -/
theorem le_foldl_raised_iff {gs : List Str} {b n : ℤ} : n ≤ gs.foldl raised b ↔
    n ≤ b ∨ ∃ g ∈ gs, ∃ level, readLevel? g = some level ∧ n ≤ (level : ℤ) := by
  induction gs generalizing b with
  | nil => simp
  | cons g gs ih =>
    rw [List.foldl_cons, ih, raised]
    cases hlevel : readLevel? g with
    | none => simp [hlevel]
    | some level => simp [hlevel, or_assoc]

theorem le_readCeiling_iff {gs : List Str} {n : ℕ} :
    (n : ℤ) ≤ readCeiling gs ↔ ∃ g ∈ gs, ∃ level, readLevel? g = some level ∧ n ≤ level := by
  rw [readCeiling, le_foldl_raised_iff]
  simp only [Nat.cast_le]
  exact or_iff_right (by omega)

theorem grantImplied_of_mem {gs : List Str} {g : Str} (h : g ∈ gs) : grantImplied gs g = true := by
  unfold grantImplied
  cases hlevel : readLevel? g with
  | none => exact decide_eq_true h
  | some level => exact decide_eq_true (le_readCeiling_iff.mpr ⟨g, h, level, hlevel, le_rfl⟩)

/-- **Implication is transitive**: what is implied by implied grants is implied. -/
theorem grantImplied_trans {root parent : List Str} {g : Str}
    (hparent : ∀ p ∈ parent, grantImplied root p = true) (hg : grantImplied parent g = true) :
    grantImplied root g = true := by
  unfold grantImplied at hg
  cases hlevel : readLevel? g with
  | none =>
    rw [hlevel] at hg
    exact hparent g (of_decide_eq_true hg)
  | some level =>
    rw [hlevel] at hg
    obtain ⟨p, hp, held, hheld, hle⟩ := le_readCeiling_iff.mp (of_decide_eq_true hg)
    have hroot := hparent p hp
    rw [grantImplied, hheld] at hroot
    rw [grantImplied, hlevel]
    have hle' : (level : ℤ) ≤ held := Int.ofNat_le.mpr hle
    exact decide_eq_true (hle'.trans (of_decide_eq_true hroot))

section Guard

variable [Runtime]

/-!
## Verification

What `verify` asks for, as one conjunction: the seal is that of the engine, the id is not revoked,
the epoch is the present one, and the lease is not over.
-/

omit [Runtime] in
theorem printsItems_strs (items : List Str) : printsItems (items.map str) = true := by
  induction items with
  | nil => rfl
  | cons item items ih => exact ih

omit [Runtime] in
theorem printsInts_parts {cap : Capability} : printsInts (list cap.parts) = true ↔
    cap.expiry.natAbs < 10 ^ 4300 ∧ cap.epoch.natAbs < 10 ^ 4300 := by
  simp only [Capability.parts, printsInts, printsItems, printsItems_strs, Bool.true_and,
    Bool.and_true, Bool.and_eq_true, decide_eq_true_eq]

/-- The seal is that of the engine, and it can be computed. -/
def Capability.IsSealed (cap : Capability) : Prop :=
  printsInts (list cap.parts) = true ∧ mac engineKey cap.text = cap.«seal»

omit [Runtime] in
theorem parts_seal (cap : Capability) (s : Str) :
    ({ cap with «seal» := s } : Capability).parts = cap.parts := rfl

omit [Runtime] in
theorem text_seal (cap : Capability) (s : Str) :
    ({ cap with «seal» := s } : Capability).text = cap.text := by
  rw [Capability.text, parts_seal, Capability.text]

/-- When a capability can be sealed, and what is then returned. -/
theorem sealed_eq_ok_iff {cap sealed : Capability} : cap.sealed engineKey = .ok sealed ↔
    printsInts (list cap.parts) = true ∧ sealed = { cap with «seal» := mac engineKey cap.text } := by
  rw [Capability.sealed]
  split_ifs with hints
  · rw [Except.ok.injEq]
    exact ⟨fun h => ⟨hints, h.symm⟩, fun h => h.2.symm⟩
  · exact iff_of_false (fun h => by cases h) fun h => hints h.1

/-- What is sealed has the seal of the engine: it is over the rest. -/
theorem isSealed_of_sealed {cap sealed : Capability} (h : cap.sealed engineKey = .ok sealed) :
    sealed.IsSealed := by
  obtain ⟨hints, rfl⟩ := sealed_eq_ok_iff.mp h
  rw [Capability.IsSealed, text_seal, parts_seal]
  exact ⟨hints, rfl⟩

/-- **When a capability verifies.** The lease is over at its expiry, not after it. -/
theorem verify_iff {g : Guard} {cap : Capability} : g.verify (some cap) = .ok true ↔
    cap.IsSealed ∧ cap.capId ∉ g.revoked ∧ g.minEpoch ≤ cap.epoch ∧ g.now < cap.expiry := by
  rw [Guard.verify, Capability.sealed, Capability.IsSealed]
  split_ifs with hints
  · show (.ok (decide _) : Except Fault Bool) = .ok true ↔ _
    rw [Except.ok.injEq, decide_eq_true_eq, not_lt, not_le]
    exact ⟨fun h => ⟨⟨hints, h.1⟩, h.2⟩, fun h => ⟨h.1.2, h.2⟩⟩
  · exact iff_of_false (fun h => by cases h) fun h => hints h.1.1

/-- A capability is bound to a resource if it verifies and is for that resource. -/
theorem bound_iff {g : Guard} {cap : Option Capability} {resource : Str} {held : Capability} :
    g.bound cap resource = .ok (some held) ↔
      cap = some held ∧ g.verify (some held) = .ok true ∧ held.resource = resource := by
  have hbound : g.bound cap resource = (g.verify cap).map fun valid =>
      if valid then cap.filter fun cap => cap.resource = resource else none := by
    rw [Guard.bound]
    cases g.verify cap <;> rfl
  rw [hbound]
  cases cap with
  | none => exact iff_of_false (fun h => by cases h) fun h => by cases h.1
  | some found =>
    cases hverify : g.verify (some found) with
    | error e =>
      refine iff_of_false (fun h => by cases h) fun h => ?_
      rw [← Option.some.inj h.1, hverify] at h
      cases h.2.1
    | ok valid =>
      show (.ok (if valid then _ else none) : Except Fault (Option Capability)) = _ ↔ _
      rw [Except.ok.injEq]
      cases valid with
      | false =>
        refine iff_of_false (fun h => by cases h) fun h => ?_
        rw [← Option.some.inj h.1, hverify] at h
        cases h.2.1
      -- it verifies, and is bound if it is for the resource
      | true =>
        rw [if_pos rfl, Option.filter_eq_some_iff, decide_eq_true_eq]
        constructor
        · intro h
          rw [← Option.some.inj h.1]
          exact ⟨rfl, hverify, by rw [Option.some.inj h.1]; exact h.2⟩
        · intro h
          exact ⟨h.1, h.2.2⟩

/-!
## What an operation can change

The rule of a guard is its policy, its revocations, its epoch and its clock. No operation changes
them but the commands that are made for it, and none takes an id back. There is one lemma for each
operation, and each covers its refusals as well.
-/

/-- The policy, the revocations, the epoch and the clock are as before, and no id is taken back. -/
structure Keeps (g g' : Guard) : Prop where
  policy : g'.policy = g.policy
  revoked : g'.revoked = g.revoked
  minEpoch : g'.minEpoch = g.minEpoch
  now : g'.now = g.now
  n : g.n ≤ g'.n

omit [Runtime] in
theorem Keeps.refl (g : Guard) : Keeps g g := ⟨rfl, rfl, rfl, rfl, le_refl _⟩

theorem Keeps.audited {g g' : Guard} (h : Keeps g g') (kind : String)
    (fields : List (String × Json)) : Keeps g (g'.audited kind fields) :=
  ⟨h.policy, h.revoked, h.minEpoch, h.now, h.n⟩

omit [Runtime] in
theorem allowed_grantPolicy (g : Guard) (subject resource : Str) (grants : Finset Str) :
    (g.grantPolicy subject resource grants).allowed subject resource = grants := by
  rw [Guard.allowed, Guard.grantPolicy, Dict.get?_set, if_pos rfl, Option.getD_some, Dict.get?_set,
    if_pos rfl, Option.getD_some]

theorem issue_snd (g : Guard) (subject : Str) (grants : Finset Str) (resource operation : Str)
    (expiry epoch : ℤ) :
    (g.issue subject grants resource operation expiry epoch).2 = { g with n := g.n + 1 } := by
  unfold Guard.issue
  dsimp only
  split_ifs <;> rfl

theorem issue_eq_ok {g : Guard} {subject : Str} {grants : Finset Str} {resource operation : Str}
    {expiry epoch : ℤ} {cap : Capability}
    (h : (g.issue subject grants resource operation expiry epoch).1 = .ok cap) :
    cap.IsSealed ∧ cap.capId = capId (g.n + 1) ∧ cap.subject = subject ∧
      cap.grants = sorted grants ∧ cap.resource = resource ∧ cap.operation = operation ∧
      cap.expiry = expiry ∧ cap.epoch = epoch := by
  unfold Guard.issue at h
  dsimp only at h
  split_ifs at h with hn
  have hsealed := isSealed_of_sealed h
  obtain ⟨_, rfl⟩ := sealed_eq_ok_iff.mp h
  exact ⟨hsealed, rfl, rfl, rfl, rfl, rfl, rfl, rfl⟩

/-- To issue changes nothing of the rule. -/
theorem keeps_granted (g : Guard) (subject : Str) (grants : Finset Str) (resource operation : Str)
    (expiry epoch : ℤ) (kind : String) (fields : Capability → List (String × Json)) :
    Keeps g (Guard.granted (g.issue subject grants resource operation expiry epoch) kind fields).2 := by
  have hissue := issue_snd g subject grants resource operation expiry epoch
  generalize g.issue subject grants resource operation expiry epoch = issued at hissue ⊢
  obtain ⟨reply, g'⟩ := issued
  have hkeeps : Keeps g g' := by
    obtain rfl : g' = { g with n := g.n + 1 } := hissue
    exact ⟨rfl, rfl, rfl, rfl, Nat.le_succ _⟩
  cases reply with
  | error e => exact hkeeps
  | ok cap => exact hkeeps.audited _ _

theorem keeps_mint (g : Guard) (subject : Str) (grants : Finset Str) (resource operation : Str)
    (lease : ℤ) : Keeps g (g.mint subject grants resource operation lease).2 := by
  unfold Guard.mint
  split_ifs
  · exact keeps_granted g _ _ _ _ _ _ _ _
  · exact (Keeps.refl g).audited _ _

theorem keeps_attenuate (g : Guard) (cap : Capability) (grants : Option (Finset Str))
    (lease : Option ℤ) : Keeps g (g.attenuate cap grants lease).2 := by
  unfold Guard.attenuate
  cases g.verify (some cap) with
  | error e => exact Keeps.refl g
  | ok valid =>
    cases valid with
    | false => exact Keeps.refl g
    | true =>
      dsimp only
      split_ifs
      · exact (Keeps.refl g).audited _ _
      · exact keeps_granted g _ _ _ _ _ _ _ _
      · exact (Keeps.refl g).audited _ _

theorem keeps_reveal (g : Guard) (cap : Option Capability) (value : SecureValue) :
    Keeps g (g.reveal cap value).2 := by
  unfold Guard.reveal
  split
  · exact Keeps.refl g
  · exact (Keeps.refl g).audited _ _
  · split
    · exact Keeps.refl g
    · split_ifs
      · exact (Keeps.refl g).audited _ _
      · exact (Keeps.refl g).audited _ _

theorem keeps_declassify (g : Guard) (cap : Option Capability) (value : SecureValue) :
    Keeps g (g.declassify cap value).2 := by
  unfold Guard.declassify
  split
  · exact Keeps.refl g
  · exact Keeps.refl g
  · split_ifs
    · exact (Keeps.refl g).audited _ _
    · exact (Keeps.refl g).audited _ _

theorem keeps_invoke (g : Guard) (cap : Option Capability) (tool resource operation : Str) :
    Keeps g (g.invoke cap tool resource operation).2 := by
  unfold Guard.invoke
  split
  · exact Keeps.refl g
  · exact (Keeps.refl g).audited _ _
  · exact (Keeps.refl g).audited _ _
  · split_ifs
    · exact (Keeps.refl g).audited _ _
    · exact (Keeps.refl g).audited _ _
    · exact (Keeps.refl g).audited _ _

theorem keeps_request (g : Guard) (p : Payload) : Keeps g (g.request p).2 := by
  unfold Guard.request
  split_ifs
  · exact (Keeps.refl g).audited _ _
  · split
    · exact Keeps.refl g
    · exact Keeps.refl g
    · exact Keeps.refl g
    · exact keeps_mint g _ _ _ _ _

/-!
## The rule a run leaves

So the rule after a run is that of the beginning and what the commands of the run did to it, and
whether a capability verifies there can be said without a state.
-/

/-- The id that a command revokes. -/
def Command.revokes : Command → Option Str
  | .revoke capId => some capId
  | _ => none

/-- The epochs that a command ends. -/
def Command.ends : Command → ℤ
  | .revokeAll => 1
  | _ => 0

/-- The time that a command lets pass. -/
def Command.ticks : Command → ℤ
  | .tick n => n
  | _ => 0

/-- What a revocation of all changes: the epoch is ended, also when the event of it cannot be
    printed. -/
theorem rule_revokeAll (g : Guard) : (g.revokeAll).2.revoked = g.revoked ∧
    (g.revokeAll).2.minEpoch = g.minEpoch + 1 ∧ (g.revokeAll).2.now = g.now ∧
    (g.revokeAll).2.n = g.n := by
  unfold Guard.revokeAll
  dsimp only
  split
  · exact ⟨rfl, rfl, rfl, rfl⟩
  · exact ⟨rfl, rfl, rfl, rfl⟩

/-- **What a command changes of the rule**: the revoked ids, the epoch and the clock are those
    before it and whatever the command itself says. What it replies does not matter. -/
theorem next_rule (g : Guard) (cmd : Command) :
    (guard.next g cmd).revoked = g.revoked ∪ cmd.revokes.toFinset ∧
      (guard.next g cmd).minEpoch = g.minEpoch + cmd.ends ∧
      (guard.next g cmd).now = g.now + cmd.ticks ∧ g.n ≤ (guard.next g cmd).n := by
  -- most commands keep all of the rule
  have hkeeps : ∀ {g'}, guard.next g cmd = g' → Keeps g g' → cmd.revokes = none → cmd.ends = 0 →
      cmd.ticks = 0 → (guard.next g cmd).revoked = g.revoked ∪ cmd.revokes.toFinset ∧
        (guard.next g cmd).minEpoch = g.minEpoch + cmd.ends ∧
        (guard.next g cmd).now = g.now + cmd.ticks ∧ g.n ≤ (guard.next g cmd).n := by
    intro g' hnext h hrevokes hends hticks
    rw [hnext, hrevokes, hends, hticks, Option.toFinset_none, Finset.union_empty, add_zero, add_zero]
    exact ⟨h.revoked, h.minEpoch, h.now, h.n⟩
  have hnext : guard.next g cmd = (g.step cmd).2 := rfl
  cases cmd with
  | grantPolicy subject resource grants =>
    exact ⟨(Finset.union_empty _).symm, (add_zero _).symm, (add_zero _).symm, le_refl _⟩
  | tick n => exact ⟨(Finset.union_empty _).symm, (add_zero _).symm, rfl, le_refl _⟩
  | mint subject grants resource operation lease =>
    rw [Guard.step, outcomeOf] at hnext
    exact hkeeps hnext (keeps_mint g subject grants resource operation lease) rfl rfl rfl
  | attenuate cap grants lease =>
    rw [Guard.step, outcomeOf] at hnext
    exact hkeeps hnext (keeps_attenuate g cap grants lease) rfl rfl rfl
  -- the three that change it: an id, an epoch, and (above) the clock
  | revoke capId =>
    have hrevoked : (g.revoke capId).revoked = g.revoked ∪ {capId} := by
      show insert capId g.revoked = g.revoked ∪ {capId}
      rw [Finset.insert_eq, Finset.union_comm]
    rw [hnext]
    exact ⟨hrevoked, (add_zero _).symm, (add_zero _).symm, le_refl _⟩
  | revokeAll =>
    obtain ⟨hrevoked, hepoch, hnow, hn⟩ := rule_revokeAll g
    have hends : Command.revokeAll.ends = 1 := rfl
    have hticks : Command.revokeAll.ticks = 0 := rfl
    have hrevokes : Command.revokeAll.revokes.toFinset = ∅ := rfl
    rw [Guard.step] at hnext
    rw [hnext, hrevoked, hepoch, hnow, hn, hends, hticks, hrevokes]
    exact ⟨(Finset.union_empty _).symm, rfl, (add_zero _).symm, le_refl _⟩
  | reveal cap value =>
    rw [Guard.step, outcomeOf] at hnext
    exact hkeeps hnext (keeps_reveal g cap value) rfl rfl rfl
  | declassify cap value =>
    rw [Guard.step, outcomeOf] at hnext
    exact hkeeps hnext (keeps_declassify g cap value) rfl rfl rfl
  | invoke cap tool resource operation =>
    rw [Guard.step, outcomeOf] at hnext
    exact hkeeps hnext (keeps_invoke g cap tool resource operation) rfl rfl rfl
  | request p =>
    rw [Guard.step, outcomeOf] at hnext
    exact hkeeps hnext (keeps_request g p) rfl rfl rfl
  | restart => exact hkeeps hnext ⟨rfl, rfl, rfl, rfl, le_refl _⟩ rfl rfl rfl

/-- The rule after a run, from where it began. -/
theorem run_rule (g : Guard) (is : List Command) :
    (guard.run g is).revoked = g.revoked ∪ (is.filterMap Command.revokes).toFinset ∧
      (guard.run g is).minEpoch = g.minEpoch + (is.map Command.ends).sum ∧
      (guard.run g is).now = g.now + (is.map Command.ticks).sum ∧ g.n ≤ (guard.run g is).n := by
  induction is generalizing g with
  | nil => exact ⟨(Finset.union_empty _).symm, (add_zero _).symm, (add_zero _).symm, le_refl _⟩
  | cons i is ih =>
    obtain ⟨hrevoked, hepoch, hnow, hn⟩ := next_rule g i
    obtain ⟨hrevoked', hepoch', hnow', hn'⟩ := ih (guard.next g i)
    rw [Machine.run_cons, hrevoked', hepoch', hnow', hrevoked, hepoch, hnow, List.map_cons,
      List.map_cons, List.sum_cons, List.sum_cons, add_assoc, add_assoc]
    refine ⟨?_, rfl, rfl, hn.trans hn'⟩
    rw [Finset.union_assoc]
    congr 1
    ext x
    cases hi : i.revokes <;> simp [hi, eq_comm]

/-- **Whether a capability verifies is read off the run**: it is sealed, its id was not revoked, it
    is of an epoch that was not ended, and its lease is longer than the ticks. -/
theorem verify_after_iff (is : List Command) (cap : Capability) :
    (guard.after is).verify (some cap) = .ok true ↔ cap.IsSealed ∧ .revoke cap.capId ∉ is ∧
      (is.map Command.ends).sum ≤ cap.epoch ∧ (is.map Command.ticks).sum < cap.expiry := by
  obtain ⟨hrevoked, hepoch, hnow, _⟩ := run_rule Guard.new is
  have hafter : guard.after is = guard.run Guard.new is := rfl
  have hmem : cap.capId ∈ (guard.after is).revoked ↔ .revoke cap.capId ∈ is := by
    rw [hafter, hrevoked, Finset.mem_union, List.mem_toFinset, List.mem_filterMap]
    constructor
    · intro h
      rcases h with h | ⟨cmd, hcmd, hrevokes⟩
      · exact absurd h (Finset.notMem_empty _)
      · cases cmd with
        | revoke capId =>
          cases hrevokes
          exact hcmd
        | _ => cases hrevokes
    · exact fun h => .inr ⟨_, h, rfl⟩
  rw [verify_iff, hmem, hafter, hepoch, hnow]
  show _ ∧ _ ∧ 0 + _ ≤ _ ∧ 0 + _ < _ ↔ _
  rw [zero_add, zero_add]

/-!
## What is exercised

The three operations that exercise a capability, each by its cases: refused, or let happen under a
grant that the capability has.
-/

omit [Runtime] in
theorem eq_ok_of_outcomeOf {r : Except Fault Outcome × Guard} {o : Outcome}
    (h : (outcomeOf r).1 = .ok (some o)) : r.1 = .ok o := by
  obtain ⟨reply, g⟩ := r
  cases reply with
  | error e => cases h
  | ok found =>
    cases h
    rfl

/-- **What a reveal can come to**: the text, if a capability that verifies is bound to the resource
    and lets read at its level; or no text at all. -/
theorem reveal_cases {g : Guard} {cap : Option Capability} {value : SecureValue} {o : Outcome}
    (h : (g.reveal cap value).1 = .ok o) : o.capability = none ∧
      ((o.ok = false ∧ o.revealed = some redacted) ∨
        ∃ held level, cap = some held ∧ g.verify (some held) = .ok true ∧
          held.resource = value.resource ∧ level? value.label = some level ∧
          (level : ℤ) ≤ readCeiling held.grants ∧ o.ok = true ∧
          o.revealed = some value.cleartext) := by
  unfold Guard.reveal at h
  split at h
  · cases h
  · cases h
    exact ⟨rfl, .inl ⟨rfl, rfl⟩⟩
  · rename_i held hbound
    obtain ⟨hcap, hverify, hresource⟩ := bound_iff.mp hbound
    split at h
    · cases h
    · rename_i level hlevel
      split_ifs at h with hbelow
      · cases h
        exact ⟨rfl, .inl ⟨rfl, rfl⟩⟩
      · cases h
        exact ⟨rfl, .inr ⟨held, level, hcap, hverify, hresource, hlevel, not_lt.mp hbelow, rfl, rfl⟩⟩

/-- What a declassification can come to: it is refused, or a capability that is bound to the
    resource grants it. It gives nothing out. -/
theorem declassify_cases {g : Guard} {cap : Option Capability} {value : SecureValue} {o : Outcome}
    (h : (g.declassify cap value).1 = .ok o) : o.capability = none ∧
      (o.ok = false ∨
        ∃ held, cap = some held ∧ g.verify (some held) = .ok true ∧
          held.resource = value.resource ∧ lit "declassify" ∈ held.grants) := by
  unfold Guard.declassify at h
  split at h
  · cases h
  · cases h
    exact ⟨rfl, .inl rfl⟩
  · rename_i held hbound
    obtain ⟨hcap, hverify, hresource⟩ := bound_iff.mp hbound
    split_ifs at h with hgrant
    · cases h
      exact ⟨rfl, .inr ⟨held, hcap, hverify, hresource, hgrant⟩⟩
    · cases h
      exact ⟨rfl, .inl rfl⟩

/-- What a call can come to: it is refused, or a capability for the resource and the operation
    grants the tool. -/
theorem invoke_cases {g : Guard} {cap : Option Capability} {tool resource operation : Str}
    {o : Outcome} (h : (g.invoke cap tool resource operation).1 = .ok o) : o.capability = none ∧
      (o.ok = false ∨
        ∃ held, cap = some held ∧ g.verify (some held) = .ok true ∧ held.resource = resource ∧
          lit "tool:" ++ tool ∈ held.grants ∧ held.operation = operation) := by
  unfold Guard.invoke at h
  split at h
  · cases h
  · cases h
    exact ⟨rfl, .inl rfl⟩
  · cases h
    exact ⟨rfl, .inl rfl⟩
  · rename_i held hverify
    split_ifs at h with hresource hdeputy
    · cases h
      exact ⟨rfl, .inl rfl⟩
    · cases h
      exact ⟨rfl, .inl rfl⟩
    · cases h
      rw [not_or, not_not, not_not] at hdeputy
      exact ⟨rfl, .inr ⟨held, rfl, hverify, not_not.mp hresource, hdeputy.1, hdeputy.2⟩⟩

/-!
## What is given out

A capability that appears in a reply is a new one, made by a mint that the policy allows, or by an
attenuation of a parent that verifies. There is no third way, also for a request off the wire.
-/

/-- What a mint asks for. -/
structure MintArgs where
  subject : Str
  grants : Finset Str
  resource : Str
  operation : Str
  lease : ℤ

/-- What the request asks to be minted, if it gets as far. -/
def Payload.mints (p : Payload) : Option MintArgs :=
  if p.extra ≠ ∅ then none
  else
    match p.subject, p.grants, p.resource with
    | some subject, some grants, some resource =>
        some ⟨subject, grants.toFinset, resource, p.operation.getD [], p.lease.getD 100⟩
    | _, _, _ => none

/-- What the command asks to be minted, if it does. -/
def Command.mints : Command → Option MintArgs
  | .mint subject grants resource operation lease =>
      some ⟨subject, grants, resource, operation, lease⟩
  | .request p => p.mints
  | _ => none

/-- The reply has the capability in it. -/
def Issues (g : Guard) (cmd : Command) (cap : Capability) : Prop :=
  ∃ o, (g.step cmd).1 = .ok (some o) ∧ o.capability = some cap

/-- The capability is one that the policy allows to be minted, as asked. -/
structure Minted (g : Guard) (q : MintArgs) (cap : Capability) : Prop where
  allowed : q.grants ⊆ g.allowed q.subject q.resource
  subject : cap.subject = q.subject
  grants : cap.grants = sorted q.grants
  resource : cap.resource = q.resource
  operation : cap.operation = q.operation
  expiry : cap.expiry = g.now + q.lease
  epoch : cap.epoch = g.minEpoch

/-- The capability is no more than its parent, which verifies. All but the grants and the expiry
    is that of the parent. -/
structure Narrows (g : Guard) (parent cap : Capability) : Prop where
  verifies : g.verify (some parent) = .ok true
  subject : cap.subject = parent.subject
  grants : ∀ x ∈ cap.grants, grantImplied parent.grants x = true
  resource : cap.resource = parent.resource
  operation : cap.operation = parent.operation
  expiry : cap.expiry ≤ parent.expiry
  epoch : cap.epoch = parent.epoch

theorem granted_eq_ok {issued : Except Fault Capability × Guard} {kind : String}
    {fields : Capability → List (String × Json)} {o : Outcome} {cap : Capability}
    (h : (Guard.granted issued kind fields).1 = .ok o) (hcap : o.capability = some cap) :
    issued.1 = .ok cap ∧ (Guard.granted issued kind fields).2.n = issued.2.n := by
  obtain ⟨reply, g⟩ := issued
  cases reply with
  | error e => cases h
  | ok found =>
    cases h
    cases hcap
    exact ⟨rfl, rfl⟩

/-- **What a mint gives out**: what the policy allows, numbered next. -/
theorem mint_issues {g : Guard} {q : MintArgs} {o : Outcome} {cap : Capability}
    (h : (g.mint q.subject q.grants q.resource q.operation q.lease).1 = .ok o)
    (hcap : o.capability = some cap) : cap.IsSealed ∧ cap.capId = capId (g.n + 1) ∧
      (g.mint q.subject q.grants q.resource q.operation q.lease).2.n = g.n + 1 ∧
      Minted g q cap := by
  unfold Guard.mint at h ⊢
  split_ifs at h ⊢ with hallowed
  · obtain ⟨hissue, hn⟩ := granted_eq_ok h hcap
    obtain ⟨hsealed, hid, hsubject, hgrants, hresource, hoperation, hexpiry, hepoch⟩ :=
      issue_eq_ok hissue
    rw [hn, issue_snd]
    exact ⟨hsealed, hid, rfl, hallowed, hsubject, hgrants, hresource, hoperation, hexpiry, hepoch⟩
  · cases h
    cases hcap

/-- What the policy allows is given out, if its numbers can be printed. Nothing else can keep a
    mint from it. -/
theorem exists_mint_issues {g : Guard} {q : MintArgs}
    (hallowed : q.grants ⊆ g.allowed q.subject q.resource) (hn : g.n + 1 < 10 ^ 4300)
    (hexpiry : (g.now + q.lease).natAbs < 10 ^ 4300) (hepoch : g.minEpoch.natAbs < 10 ^ 4300) :
    ∃ cap, Issues g (.mint q.subject q.grants q.resource q.operation q.lease) cap := by
  have hsealed : ∀ cap : Capability, cap.expiry = g.now + q.lease → cap.epoch = g.minEpoch →
      cap.sealed engineKey = .ok { cap with «seal» := mac engineKey cap.text } := by
    intro cap hcap hcap'
    refine sealed_eq_ok_iff.mpr ⟨?_, rfl⟩
    rw [printsInts_parts, hcap, hcap']
    exact ⟨hexpiry, hepoch⟩
  have hissue : ∃ cap, (g.issue q.subject q.grants q.resource q.operation (g.now + q.lease)
      g.minEpoch).1 = .ok cap := by
    unfold Guard.issue
    dsimp only
    rw [if_pos hn]
    exact ⟨_, hsealed _ rfl rfl⟩
  obtain ⟨cap, hcap⟩ := hissue
  have hmint : (g.mint q.subject q.grants q.resource q.operation q.lease).1 =
      .ok { ok := true, capability := some cap, auditPresent := true } := by
    rw [Guard.mint, if_neg (not_not.mpr hallowed)]
    generalize g.issue q.subject q.grants q.resource q.operation (g.now + q.lease) g.minEpoch =
      issued at hcap ⊢
    obtain ⟨reply, g'⟩ := issued
    cases hcap
    rfl
  refine ⟨cap, { ok := true, capability := some cap, auditPresent := true }, ?_, rfl⟩
  rw [Guard.step, outcomeOf, hmint]
  rfl

/-- **What an attenuation gives out**: no more than a parent that verifies, numbered next. -/
theorem attenuate_issues {g : Guard} {parent cap : Capability} {grants : Option (Finset Str)}
    {lease : Option ℤ} {o : Outcome} (h : (g.attenuate parent grants lease).1 = .ok o)
    (hcap : o.capability = some cap) : cap.IsSealed ∧ cap.capId = capId (g.n + 1) ∧
      (g.attenuate parent grants lease).2.n = g.n + 1 ∧ Narrows g parent cap := by
  unfold Guard.attenuate at h ⊢
  cases hverify : g.verify (some parent) with
  | error e =>
    rw [hverify] at h
    cases h
  | ok valid =>
    rw [hverify] at h
    cases valid with
    | false =>
      cases h
      cases hcap
    | true =>
      dsimp only at h ⊢
      split_ifs at h ⊢ with himplied hexpiry
      · cases h
        cases hcap
      -- both checks are passed: what is asked for is implied, and the lease is not longer
      · obtain ⟨hissue, hn⟩ := granted_eq_ok h hcap
        obtain ⟨hsealed, hid, hsubject, hgrants, hresource, hoperation, hexp, hepoch⟩ :=
          issue_eq_ok hissue
        rw [hn, issue_snd]
        refine ⟨hsealed, hid, rfl, hverify, hsubject, fun x hx => ?_, hresource, hoperation,
          hexp.trans_le (not_lt.mp hexpiry), hepoch⟩
        rw [hgrants, mem_sorted] at hx
        exact himplied x hx
      · cases h
        cases hcap

theorem request_eq_mint {g : Guard} {p : Payload} {q : MintArgs} (h : p.mints = some q) :
    g.request p = g.mint q.subject q.grants q.resource q.operation q.lease := by
  unfold Payload.mints at h
  unfold Guard.request
  split_ifs at h ⊢ with hextra
  split at h
  · rename_i hsubject hgrants hresource
    cases h
    rw [hsubject, hgrants, hresource]
  · cases h

theorem request_of_mints_none {g : Guard} {p : Payload} (h : p.mints = none) {o : Outcome}
    (ho : (g.request p).1 = .ok o) : o.capability = none := by
  unfold Payload.mints at h
  unfold Guard.request at ho
  split_ifs at h ho with hextra
  · cases ho
    rfl
  · obtain ⟨subject, grants, resource, operation, lease, extra⟩ := p
    cases subject <;> cases grants <;> cases resource <;> first | cases ho | cases h

/-- **What gives out a capability**: a mint of what the policy allows, or an attenuation of a
    parent that verifies. -/
theorem issues_cases {g : Guard} {cmd : Command} {cap : Capability} (h : Issues g cmd cap) :
    cap.IsSealed ∧ cap.capId = capId (g.n + 1) ∧ (guard.next g cmd).n = g.n + 1 ∧
      ((∃ q, cmd.mints = some q ∧ Minted g q cap) ∨
        ∃ parent grants lease, cmd = .attenuate parent grants lease ∧ Narrows g parent cap) := by
  have hnext : guard.next g cmd = (g.step cmd).2 := rfl
  obtain ⟨o, ho, hcap⟩ := h
  rw [hnext]
  cases cmd with
  | grantPolicy subject resource grants => cases ho
  | tick n => cases ho
  | mint subject grants resource operation lease =>
    obtain ⟨hsealed, hid, hn, hminted⟩ :=
      mint_issues (q := ⟨subject, grants, resource, operation, lease⟩) (eq_ok_of_outcomeOf ho) hcap
    exact ⟨hsealed, hid, hn, .inl ⟨_, rfl, hminted⟩⟩
  | attenuate parent grants lease =>
    obtain ⟨hsealed, hid, hn, hnarrows⟩ := attenuate_issues (eq_ok_of_outcomeOf ho) hcap
    exact ⟨hsealed, hid, hn, .inr ⟨parent, grants, lease, rfl, hnarrows⟩⟩
  | revoke capId => cases ho
  | revokeAll =>
    rw [Guard.step] at ho
    cases hreply : (g.revokeAll).1 with
    | error e =>
      rw [hreply] at ho
      cases ho
    | ok u =>
      rw [hreply] at ho
      cases ho
  -- what is exercised gives nothing out
  | reveal found value =>
    rw [(reveal_cases (eq_ok_of_outcomeOf ho)).1] at hcap
    cases hcap
  | declassify found value =>
    rw [(declassify_cases (eq_ok_of_outcomeOf ho)).1] at hcap
    cases hcap
  | invoke found tool resource operation =>
    rw [(invoke_cases (eq_ok_of_outcomeOf ho)).1] at hcap
    cases hcap
  -- a request is a mint, or raises
  | request p =>
    cases hmints : p.mints with
    | none =>
      rw [request_of_mints_none hmints (eq_ok_of_outcomeOf ho)] at hcap
      cases hcap
    | some q =>
      have hrequest := request_eq_mint (g := g) hmints
      have hminted := eq_ok_of_outcomeOf ho
      rw [hrequest] at hminted
      obtain ⟨hsealed, hid, hn, hminted⟩ := mint_issues hminted hcap
      rw [Guard.step, outcomeOf, hrequest]
      exact ⟨hsealed, hid, hn, .inl ⟨q, hmints, hminted⟩⟩
  | restart => cases ho

/-!
## Ids

The number of a capability counts those given out before it, so no two have one number; and the id
is the number, padded with zeros.
-/

omit [Runtime] in
/-- **Ids of different numbers differ.** The number is read back from the id: leading zeros count
    for nothing. -/
theorem capId_injective : Function.Injective capId := by
  have hvalue : ∀ n : ℕ, Nat.ofDigits 10
      (((capId n).drop 4).reverse.map fun c => c.val - 0x30) = n := by
    intro n
    have hdrop : (capId n).drop 4 =
        List.replicate (4 - (ofNat n).length) (CodePoint.ofChar '0') ++ ofNat n := by
      rw [capId, List.append_assoc]
      rfl
    rw [hdrop, List.reverse_append, List.reverse_replicate, List.map_append, List.map_replicate]
    exact (Nat.ofDigits_append_replicate_zero _).trans (ofDigits_ofNat n)
  intro n m h
  rw [← hvalue n, h, hvalue m]

/-- **No two capabilities that are given out have one id**, whatever happens between them. The id
    is the number of capabilities so far, which only grows, and a number is read back from its id.
    -/
theorem capId_ne_of_issues {pre mid : List Command} {i j : Command} {cap cap' : Capability}
    (hi : Issues (guard.after pre) i cap)
    (hj : Issues (guard.after (pre ++ i :: mid)) j cap') : cap.capId ≠ cap'.capId := by
  obtain ⟨_, hid, hn, _⟩ := issues_cases hi
  obtain ⟨_, hid', _, _⟩ := issues_cases hj
  have hafter : guard.after (pre ++ i :: mid) = guard.run (guard.next (guard.after pre) i) mid := by
    rw [Machine.after_append, Machine.run_cons]
  have hle := (run_rule (guard.next (guard.after pre) i) mid).2.2.2
  rw [← hafter, hn] at hle
  rw [hid, hid']
  intro h
  have hsame := capId_injective h
  omega

/-!
## Seals

From the seal to the mint. A capability that verifies was given out in the run, because its seal
was; whatever was given out has a parent that verified, and so was given out before. The induction
over the run ends at a mint.
-/

/-- The capability was given out in the run. -/
def Issued (is : List Command) (cap : Capability) : Prop :=
  ∃ pre i post, is = pre ++ i :: post ∧ Issues (guard.after pre) i cap

/-- The capability that is presented. -/
def Command.presents : Command → Option Capability
  | .attenuate cap _ _ => some cap
  | .reveal cap _ => cap
  | .declassify cap _ => cap
  | .invoke cap _ _ _ => cap
  | _ => none

/-- All texts of the capability but its seal are of valid Unicode. -/
def Capability.Scalar (cap : Capability) : Prop :=
  Encodable cap.capId ∧ Encodable cap.subject ∧ (∀ x ∈ cap.grants, Encodable x) ∧
    Encodable cap.resource ∧ Encodable cap.operation

/-- The texts of what is asked to be minted are of valid Unicode. -/
def MintArgs.Scalar (q : MintArgs) : Prop :=
  Encodable q.subject ∧ (∀ x ∈ q.grants, Encodable x) ∧ Encodable q.resource ∧
    Encodable q.operation

/-- Seals cannot be made up: one that is presented, and is that of the engine, was given out before,
    and HMAC does not collide on what it is over. And all texts are of valid Unicode. -/
structure Unforged (is : List Command) : Prop where
  presented : ∀ cmd ∈ is, ∀ cap, cmd.presents = some cap → cap.Scalar
  minted : ∀ cmd ∈ is, ∀ q, cmd.mints = some q → q.Scalar
  held : ∀ pre i post cap, is = pre ++ i :: post → i.presents = some cap → cap.IsSealed →
    ∃ given, Issued pre given ∧ given.«seal» = cap.«seal»
  apart : ∀ cmd ∈ is, ∀ cap given, cmd.presents = some cap → Issued is given →
    mac engineKey given.text = mac engineKey cap.text → given.text = cap.text

omit [Runtime] in
theorem encodable_capId (n : ℕ) : Encodable (capId n) := by
  have hzeros : Encodable (List.replicate (4 - (ofNat n).length) (CodePoint.ofChar '0')) := by
    intro c hc
    rw [List.eq_of_mem_replicate hc]
    decide
  rw [capId]
  exact encodable_append.mpr ⟨encodable_append.mpr ⟨encodable_lit _, hzeros⟩, encodable_ofNat n⟩

omit [Runtime] in
theorem encodable_of_implied {gs : List Str} {x : Str} (hgs : ∀ g ∈ gs, Encodable g)
    (h : grantImplied gs x = true) : Encodable x := by
  unfold grantImplied at h
  cases hlevel : readLevel? x with
  | none =>
    rw [hlevel] at h
    exact hgs x (of_decide_eq_true h)
  | some level =>
    unfold readLevel? at hlevel
    split_ifs at hlevel with hread
    obtain ⟨label, rfl⟩ := List.isPrefixOf_iff_prefix.mp hread
    have hmem : label ∈ levels := by
      have hsome : (levels.idxOf? label).isSome = true := by
        rw [level?, List.drop_left'] at hlevel
        · rw [hlevel]
          rfl
        · rfl
      exact List.isSome_idxOf?.mp hsome
    refine encodable_append.mpr ⟨encodable_lit _, ?_⟩
    have hlevels : ∀ l ∈ levels, Encodable l := by
      simp only [levels, List.forall_mem_cons]
      exact ⟨encodable_lit _, encodable_lit _, encodable_lit _, List.forall_mem_nil _⟩
    exact hlevels label hmem

omit [Runtime] in
theorem printable_parts {cap : Capability} (h : cap.Scalar)
    (hints : printsInts (list cap.parts) = true) : Printable (list cap.parts) := by
  obtain ⟨hid, hsubject, hgrants, hresource, hoperation⟩ := h
  rw [printsInts_parts] at hints
  exact ⟨encodable_lit _, hid, hsubject, printable_strs hgrants, hresource, hoperation, hints.1,
    hints.2, trivial⟩

omit [Runtime] in
/-- What a seal is over is the rest of the capability, so two with one text and one seal are one. -/
theorem eq_of_text {cap given : Capability} (hcap : Printable (list cap.parts))
    (hgiven : Printable (list given.parts)) (h : given.text = cap.text)
    (hseal : given.«seal» = cap.«seal») : given = cap := by
  have hcanonical := (List.cons.inj (List.append_cancel_left h)).2
  have hparts := canonical_inj hgiven hcap hcanonical
  have hstrs : ∀ items : List Str, sortItems (items.map str) = items.map str :=
    fun items => list.inj (sortKeys_strs items)
  simp only [Capability.parts, sortKeys, sortItems, hstrs, list.injEq, List.cons.injEq, str.injEq,
    int.injEq, true_and, and_true] at hparts
  obtain ⟨hid, hsubject, hgrants, hresource, hoperation, hexpiry, hepoch⟩ := hparts
  have hsame := List.map_injective_iff.mpr (fun _ _ h => str.inj h) hgrants
  obtain ⟨_, _, _, _, _, _, _, _⟩ := given
  obtain ⟨_, _, _, _, _, _, _, _⟩ := cap
  rw [Capability.mk.injEq]
  exact ⟨hid, hsubject, hsame, hresource, hoperation, hexpiry, hepoch, hseal⟩

/-- In a run that begins with `before` and then `mint`, the capability goes back to that command
    through every attenuation: it is what the command gave out, or it was given out, by a command
    that attenuates it, of a parent that goes back there in the run so far. -/
inductive Descends (before : List Command) (mint : Command) : List Command → Capability → Prop
  | minted {cap : Capability} (later : List Command) (issues : Issues (guard.after before) mint cap) :
      Descends before mint (before ++ mint :: later) cap
  | attenuated {pre : List Command} {parent cap : Capability} {grants : Option (Finset Str)}
      {lease : Option ℤ} (later : List Command) (descends : Descends before mint pre parent)
      (issues : Issues (guard.after pre) (.attenuate parent grants lease) cap) :
      Descends before mint (pre ++ .attenuate parent grants lease :: later) cap

/-- What is left of a mint of `q`, which the policy allowed after `before`. -/
structure Rooted (cap : Capability) (before : List Command) (q : MintArgs) : Prop where
  allowed : q.grants ⊆ (guard.after before).allowed q.subject q.resource
  subject : cap.subject = q.subject
  grants : ∀ x ∈ cap.grants, grantImplied (sorted q.grants) x = true
  resource : cap.resource = q.resource
  operation : cap.operation = q.operation
  expiry : cap.expiry ≤ (guard.after before).now + q.lease
  epoch : cap.epoch = (guard.after before).minEpoch

section Descends

variable {before is : List Command} {mint : Command} {cap : Capability} {q : MintArgs}

theorem Descends.split (h : Descends before mint is cap) : ∃ mid, is = before ++ mint :: mid := by
  induction h with
  | minted later issues => exact ⟨later, rfl⟩
  | attenuated later descends issues ih =>
    obtain ⟨mid, rfl⟩ := ih
    exact ⟨mid ++ _ :: later, by rw [List.append_assoc, List.cons_append]⟩

/-- Whatever comes later does not matter. -/
theorem Descends.append (h : Descends before mint is cap) (more : List Command) :
    Descends before mint (is ++ more) cap := by
  cases h with
  | minted later issues =>
    rw [List.append_assoc, List.cons_append]
    exact .minted (later ++ more) issues
  | attenuated later descends issues =>
    rw [List.append_assoc, List.cons_append]
    exact .attenuated (later ++ more) descends issues

theorem Rooted.narrows {g : Guard} {parent : Capability} (h : Rooted parent before q)
    (hcap : Narrows g parent cap) : Rooted cap before q where
  allowed := h.allowed
  subject := hcap.subject.trans h.subject
  grants x hx := grantImplied_trans h.grants (hcap.grants x hx)
  resource := hcap.resource.trans h.resource
  operation := hcap.operation.trans h.operation
  expiry := hcap.expiry.trans h.expiry
  epoch := hcap.epoch.trans h.epoch

/-- **No attenuation adds anything** to what was minted. -/
theorem Descends.rooted (h : Descends before mint is cap) (hmints : mint.mints = some q) :
    Rooted cap before q := by
  induction h with
  | minted later issues =>
    obtain ⟨_, _, _, ⟨found, hfound, hminted⟩ | ⟨_, _, _, hcmd, _⟩⟩ := issues_cases issues
    · obtain rfl : q = found := Option.some.inj (hmints.symm.trans hfound)
      exact ⟨hminted.allowed, hminted.subject, fun x hx => grantImplied_of_mem (hminted.grants ▸ hx),
        hminted.resource, hminted.operation, le_of_eq hminted.expiry, hminted.epoch⟩
    · -- an attenuation mints nothing
      rw [hcmd] at hmints
      cases hmints
  | attenuated later descends issues ih =>
    obtain ⟨_, _, _, ⟨_, hfound, _⟩ | ⟨_, _, _, hcmd, hnarrows⟩⟩ := issues_cases issues
    · cases hfound
    · cases hcmd
      exact ih.narrows hnarrows

end Descends

/-- What was given out in a run was given out before its last command, or by it. -/
theorem issued_concat {pre : List Command} {i : Command} {cap : Capability}
    (h : Issued (pre ++ [i]) cap) : Issued pre cap ∨ Issues (guard.after pre) i cap := by
  obtain ⟨before, j, later, hsplit, hissues⟩ := h
  rcases List.eq_nil_or_concat later with rfl | ⟨later, k, rfl⟩
  · obtain ⟨rfl, hlast⟩ := List.append_inj' hsplit rfl
    cases hlast
    exact .inr hissues
  · rw [List.concat_eq_append, ← List.cons_append, ← List.append_assoc] at hsplit
    obtain ⟨rfl, -⟩ := List.append_inj' hsplit rfl
    exact .inl ⟨before, j, later, rfl, hissues⟩

theorem Issued.append {pre : List Command} {cap : Capability} (h : Issued pre cap)
    (later : List Command) : Issued (pre ++ later) cap := by
  obtain ⟨before, i, mid, rfl, hissues⟩ := h
  exact ⟨before, i, mid ++ later, by rw [List.append_assoc, List.cons_append], hissues⟩

theorem Unforged.issued {is pre post : List Command} {i : Command} {cap : Capability}
    (h : Unforged is) (hsplit : is = pre ++ i :: post) (hpresents : i.presents = some cap)
    (hsealed : cap.IsSealed)
    (hgiven : ∀ given, Issued pre given → given.Scalar ∧ given.IsSealed) : Issued pre cap := by
  obtain ⟨given, hissued, hseal⟩ := h.held pre i post cap hsplit hpresents hsealed
  obtain ⟨hscalar, hsealed'⟩ := hgiven given hissued
  have hi : i ∈ is := hsplit ▸ List.mem_append_right _ List.mem_cons_self
  have hmac : mac engineKey given.text = mac engineKey cap.text := by
    rw [hsealed'.2, hsealed.2, hseal]
  have htext := h.apart i hi cap given hpresents (hsplit ▸ hissued.append _) hmac
  rw [← eq_of_text (printable_parts (h.presented i hi cap hpresents) hsealed.1)
    (printable_parts hscalar hsealed'.1) htext hseal]
  exact hissued

/-- **Whatever is given out goes back to a mint.** The induction is on the run: a parent has to
    verify where it is attenuated, so it was given out before, and the induction hypothesis is
    about it. -/
theorem descends_of_issued {is : List Command} (h : Unforged is) {pre : List Command} :
    ∀ post, is = pre ++ post → ∀ cap, Issued pre cap → (cap.Scalar ∧ cap.IsSealed) ∧
      ∃ before mint q, mint.mints = some q ∧ Descends before mint pre cap := by
  induction pre using List.reverseRecOn with
  | nil =>
    intro post _ cap hissued
    obtain ⟨before, i, later, hsplit, _⟩ := hissued
    simp at hsplit
  | append_singleton pre i ih =>
    intro post hsplit cap hissued
    rw [List.append_assoc, List.singleton_append] at hsplit
    have hi : i ∈ is := hsplit ▸ List.mem_append_right _ List.mem_cons_self
    rcases issued_concat hissued with hold | hissues
    · obtain ⟨hgood, before, mint, q, hmints, hdescends⟩ := ih _ hsplit cap hold
      exact ⟨hgood, before, mint, q, hmints, hdescends.append [i]⟩
    obtain ⟨hsealed, hid, _, hcase⟩ := issues_cases hissues
    have hcapId : Encodable cap.capId := hid ▸ encodable_capId _
    rcases hcase with ⟨q, hmints, hminted⟩ | ⟨parent, grants, lease, rfl, hnarrows⟩
    · obtain ⟨hsubject, hgrants, hresource, hoperation⟩ := h.minted i hi q hmints
      refine ⟨⟨⟨hcapId, hminted.subject ▸ hsubject, fun x hx => ?_, hminted.resource ▸ hresource,
        hminted.operation ▸ hoperation⟩, hsealed⟩, pre, i, q, hmints, .minted [] hissues⟩
      rw [hminted.grants, mem_sorted] at hx
      exact hgrants x hx
    · -- the parent was given out before, and goes back to a mint itself
      have hparent := h.issued hsplit rfl (verify_iff.mp hnarrows.verifies).1
        fun given hgiven => (ih _ hsplit given hgiven).1
      obtain ⟨⟨⟨_, hsubject, hgrants, hresource, hoperation⟩, _⟩, before, mint, q, hmints,
        hdescends⟩ := ih _ hsplit parent hparent
      exact ⟨⟨⟨hcapId, hnarrows.subject ▸ hsubject,
        fun x hx => encodable_of_implied hgrants (hnarrows.grants x hx),
        hnarrows.resource ▸ hresource, hnarrows.operation ▸ hoperation⟩, hsealed⟩, before, mint, q,
        hmints, .attenuated [] hdescends hissues⟩

/-!
## What is let happen

The parts together: what is let happen is let happen to a capability that verifies, which goes
back to a mint, whose grants imply what is exercised.
-/

/-- The resource that a capability is exercised on. -/
def Command.exercisedOn : Command → Option Str
  | .reveal _ value => some value.resource
  | .declassify _ value => some value.resource
  | .invoke _ _ resource _ => some resource
  | _ => none

/-- What is exercised is among the grants. -/
def Command.GrantedBy (grants : List Str) : Command → Prop
  | .reveal _ value => ∃ level, level? value.label = some level ∧ (level : ℤ) ≤ readCeiling grants
  | .declassify _ _ => lit "declassify" ∈ grants
  | .invoke _ tool _ _ => lit "tool:" ++ tool ∈ grants
  | _ => False

/-- The operation that a tool is called for. -/
def Command.calledFor : Command → Option Str
  | .invoke _ _ _ operation => some operation
  | _ => none

omit [Runtime] in
/-- What is exercised under implied grants is granted at the root. A grant that is none to read is
    implied only by itself. -/
theorem Command.GrantedBy.trans {cmd : Command} {root grants : List Str}
    (hroot : ∀ x ∈ grants, grantImplied root x = true) (h : cmd.GrantedBy grants) :
    cmd.GrantedBy root := by
  have hatomic : ∀ {x}, readLevel? x = none → x ∈ grants → x ∈ root := by
    intro x hx hmem
    have himplied := hroot x hmem
    rw [grantImplied, hx] at himplied
    exact of_decide_eq_true himplied
  cases cmd with
  | reveal cap value =>
    obtain ⟨level, hlevel, hle⟩ := h
    obtain ⟨x, hx, held, hheld, hle'⟩ := le_readCeiling_iff.mp hle
    have himplied := hroot x hx
    rw [grantImplied, hheld] at himplied
    refine ⟨level, hlevel, ?_⟩
    exact (Int.ofNat_le.mpr hle').trans (of_decide_eq_true himplied)
  | declassify cap value => exact hatomic rfl h
  | invoke cap tool resource operation => exact hatomic rfl h
  | _ => exact h.elim

/-- What is let happen is let happen to a capability that verifies, bound to what it is for. -/
theorem exercised_cases {g : Guard} {cmd : Command} {resource : Str} {o : Outcome}
    (hcmd : cmd.exercisedOn = some resource) (h : (g.step cmd).1 = .ok (some o))
    (hok : o.ok = true) : ∃ cap, cmd.presents = some cap ∧ g.verify (some cap) = .ok true ∧
      cap.resource = resource ∧ cmd.GrantedBy cap.grants ∧
      ∀ operation, cmd.calledFor = some operation → cap.operation = operation := by
  cases cmd with
  | reveal cap value =>
    cases hcmd
    obtain ⟨_, ⟨hfalse, _⟩ | ⟨held, level, hcap, hverify, hresource, hlevel, hle, _⟩⟩ :=
      reveal_cases (eq_ok_of_outcomeOf h)
    · rw [hok] at hfalse
      cases hfalse
    · exact ⟨held, hcap, hverify, hresource, ⟨level, hlevel, hle⟩, fun _ hop => by cases hop⟩
  | declassify cap value =>
    cases hcmd
    obtain ⟨_, hfalse | ⟨held, hcap, hverify, hresource, hgrant⟩⟩ := declassify_cases (eq_ok_of_outcomeOf h)
    · rw [hok] at hfalse
      cases hfalse
    · exact ⟨held, hcap, hverify, hresource, hgrant, fun _ hop => by cases hop⟩
  | invoke cap tool resource operation =>
    cases hcmd
    obtain ⟨_, hfalse | ⟨held, hcap, hverify, hresource, hgrant, hoperation⟩⟩ :=
      invoke_cases (eq_ok_of_outcomeOf h)
    · rw [hok] at hfalse
      cases hfalse
    · refine ⟨held, hcap, hverify, hresource, hgrant, fun _ hop => ?_⟩
      cases hop
      exact hoperation
  | _ => cases hcmd

end Guard

/-!
## A tool, called under a capability

Two commands, by which the policy is told and the search is minted, and then the call of the tool
under what was minted. The capability goes back to the one mint there was.
-/

section Examples

attribute [local instance] cpython

/-- The search over the orders, for a while. -/
def searching : MintArgs where
  subject := lit "alice"
  grants := {lit "tool:search"}
  resource := lit "orders"
  operation := lit "op"
  lease := 10

/-- What the policy is told, for the mint to be allowed. -/
def MintArgs.allow (q : MintArgs) : Command := .grantPolicy q.subject q.resource q.grants

/-- The command that asks for it. -/
def MintArgs.mint (q : MintArgs) : Command :=
  .mint q.subject q.grants q.resource q.operation q.lease

/-- The mint is allowed, and nothing has happened yet but mints. -/
structure Ready (q : MintArgs) (g : Guard) : Prop where
  allowed : g.allowed q.subject q.resource = q.grants
  revoked : g.revoked = ∅
  minEpoch : g.minEpoch = 0
  now : g.now = 0

theorem ready_allow (q : MintArgs) : Ready q (guard.after [q.allow]) where
  allowed := allowed_grantPolicy Guard.new _ _ _
  revoked := rfl
  minEpoch := rfl
  now := rfl

theorem Ready.next {q : MintArgs} {g : Guard} (h : Ready q g) : Ready q (guard.next g q.mint) := by
  have hnext : guard.next g q.mint = (g.step q.mint).2 := rfl
  have hkeeps : Keeps g (guard.next g q.mint) := by
    rw [hnext, MintArgs.mint, Guard.step, outcomeOf]
    exact keeps_mint g _ _ _ _ _
  refine ⟨?_, hkeeps.revoked.trans h.revoked, hkeeps.minEpoch.trans h.minEpoch,
    hkeeps.now.trans h.now⟩
  rw [Guard.allowed, hkeeps.policy]
  exact h.allowed

theorem Ready.issues {q : MintArgs} {g : Guard} (h : Ready q g) (hn : g.n + 1 ≤ 10)
    (hlease : q.lease.natAbs ≤ 10) : ∃ cap, Issues g q.mint cap := by
  apply exists_mint_issues (q := q) h.allowed.ge (lt_limit hn)
  · rw [h.now, zero_add]
    exact lt_limit hlease
  · rw [h.minEpoch]
    exact lt_limit (by decide)

theorem after_minted (q : MintArgs) : guard.after [q.allow, q.mint] =
    guard.next (guard.after [q.allow]) q.mint :=
  Machine.after_append [q.allow] [q.mint]

/-- The mint that follows the policy gives out what it asks for. -/
theorem issued_minted {q : MintArgs} (hlease : q.lease.natAbs ≤ 10) :
    ∃ cap, Issues (guard.after [q.allow]) q.mint cap := by
  have hn : (guard.after [q.allow]).n = 0 := rfl
  exact (ready_allow q).issues (by rw [hn]; decide) hlease

theorem verify_minted {q : MintArgs} (hlease : 0 < q.lease) {cap : Capability}
    (hcap : Issues (guard.after [q.allow]) q.mint cap) :
    Minted (guard.after [q.allow]) q cap ∧
      (guard.after [q.allow, q.mint]).verify (some cap) = .ok true := by
  obtain ⟨hsealed, _, _, ⟨found, hmints, hminted⟩ | ⟨_, _, _, hcmd, _⟩⟩ := issues_cases hcap
  case inr => cases hcmd
  cases hmints
  have hready : Ready q (guard.after [q.allow, q.mint]) := after_minted q ▸ (ready_allow q).next
  refine ⟨hminted, verify_iff.mpr ⟨hsealed, ?_, ?_, ?_⟩⟩
  · rw [hready.revoked]
    exact Finset.notMem_empty _
  · rw [hready.minEpoch, hminted.epoch]
    exact (ready_allow q).minEpoch.ge
  · rw [hready.now, hminted.expiry, (ready_allow q).now, zero_add]
    exact hlease

/-- The search is minted twice, under two ids. -/
theorem capId_ne_searching : ∃ cap cap', Issues (guard.after [searching.allow]) searching.mint cap ∧
    Issues (guard.after ([searching.allow] ++ searching.mint :: [])) searching.mint cap' ∧
      cap.capId ≠ cap'.capId := by
  obtain ⟨cap, hcap⟩ := issued_minted (q := searching) (by decide)
  have hn : (guard.next (guard.after [searching.allow]) searching.mint).n = 1 := (issues_cases hcap).2.2.1
  obtain ⟨cap', hcap'⟩ := (ready_allow searching).next.issues (by rw [hn]; decide) (by decide)
  rw [← after_minted] at hcap'
  exact ⟨cap, cap', hcap, hcap', capId_ne_of_issues hcap hcap'⟩

/-- The call that the capability is for. -/
def search (cap : Capability) : Command :=
  .invoke (some cap) (lit "search") searching.resource searching.operation

theorem eq_of_issued_search {cap given : Capability}
    (hcap : Issues (guard.after [searching.allow]) searching.mint cap)
    (h : Issued [searching.allow, searching.mint, search cap] given) :
    given = cap ∧ Issued [searching.allow, searching.mint] given := by
  -- neither the policy nor the call gives anything out
  have hsearch : ¬ Issues (guard.after [searching.allow, searching.mint]) (search cap) given := by
    intro hissues
    obtain ⟨_, _, _, ⟨_, hmints, _⟩ | ⟨_, _, _, hcmd, _⟩⟩ := issues_cases hissues
    · cases hmints
    · cases hcmd
  have hallow : ¬ Issues (guard.after []) searching.allow given := by
    intro hissues
    obtain ⟨_, _, _, ⟨_, hmints, _⟩ | ⟨_, _, _, hcmd, _⟩⟩ := issues_cases hissues
    · cases hmints
    · cases hcmd
  have hminted : Issued ([searching.allow, searching.mint] ++ [search cap]) given := h
  have hissued := (issued_concat hminted).resolve_right hsearch
  refine ⟨?_, hissued⟩
  have hallowed : Issued ([searching.allow] ++ [searching.mint]) given := hissued
  rcases issued_concat hallowed with hold | hissues
  · have hold' : Issued ([] ++ [searching.allow]) given := hold
    rcases issued_concat hold' with hnone | hissues
    · obtain ⟨_, _, _, hsplit, _⟩ := hnone
      simp at hsplit
    · exact absurd hissues hallow
  · obtain ⟨o, ho, hgiven⟩ := hissues
    obtain ⟨o', ho', hcap'⟩ := hcap
    rw [ho] at ho'
    cases ho'
    rw [hgiven] at hcap'
    cases hcap'
    rfl

/-- Nobody made a seal up: the one capability that is presented is the one that was given out. -/
theorem unforged_search {cap : Capability}
    (hcap : Issues (guard.after [searching.allow]) searching.mint cap) :
    Unforged [searching.allow, searching.mint, search cap] := by
  obtain ⟨_, hid, _, ⟨q, hmints, hminted⟩ | ⟨_, _, _, hcmd, _⟩⟩ := issues_cases hcap
  case inr => cases hcmd
  cases hmints
  have hgrants : ∀ x ∈ searching.grants, Encodable x := by
    intro x hx
    rw [Finset.mem_singleton.mp hx]
    exact encodable_lit _
  have hscalar : searching.Scalar :=
    ⟨encodable_lit _, hgrants, encodable_lit _, encodable_lit _⟩
  have hpresents : ∀ cmd ∈ [searching.allow, searching.mint, search cap], ∀ found,
      cmd.presents = some found → found = cap := by
    intro cmd hcmd found hfound
    simp only [List.mem_cons, List.not_mem_nil, or_false] at hcmd
    rcases hcmd with rfl | rfl | rfl
    · cases hfound
    · cases hfound
    · cases hfound
      rfl
  refine ⟨?_, ?_, ?_, ?_⟩
  · intro cmd hcmd found hfound
    rw [hpresents cmd hcmd found hfound]
    refine ⟨hid ▸ encodable_capId _, hminted.subject ▸ hscalar.1, fun x hx => ?_,
      hminted.resource ▸ hscalar.2.2.1, hminted.operation ▸ hscalar.2.2.2⟩
    rw [hminted.grants, mem_sorted] at hx
    exact hgrants x hx
  · intro cmd hcmd q hq
    simp only [List.mem_cons, List.not_mem_nil, or_false] at hcmd
    rcases hcmd with rfl | rfl | rfl
    · cases hq
    · cases hq
      exact hscalar
    · cases hq
  · intro pre i post found hsplit hfound _
    have hi : i ∈ [searching.allow, searching.mint, search cap] :=
      hsplit ▸ List.mem_append_right _ List.mem_cons_self
    rw [hpresents i hi found hfound]
    refine ⟨cap, ?_, rfl⟩
    -- what presents a capability comes last
    rcases pre with _ | ⟨a, pre⟩
    · cases hsplit
      cases hfound
    rcases pre with _ | ⟨b, pre⟩
    · cases hsplit
      cases hfound
    rcases pre with _ | ⟨c, pre⟩
    · cases hsplit
      exact ⟨[searching.allow], searching.mint, [], rfl, hcap⟩
    · have hlength := congrArg List.length hsplit
      simp at hlength
  · intro cmd hcmd found given hfound hgiven _
    rw [hpresents cmd hcmd found hfound, (eq_of_issued_search hcap hgiven).1]

end Examples

end CapabilityAdversarial

end AdversarialCognition
