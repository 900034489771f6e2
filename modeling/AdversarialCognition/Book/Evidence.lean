import AdversarialCognition.Book.Authority

/-!
# What the guard leaves behind

## The audit

The audit is a transcript: it can be written from the commands and the replies alone, in order,
and an outcome says truly whether it left anything there (`audit_of_transcript`). Two refusals
leave nothing, the parent that does not verify and the declassification that is not authorized;
nor does what raises.

The event of a revocation of all has the epoch in it that it begins, so the event counts itself;
what is carried along a transcript is the epoch before the command.

An event is here the list of arguments that are digested, and the audit has the digests. Nothing
is asked of them: that the digest of an event tells it from another would need that SHA-256 does
not collide.

## The texts

The texts that are guarded go nowhere but into the replies that reveal them (`outcomes_of_blank`):
two runs that differ in such texts alone leave one guard, its audit included, and get replies that
differ nowhere else. A text is blanked in the command and, where it was revealed, in the reply;
then the two runs are the same, step by step.
-/

namespace AdversarialCognition

namespace CapabilityAdversarial

open Py Py.Str Py.Json Book

/-!
## The audit

For each operation it is said what event its reply tells of, and shown that this is the event it
left. The epoch is the one thing an event needs that is not in the command or the reply, and it is
counted along the transcript.
-/

/-- The event of a mint, or of its denial. -/
def mintNoted (subject resource : Str) (o : Outcome) : List Json :=
  match o.capability with
  | some cap => auditParts "mint"
      [("cap_id", str cap.capId), ("subject", str subject), ("resource", str resource)]
  | none => auditParts "mint-denied" [("subject", str subject), ("resource", str resource)]

/-- The event of an attenuation. A parent that does not verify is told from the other refusals by
    the error. -/
def attenuateNoted (parent : Capability) (o : Outcome) : Option (List Json) :=
  match o.capability with
  | some derived => some (auditParts "attenuate"
      [("parent", str parent.capId), ("cap_id", str derived.capId)])
  | none =>
      if o.error = lit "permission-widened" then
        some (auditParts "attenuate-denied" [("reason", str (lit "widen"))])
      else if o.error = lit "lease-extended" then
        some (auditParts "attenuate-denied" [("reason", str (lit "extend"))])
      else none

/-- The event of a reveal: there always is one. -/
def revealNoted (cap : Option Capability) (value : SecureValue) (o : Outcome) : List Json :=
  if o.error = lit "unauthorized" then
    auditParts "reveal-refused" [("resource", str value.resource)]
  else if o.error = lit "below-clearance" then
    auditParts "reveal-redacted" [("resource", str value.resource), ("label", str value.label)]
  else
    auditParts "reveal"
      [("cap_id", str (cap.elim [] (·.capId))), ("resource", str value.resource)]

/-- The event of a declassification, unless it was not authorized. -/
def declassifyNoted (cap : Option Capability) (value : SecureValue) (o : Outcome) :
    Option (List Json) :=
  if o.error = lit "unauthorized" then none
  else if o.error = lit "no-declassify-grant" then
    some (auditParts "declassify-refused" [("resource", str value.resource)])
  else
    some (auditParts "declassify"
      [("cap_id", str (cap.elim [] (·.capId))), ("resource", str value.resource)])

/-- The event of a call: each refusal has its own reason. -/
def invokeNoted (cap : Option Capability) (tool resource : Str) (o : Outcome) : List Json :=
  if o.error = lit "ambient-denied" then
    auditParts "invoke-denied" [("tool", str tool), ("reason", str (lit "no-capability"))]
  else if o.error = lit "cross-resource" then
    auditParts "invoke-denied" [("tool", str tool), ("reason", str (lit "resource"))]
  else if o.error = lit "confused-deputy" then
    auditParts "invoke-denied" [("tool", str tool), ("reason", str (lit "confused-deputy"))]
  else
    auditParts "invoke"
      [("cap_id", str (cap.elim [] (·.capId))), ("tool", str tool), ("resource", str resource)]

/-- The event of a request: of what it smuggles, or of what it asks to be minted. -/
def requestNoted (p : Payload) (o : Outcome) : Option (List Json) :=
  if p.extra ≠ ∅ then
    some (auditParts "wire-rejected" [("fields", list ((sorted p.extra).map str))])
  else p.mints.map fun q => mintNoted q.subject q.resource o

/-- The event of a command that had this outcome. -/
def outcomeNoted (o : Outcome) : Command → Option (List Json)
  | .mint subject _ resource _ _ => some (mintNoted subject resource o)
  | .attenuate cap _ _ => attenuateNoted cap o
  | .reveal cap value => some (revealNoted cap value o)
  | .declassify cap value => declassifyNoted cap value o
  | .invoke cap tool resource _ => some (invokeNoted cap tool resource o)
  | .request p => requestNoted p o
  | _ => none

/-- The event of a command that has no outcome, in the epoch. -/
def commandNoted (epoch : ℤ) : Command → Option (List Json)
  | .revoke capId => some (auditParts "revoke" [("cap_id", str capId)])
  | .revokeAll => some (auditParts "revoke-all" [("epoch", int (epoch + 1))])
  | _ => none

/-- **The event of a command, as its reply tells it.** What raises leaves none. -/
def noted (epoch : ℤ) (cmd : Command) (reply : Reply) : Option (List Json) :=
  match reply with
  | .error _ => none
  | .ok (some o) => outcomeNoted o cmd
  | .ok none => commandNoted epoch cmd

section Guard

variable [Runtime]

/-- The event is noted, and the outcome says so; what raises notes none. -/
structure Noted (g : Guard) (event : Outcome → Option (List Json))
    (r : Except Fault Outcome × Guard) : Prop where
  raised : ∀ e, r.1 = .error e → r.2.audit = g.audit
  audit : ∀ o, r.1 = .ok o → r.2.audit = g.audit ++ (event o).toList.map (hashed domain)
  present : ∀ o, r.1 = .ok o → o.auditPresent = (event o).isSome

variable {g : Guard} {event : Outcome → Option (List Json)}

theorem noted_error (e : Fault) : Noted g event (.error e, g) where
  raised _ _ := rfl
  audit _ h := by cases h
  present _ h := by cases h

theorem noted_silent {o : Outcome} (hevent : event o = none) (hpresent : o.auditPresent = false) :
    Noted g event (.ok o, g) where
  raised _ h := by cases h
  audit _ h := by
    cases h
    rw [hevent, Option.toList_none, List.map_nil, List.append_nil]
  present _ h := by
    cases h
    rw [hevent, hpresent, Option.isSome_none]

theorem noted_audited {g' : Guard} {o : Outcome} {kind : String} {fields : List (String × Json)}
    (hg' : g'.audit = g.audit) (hevent : event o = some (auditParts kind fields))
    (hpresent : o.auditPresent = true) : Noted g event (.ok o, g'.audited kind fields) where
  raised _ h := by cases h
  audit _ h := by
    cases h
    rw [hevent, Option.toList_some, List.map_singleton, Guard.audited, hg']
  present _ h := by
    cases h
    rw [hevent, hpresent, Option.isSome_some]

/-- What is issued is noted with the capability that was issued. -/
theorem noted_granted {issued : Except Fault Capability × Guard} {kind : String}
    {fields : Capability → List (String × Json)} (hissued : issued.2.audit = g.audit)
    (hevent : ∀ o cap, o.capability = some cap → event o = some (auditParts kind (fields cap))) :
    Noted g event (Guard.granted issued kind fields) := by
  obtain ⟨reply, g'⟩ := issued
  cases reply with
  | error e =>
    rw [Guard.granted]
    refine ⟨fun _ _ => hissued, ?_, ?_⟩
    · intro o h
      cases h
    · intro o h
      cases h
  | ok cap =>
    rw [Guard.granted]
    exact noted_audited hissued (hevent _ cap rfl) rfl

theorem audit_issue (g : Guard) (subject : Str) (grants : Finset Str) (resource operation : Str)
    (expiry epoch : ℤ) :
    (g.issue subject grants resource operation expiry epoch).2.audit = g.audit := by
  rw [issue_snd]

theorem noted_mint (g : Guard) (subject : Str) (grants : Finset Str) (resource operation : Str)
    (lease : ℤ) : Noted g (fun o => some (mintNoted subject resource o))
      (g.mint subject grants resource operation lease) := by
  unfold Guard.mint
  split_ifs
  · apply noted_granted (audit_issue _ _ _ _ _ _ _)
    intro o cap hcap
    rw [mintNoted, hcap]
  · exact noted_audited rfl rfl rfl

theorem noted_attenuate (g : Guard) (cap : Capability) (grants : Option (Finset Str))
    (lease : Option ℤ) : Noted g (attenuateNoted cap) (g.attenuate cap grants lease) := by
  unfold Guard.attenuate
  cases g.verify (some cap) with
  | error e => exact noted_error e
  | ok valid =>
    cases valid with
    | false => exact noted_silent rfl rfl
    | true =>
      dsimp only
      split_ifs
      · exact noted_audited rfl rfl rfl
      · apply noted_granted (audit_issue _ _ _ _ _ _ _)
        intro o derived hcap
        rw [attenuateNoted, hcap]
      · exact noted_audited rfl rfl rfl

theorem noted_reveal (g : Guard) (cap : Option Capability) (value : SecureValue) :
    Noted g (fun o => some (revealNoted cap value o)) (g.reveal cap value) := by
  unfold Guard.reveal
  cases hbound : g.bound cap value.resource with
  | error e => exact noted_error e
  | ok held =>
    cases held with
    | none => exact noted_audited rfl rfl rfl
    | some held =>
      obtain ⟨rfl, -⟩ := bound_iff.mp hbound
      dsimp only
      cases level? value.label with
      | none => exact noted_error _
      | some level =>
        dsimp only
        split_ifs
        · exact noted_audited rfl rfl rfl
        · exact noted_audited rfl rfl rfl

theorem noted_declassify (g : Guard) (cap : Option Capability) (value : SecureValue) :
    Noted g (declassifyNoted cap value) (g.declassify cap value) := by
  unfold Guard.declassify
  cases hbound : g.bound cap value.resource with
  | error e => exact noted_error e
  | ok held =>
    cases held with
    | none => exact noted_silent rfl rfl
    | some held =>
      obtain ⟨rfl, -⟩ := bound_iff.mp hbound
      dsimp only
      split_ifs
      · exact noted_audited rfl rfl rfl
      · exact noted_audited rfl rfl rfl

theorem noted_invoke (g : Guard) (cap : Option Capability) (tool resource operation : Str) :
    Noted g (fun o => some (invokeNoted cap tool resource o))
      (g.invoke cap tool resource operation) := by
  unfold Guard.invoke
  cases hverify : g.verify cap with
  | error e => exact noted_error e
  | ok valid =>
    cases valid with
    | false => exact noted_audited rfl rfl rfl
    | true =>
      cases cap with
      | none => exact noted_audited rfl rfl rfl
      | some held =>
        dsimp only
        split_ifs
        · exact noted_audited rfl rfl rfl
        · exact noted_audited rfl rfl rfl
        · exact noted_audited rfl rfl rfl

/-- What asks for nothing that could be minted raises, unless it is rejected for what it smuggles. -/
theorem request_raises {p : Payload} (g : Guard) (hextra : ¬ p.extra ≠ ∅) (h : p.mints = none) :
    ∃ e, g.request p = (.error e, g) := by
  rw [Payload.mints, if_neg hextra] at h
  rw [Guard.request, if_neg hextra]
  obtain ⟨subject, grants, resource, operation, lease, extra⟩ := p
  cases subject with
  | none => exact ⟨_, rfl⟩
  | some subject =>
    cases grants with
    | none => exact ⟨_, rfl⟩
    | some grants =>
      cases resource with
      | none => exact ⟨_, rfl⟩
      | some resource => cases h

theorem noted_request (g : Guard) (p : Payload) : Noted g (requestNoted p) (g.request p) := by
  by_cases hextra : p.extra ≠ ∅
  · rw [Guard.request, if_pos hextra]
    refine noted_audited rfl ?_ rfl
    rw [requestNoted, if_pos hextra]
  · cases hmints : p.mints with
    | none =>
      obtain ⟨e, he⟩ := request_raises g hextra hmints
      rw [he]
      exact noted_error e
    | some q =>
      have hevent : requestNoted p = fun o => some (mintNoted q.subject q.resource o) := by
        funext o
        rw [requestNoted, if_neg hextra, hmints, Option.map_some]
      rw [request_eq_mint hmints, hevent]
      exact noted_mint g q.subject q.grants q.resource q.operation q.lease

/-- The step leaves the event, and its outcome says so. -/
structure Told (g : Guard) (cmd : Command) (r : Reply × Guard) : Prop where
  audit : r.2.audit = g.audit ++ (noted g.minEpoch cmd r.1).toList.map (hashed domain)
  present : ∀ o, r.1 = .ok (some o) → o.auditPresent = (noted g.minEpoch cmd r.1).isSome

theorem Noted.told {cmd : Command} {r : Except Fault Outcome × Guard}
    (h : Noted g (fun o => outcomeNoted o cmd) r) : Told g cmd (outcomeOf r) := by
  obtain ⟨reply, g'⟩ := r
  cases reply with
  | error e =>
    refine ⟨?_, fun _ ho => by cases ho⟩
    show g'.audit = g.audit ++ []
    rw [List.append_nil]
    exact h.raised e rfl
  | ok found =>
    refine ⟨h.audit found rfl, fun o ho => ?_⟩
    cases ho
    exact h.present found rfl

/-- A revocation of all raises after the epoch was counted, or leaves its event. -/
theorem revokeAll_cases (g : Guard) :
    (∃ e, g.revokeAll = (.error e, { g with minEpoch := g.minEpoch + 1 })) ∨
      g.revokeAll = (.ok (), { g with
        minEpoch := g.minEpoch + 1
        audit := g.audit ++
          [hashed domain (auditParts "revoke-all" [("epoch", int (g.minEpoch + 1))])] }) := by
  unfold Guard.revokeAll
  dsimp only
  split
  · exact .inl ⟨_, rfl⟩
  · rename_i hash hdigest
    rw [(digest_eq_ok_iff.mp hdigest).2]
    exact .inr rfl

theorem told_revokeAll (g : Guard) : Told g .revokeAll (g.step .revokeAll) := by
  rw [Guard.step]
  rcases revokeAll_cases g with ⟨e, he⟩ | hok
  · rw [he]
    exact ⟨(List.append_nil _).symm, fun _ ho => by cases ho⟩
  · rw [hok]
    exact ⟨rfl, fun _ ho => by cases ho⟩

/-- **Every step leaves the event that its reply tells of.** -/
theorem told_step (g : Guard) (cmd : Command) : Told g cmd (g.step cmd) := by
  cases cmd with
  | grantPolicy subject resource grants =>
    exact ⟨(List.append_nil _).symm, fun _ ho => by cases ho⟩
  | tick n => exact ⟨(List.append_nil _).symm, fun _ ho => by cases ho⟩
  | mint subject grants resource operation lease =>
    rw [Guard.step]
    exact Noted.told (noted_mint g subject grants resource operation lease)
  | attenuate cap grants lease =>
    rw [Guard.step]
    exact Noted.told (noted_attenuate g cap grants lease)
  | revoke capId => exact ⟨rfl, fun _ ho => by cases ho⟩
  | revokeAll => exact told_revokeAll g
  | reveal cap value =>
    rw [Guard.step]
    exact Noted.told (noted_reveal g cap value)
  | declassify cap value =>
    rw [Guard.step]
    exact Noted.told (noted_declassify g cap value)
  | invoke cap tool resource operation =>
    rw [Guard.step]
    exact Noted.told (noted_invoke g cap tool resource operation)
  | request p =>
    rw [Guard.step]
    exact Noted.told (noted_request g p)
  | restart => exact ⟨(List.append_nil _).symm, fun _ ho => by cases ho⟩

/-- The events of a transcript, in the epoch. -/
def written (epoch : ℤ) : List (Command × Reply) → List (List Json)
  | [] => []
  | (cmd, reply) :: rest => (noted epoch cmd reply).toList ++ written (epoch + cmd.ends) rest

theorem audit_run (g : Guard) (is : List Command) :
    (guard.run g is).audit =
      g.audit ++ (written g.minEpoch (guard.outcomes g is)).map (hashed domain) := by
  induction is generalizing g with
  | nil => exact (List.append_nil _).symm
  | cons i is ih =>
    have hnext : (guard.next g i).audit = g.audit ++
        (noted g.minEpoch i (guard.step g i).1).toList.map (hashed domain) := (told_step g i).audit
    rw [Machine.run_cons, ih, Machine.outcomes, written, hnext, (next_rule g i).2.1, List.map_append,
      List.append_assoc]

/-- **The audit is the transcript's**: from the commands and the replies alone, the epoch being the
    count of the times that all was revoked. And an outcome says that the audit has it, where the
    audit has it. -/
theorem audit_of_transcript (is : List Command) :
    (guard.after is).audit = (written 0 (guard.outcomes Guard.new is)).map (hashed domain) ∧
      ∀ p ∈ guard.trace is, ∀ o, (guard.step p.1 p.2).1 = .ok (some o) →
        (o.auditPresent = true ↔ (guard.next p.1 p.2).audit ≠ p.1.audit) := by
  refine ⟨audit_run Guard.new is, ?_⟩
  intro p _ o ho
  have htold := told_step p.1 p.2
  have haudit : (guard.next p.1 p.2).audit = p.1.audit ++
      (noted p.1.minEpoch p.2 (p.1.step p.2).1).toList.map (hashed domain) := htold.audit
  rw [htold.present o ho, haudit]
  cases noted p.1.minEpoch p.2 (p.1.step p.2).1 with
  | none => simp
  | some event => simp

/-!
## The texts

Two runs that differ in guarded texts are compared by blanking: the step of a blanked command is
the step of the command, with a reply that is blanked. So both runs are the run of one list of
commands.
-/

/-- The command, the text that it is about left out. -/
def Command.blank : Command → Command
  | .reveal cap value => .reveal cap { value with cleartext := [] }
  | .declassify cap value => .declassify cap { value with cleartext := [] }
  | cmd => cmd

/-- The reply, the text that it reveals left out. -/
def Command.blankReply (reply : Reply) : Command → Reply
  | .reveal _ _ => reply.map fun found => found.map fun o =>
      if o.ok then { o with revealed := some [] } else o
  | _ => reply

theorem reveal_text (g : Guard) (cap : Option Capability) (value : SecureValue) (text : Str) :
    g.reveal cap { value with cleartext := text } =
      ((g.reveal cap value).1.map fun o => if o.ok then { o with revealed := some text } else o,
        (g.reveal cap value).2) := by
  unfold Guard.reveal
  dsimp only
  cases g.bound cap value.resource with
  | error e => rfl
  | ok held =>
    cases held with
    | none => rfl
    | some held =>
      dsimp only
      cases level? value.label with
      | none => rfl
      | some level =>
        dsimp only
        split_ifs
        · rfl
        · rfl

theorem declassify_text (g : Guard) (cap : Option Capability) (value : SecureValue) (text : Str) :
    g.declassify cap { value with cleartext := text } = g.declassify cap value := by
  unfold Guard.declassify
  rfl

omit [Runtime] in
theorem outcomeOf_map (r : Except Fault Outcome × Guard) (f : Outcome → Outcome) :
    outcomeOf (r.1.map f, r.2) = ((outcomeOf r).1.map (Option.map f), (outcomeOf r).2) := by
  obtain ⟨reply, g⟩ := r
  cases reply with
  | error e => rfl
  | ok o => rfl

/-- A step of the command without its text is the step, its reply without the text. -/
theorem step_blank (g : Guard) (cmd : Command) :
    g.step cmd.blank = (cmd.blankReply (g.step cmd).1, (g.step cmd).2) := by
  cases cmd with
  | reveal cap value =>
    rw [Command.blank, Command.blankReply, Guard.step, Guard.step, reveal_text, outcomeOf_map]
  | declassify cap value =>
    rw [Command.blank, Guard.step, Guard.step, declassify_text]
    exact Prod.mk.eta.symm
  | _ => exact Prod.mk.eta.symm

theorem run_blank (g : Guard) (is : List Command) :
    guard.run g (is.map Command.blank) = guard.run g is ∧
      guard.outcomes g (is.map Command.blank) =
        (guard.outcomes g is).map fun p => (p.1.blank, p.1.blankReply p.2) := by
  induction is generalizing g with
  | nil => exact ⟨rfl, rfl⟩
  | cons i is ih =>
    have hstep : guard.step g i.blank = (i.blankReply (guard.step g i).1, (guard.step g i).2) :=
      step_blank g i
    have hnext : guard.next g i.blank = guard.next g i := by
      rw [Machine.next, hstep, Machine.next]
    obtain ⟨hrun, houtcomes⟩ := ih (guard.next g i)
    rw [List.map_cons, Machine.run_cons, Machine.run_cons, Machine.outcomes, Machine.outcomes,
      List.map_cons, hnext, hrun, houtcomes, hstep]
    exact ⟨rfl, rfl⟩

/-- **Of the guarded texts, the guard tells nothing else**: two runs that differ in them alone leave
    one guard, its audit included, and the replies differ only in the texts that are revealed. -/
theorem outcomes_of_blank {is js : List Command}
    (h : is.map Command.blank = js.map Command.blank) :
    guard.after is = guard.after js ∧
      (guard.outcomes Guard.new is).map (fun p => (p.1.blank, p.1.blankReply p.2)) =
        (guard.outcomes Guard.new js).map fun p => (p.1.blank, p.1.blankReply p.2) := by
  obtain ⟨hrun, houtcomes⟩ := run_blank Guard.new is
  obtain ⟨hrun', houtcomes'⟩ := run_blank Guard.new js
  refine ⟨?_, ?_⟩
  · calc guard.after is = guard.run Guard.new (is.map Command.blank) := hrun.symm
      _ = guard.run Guard.new (js.map Command.blank) := by rw [h]
      _ = guard.after js := hrun'
  · rw [← houtcomes, ← houtcomes', h]

end Guard

section Examples

attribute [local instance] cpython

/-- The reading of the orders, for a while. -/
def reading : MintArgs where
  subject := lit "alice"
  grants := {lit "read:sensitive"}
  resource := lit "orders"
  operation := lit "op"
  lease := 10

/-- The run that reads the orders, and what they are. -/
def read (cap : Capability) (cleartext : Str) : List Command :=
  [reading.allow, reading.mint, .reveal (some cap) ⟨lit "sensitive", cleartext, lit "orders"⟩]

/-- Two texts, of which each is revealed in a run of its own: the reply is all that tells. -/
theorem outcomes_of_blank_revealed : ∃ cap,
    (∀ text, ∃ o, (guard.step (guard.after [reading.allow, reading.mint])
        (.reveal (some cap) ⟨lit "sensitive", text, lit "orders"⟩)).1 = .ok (some o) ∧
      o.revealed = some text) ∧
    guard.after (read cap (lit "a")) = guard.after (read cap (lit "b")) ∧
      (guard.outcomes Guard.new (read cap (lit "a"))).map
          (fun p => (p.1.blank, p.1.blankReply p.2)) =
        (guard.outcomes Guard.new (read cap (lit "b"))).map
          fun p => (p.1.blank, p.1.blankReply p.2) := by
  obtain ⟨cap, hcap⟩ := issued_minted (q := reading) (by decide)
  obtain ⟨hminted, hverify⟩ := verify_minted (by decide) hcap
  refine ⟨cap, fun text => ?_, outcomes_of_blank rfl⟩
  have hbound : (guard.after [reading.allow, reading.mint]).bound (some cap) (lit "orders") =
      .ok (some cap) := bound_iff.mpr ⟨rfl, hverify, hminted.resource⟩
  -- what was minted lets read at the level of the text
  have hclear : ¬ readCeiling cap.grants < (2 : ℕ) := by
    refine not_lt.mpr (le_readCeiling_iff.mpr ⟨lit "read:sensitive", ?_, 2, by decide, le_rfl⟩)
    rw [hminted.grants, mem_sorted]
    exact Finset.mem_singleton_self _
  have hlevel : level? (lit "sensitive") = some 2 := by decide
  have hreveal : ((guard.after [reading.allow, reading.mint]).reveal (some cap)
      ⟨lit "sensitive", text, lit "orders"⟩).1 =
        .ok { ok := true, revealed := some text, auditPresent := true } := by
    rw [Guard.reveal, hbound]
    dsimp only
    rw [hlevel]
    dsimp only
    rw [if_neg hclear]
  refine ⟨{ ok := true, revealed := some text, auditPresent := true }, ?_, rfl⟩
  have hstep : guard.step (guard.after [reading.allow, reading.mint])
      (.reveal (some cap) ⟨lit "sensitive", text, lit "orders"⟩) =
      outcomeOf ((guard.after [reading.allow, reading.mint]).reveal (some cap)
        ⟨lit "sensitive", text, lit "orders"⟩) := rfl
  rw [hstep, outcomeOf, hreveal]
  rfl

end Examples

end CapabilityAdversarial

end AdversarialCognition
