import AdversarialCognition.Backend.Forgetting
import AdversarialCognition.Backend.Idempotency
import AdversarialCognition.Lib.Printing

/-!
# What a receipt attests

A receipt is a digest of a text, and the text is put together from what the decision was about:
`Attested`. Granted that the digest does not collide, a receipt is worth what that text says, and
the question is whether the text determines what it was made from.

For a recall it does. The ranking is printed as a list of pairs with quoted ids, and such a list
reads back in one way (`selfDelimiting_entryText`). A forget names one id. A remember and an
improve join two free strings by a colon, and a colon inside either string can be taken for the
joint. `receipt_binds_iff` says that this is the one thing that can go wrong, within one kind of
operation; across kinds the first three letters differ.

## What is asked of the hash

Not that it is injective, which no hash is, and not that no two texts collide: only that the two
texts at hand do not. So the result is about the printing and nothing else, and it is true of
every function on bytes. That two calls have one text is decided on their arguments
(`text_eq_iff`), and for a recall on what it ranks, which is its answer up to the scores.
-/

namespace AdversarialCognition

open Py Py.Str

/-- The four operations. -/
inductive Kind
  | remember
  | recall
  | improve
  | forget
  deriving DecidableEq

/-- What a decision is about. -/
inductive Attested
  | remember (memoryId sourceDigest : Str)
  | recall (ranked : List (ℕ × Str))
  | improve (memoryId replacementId : Str)
  | forget (memoryId : Str)

namespace Attested

def kind : Attested → Kind
  | .remember _ _ => .remember
  | .recall _ => .recall
  | .improve _ _ => .improve
  | .forget _ => .forget

def ids : Attested → List Str
  | .remember memoryId _ => [memoryId]
  | .recall ranked => ranked.map Prod.snd
  | .improve memoryId replacementId => [memoryId, replacementId]
  | .forget memoryId => [memoryId]

/-- The text the receipt is the digest of. -/
def text [Runtime] : Attested → Str
  | .remember memoryId sourceDigest => lit "remember:" ++ memoryId ++ lit ":" ++ sourceDigest
  | .recall ranked => recallText ranked
  | .improve memoryId replacementId => improveText memoryId replacementId
  | .forget memoryId => forgetText memoryId

/-- Of one kind, and a colon inside the second string of the first is the joint of the
    second. -/
def Shifted : Attested → Attested → Prop
  | .remember i s, .remember i' s' => Shifts (CodePoint.ofChar ':') (i, s) (i', s')
  | .improve i r, .improve i' r' => Shifts (CodePoint.ofChar ':') (i, r) (i', r')
  | _, _ => False

theorem Shifted.kind_eq : ∀ {a a' : Attested}, a.Shifted a' → a.kind = a'.kind
  | .remember _ _, .remember _ _, _ => rfl
  | .improve _ _, .improve _ _, _ => rfl

theorem Shifted.ne : ∀ {a a' : Attested}, a.Shifted a' → a ≠ a'
  | .remember _ _, .remember _ _, hshift, h => by
    obtain ⟨rfl, rfl⟩ := remember.inj h
    exact Shifts.ne hshift rfl
  | .improve _ _, .improve _ _, hshift, h => by
    obtain ⟨rfl, rfl⟩ := improve.inj h
    exact Shifts.ne hshift rfl

end Attested

/-- What the call, made at `b`, is about. For a recall it is what the store has for it, and for
    the others it is in the arguments. -/
def attested (b : AdversarialBackend) : Call → Attested
  | .remember memory _ _ => .remember memory.memoryId memory.sourceDigest
  | .recall query actor asOf _ => .recall (b.ranked query actor asOf)
  | .improve c => .improve c.memoryId c.replacement.memoryId
  | .forget memoryId _ _ => .forget memoryId

/-- The call passes the checks of its operation at `b`, no recorded decision stands in for
    it, and its receipt can be made. -/
def Passes (b : AdversarialBackend) : Call → Prop
  | .remember memory actor nonce =>
      b.AdmitsRemember memory actor nonce ∧ Encodable memory.memoryId ∧
        Encodable memory.sourceDigest
  | .recall query actor _ nonce => (actor.did, nonce) ∉ b.nonces ∧ query.length ≤ maxQueryChars
  | .improve c => Commits b c ∧ Encodable c.memoryId ∧ Encodable c.replacement.memoryId
  | .forget memoryId actor nonce =>
      (∃ memory, b.AdmitsForget memoryId actor nonce memory) ∧ Encodable memoryId

/-!
## The texts

When two calls have one text. Kinds are told apart by the letters they begin with, and a ranking
is read back from its print. Two joins at a colon are one text exactly if they are the same pair,
or one has its joint where the other has a colon.
-/

section Texts

variable [Runtime]

theorem selfDelimiting_entryText : SelfDelimiting entryText := by
  have hscore : SelfDelimiting fun n : ℕ => ofNat n ++ lit "," := by
    refine SelfDelimiting.terminated (fun n hmem => ?_) ofNat_injective
    exact absurd (isDigit_of_mem_ofNat hmem) (by decide)
  have hentry := ((((hscore.postpend (lit " ")).append selfDelimiting_repr).prepend
    (lit "(")).postpend (lit ")"))
  intro p q x y h
  refine hentry p q x y ?_
  simpa [entryText, lit] using h

/-- The printed ranking determines the ranking, scores included. -/
theorem selfDelimiting_recallText : SelfDelimiting recallText := by
  have hbegin : SelfDelimiting.NotBegunBy (CodePoint.ofChar ']') entryText :=
    fun p => ⟨_, _, rfl, by decide⟩
  have hlist := selfDelimiting_entryText.listed hbegin (show ∃ c w, lit ", " = c :: w ∧ c ≠ _ from ⟨_, _, rfl, by decide⟩)
  intro l m x y h
  refine hlist.prepend (lit "recall:[") l m x y ?_
  simpa [recallText, lit] using h

omit [Runtime] in
theorem join_eq_colon {i s i' s' : Str} (p : Str) :
    p ++ i ++ lit ":" ++ s = p ++ i' ++ lit ":" ++ s' ↔
      (i, s) = (i', s') ∨ Shifts (CodePoint.ofChar ':') (i, s) (i', s') ∨
        Shifts (CodePoint.ofChar ':') (i', s') (i, s) := by
  rw [← join_eq_iff]
  simp [lit]

/-- The first letters of a text of each kind. -/
def Kind.head : Kind → Str
  | .remember => lit "rem"
  | .recall => lit "rec"
  | .improve => lit "imp"
  | .forget => lit "for"

omit [Runtime] in
theorem Kind.head_injective : Function.Injective Kind.head := by
  intro k k' h
  cases k <;> cases k' <;> first | rfl | exact absurd h (by decide)

theorem Attested.text_head (a : Attested) : a.text.take 3 = a.kind.head := by
  cases a with
  | remember => rfl
  | «recall» => rfl
  | improve => rfl
  | forget => rfl

/-- **Two texts are one exactly when they are about the same, or one is the other with its
    joint moved.** -/
theorem Attested.text_eq_iff (a a' : Attested) :
    a.text = a'.text ↔ a = a' ∨ a.Shifted a' ∨ a'.Shifted a := by
  by_cases hkind : a.kind = a'.kind
  · cases a with
    | remember i s =>
      cases a' with
      | remember i' s' =>
        simp only [text, Shifted, join_eq_colon, remember.injEq, Prod.mk.injEq]
      | _ => exact absurd hkind (by simp [kind])
    | improve i r =>
      cases a' with
      | improve i' r' =>
        simp only [text, Shifted, improveText, join_eq_colon, improve.injEq, Prod.mk.injEq]
      | _ => exact absurd hkind (by simp [kind])
    | «recall» ranked =>
      cases a' with
      | «recall» ranked' =>
        simp only [text, Shifted, recall.injEq, or_false]
        exact selfDelimiting_recallText.injective.eq_iff
      | _ => exact absurd hkind (by simp [kind])
    | forget i =>
      cases a' with
      | forget i' => simp [text, Shifted, forgetText]
      | _ => exact absurd hkind (by simp [kind])
  · -- of two kinds, the texts part at their first letters
    refine iff_of_false (fun h => hkind ?_) (fun h => hkind ?_)
    · apply Kind.head_injective
      rw [← text_head, ← text_head, h]
    · rcases h with rfl | h | h
      · rfl
      · exact h.kind_eq
      · exact h.kind_eq.symm

/-- The strings that go into the text as they are can be encoded. -/
def Attested.Writable : Attested → Prop
  | .remember i s => Encodable i ∧ Encodable s
  | .recall _ => True
  | .improve i r => Encodable i ∧ Encodable r
  | .forget i => Encodable i

theorem Attested.encodable_text_iff (a : Attested) : Encodable a.text ↔ a.Writable := by
  cases a with
  | remember i s => simp [text, Writable, encodable_lit]
  | «recall» ranked => exact iff_of_true (encodable_recallText ranked) trivial
  | improve i r => exact encodable_improveText_iff
  | forget i => exact encodable_forgetText_iff

end Texts

/-!
## The receipts

From texts to decisions. A granted call has the receipt of what it attests, so the law needs that
calls with one text are about the same. That the condition is necessary needs more, namely that a
call whose checks pass is granted, so that two such calls with one text do get one receipt.
-/

section Receipts

variable [Runtime] {b b' : AdversarialBackend} {c : Call} {reply : Reply} {d : Decision}

/-- The call, made at `b`, is allowed, with `d`, and is no retry of a recorded key. A retry is
    answered with the receipt of another call, which attests what that one was about. -/
structure Granted (b : AdversarialBackend) (c : Call) (d : Decision) : Prop where
  reply : (b.exec c).1 = .ok d
  allowed : d.allowed = true
  first : ∀ i, c = .improve i → b.idempotency.get? i.idempotencyKey = none

theorem Attested.writable_of_digest {a : Attested} {r : Str} (h : digest a.text = .ok r) :
    a.Writable :=
  a.encodable_text_iff.mp (digest_ok_iff.mp ⟨r, h⟩)

/-- A granted call passes its checks, and its decision names and attests what it is about. -/
theorem Ruling.granted (h : Ruling b c reply b') (hreply : reply = .ok d)
    (hallow : d.allowed = true)
    (hfirst : ∀ i, c = .improve i → b.idempotency.get? i.idempotencyKey = none) :
    Passes b c ∧ d.ids = (attested b c).ids ∧ digest (attested b c).text = .ok d.receipt := by
  cases h with
  | replayed =>
    rw [← Except.ok.inj hreply] at hallow
    simp at hallow
  | refused =>
    rw [← Except.ok.inj hreply] at hallow
    simp at hallow
  | retried _ _ settled =>
    rw [hfirst _ rfl] at settled
    simp at settled
  | @remembered memory actor nonce admits =>
    obtain ⟨-, hids, -, hdigest⟩ := answer_eq_ok hreply
    exact ⟨⟨admits, Attested.writable_of_digest (a := .remember memory.memoryId memory.sourceDigest) hdigest⟩,
      hids, hdigest⟩
  | recalled fresh size =>
    obtain ⟨-, hids, -, hdigest⟩ := answer_eq_ok hreply
    exact ⟨⟨fresh, size⟩, hids, hdigest⟩
  | @improved c current _ admits hanswer =>
    obtain ⟨-, hids, -, hdigest⟩ := answer_eq_ok (hanswer.symm.trans hreply)
    exact ⟨⟨⟨current, admits⟩,
      Attested.writable_of_digest (a := .improve c.memoryId c.replacement.memoryId) hdigest⟩, hids, hdigest⟩
  | @forgotten memoryId actor nonce memory admits =>
    obtain ⟨-, hids, -, hdigest⟩ := answer_eq_ok hreply
    exact ⟨⟨⟨memory, admits⟩, Attested.writable_of_digest (a := .forget memoryId) hdigest⟩, hids, hdigest⟩

theorem Granted.attests (h : Granted b c d) :
    Passes b c ∧ d.ids = (attested b c).ids ∧ digest (attested b c).text = .ok d.receipt :=
  (exec_ruling b c).granted h.reply h.allowed h.first

/-- A call that passes its checks is granted. This is what makes the condition of the law
    necessary. -/
theorem exists_granted (h : Passes b c) : ∃ d, Granted b c d := by
  -- a call that passes its checks fails only where its receipt cannot be encoded
  have hreceipt : ∀ (ids : List Str) {text : Str}, Encodable text →
      ∃ d, answer ids (digest text) = .ok d ∧ d.allowed = true := by
    intro ids text henc
    obtain ⟨r, hr⟩ := digest_ok_iff.mpr henc
    exact ⟨{ allowed := true, ids := ids, receipt := r }, by rw [hr]; rfl, rfl⟩
  cases c with
  | remember memory actor nonce =>
    obtain ⟨hadm, henc⟩ := h
    obtain ⟨d, hd, hallow⟩ := hreceipt [memory.memoryId]
      ((Attested.remember memory.memoryId memory.sourceDigest).encodable_text_iff.mpr henc)
    refine ⟨d, ?_, hallow, by simp⟩
    rw [AdversarialBackend.exec, AdversarialBackend.remember_of_admits hadm]
    exact hd
  | «recall» query actor asOf nonce =>
    obtain ⟨hfresh, hsize⟩ := h
    obtain ⟨d, hd, hallow⟩ := hreceipt ((b.ranked query actor asOf).map Prod.snd)
      (encodable_recallText (b.ranked query actor asOf))
    refine ⟨d, ?_, hallow, by simp⟩
    rw [AdversarialBackend.exec, AdversarialBackend.recall_of_fresh hfresh hsize]
    exact hd
  | improve c =>
    obtain ⟨⟨current, hadm⟩, henc⟩ := h
    obtain ⟨d, hd, hallow⟩ := allowed_of_commits ⟨current, hadm⟩ henc.1 henc.2
    refine ⟨d, hd, hallow, fun i hi => ?_⟩
    rw [← Call.improve.inj hi]
    exact hadm.unsettled
  | forget memoryId actor nonce =>
    obtain ⟨d, hd, hallow⟩ := exists_of_allowed (allowed_forget_iff.mpr h)
    exact ⟨d, hd, hallow, by simp⟩

/-- One receipt of two texts comes of one hash of their bytes: the hexadecimal digits determine
    it. -/
theorem digest_congr {s t r : Str} (hs : digest s = .ok r) (ht : digest t = .ok r) :
    ∃ x y, s.encode = .ok x ∧ t.encode = .ok y ∧ Runtime.sha256 x = Runtime.sha256 y := by
  have hbytes : SelfDelimiting fun byte : UInt8 => hex 2 byte.toNat := by
    refine SelfDelimiting.of_length (fun _ _ => by simp) fun x y h => ?_
    exact UInt8.toNat_inj.mp (hex_inj_of_lt x.toNat_lt y.toNat_lt h)
  unfold digest at hs ht
  cases hx : s.encode with
  | error e => simp [hx] at hs
  | ok x =>
    cases hy : t.encode with
    | error e => simp [hy] at ht
    | ok y =>
      simp only [hx, Except.ok.injEq] at hs
      simp only [hy, Except.ok.injEq] at ht
      refine ⟨x, y, rfl, rfl, hbytes.flatMap_injective (fun _ h => ?_)
        (List.append_cancel_left (hs.trans ht.symm))⟩
      exact absurd (congrArg List.length h) (by simp)

/-- SHA-256 does not collide on the two texts. This is all that is ever asked of it. -/
def NoCollision (s t : Str) : Prop :=
  ∀ x y, s.encode = .ok x → t.encode = .ok y → Runtime.sha256 x = Runtime.sha256 y → x = y

theorem NoCollision.text_eq {s t r : Str} (h : NoCollision s t) (hs : digest s = .ok r)
    (ht : digest t = .ok r) : s = t := by
  obtain ⟨x, y, hx, hy, hxy⟩ := digest_congr hs ht
  exact encode_inj hx (h x y hx hy hxy ▸ hy)

/-- If SHA-256 does not collide on their texts, two granted calls with one receipt are of
    one kind and about the same ids, digest and ranking. -/
def ReceiptBinds (b₁ : AdversarialBackend) (c₁ : Call) (b₂ : AdversarialBackend) (c₂ : Call) :
    Prop :=
  NoCollision (attested b₁ c₁).text (attested b₂ c₂).text →
    ∀ d₁ d₂, Granted b₁ c₁ d₁ → Granted b₂ c₂ d₂ → d₁.receipt = d₂.receipt →
      d₁.ids = d₂.ids ∧ attested b₁ c₁ = attested b₂ c₂

/-- If the two calls pass their checks, the joint of neither is a colon of the other. -/
def JointsKept (b₁ : AdversarialBackend) (c₁ : Call) (b₂ : AdversarialBackend) (c₂ : Call) :
    Prop :=
  Passes b₁ c₁ → Passes b₂ c₂ →
    ¬ (attested b₁ c₁).Shifted (attested b₂ c₂) ∧ ¬ (attested b₂ c₂).Shifted (attested b₁ c₁)

/-- Calls with one text get one receipt, and no collision of SHA-256 is needed for it. -/
theorem not_receiptBinds_of_text_eq {b₁ b₂ : AdversarialBackend} {c₁ c₂ : Call}
    (h₁ : Passes b₁ c₁) (h₂ : Passes b₂ c₂)
    (htext : (attested b₁ c₁).text = (attested b₂ c₂).text)
    (hne : attested b₁ c₁ ≠ attested b₂ c₂) : ¬ ReceiptBinds b₁ c₁ b₂ c₂ := by
  intro hbinds
  obtain ⟨d₁, hd₁⟩ := exists_granted h₁
  obtain ⟨d₂, hd₂⟩ := exists_granted h₂
  have hreceipt : d₁.receipt = d₂.receipt := by
    have hdigest := hd₁.attests.2.2
    rw [htext, hd₂.attests.2.2] at hdigest
    exact (Except.ok.inj hdigest).symm
  refine hne (hbinds ?_ d₁ d₂ hd₁ hd₂ hreceipt).2
  rw [htext]
  intro x y hx hy _
  rw [hx] at hy
  exact Except.ok.inj hy

/-- **A receipt binds exactly when no colon can be taken for the joint**, whatever the two runs
    and whatever the strings. What is digested begins with the kind of the call, and the ids of a
    recall are quoted, so only two remembers, or two improves, can have one text. -/
theorem receipt_binds_iff (ops₁ ops₂ : List Op) (c₁ c₂ : Call) :
    ReceiptBinds (backend.after ops₁) c₁ (backend.after ops₂) c₂ ↔
      JointsKept (backend.after ops₁) c₁ (backend.after ops₂) c₂ := by
  constructor
  · intro hbinds h₁ h₂
    refine ⟨fun hshift => ?_, fun hshift => ?_⟩
    · exact not_receiptBinds_of_text_eq h₁ h₂
        ((Attested.text_eq_iff _ _).mpr (Or.inr (Or.inl hshift))) hshift.ne hbinds
    · exact not_receiptBinds_of_text_eq h₁ h₂
        ((Attested.text_eq_iff _ _).mpr (Or.inr (Or.inr hshift))) hshift.ne.symm hbinds
  · intro hkept hcollide d₁ d₂ hd₁ hd₂ hreceipt
    obtain ⟨h₁, hids₁, hdigest₁⟩ := hd₁.attests
    obtain ⟨h₂, hids₂, hdigest₂⟩ := hd₂.attests
    have htext := hcollide.text_eq hdigest₁ (hreceipt ▸ hdigest₂)
    have hsame : attested (backend.after ops₁) c₁ = attested (backend.after ops₂) c₂ := by
      rcases (Attested.text_eq_iff _ _).mp htext with h | h | h
      · exact h
      · exact absurd h (hkept h₁ h₂).1
      · exact absurd h (hkept h₁ h₂).2
    exact ⟨by rw [hids₁, hids₂, hsame], hsame⟩

end Receipts

section

attribute [local instance] cpython

/-- Two first writes with one receipt: `a` with the source digest `b:c`, and `a:b` with the source
    digest `c`. Both are digests of one text, so no collision is involved. -/
theorem one_receipt_for_two_memories : ¬ ∀ (ops₁ ops₂ : List Op) (c₁ c₂ : Call),
    ReceiptBinds (backend.after ops₁) c₁ (backend.after ops₂) c₂ := by
  intro h
  have hpasses : ∀ i s : String, Passes (backend.after [])
      (.remember { fact i with sourceDigest := s } operator "1") := by
    intro i s
    exact ⟨⟨Finset.notMem_empty _, rfl, by simp [fact, lit, maxTextChars], rfl, rfl, le_refl _⟩,
      encodable_lit _, encodable_lit _⟩
  refine not_receiptBinds_of_text_eq (hpasses "a" "b:c") (hpasses "a:b" "c") ?_ ?_ (h [] [] _ _)
  · decide
  · intro heq
    exact absurd (congrArg Attested.ids heq) (by decide)

end

end AdversarialCognition
