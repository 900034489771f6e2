import AdversarialCognition.Lib.Compact
import AdversarialCognition.Backend.Receipts

/-!
# The digests of the book's reference models

`digest(*parts)`, as the catalog of `docs/book/code/catalog-provenance` and the guard of
`docs/book/code/capability` define it: the tagged SHA-256 of the domain, a zero character and the
compact print of the parts.

## What can go wrong

* The print is ASCII, whatever the texts in the parts are, so it can always be encoded
  (`encodable_payload`).
* `str` refuses to print an integer of more than 4300 digits, and `json.dumps` calls it. So
  `digest` raises `ValueError` for parts with such an integer in them, and returns otherwise
  (`digest_eq_ok_iff`).

A text that is hashed as it stands, by `sha256Hex`, may fail to encode instead.

## What a digest pins

The parts, up to the order of the keys in their objects, if SHA-256 does not collide on the two
payloads (`hashed_inj`). The compact print is read back only if the texts are of valid Unicode.
What the prints say without that is stated of the prints (`compact_eq_of_hashed`).

Floats are left out: neither model puts one into a digest.
-/

namespace AdversarialCognition

namespace Book

open Py Py.Str Py.Json

/-- What an operation of a reference model can raise. The models raise none of these themselves:
    they come from `str.encode`, from `str` of an integer or `tuple.index`, and from a missing
    key. -/
inductive Fault
  | unicodeEncodeError
  | valueError (text : Str)
  | keyError (key : Str)
  deriving DecidableEq

mutual

/-- No integer of the value has more than 4300 digits. -/
def printsInts : Json → Bool
  | int n => decide (n.natAbs < 10 ^ 4300)
  | list items => printsItems items
  | obj items => printsMembers items
  | _ => true

/-- No integer of the items has, nor of an item's items. -/
def printsItems : List Json → Bool
  | [] => true
  | item :: items => printsInts item && printsItems items

/-- No integer of the values has; the keys are texts. -/
def printsMembers : List (Str × Json) → Bool
  | [] => true
  | (_, value) :: items => printsInts value && printsMembers items

end

theorem lt_limit {n : ℕ} (h : n ≤ 10) : n < 10 ^ 4300 :=
  printable_ofNat (show 2 ≤ 4300 by omega) (show n < 10 ^ 2 by omega)

/-- `ValueError`, as `str(n)` raises it. -/
def tooManyDigits : Fault :=
  .valueError (lit "Exceeds the limit (4300 digits) for integer string conversion; use " ++
    lit "sys.set_int_max_str_digits() to increase the limit")

/-- `DOMAIN + "\0" + json.dumps(parts, sort_keys=True, separators=(",", ":"))` -/
def payload (domain : Str) (parts : List Json) : Str :=
  domain ++ CodePoint.ofChar (Char.ofNat 0) :: compact (sortKeys (list parts))

section Digest

variable [Runtime]

/-- `"sha256:" + hashlib.sha256(text.encode()).hexdigest()` -/
def sha256Hex (text : Str) : Except Fault Str :=
  match AdversarialCognition.digest text with
  | .ok hash => .ok hash
  | .error .unicodeEncodeError => .error .unicodeEncodeError

/-- The digest of parts that can be printed. The payload can always be encoded, so the second case
    is never taken (`digest_payload`). -/
def hashed (domain : Str) (parts : List Json) : Str :=
  match AdversarialCognition.digest (payload domain parts) with
  | .ok hash => hash
  | .error _ => []

/-- `digest(*parts)`. To print the parts comes before anything else, so all it can raise is what
    an integer of too many digits raises. -/
def digest (domain : Str) (parts : List Json) : Except Fault Str :=
  if printsInts (list parts) then .ok (hashed domain parts) else .error tooManyDigits

/-- **When a digest is returned**, and which. -/
theorem digest_eq_ok_iff {domain hash : Str} {parts : List Json} :
    digest domain parts = .ok hash ↔ printsInts (list parts) = true ∧ hash = hashed domain parts := by
  unfold digest
  split
  · rename_i h
    rw [Except.ok.injEq]
    exact ⟨fun heq => ⟨h, heq.symm⟩, fun heq => heq.2.symm⟩
  · rename_i h
    exact iff_of_false (by simp) fun heq => h heq.1

theorem sha256Hex_ok_iff {text : Str} : (∃ hash, sha256Hex text = .ok hash) ↔ Encodable text := by
  rw [← digest_ok_iff, sha256Hex]
  cases AdversarialCognition.digest text with
  | ok hash => simp
  | error e =>
    cases e
    simp

end Digest

/-!
## What a digest pins

A payload is printed in ASCII and with its keys in order, so it can always be hashed, and two
payloads that are hashed alike are printed alike if SHA-256 does not collide on them. A digest is
itself a text that can be encoded, and so can be digested again.
-/

variable [Runtime] {domain : Str} {parts others : List Json}

omit [Runtime] in
/-- The print is ASCII, whatever the texts in it are. -/
theorem encodable_payload (hdomain : Encodable domain) (h : Floatless (list parts)) :
    Encodable (payload domain parts) := by
  have hnul : Encodable [CodePoint.ofChar (Char.ofNat 0)] := encodable_singleton (by decide)
  rw [payload, ← List.singleton_append]
  exact encodable_append.mpr ⟨hdomain,
    encodable_append.mpr ⟨hnul, encodable_compact (floatless_sortKeys h)⟩⟩

theorem digest_payload (hdomain : Encodable domain) (h : Floatless (list parts)) :
    AdversarialCognition.digest (payload domain parts) = .ok (hashed domain parts) := by
  obtain ⟨hash, hhash⟩ := digest_ok_iff.mpr (encodable_payload hdomain h)
  rw [hashed, hhash]

/-- A digest is `sha256:` and hexadecimal digits. -/
theorem exists_digest_eq {text hash : Str} (h : AdversarialCognition.digest text = .ok hash) :
    ∃ digits, Encodable digits ∧ hash = lit "sha256:" ++ digits := by
  unfold AdversarialCognition.digest at h
  cases hbytes : text.encode with
  | error e =>
    rw [hbytes] at h
    cases h
  | ok bytes =>
    rw [hbytes] at h
    refine ⟨_, ?_, (Except.ok.inj h).symm⟩
    intro c hc
    obtain ⟨b, -, hb⟩ := List.mem_flatMap.mp hc
    exact encodable_hex 2 _ c hb

/-- A digest can itself be encoded, so it can be put into a text that is digested. -/
theorem encodable_hashed (domain : Str) (parts : List Json) : Encodable (hashed domain parts) := by
  unfold hashed
  cases h : AdversarialCognition.digest (payload domain parts) with
  | error e => exact List.forall_mem_nil _
  | ok hash =>
    obtain ⟨digits, hdigits, rfl⟩ := exists_digest_eq h
    exact encodable_append.mpr ⟨encodable_lit _, hdigits⟩

theorem encodable_sha256Hex {text hash : Str} (h : sha256Hex text = .ok hash) : Encodable hash := by
  unfold sha256Hex at h
  cases hdigest : AdversarialCognition.digest text with
  | error e =>
    rw [hdigest] at h
    cases e
    cases h
  | ok found =>
    rw [hdigest] at h
    obtain ⟨digits, hdigits, rfl⟩ := exists_digest_eq hdigest
    rw [← Except.ok.inj h]
    exact encodable_append.mpr ⟨encodable_lit _, hdigits⟩

/-- No digest is empty: to have none, and to have one, are told apart. -/
theorem hashed_ne_nil (hdomain : Encodable domain) (h : Floatless (list parts)) :
    hashed domain parts ≠ [] := by
  obtain ⟨digits, -, heq⟩ := exists_digest_eq (digest_payload hdomain h)
  rw [heq]
  exact List.cons_ne_nil _ _

/-- What is digested alike is printed alike, if SHA-256 does not collide on the two payloads. -/
theorem compact_eq_of_hashed (hdomain : Encodable domain) (hparts : Floatless (list parts))
    (hothers : Floatless (list others))
    (hcollision : NoCollision (payload domain parts) (payload domain others))
    (h : hashed domain parts = hashed domain others) :
    compact (sortKeys (list parts)) = compact (sortKeys (list others)) := by
  have htext : payload domain parts = payload domain others := by
    apply hcollision.text_eq (digest_payload hdomain hparts)
    rw [digest_payload hdomain hothers, h]
  exact (List.cons.inj (List.append_cancel_left htext)).2

/-- **Two digests are one only of parts that are alike**, if SHA-256 does not collide. -/
theorem hashed_inj (hdomain : Encodable domain) (hparts : Printable (list parts))
    (hothers : Printable (list others))
    (hcollision : NoCollision (payload domain parts) (payload domain others))
    (h : hashed domain parts = hashed domain others) :
    sortKeys (list parts) = sortKeys (list others) := by
  apply compact_inj (printable_sortKeys hparts) (printable_sortKeys hothers)
  exact compact_eq_of_hashed hdomain hparts.floatless hothers.floatless hcollision h

end Book

end AdversarialCognition
