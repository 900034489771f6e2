import AdversarialCognition.Authenticated.Identity
import AdversarialCognition.Backend.Receipts
import AdversarialCognition.Lib.Canonical
import AdversarialCognition.Report.Core
import Mathlib.Data.Finset.Sort

/-!
# Corpus manifests and their digests

`corpus_manifest`, `corpus_manifest_v2` and `corpus_digest` of `adversarial_cognition/report.py`.
A manifest is printed canonically, so its text determines what stands in it, and the question is
what does. Of a suite, everything but the scenarios stands in either manifest. Of a principal only
the did stands in the second.

## From a digest back to a value

Three steps take a digest back. Digests are equal where the texts are, if SHA-256 does not collide
on these two texts; that is asked of the texts in question and not of all (`NoCollision`). Two
canonical texts are equal where the values are, up to the order of keys, as printing is injective
on values whose strings are of Unicode scalar values. And values up to the order of keys have the
same item under every key (`item?_of_sortKeys_eq`), which is how the fields are found again.

## What is left out

A scenario of a case is a function, and has no part in a manifest. The `Configuration` is what the
second manifest is given: suite, principals, and the cases the agent track can express. The
constant texts of both manifests are written out, since a digest depends on them.

Strings outside of Unicode's scalar values are excluded where texts are taken back: two halves of
a surrogate pair in a row print like one character.
-/

namespace AdversarialCognition.Report

open Py Py.Str Json

/-- `BENCHMARK` -/
def benchmark : Str := "MARCIANA-ADVERSARIAL-v1"

/-- `BENCHMARK_V2` -/
def benchmarkV2 : Str := "MARCIANA-ADVERSARIAL-v2"

/-- `CORPUS_VERSION` -/
def corpusVersion : Str := "marciana-adversarial-v1"

/-- `CORPUS_VERSION_V2` -/
def corpusVersionV2 : Str := "marciana-adversarial-v2"

/-- The entry of a case. -/
def caseMembers (case : SuiteCase) : List (Str × Json) := [
  ("case_id", .str case.caseId),
  ("category", .str case.category),
  ("description", .str case.description),
  ("expected_allowed", .bool case.expectedAllowed),
  ("expected_ids", strs case.expectedIds),
  ("must_abstain", .bool case.mustAbstain),
  ("forbidden_ids", strs case.forbiddenIds)]

/-- The entry `"cases"` of either manifest. -/
def manifestCases (suite : List SuiteCase) : Json :=
  .list (suite.map fun case => .obj (caseMembers case))

/-- The keys of the first manifest. -/
def manifestMembers (suite : List SuiteCase) : List (Str × Json) := [
  ("benchmark", .str benchmark),
  ("corpus_version", .str corpusVersion),
  ("cases", manifestCases suite)]

/-- `corpus_manifest` -/
def corpusManifest (suite : List SuiteCase) : Json := .obj (manifestMembers suite)

/-- What the second manifest is made for. -/
structure Configuration where
  suite : List SuiteCase
  principals : List IdentityRecord
  expressible : Finset Str

/-- The entry `"identity_model"`. Of a principal it has the did. -/
def identityMembers (principals : List IdentityRecord) : List (Str × Json) := [
  ("credentialing", .str "server-side registry; HMAC credential per DID"),
  ("attributes", .str
    "tenant, space, purpose, clearance, can_mutate — registry-held, never caller-asserted"),
  ("principals", strs (principals.map (·.did))),
  ("negative_probe", .str "corrupted credential must be rejected before any case")]

/-- The entry of the agent track, with the expressible cases in order. -/
def agentMembers (expressible : Finset Str) : List (Str × Json) := [
  ("expressible", strs (expressible.sort (· ≤ ·))),
  ("inexpressible_note", .str
    "uniform for the whole track; includes oversized-query (the harness budget would supply the bound)")]

/-- The entry `"tracks"` -/
def trackMembers (expressible : Finset Str) : List (Str × Json) := [
  ("memory-store", .str "all 18 cases"),
  ("agent-memory", .obj (agentMembers expressible))]

/-- The keys of the second manifest. -/
def manifestMembersV2 (c : Configuration) : List (Str × Json) := [
  ("benchmark", .str benchmarkV2),
  ("corpus_version", .str corpusVersionV2),
  ("cases", manifestCases c.suite),
  ("identity_model", .obj (identityMembers c.principals)),
  ("tracks", .obj (trackMembers c.expressible))]

/-- `corpus_manifest_v2` -/
def corpusManifestV2 (c : Configuration) : Json := .obj (manifestMembersV2 c)

/-- `corpus_digest` -/
def corpusDigest [Runtime] (manifest : Json) : Except Exn Str := digest (canonical manifest)

/-- The strings of a case are of Unicode scalar values. -/
structure SuiteCase.Scalar (case : SuiteCase) : Prop where
  caseId : Encodable case.caseId
  category : Encodable case.category
  description : Encodable case.description
  expectedIds : ∀ id ∈ case.expectedIds, Encodable id
  forbiddenIds : ∀ id ∈ case.forbiddenIds, Encodable id

/-- All strings of a configuration that a manifest shows are of Unicode scalar values. -/
structure Configuration.Scalar (c : Configuration) : Prop where
  suite : ∀ case ∈ c.suite, case.Scalar
  principals : ∀ record ∈ c.principals, record.did.Encodable
  expressible : ∀ id ∈ c.expressible, Encodable id

/-!
## What stands in a manifest

Which fields a manifest has of a case, of a principal and of the tracks, and that they can be read
back. Whatever is not among them has no part in a digest.
-/

section Cases

variable {suite other : List SuiteCase} {case : SuiteCase}

/-- No key is there twice. The same is needed of every object in a manifest. -/
theorem nodup_caseMembers (case : SuiteCase) : ((caseMembers case).map Prod.fst).Nodup := by
  simp [caseMembers]

theorem nodup_manifestMembers (suite : List SuiteCase) :
    ((manifestMembers suite).map Prod.fst).Nodup := by
  simp [manifestMembers]

theorem printable_caseMembers (h : case.Scalar) : Printable (.obj (caseMembers case)) := by
  refine ⟨nodup_caseMembers case, ?_⟩
  simp only [caseMembers, PrintableMembers, Printable]
  exact ⟨encodable_lit _, h.caseId, encodable_lit _, h.category, encodable_lit _, h.description,
    encodable_lit _, trivial, encodable_lit _, printable_strs h.expectedIds, encodable_lit _,
    trivial, encodable_lit _, printable_strs h.forbiddenIds, trivial⟩

theorem printable_manifestCases (h : ∀ case ∈ suite, case.Scalar) :
    Printable (manifestCases suite) := by
  refine printableItems_iff.2 fun item hmem => ?_
  obtain ⟨case, hcase, rfl⟩ := List.mem_map.1 hmem
  exact printable_caseMembers (h case hcase)

theorem printable_corpusManifest (h : ∀ case ∈ suite, case.Scalar) :
    Printable (corpusManifest suite) := by
  refine ⟨nodup_manifestMembers suite, ?_⟩
  simp only [manifestMembers, PrintableMembers]
  exact ⟨encodable_lit _, encodable_lit _, encodable_lit _, encodable_lit _, encodable_lit _,
    printable_manifestCases h, trivial⟩

theorem caseMembers_inj {c d : SuiteCase}
    (h : sortKeys (.obj (caseMembers c)) = sortKeys (.obj (caseMembers d))) : c = d := by
  have hitem := item?_of_sortKeys_eq (nodup_caseMembers c) (nodup_caseMembers d) h
  have hid : some (Json.str c.caseId) = some (Json.str d.caseId) := hitem "case_id"
  have hcategory : some (Json.str c.category) = some (Json.str d.category) := hitem "category"
  have hdescription : some (Json.str c.description) = some (Json.str d.description) :=
    hitem "description"
  have hallowed : some (Json.bool c.expectedAllowed) = some (Json.bool d.expectedAllowed) :=
    hitem "expected_allowed"
  have hexpected : some (sortKeys (strs c.expectedIds)) = some (sortKeys (strs d.expectedIds)) :=
    hitem "expected_ids"
  have habstain : some (Json.bool c.mustAbstain) = some (Json.bool d.mustAbstain) :=
    hitem "must_abstain"
  have hforbidden : some (sortKeys (strs c.forbiddenIds)) = some (sortKeys (strs d.forbiddenIds)) :=
    hitem "forbidden_ids"
  simp only [sortKeys_strs, Option.some.injEq, Json.str.injEq, Json.bool.injEq] at *
  obtain ⟨⟨_, _, _, _, _⟩, _, _⟩ := c
  obtain ⟨⟨_, _, _, _, _⟩, _, _⟩ := d
  simp only [SuiteCase.mk.injEq, Case.mk.injEq]
  exact ⟨⟨hid, hallowed, strs_inj hexpected, habstain, strs_inj hforbidden⟩, hcategory, hdescription⟩

theorem manifestCases_inj (h : sortKeys (manifestCases suite) = sortKeys (manifestCases other)) :
    suite = other := by
  rw [manifestCases, manifestCases, sortKeys, sortKeys, Json.list.injEq, sortItems_eq,
    sortItems_eq, List.map_map, List.map_map] at h
  exact List.map_injective_iff.2 (fun _ _ heq => caseMembers_inj heq) h

end Cases

section Configuration

variable {c d : Configuration}

theorem nodup_manifestMembersV2 (c : Configuration) :
    ((manifestMembersV2 c).map Prod.fst).Nodup := by
  simp [manifestMembersV2]

theorem nodup_identityMembers (principals : List IdentityRecord) :
    ((identityMembers principals).map Prod.fst).Nodup := by
  simp [identityMembers]

theorem nodup_agentMembers (expressible : Finset Str) :
    ((agentMembers expressible).map Prod.fst).Nodup := by
  simp [agentMembers]

theorem nodup_trackMembers (expressible : Finset Str) :
    ((trackMembers expressible).map Prod.fst).Nodup := by
  simp [trackMembers]

theorem printable_identityMembers {principals : List IdentityRecord}
    (h : ∀ record ∈ principals, record.did.Encodable) :
    Printable (.obj (identityMembers principals)) := by
  have hdids : ∀ did ∈ principals.map (·.did), did.Encodable := by
    intro did hmem
    obtain ⟨record, hrecord, rfl⟩ := List.mem_map.1 hmem
    exact h record hrecord
  refine ⟨nodup_identityMembers principals, ?_⟩
  simp only [identityMembers, PrintableMembers, Printable]
  exact ⟨encodable_lit _, encodable_lit _, encodable_lit _, encodable_lit _, encodable_lit _,
    printable_strs hdids, encodable_lit _, encodable_lit _, trivial⟩

theorem printable_trackMembers {expressible : Finset Str}
    (h : ∀ id ∈ expressible, Encodable id) : Printable (.obj (trackMembers expressible)) := by
  have hsorted : ∀ id ∈ expressible.sort (· ≤ ·), Encodable id :=
    fun id hmem => h id ((Finset.mem_sort _).1 hmem)
  have hagent : Printable (.obj (agentMembers expressible)) := by
    refine ⟨nodup_agentMembers expressible, ?_⟩
    simp only [agentMembers, PrintableMembers, Printable]
    exact ⟨encodable_lit _, printable_strs hsorted, encodable_lit _, encodable_lit _, trivial⟩
  refine ⟨nodup_trackMembers expressible, ?_⟩
  simp only [trackMembers, PrintableMembers]
  exact ⟨encodable_lit _, encodable_lit _, encodable_lit _, hagent, trivial⟩

theorem printable_corpusManifestV2 (h : c.Scalar) : Printable (corpusManifestV2 c) := by
  refine ⟨nodup_manifestMembersV2 c, ?_⟩
  simp only [manifestMembersV2, PrintableMembers]
  exact ⟨encodable_lit _, encodable_lit _, encodable_lit _, encodable_lit _, encodable_lit _,
    printable_manifestCases h.suite, encodable_lit _, printable_identityMembers h.principals,
    encodable_lit _, printable_trackMembers h.expressible, trivial⟩

/-- The entry of the principals determines their dids, in order. -/
theorem dids_of_identityMembers {principals others : List IdentityRecord}
    (h : sortKeys (.obj (identityMembers principals)) = sortKeys (.obj (identityMembers others))) :
    principals.map (·.did) = others.map (·.did) := by
  have hitem : some (sortKeys (strs (principals.map (·.did)))) =
      some (sortKeys (strs (others.map (·.did)))) :=
    item?_of_sortKeys_eq (nodup_identityMembers _) (nodup_identityMembers _) h "principals"
  rw [sortKeys_strs, sortKeys_strs, Option.some.injEq] at hitem
  exact strs_inj hitem

/-- The entry of the tracks determines which cases can be expressed. -/
theorem expressible_of_trackMembers {expressible others : Finset Str}
    (h : sortKeys (.obj (trackMembers expressible)) = sortKeys (.obj (trackMembers others))) :
    expressible = others := by
  have hagent : some (sortKeys (.obj (agentMembers expressible))) =
      some (sortKeys (.obj (agentMembers others))) :=
    item?_of_sortKeys_eq (nodup_trackMembers _) (nodup_trackMembers _) h "agent-memory"
  have hitem : some (sortKeys (strs (expressible.sort (· ≤ ·)))) =
      some (sortKeys (strs (others.sort (· ≤ ·)))) :=
    item?_of_sortKeys_eq (nodup_agentMembers _) (nodup_agentMembers _)
      (Option.some.inj hagent) "expressible"
  rw [sortKeys_strs, sortKeys_strs, Option.some.injEq] at hitem
  rw [← Finset.sort_toFinset expressible (· ≤ ·), strs_inj hitem, Finset.sort_toFinset]

/-- **What the second manifest says of a configuration**: the suite, the dids and the
    expressible cases. -/
theorem manifestV2_eq_iff : sortKeys (corpusManifestV2 c) = sortKeys (corpusManifestV2 d) ↔
    c.suite = d.suite ∧ c.principals.map (·.did) = d.principals.map (·.did) ∧
      c.expressible = d.expressible := by
  constructor
  · intro h
    -- each entry is found under its key, whatever the order
    have hitem := item?_of_sortKeys_eq (nodup_manifestMembersV2 c) (nodup_manifestMembersV2 d) h
    have hcases : some (sortKeys (manifestCases c.suite)) =
        some (sortKeys (manifestCases d.suite)) := hitem "cases"
    have hidentity : some (sortKeys (.obj (identityMembers c.principals))) =
        some (sortKeys (.obj (identityMembers d.principals))) := hitem "identity_model"
    have htracks : some (sortKeys (.obj (trackMembers c.expressible))) =
        some (sortKeys (.obj (trackMembers d.expressible))) := hitem "tracks"
    exact ⟨manifestCases_inj (Option.some.inj hcases),
      dids_of_identityMembers (Option.some.inj hidentity),
      expressible_of_trackMembers (Option.some.inj htracks)⟩
  · intro h
    obtain ⟨hsuite, hdids, hexpressible⟩ := h
    have hmembers : manifestMembersV2 c = manifestMembersV2 d := by
      simp only [manifestMembersV2, identityMembers, hsuite, hdids, hexpressible]
    rw [corpusManifestV2, corpusManifestV2, hmembers]

end Configuration

/-!
## What a digest pins

From the digest to the text by the absence of a collision, from the text to the value as it is
printed canonically, and from there to the fields.
-/

section Digest

variable [Runtime] {suite other : List SuiteCase} {c d : Configuration}

/-- Two manifests of one digest are alike, if SHA-256 does not collide on their texts. -/
theorem sortKeys_of_digest {v w : Json} (hv : Printable v) (hw : Printable w)
    (hcollision : NoCollision (canonical v) (canonical w)) (h : corpusDigest v = corpusDigest w) :
    sortKeys v = sortKeys w := by
  obtain ⟨r, hr⟩ := digest_ok_iff.2 (encodable_canonical hv)
  have hr' : digest (canonical w) = .ok r := h.symm.trans hr
  exact canonical_inj hv hw (hcollision.text_eq hr hr')

/-- **The first digest pins the suite**, every field of every case in order. What is digested is
    printed canonically and read back, if SHA-256 does not collide on the two manifests, and the
    manifest has the cases as they are. -/
theorem suite_of_digest (hsuite : ∀ case ∈ suite, case.Scalar)
    (hother : ∀ case ∈ other, case.Scalar)
    (hcollision : NoCollision (canonical (corpusManifest suite)) (canonical (corpusManifest other)))
    (h : corpusDigest (corpusManifest suite) = corpusDigest (corpusManifest other)) :
    suite = other := by
  have hsorted := sortKeys_of_digest (printable_corpusManifest hsuite)
    (printable_corpusManifest hother) hcollision h
  have hcases : some (sortKeys (manifestCases suite)) = some (sortKeys (manifestCases other)) :=
    item?_of_sortKeys_eq (nodup_manifestMembers suite) (nodup_manifestMembers other) hsorted "cases"
  exact manifestCases_inj (Option.some.inj hcases)

/-- **The second digest tells two configurations apart if and only if they differ in more than the
    principals' attributes.** The manifest has the dids of the principals and nothing else of
    them, and all other fields of a configuration can be read back from it. -/
theorem digest_pins_iff (hc : c.Scalar) (hd : d.Scalar)
    (hcollision : NoCollision (canonical (corpusManifestV2 c)) (canonical (corpusManifestV2 d))) :
    (corpusDigest (corpusManifestV2 c) = corpusDigest (corpusManifestV2 d) → c = d) ↔
      (c.suite = d.suite → c.principals.map (·.did) = d.principals.map (·.did) →
        c.expressible = d.expressible → c.principals = d.principals) := by
  constructor
  · intro hpins hsuite hdids hexpressible
    have hsorted := manifestV2_eq_iff.2 ⟨hsuite, hdids, hexpressible⟩
    have hdigest : corpusDigest (corpusManifestV2 c) = corpusDigest (corpusManifestV2 d) := by
      rw [corpusDigest, corpusDigest, canonical, canonical, hsorted]
    rw [hpins hdigest]
  · intro hcond hdigest
    obtain ⟨hsuite, hdids, hexpressible⟩ := manifestV2_eq_iff.1 (sortKeys_of_digest
      (printable_corpusManifestV2 hc) (printable_corpusManifestV2 hd) hcollision hdigest)
    have hprincipals := hcond hsuite hdids hexpressible
    obtain ⟨_, _, _⟩ := c
    obtain ⟨_, _, _⟩ := d
    rw [Configuration.mk.injEq]
    exact ⟨hsuite, hprincipals, hexpressible⟩

end Digest

/-!
## An edited case, and an edited principal

Two edits that change the digest, and one that does not.
-/

section Examples

/-- A digest that cannot collide. -/
@[reducible] def transparent : Runtime := { cpython with sha256 := id }

attribute [local instance] transparent

def pinnedCase (allowed : Bool) : SuiteCase :=
  { caseId := "retrieval-current", category := "retrieval", description := "current price",
    expectedAllowed := allowed, expectedIds := [lit "price-current"] }

/-- The first principal of the benchmark, with some clearance. -/
def configurationWith (clearance : ℤ) (expressible : Finset Str) : Configuration where
  suite := [pinnedCase true]
  principals := [{ did := "did:key:operator", clearance := clearance }]
  expressible := expressible

theorem scalar_pinnedSuite (allowed : Bool) : ∀ case ∈ [pinnedCase allowed], case.Scalar := by
  intro case hmem
  rw [List.mem_singleton.1 hmem]
  refine ⟨encodable_lit _, encodable_lit _, encodable_lit _, ?_, by simp [pinnedCase]⟩
  intro id hid
  rw [List.mem_singleton.1 hid]
  exact encodable_lit _

theorem scalar_configurationWith (clearance : ℤ) {expressible : Finset Str}
    (h : ∀ id ∈ expressible, Encodable id) : (configurationWith clearance expressible).Scalar where
  suite := scalar_pinnedSuite true
  principals := by
    intro record hmem
    rw [List.mem_singleton.1 hmem]
    exact encodable_lit _
  expressible := h

/-- The edit of the repository's own test changes the digest. -/
theorem edited_expectation_seen :
    corpusDigest (corpusManifest [pinnedCase true]) ≠
      corpusDigest (corpusManifest [pinnedCase false]) := by
  intro h
  have hsuite := suite_of_digest (scalar_pinnedSuite true) (scalar_pinnedSuite false)
    (fun _ _ _ _ heq => heq) h
  exact absurd hsuite (by simp [pinnedCase])

/-- An edit of the expressible cases does too. -/
theorem edited_expressible_seen :
    corpusDigest (corpusManifestV2 (configurationWith 3 ∅)) ≠
      corpusDigest (corpusManifestV2 (configurationWith 3 {lit "retrieval-current"})) := by
  have hscalar : ∀ id ∈ ({lit "retrieval-current"} : Finset Str), id.Encodable := by
    intro id hid
    rw [Finset.mem_singleton.1 hid]
    exact encodable_lit _
  have hempty : (∅ : Finset Str) ≠ {lit "retrieval-current"} :=
    (Finset.singleton_ne_empty _).symm
  intro hdigest
  have hconfiguration := (digest_pins_iff (scalar_configurationWith 3 (by simp))
    (scalar_configurationWith 3 hscalar) fun _ _ _ _ heq => heq).2
      (fun _ _ hexpressible => absurd hexpressible hempty) hdigest
  exact hempty (congrArg Configuration.expressible hconfiguration)

/-- An edit of a principal's clearance does not. -/
theorem edited_principal_unseen :
    (configurationWith 3 ∅).Scalar ∧ (configurationWith 1 ∅).Scalar ∧
      @corpusDigest cpython (corpusManifestV2 (configurationWith 3 ∅)) =
        @corpusDigest cpython (corpusManifestV2 (configurationWith 1 ∅)) ∧
      configurationWith 3 ∅ ≠ configurationWith 1 ∅ := by
  refine ⟨scalar_configurationWith 3 (by simp), scalar_configurationWith 1 (by simp), rfl,
    fun h => ?_⟩
  have hclearance := congrArg (fun c : Configuration => c.principals.map (·.clearance)) h
  simp [configurationWith] at hclearance

end Examples

end AdversarialCognition.Report
