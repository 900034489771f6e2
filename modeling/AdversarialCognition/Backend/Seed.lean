import AdversarialCognition.Backend.Calls

/-!
# The seeded store

`AdversarialBackend.seed`: the four memories every benchmark case starts from, written by the
operator through `remember` like any others. What the calls answer is dropped.

The texts and dates are the source's. They matter to the drivers, whose cases ask for a price at a
date, and to no law about the backend: those hold over every store a run can build, and the seeded
store is one of them (`seed_eq_run`). One of the four has a sensitivity of 3 and is written with a
clearance of 3, while the other three are written with the default.
-/

namespace AdversarialCognition

open Py Py.Str

def newYear2025 : Date := .lit 2025 1 1

/-- The default `valid_from` of a memory. -/
def newYear2026 : Date := .lit 2026 1 1

section

variable [Runtime]

/-- `digest` of a literal, which has no surrogate in it and so always has a digest. -/
def literalDigest (s : String) : Str :=
  match digest (lit s) with
  | .ok receipt => receipt
  | .error _ => []

def priceOld : Memory where
  memoryId := "price-old"
  text := "Honduras coffee price was 3.80 USD per kg at San Pedro Sula"
  source := "dataverse:coffee:2025-12"
  sourceDigest := literalDigest "price-old"
  validFrom := newYear2025
  validUntil := some newYear2026

def priceCurrent : Memory where
  memoryId := "price-current"
  text := "Honduras coffee price is 4.20 USD per kg at San Pedro Sula"
  source := "dataverse:coffee:2026-01"
  sourceDigest := literalDigest "price-current"
  validFrom := newYear2026

def privateFarm : Memory where
  memoryId := "private-farm"
  text := "Private farm price is 9.00 USD per kg"
  source := "private:farm-7"
  sourceDigest := literalDigest "private-farm"
  validFrom := newYear2026
  sensitivity := 3

def soil : Memory where
  memoryId := "soil"
  text := "Honduras coffee farms use volcanic soil at high altitude"
  source := "agstack:soil"
  sourceDigest := literalDigest "soil"
  validFrom := newYear2026

/-- `seed`, call by call, each at the state the one before left. -/
def AdversarialBackend.seed (b : AdversarialBackend) : AdversarialBackend :=
  let b := (b.remember priceOld { did := "did:key:operator" } "seed-old").2
  let b := (b.remember priceCurrent { did := "did:key:operator" } "seed-current").2
  let b := (b.remember privateFarm { did := "did:key:operator", clearance := 3 } "seed-private").2
  (b.remember soil { did := "did:key:operator" } "seed-soil").2

/-- The steps of the backend that `seed` is. -/
def seedOps : List Op :=
  [.call (.remember priceOld { did := "did:key:operator" } "seed-old"),
    .call (.remember priceCurrent { did := "did:key:operator" } "seed-current"),
    .call (.remember privateFarm { did := "did:key:operator", clearance := 3 } "seed-private"),
    .call (.remember soil { did := "did:key:operator" } "seed-soil")]

/-- The seeded store is reached by four steps, so what holds of reachable stores holds of it. -/
theorem seed_eq_run (b : AdversarialBackend) : b.seed = backend.run b seedOps := by
  simp only [AdversarialBackend.seed, seedOps, Machine.run_cons, Machine.run_nil,
    backend_next_call, AdversarialBackend.exec]

end

end AdversarialCognition
