import Mathlib.Data.List.Nodup
import Mathlib.Data.List.Perm.Basic

/-!
# Python dictionaries

A `dict` is a list of items in insertion order with one item per key: assigning to a key that is
present replaces the value where it stands, assigning to a new one appends. The key discipline is
a field, so a `Dict` with a repeated key cannot be built.

Everything a program can read of a dictionary goes through `get?`, except the order of iteration;
`get?_set` and `mem_items_iff` are the two lemmas the rest is stated with.

## Why the order is kept

A finite map would do for most of what the sources ask of a dictionary. But they iterate: a recall
goes over the facts as they were ingested, and a report prints its entries as they came. Results
about what an order of writes can change would be empty over maps. So `Dict` has the order, and
`filter_items_perm` is what is left of the extensional view: two dictionaries that agree under
`get?` on some items list those in some order each.

## What is left out

Iterating while the dictionary changes, which Python refuses where it notices. The loops of the
sources go over a tuple of the items, made before the first pass, and so does `updateWhere`.
-/

namespace Py

/-- A dictionary, in insertion order. That no key is there twice is carried along, and no lemma
    has to ask for it. -/
structure Dict (κ ν : Type*) where
  items : List (κ × ν)
  nodupKeys : (items.map Prod.fst).Nodup

namespace Dict

variable {κ ν : Type*}

/-- `{}` -/
def empty : Dict κ ν := ⟨[], List.nodup_nil⟩

/-- `d.values()`, in order. -/
def values (d : Dict κ ν) : List ν := d.items.map Prod.snd

theorem nodup_items (d : Dict κ ν) : d.items.Nodup := d.nodupKeys.of_map _

variable [DecidableEq κ]

/-- `d.get(k)` -/
def get? (d : Dict κ ν) (k : κ) : Option ν :=
  (d.items.find? fun p => decide (p.1 = k)).map Prod.snd

/-- The items after `d[k] = v`. A key that is there keeps its place. -/
def setItems (k : κ) (v : ν) : List (κ × ν) → List (κ × ν)
  | [] => [(k, v)]
  | p :: rest => if p.1 = k then (k, v) :: rest else p :: setItems k v rest

theorem map_fst_setItems {k : κ} {v : ν} : ∀ {l : List (κ × ν)},
    (setItems k v l).map Prod.fst =
      if k ∈ l.map Prod.fst then l.map Prod.fst else l.map Prod.fst ++ [k]
  | [] => by simp [setItems]
  | p :: rest => by
    have ih := map_fst_setItems (k := k) (v := v) (l := rest)
    rw [setItems]
    by_cases hp : p.1 = k
    · simp [hp]
    · rw [if_neg hp, List.map_cons, ih]
      by_cases hk : k ∈ rest.map Prod.fst
      · simp [hk]
      · simp [hk, Ne.symm hp]

/-- `d[k] = v` -/
def set (d : Dict κ ν) (k : κ) (v : ν) : Dict κ ν where
  items := setItems k v d.items
  nodupKeys := by
    rw [map_fst_setItems]
    split
    · exact d.nodupKeys
    · rename_i hk
      exact List.Nodup.append d.nodupKeys (List.nodup_singleton k)
        (by simpa [List.disjoint_singleton] using hk)

/-!
## Reading

What is found under a key after an assignment, and how that goes together with the list of the
items.
-/

@[simp] theorem get?_empty (k : κ) : (empty : Dict κ ν).get? k = none := rfl

/-- **An item is listed exactly if its key has its value.** One of the two ways from what is
    iterated to what is looked up. -/
theorem mem_items_iff {d : Dict κ ν} {k : κ} {v : ν} :
    (k, v) ∈ d.items ↔ d.get? k = some v := by
  obtain ⟨items, hn⟩ := d
  simp only [get?]
  -- the key that is found first is the only one, as keys do not repeat
  induction items with
  | nil => simp
  | cons p rest ih =>
    obtain ⟨k', v'⟩ := p
    simp only [List.map_cons, List.nodup_cons] at hn
    by_cases hk : k' = k
    · subst hk
      have hrest : (k', v) ∉ rest := fun hm => hn.1 (List.mem_map_of_mem (f := Prod.fst) hm)
      simp [hrest, eq_comm]
    · simp only [List.mem_cons, Prod.mk.injEq, Ne.symm hk, false_and, false_or,
        List.find?_cons, hk, decide_false]
      exact ih hn.2

theorem mem_values_iff {d : Dict κ ν} {v : ν} : v ∈ d.values ↔ ∃ k, d.get? k = some v := by
  simp only [values, List.mem_map, Prod.exists, exists_eq_right, mem_items_iff]

theorem get?_setItems {k j : κ} {v : ν} : ∀ {l : List (κ × ν)},
    ((setItems k v l).find? fun p => decide (p.1 = j)).map Prod.snd =
      if j = k then some v else (l.find? fun p => decide (p.1 = j)).map Prod.snd
  | [] => by
    by_cases hj : j = k
    · simp [setItems, hj]
    · simp [setItems, hj, Ne.symm hj]
  | p :: rest => by
    have ih := get?_setItems (k := k) (j := j) (v := v) (l := rest)
    rw [setItems]
    by_cases hp : p.1 = k
    · by_cases hj : j = k
      · simp [hp, hj]
      · simp [hp, hj, Ne.symm hj]
    · rw [if_neg hp, List.find?_cons, List.find?_cons]
      by_cases hpj : p.1 = j
      · have hjk : j ≠ k := fun h => hp (hpj.trans h)
        simp [hpj, hjk]
      · simp only [hpj, decide_false]
        exact ih

/-- **What is assigned is read, and no other key sees it.** -/
@[simp] theorem get?_set (d : Dict κ ν) (k j : κ) (v : ν) :
    (d.set k v).get? j = if j = k then some v else d.get? j :=
  get?_setItems

theorem setItems_of_mem {k : κ} {v : ν} : ∀ {l : List (κ × ν)},
    (l.map Prod.fst).Nodup → (k, v) ∈ l → setItems k v l = l
  | p :: rest, hn, h => by
    rw [List.map_cons, List.nodup_cons] at hn
    rw [setItems]
    rcases List.mem_cons.mp h with rfl | h
    · rw [if_pos rfl]
    · have hne : p.1 ≠ k := fun hpk => hn.1 (hpk ▸ List.mem_map_of_mem (f := Prod.fst) h)
      rw [if_neg hne, setItems_of_mem hn.2 h]

theorem setItems_setItems {k : κ} {v w : ν} : ∀ {l : List (κ × ν)},
    setItems k w (setItems k v l) = setItems k w l
  | [] => by simp [setItems]
  | p :: rest => by
    by_cases hp : p.1 = k
    · simp [setItems, hp]
    · simp [setItems, hp, setItems_setItems (l := rest)]

/-- The second of two assignments to a key is the one that counts. -/
theorem set_set (d : Dict κ ν) (k : κ) (v w : ν) : (d.set k v).set k w = d.set k w := by
  simp only [set, setItems_setItems]

/-- Assigning to a key the value it has changes nothing, and only that changes nothing. -/
theorem set_eq_self_iff {d : Dict κ ν} {k : κ} {v : ν} : d.set k v = d ↔ d.get? k = some v := by
  constructor
  · intro h
    rw [← h, get?_set, if_pos rfl]
  · intro h
    obtain ⟨items, hn⟩ := d
    rw [set, mk.injEq]
    exact setItems_of_mem hn (mem_items_iff.mpr h)

/-!
## Deleting

A key that is deleted is not found, and all others are found as before.
-/

/-- `d.pop(k, None)`, for the dictionary it leaves. A key that is not there is no error under this
    default. -/
def erase (d : Dict κ ν) (k : κ) : Dict κ ν where
  items := d.items.filter fun p => p.1 ≠ k
  nodupKeys := (List.filter_sublist.map Prod.fst).nodup d.nodupKeys

@[simp] theorem get?_erase (d : Dict κ ν) (k j : κ) :
    (d.erase k).get? j = if j = k then none else d.get? j := by
  rw [get?, get?, erase, List.find?_filter]
  split_ifs with hj
  · subst hj
    rw [Option.map_eq_none_iff, List.find?_eq_none]
    intro p _
    simp
  · congr 2
    funext p
    by_cases hp : p.1 = j
    · simp [hp, hj]
    · simp [hp]

/-! ## A loop over a snapshot of the items

`for key, value in tuple(d.items()): if p(value): d[key] = f(value)`. The loop assigns
only to keys the snapshot has, each at most once, so it maps the values in place. -/

section Loop

variable (p : ν → Prop) [DecidablePred p] (f : ν → ν)

/-- One pass of the loop. The test reads the value of the snapshot and not of the dictionary, in
    which it may have been assigned in the meantime. -/
def updateBody (d : Dict κ ν) (item : κ × ν) : Dict κ ν :=
  if p item.2 then d.set item.1 (f item.2) else d

/-- The loop itself, with the items taken before the first pass. -/
def updateWhere (d : Dict κ ν) : Dict κ ν := d.items.foldl (updateBody p f) d

theorem get?_updateBody (d : Dict κ ν) (item : κ × ν) (j : κ) :
    (updateBody p f d item).get? j =
      if j = item.1 ∧ p item.2 then some (f item.2) else d.get? j := by
  unfold updateBody
  by_cases hp : p item.2
  · simp [hp]
  · simp [hp]

/-- **The loop updates in place exactly the values that satisfy its test.** -/
@[simp] theorem get?_updateWhere (d : Dict κ ν) (j : κ) :
    (d.updateWhere p f).get? j = (d.get? j).map fun v => if p v then f v else v := by
  -- What the loop has still to visit decides, provided the rest is as it was.
  have key : ∀ (l : List (κ × ν)) (e : Dict κ ν), (l.map Prod.fst).Nodup →
      (l.foldl (updateBody p f) e).get? j =
        match (l.find? fun q => decide (q.1 = j)).map Prod.snd with
        | some v => if p v then some (f v) else e.get? j
        | none => e.get? j := by
    intro l
    induction l with
    | nil => intro e _; rfl
    | cons q rest ih =>
      intro e hn
      simp only [List.map_cons, List.nodup_cons] at hn
      rw [List.foldl_cons, ih _ hn.2, get?_updateBody, List.find?_cons]
      by_cases hq : q.1 = j
      · have hnone : rest.find? (fun r => decide (r.1 = j)) = none := by
          rw [List.find?_eq_none]
          intro r hr hrj
          exact hn.1 (hq ▸ (of_decide_eq_true hrj) ▸ List.mem_map_of_mem (f := Prod.fst) hr)
        simp [hnone, hq]
      · simp [hq, Ne.symm hq]
  unfold updateWhere
  rw [key d.items d d.nodupKeys]
  have hget : d.get? j = (d.items.find? fun q => decide (q.1 = j)).map Prod.snd := rfl
  rw [← hget]
  cases d.get? j with
  | none => rfl
  | some v => by_cases hp : p v <;> simp [hp]

variable {p f} in
/-- The loop changes nothing exactly where every value it updates is already as it would be. The
    order of the items is the same in any case, so this is about the values alone. -/
theorem updateWhere_eq_self_iff {d : Dict κ ν} :
    d.updateWhere p f = d ↔ ∀ k v, d.get? k = some v → p v → f v = v := by
  constructor
  · intro h k v hv hp
    have hk := get?_updateWhere p f d k
    rw [h, hv, Option.map_some, if_pos hp] at hk
    exact (Option.some.inj hk).symm
  · intro h
    have hbody : ∀ q ∈ d.items, updateBody p f d q = d := by
      intro q hq
      unfold updateBody
      split_ifs with hp
      · have hv := mem_items_iff.mp hq
        rw [set_eq_self_iff, h q.1 q.2 hv hp]
        exact hv
      · rfl
    have hfold : ∀ l : List (κ × ν), (∀ q ∈ l, updateBody p f d q = d) →
        l.foldl (updateBody p f) d = d := by
      intro l hl
      induction l with
      | nil => rfl
      | cons q rest ih =>
        rw [List.foldl_cons, hl q List.mem_cons_self]
        exact ih fun r hr => hl r (List.mem_cons_of_mem _ hr)
    exact hfold d.items hbody

end Loop

/-- Two dictionaries that agree on the items a test selects list those items in some order
    each: what a loop over the one collects is a reordering of what it collects over the
    other. -/
theorem filter_items_perm {d e : Dict κ ν} {p : κ × ν → Bool}
    (h : ∀ k v, p (k, v) = true → (d.get? k = some v ↔ e.get? k = some v)) :
    (d.items.filter p).Perm (e.items.filter p) := by
  rw [List.perm_ext_iff_of_nodup (d.nodup_items.filter p) (e.nodup_items.filter p)]
  rintro ⟨k, v⟩
  simp only [List.mem_filter, mem_items_iff]
  constructor
  · rintro ⟨hd, hp⟩
    exact ⟨(h k v hp).mp hd, hp⟩
  · rintro ⟨he, hp⟩
    exact ⟨(h k v hp).mpr he, hp⟩

end Dict

end Py
