import AdversarialCognition.Lib.Untyped
import Mathlib.Data.List.Perm.Basic

/-!
# Canonical printing

`json.dumps(value, sort_keys=True)`: every dictionary is printed in the order of its keys. The
text determines the value up to that order, so it determines whatever is looked up in it.

## What is printable and what is encodable

Two conditions are kept apart here. That the text can be read back needs a value of which the
reader makes what the printer was given, `Printable` or one of the wider classes. That the text
can be encoded and hashed needs much less: everything past ASCII is escaped, surrogates too, so
any value without floats will do (`Floatless`). A digest can therefore be taken of values that
would not be read back, and where a program does so the second condition is the one to ask for.

The order of the keys is that of code points. The sort is stable and no two keys are equal, so
which sort it is does not matter.
-/

namespace Py.Json

open Str

/-- The order of the keys, by code points. -/
def keyLe (a b : Str × Json) : Bool := !decide (b.1 < a.1)

mutual

/-- The value with every dictionary in the order of its keys. -/
def sortKeys : Json → Json
  | list items => list (sortItems items)
  | obj items => obj ((sortMembers items).mergeSort keyLe)
  | value => value

def sortItems : List Json → List Json
  | [] => []
  | item :: items => sortKeys item :: sortItems items

def sortMembers : List (Str × Json) → List (Str × Json)
  | [] => []
  | (key, value) :: items => (key, sortKeys value) :: sortMembers items

end

/-- `json.dumps(value, sort_keys=True)`. The nested dictionaries are sorted as well. -/
def canonical (value : Json) : Str := dumps (sortKeys value)

theorem sortItems_eq (items : List Json) : sortItems items = items.map sortKeys := by
  induction items with
  | nil => rfl
  | cons item items ih => rw [sortItems, ih, List.map_cons]

theorem sortMembers_eq (items : List (Str × Json)) :
    sortMembers items = items.map fun item => (item.1, sortKeys item.2) := by
  induction items with
  | nil => rfl
  | cons item items ih => rw [sortMembers, ih, List.map_cons]

mutual

theorem depth_sortKeys_le : ∀ value : Json, (sortKeys value).depth ≤ value.depth
  | null => le_refl _
  | bool _ => le_refl _
  | int _ => le_refl _
  | float _ => le_refl _
  | str _ => le_refl _
  | list items => Nat.succ_le_succ (depth_sortItems_le items)
  | obj items => by
    have hperm := List.mergeSort_perm (sortMembers items) keyLe
    refine Nat.succ_le_succ (depthMembers_le_iff.2 fun item hmem => ?_)
    exact depthMembers_le_iff.1 (depth_sortMembers_le items) item (hperm.mem_iff.1 hmem)

theorem depth_sortItems_le : ∀ items : List Json, depthItems (sortItems items) ≤ depthItems items
  | [] => le_refl _
  | item :: items => max_le_max (depth_sortKeys_le item) (depth_sortItems_le items)

theorem depth_sortMembers_le : ∀ items : List (Str × Json),
    depthMembers (sortMembers items) ≤ depthMembers items
  | [] => le_refl _
  | (_, value) :: items => max_le_max (depth_sortKeys_le value) (depth_sortMembers_le items)

end

theorem map_fst_sortMembers (items : List (Str × Json)) :
    (sortMembers items).map Prod.fst = items.map Prod.fst := by
  rw [sortMembers_eq, List.map_map]
  rfl

/-!
## What is printable stays so

To sort the keys of a value does not change whether it can be read back, and the sorted text is
read back as the sorted value.
-/

theorem printableItems_iff {items : List Json} :
    PrintableItems items ↔ ∀ item ∈ items, Printable item := by
  induction items with
  | nil => simp [PrintableItems]
  | cons item items ih => simp [PrintableItems, ih]

theorem printableMembers_iff {items : List (Str × Json)} :
    PrintableMembers items ↔ ∀ item ∈ items, Encodable item.1 ∧ Printable item.2 := by
  induction items with
  | nil => simp [PrintableMembers]
  | cons item items ih =>
    obtain ⟨key, value⟩ := item
    simp [PrintableMembers, ih, and_assoc]

mutual

theorem printable_sortKeys : ∀ {value : Json}, Printable value → Printable (sortKeys value)
  | null, h => h
  | bool _, h => h
  | int _, h => h
  | float _, h => h
  | str _, h => h
  | list _, h => printable_sortItems h
  | obj items, h => by
    have hsorted := printable_sortMembers h.2
    have hperm := List.mergeSort_perm (sortMembers items) keyLe
    refine ⟨?_, printableMembers_iff.2 fun item hmem => ?_⟩
    · rw [(hperm.map Prod.fst).nodup_iff, map_fst_sortMembers]
      exact h.1
    · exact printableMembers_iff.1 hsorted item (hperm.mem_iff.1 hmem)

theorem printable_sortItems : ∀ {items : List Json}, PrintableItems items →
    PrintableItems (sortItems items)
  | [], h => h
  | _ :: _, h => ⟨printable_sortKeys h.1, printable_sortItems h.2⟩

theorem printable_sortMembers : ∀ {items : List (Str × Json)}, PrintableMembers items →
    PrintableMembers (sortMembers items)
  | [], h => h
  | (_, _) :: _, h => ⟨h.1, printable_sortKeys h.2.1, printable_sortMembers h.2.2⟩

end

/-- **The canonical text determines the sorted value.** What it does not determine is the order in
    which a dictionary was built. -/
theorem canonical_inj {v w : Json} (hv : Printable v) (hw : Printable w)
    (h : canonical v = canonical w) : sortKeys v = sortKeys w :=
  dumps_inj (printable_sortKeys hv) (printable_sortKeys hw) h

/-!
## What is looked up

Sorting changes the order in which a dictionary lists its items, and nothing of what is found
under a key.
-/

/-- What is found under a key is the one item that has the key, where keys are distinct. -/
theorem item?_eq_some_iff {items : List (Str × Json)} (hnodup : (items.map Prod.fst).Nodup)
    {key : String} {value : Json} : item? items key = some value ↔ (lit key, value) ∈ items := by
  rw [item?, Option.map_eq_some_iff]
  constructor
  · intro h
    obtain ⟨item, hfind, hvalue⟩ := h
    have hkey : item.1 = lit key := by simpa using List.find?_some hfind
    have hmem := List.mem_of_find?_eq_some hfind
    rwa [← hkey, ← hvalue]
  · intro hmem
    cases hfind : items.find? fun item => item.1 == lit key with
    | none =>
      have hnone := List.find?_eq_none.1 hfind (lit key, value) hmem
      simp at hnone
    | some item =>
      have hkey : item.1 = lit key := by simpa using List.find?_some hfind
      have hsame : item = (lit key, value) :=
        List.inj_on_of_nodup_map hnodup (List.mem_of_find?_eq_some hfind) hmem hkey
      exact ⟨item, rfl, by rw [hsame]⟩

theorem item?_sortKeys {items : List (Str × Json)} (hnodup : (items.map Prod.fst).Nodup)
    (key : String) :
    item? ((sortMembers items).mergeSort keyLe) key = (item? items key).map sortKeys := by
  have hperm := List.mergeSort_perm (sortMembers items) keyLe
  have hsorted : (((sortMembers items).mergeSort keyLe).map Prod.fst).Nodup := by
    rw [(hperm.map Prod.fst).nodup_iff, map_fst_sortMembers]
    exact hnodup
  apply Option.ext
  intro value
  rw [item?_eq_some_iff hsorted, hperm.mem_iff, sortMembers_eq, List.mem_map,
    Option.map_eq_some_iff]
  simp only [item?_eq_some_iff hnodup, Prod.mk.injEq, Prod.exists]
  constructor
  · intro h
    obtain ⟨found, old, hmem, hkey, hvalue⟩ := h
    exact ⟨old, hkey ▸ hmem, hvalue⟩
  · intro h
    obtain ⟨old, hmem, hvalue⟩ := h
    exact ⟨lit key, old, hmem, rfl, hvalue⟩

/-- **Two dictionaries alike up to the order of keys have the same items**, up to the order
    of theirs. -/
theorem item?_of_sortKeys_eq {v w : List (Str × Json)} (hv : (v.map Prod.fst).Nodup)
    (hw : (w.map Prod.fst).Nodup) (h : sortKeys (obj v) = sortKeys (obj w)) (key : String) :
    (item? v key).map sortKeys = (item? w key).map sortKeys := by
  rw [sortKeys, sortKeys, obj.injEq] at h
  rw [← item?_sortKeys hv, ← item?_sortKeys hw, h]

/-- A list of strings, as a value. -/
def strs (items : List Str) : Json := list (items.map str)

@[simp] theorem depth_strs (items : List Str) : (strs items).depth = 1 := by
  have hflat : depthItems (items.map str) ≤ 0 :=
    depthItems_le_iff.2 (by simp [depth])
  rw [strs, depth, Nat.le_zero.1 hflat]

theorem sortKeys_strs (items : List Str) : sortKeys (strs items) = strs items := by
  rw [strs, sortKeys, sortItems_eq, List.map_map]
  exact congrArg list (List.map_congr_left fun item _ => rfl)

theorem strs_inj {v w : List Str} (h : strs v = strs w) : v = w :=
  List.map_injective_iff.2 (fun _ _ heq => str.inj heq) (list.inj h)

theorem printable_strs {items : List Str} (h : ∀ item ∈ items, Encodable item) :
    Printable (strs items) := by
  refine printableItems_iff.2 fun item hmem => ?_
  obtain ⟨text, htext, rfl⟩ := List.mem_map.1 hmem
  exact h text htext

/-! ## Values without floats

A float is printed by a text that is its own, of which nothing is known here. Everything else is
printed in ASCII, whatever its strings are, because a code point beyond it is escaped; so `Printable`
would ask too much. -/

mutual

/-- There is no float in the value. -/
def Floatless : Json → Prop
  | float _ => False
  | list items => FloatlessItems items
  | obj items => FloatlessMembers items
  | _ => True

def FloatlessItems : List Json → Prop
  | [] => True
  | item :: items => Floatless item ∧ FloatlessItems items

def FloatlessMembers : List (Str × Json) → Prop
  | [] => True
  | (_, value) :: items => Floatless value ∧ FloatlessMembers items

end

theorem floatlessMembers_iff {items : List (Str × Json)} :
    FloatlessMembers items ↔ ∀ item ∈ items, Floatless item.2 := by
  induction items with
  | nil => simp [FloatlessMembers]
  | cons item items ih =>
    obtain ⟨key, value⟩ := item
    simp [FloatlessMembers, ih]

mutual

theorem Printable.floatless : ∀ {value : Json}, Printable value → Floatless value
  | null, _ => trivial
  | bool _, _ => trivial
  | int _, _ => trivial
  | float _, h => h
  | str _, _ => trivial
  | list _, h => floatlessItems_of_printable h
  | obj _, h => floatlessMembers_of_printable h.2

theorem floatlessItems_of_printable : ∀ {items : List Json}, PrintableItems items →
    FloatlessItems items
  | [], _ => trivial
  | _ :: _, h => ⟨h.1.floatless, floatlessItems_of_printable h.2⟩

theorem floatlessMembers_of_printable : ∀ {items : List (Str × Json)}, PrintableMembers items →
    FloatlessMembers items
  | [], _ => trivial
  | (_, _) :: _, h => ⟨h.2.1.floatless, floatlessMembers_of_printable h.2.2⟩

end

mutual

theorem floatless_sortKeys : ∀ {value : Json}, Floatless value → Floatless (sortKeys value)
  | null, h => h
  | bool _, h => h
  | int _, h => h
  | float _, h => h
  | str _, h => h
  | list _, h => floatless_sortItems h
  | obj items, h => by
    have hperm := List.mergeSort_perm (sortMembers items) keyLe
    refine floatlessMembers_iff.2 fun item hmem => ?_
    exact floatlessMembers_iff.1 (floatless_sortMembers h) item (hperm.mem_iff.1 hmem)

theorem floatless_sortItems : ∀ {items : List Json}, FloatlessItems items →
    FloatlessItems (sortItems items)
  | [], h => h
  | _ :: _, h => ⟨floatless_sortKeys h.1, floatless_sortItems h.2⟩

theorem floatless_sortMembers : ∀ {items : List (Str × Json)}, FloatlessMembers items →
    FloatlessMembers (sortMembers items)
  | [], h => h
  | (_, _) :: _, h => ⟨floatless_sortKeys h.1, floatless_sortMembers h.2⟩

end

/-!
## The text is ASCII

Each code point past ASCII is escaped, surrogates included, so a dump can always be encoded.
-/

theorem encodable_dumpsPoint (c : CodePoint) : Encodable (dumpsPoint c) := by
  unfold dumpsPoint
  split_ifs with h₁ h₂ h₃ h₄ h₅ h₆ h₇ hascii hbmp
  all_goals try exact encodable_lit _
  · exact encodable_singleton (by omega)
  · exact encodable_append.2 ⟨encodable_lit _, encodable_hex _ _⟩
  · simp only [encodable_append]
    exact ⟨⟨⟨encodable_lit _, encodable_hex _ _⟩, encodable_lit _⟩, encodable_hex _ _⟩

theorem encodable_dumpsStr (s : Str) : Encodable (dumpsStr s) := by
  have hbody : Encodable (s.flatMap dumpsPoint) := by
    intro c hc
    obtain ⟨d, -, hd⟩ := List.mem_flatMap.1 hc
    exact encodable_dumpsPoint d c hd
  simp only [dumpsStr, encodable_append]
  exact ⟨⟨encodable_lit _, hbody⟩, encodable_lit _⟩

theorem encodable_join (sep : String) {items : List Str} (h : ∀ item ∈ items, Encodable item) :
    Encodable (join sep items) :=
  encodable_flatten (encodable_intersperse (encodable_lit sep) h)

mutual

/-- **A dump can be encoded**, whatever strings are in the value. -/
theorem encodable_dumps : ∀ {value : Json}, Floatless value → Encodable (dumps value)
  | null, _ => encodable_lit _
  | bool true, _ => encodable_lit _
  | bool false, _ => encodable_lit _
  | int n, _ => by
    rw [dumps, ofInt]
    split
    · exact encodable_append.2 ⟨encodable_lit _, encodable_ofNat _⟩
    · exact encodable_ofNat _
  | float _, h => h.elim
  | str s, _ => encodable_dumpsStr s
  | list items, h => by
    rw [dumps]
    simp only [encodable_append]
    exact ⟨⟨encodable_lit _, encodable_join _ (encodable_dumpsItems h)⟩, encodable_lit _⟩
  | obj items, h => by
    rw [dumps]
    simp only [encodable_append]
    exact ⟨⟨encodable_lit _, encodable_join _ (encodable_dumpsMembers h)⟩, encodable_lit _⟩

theorem encodable_dumpsItems : ∀ {items : List Json}, FloatlessItems items →
    ∀ text ∈ dumpsItems items, Encodable text
  | [], _ => by simp [dumpsItems]
  | item :: items, h => by
    rw [dumpsItems]
    exact List.forall_mem_cons.2 ⟨encodable_dumps h.1, encodable_dumpsItems h.2⟩

theorem encodable_dumpsMembers : ∀ {items : List (Str × Json)}, FloatlessMembers items →
    ∀ text ∈ dumpsMembers items, Encodable text
  | [], _ => by simp [dumpsMembers]
  | (key, value) :: items, h => by
    rw [dumpsMembers]
    refine List.forall_mem_cons.2 ⟨?_, encodable_dumpsMembers h.2⟩
    simp only [encodable_append]
    exact ⟨⟨encodable_dumpsStr key, encodable_lit _⟩, encodable_dumps h.1⟩

end

theorem encodable_canonical {value : Json} (h : Printable value) : Encodable (canonical value) :=
  encodable_dumps (printable_sortKeys h).floatless

end Py.Json
