import AdversarialCognition.Lib.RoundTrip

/-!
# Surrogates left apart

A code point past U+FFFF is printed by the escapes of its two halves. So a text in which two
halves stand side by side is printed as the one in which they are joined, and it is the joined
text that is read (`readAs_dumps_joined`).

A Python string can have the halves apart: nothing in the language joins them, and a text that was
decoded with `surrogatepass`, or put together of two escapes, has them. Such a string is not the
one with the joined code point, and has another length. So printing is not injective on strings,
and this module says how far it is from being so: a dump determines the value but for which
neighbouring halves were joined (`joinStrings_eq_of_dumps`). Results about dumps of arbitrary
strings are stated with `joined`, and a text that can be encoded has no halves at all.

The keys of a dictionary are left as they are by `joinStrings`. Two keys may fall together when
they are joined, and then an item is lost, so keys with halves apart are left out of `Sendable`.
The keys of all payloads here are names in ASCII.
-/

namespace Py.Json

open Str

/-- The text with its halves joined, two by two from the left. What is joined is no half any more,
    so nothing is joined twice. -/
def joined : List CodePoint → Str
  | c :: d :: rest =>
      match pair? c.val d.val with
      | some e => e :: joined rest
      | none => c :: joined (d :: rest)
  | t => t

theorem pair?_eq_some_iff {c d e : CodePoint} : pair? c.val d.val = some e ↔
    Halves c d ∧ e.val = 0x10000 + (c.val - 0xD800) * 0x400 + (d.val - 0xDC00) := by
  by_cases h : Halves c d
  · have hbound : 0x10000 + (c.val - 0xD800) * 0x400 + (d.val - 0xDC00) < 0x110000 := by
      have hhigh := h.1
      have hlow := h.2
      omega
    rw [pair?, if_pos ⟨h.1.1, h.1.2, h.2.1, h.2.2⟩, Option.some_inj, Fin.ext_iff]
    show (_ % 0x110000 = _) ↔ _
    rw [Nat.mod_eq_of_lt hbound]
    exact ⟨fun heq => ⟨h, heq.symm⟩, fun heq => heq.2.symm⟩
  · rw [pair?, if_neg fun hall => h ⟨⟨hall.1, hall.2.1⟩, hall.2.2⟩]
    exact iff_of_false (fun heq => Option.some_ne_none e heq.symm) fun hboth => h hboth.1

theorem pair?_eq_none_iff {c d : CodePoint} : pair? c.val d.val = none ↔ ¬ Halves c d := by
  constructor
  · intro hnone hhalves
    rw [pair?, if_pos ⟨hhalves.1.1, hhalves.1.2, hhalves.2.1, hhalves.2.2⟩] at hnone
    cases hnone
  · intro h
    rw [pair?, if_neg fun hall => h ⟨⟨hall.1, hall.2.1⟩, hall.2.2⟩]

theorem dumpsPoint_pair {c d e : CodePoint} (h : pair? c.val d.val = some e) :
    dumpsPoint e = dumpsPoint c ++ dumpsPoint d := by
  obtain ⟨⟨⟨hc₁, hc₂⟩, hd₁, hd₂⟩, he⟩ := pair?_eq_some_iff.1 h
  have hescape : ∀ x : CodePoint, 0xD800 ≤ x.val → x.val ≤ 0xDFFF →
      dumpsPoint x = lit "\\u" ++ hex 4 x.val := by
    intro x hlow hhigh
    unfold dumpsPoint
    rw [if_neg (by omega), if_neg (by omega), if_neg (by omega), if_neg (by omega),
      if_neg (by omega), if_neg (by omega), if_neg (by omega), if_neg (by omega),
      if_pos (by omega)]
  have hhigh : 0xD800 + (e.val - 0x10000) / 0x400 = c.val := by omega
  have hlow : 0xDC00 + (e.val - 0x10000) % 0x400 = d.val := by omega
  rw [hescape c hc₁ (by omega), hescape d (by omega) hd₂]
  unfold dumpsPoint
  rw [if_neg (by omega), if_neg (by omega), if_neg (by omega), if_neg (by omega),
    if_neg (by omega), if_neg (by omega), if_neg (by omega), if_neg (by omega),
    if_neg (by omega)]
  dsimp only
  rw [hhigh, hlow, List.append_assoc (lit "\\u" ++ hex 4 c.val)]

/-- **A text and the one with its halves joined are printed alike.** This is where the string of a
    program and the string of its reader come apart. -/
theorem dumpsStr_joined (s : Str) : dumpsStr (joined s) = dumpsStr s := by
  have hbody : (joined s).flatMap dumpsPoint = s.flatMap dumpsPoint := by
    induction s using joined.induct with
    | case1 c d s e hpair ih =>
      rw [joined, hpair]
      dsimp only
      rw [List.flatMap_cons, ih, dumpsPoint_pair hpair, List.flatMap_cons, List.flatMap_cons,
        List.append_assoc]
    | case2 c d s hpair ih =>
      rw [joined, hpair]
      dsimp only
      rw [List.flatMap_cons, ih, List.flatMap_cons, List.flatMap_cons, List.flatMap_cons]
    | case3 s hs => rw [joined.eq_2 s hs]
  rw [dumpsStr, hbody, dumpsStr]

theorem head?_joined (c : CodePoint) (s : Str) :
    ∃ e, (joined (c :: s)).head? = some e ∧ (e = c ∨ 0xFFFF < e.val) := by
  cases s with
  | nil => exact ⟨c, rfl, .inl rfl⟩
  | cons d s =>
    rw [joined]
    cases hpair : pair? c.val d.val with
    | some e =>
      have he := (pair?_eq_some_iff.1 hpair).2
      exact ⟨e, rfl, .inr (by omega)⟩
    | none => exact ⟨c, rfl, .inl rfl⟩

/-- **No halves are left apart in it.** -/
theorem unpaired_joined (s : Str) : Unpaired (joined s) := by
  -- what stands past U+FFFF is no half, so it can be put before or behind anything
  have hput : ∀ {c : CodePoint} {s : Str}, Unpaired s →
      (∀ d, s.head? = some d → ¬ Halves c d) → Unpaired (c :: s) := by
    intro c s hs hhead
    cases s with
    | nil => exact .singleton c
    | cons d s => exact .cons_cons (hhead d rfl) hs
  induction s using joined.induct with
  | case1 c d s e hpair ih =>
    have he := (pair?_eq_some_iff.1 hpair).2
    rw [joined, hpair]
    apply hput ih
    intro x _ hhalves
    have := hhalves.1.2
    omega
  | case2 c d s hpair ih =>
    rw [joined, hpair]
    apply hput ih
    intro x hx
    obtain ⟨e, he, hcases⟩ := head?_joined d s
    rw [he, Option.some_inj] at hx
    subst hx
    rcases hcases with rfl | hpast
    · exact pair?_eq_none_iff.1 hpair
    · intro hhalves
      have := hhalves.2.2
      omega
  | case3 s hs =>
    rw [joined.eq_2 s hs]
    cases s with
    | nil => exact .nil
    | cons c s =>
      cases s with
      | nil => exact .singleton c
      | cons d s => exact absurd rfl (hs c d s)

theorem joined_of_unpaired {s : Str} (h : Unpaired s) : joined s = s := by
  induction s using joined.induct with
  | case1 c d s e hpair ih =>
    have hhalves := (pair?_eq_some_iff.1 hpair).1
    exact absurd hhalves (List.isChain_cons_cons.1 h).1
  | case2 c d s hpair ih =>
    rw [joined, hpair]
    dsimp only
    rw [ih (List.isChain_cons_cons.1 h).2]
  | case3 s hs => exact joined.eq_2 s hs

/-- A text of which no point is past U+FFFF was joined of no halves. So it is enough to look at
    what was read. -/
theorem eq_of_joined {s t : Str} (h : joined s = t) (ht : ∀ c ∈ t, c.val < 0x10000) : s = t := by
  induction s using joined.induct generalizing t with
  | case1 c d s e hpair ih =>
    rw [joined, hpair] at h
    dsimp only at h
    have hlow := ht e (h ▸ List.mem_cons_self)
    have hhigh := (pair?_eq_some_iff.1 hpair).2
    omega
  | case2 c d s hpair ih =>
    rw [joined, hpair] at h
    dsimp only at h
    subst h
    rw [← ih rfl fun e he => ht e (List.mem_cons_of_mem _ he)]
  | case3 s hs => rwa [joined.eq_2 s hs] at h

/-!
## Values

The strings of a value are joined one by one, and nothing else of it changes. A value is printed
as the joined one and read as it, so whatever is known of the reading of joined values is known of
all that can be sent.
-/

mutual

/-- The value with the halves joined in every string but the keys. -/
def joinStrings : Json → Json
  | str s => str (joined s)
  | list items => list (joinItems items)
  | obj items => obj (joinMembers items)
  | value => value

def joinItems : List Json → List Json
  | [] => []
  | item :: items => joinStrings item :: joinItems items

def joinMembers : List (Str × Json) → List (Str × Json)
  | [] => []
  | (key, value) :: items => (key, joinStrings value) :: joinMembers items

end

theorem joinItems_eq (items : List Json) : joinItems items = items.map joinStrings := by
  induction items with
  | nil => rfl
  | cons item items ih => rw [joinItems, ih, List.map_cons]

theorem map_fst_joinMembers (items : List (Str × Json)) :
    (joinMembers items).map Prod.fst = items.map Prod.fst := by
  induction items with
  | nil => rfl
  | cons item items ih => rw [joinMembers, List.map_cons, ih, List.map_cons]

theorem joinMembers_append (items more : List (Str × Json)) :
    joinMembers (items ++ more) = joinMembers items ++ joinMembers more := by
  induction items with
  | nil => rfl
  | cons item items ih => rw [List.cons_append, joinMembers, ih, joinMembers, List.cons_append]

theorem enclosed_joinStrings (value : Json) : enclosed (joinStrings value) = enclosed value := by
  cases value <;> rfl

mutual

theorem dumps_joinStrings : ∀ value : Json, dumps (joinStrings value) = dumps value
  | null => rfl
  | bool _ => rfl
  | int _ => rfl
  | float _ => rfl
  | str s => dumpsStr_joined s
  | list items => by rw [joinStrings, dumps, dumpsItems_joinItems items, dumps]
  | obj items => by rw [joinStrings, dumps, dumpsMembers_joinMembers items, dumps]

theorem dumpsItems_joinItems : ∀ items : List Json, dumpsItems (joinItems items) = dumpsItems items
  | [] => rfl
  | item :: items => by
    rw [joinItems, dumpsItems, dumps_joinStrings item, dumpsItems_joinItems items, dumpsItems]

theorem dumpsMembers_joinMembers : ∀ items : List (Str × Json),
    dumpsMembers (joinMembers items) = dumpsMembers items
  | [] => rfl
  | (key, value) :: items => by
    rw [joinMembers, dumpsMembers, dumps_joinStrings value, dumpsMembers_joinMembers items,
      dumpsMembers]

end

mutual

theorem depth_joinStrings : ∀ value : Json, (joinStrings value).depth = value.depth
  | null => rfl
  | bool _ => rfl
  | int _ => rfl
  | float _ => rfl
  | str _ => rfl
  | list items => by rw [joinStrings, depth, depth_joinItems items, depth]
  | obj items => by rw [joinStrings, depth, depth_joinMembers items, depth]

theorem depth_joinItems : ∀ items : List Json, depthItems (joinItems items) = depthItems items
  | [] => rfl
  | item :: items => by
    rw [joinItems, depthItems, depth_joinStrings item, depth_joinItems items, depthItems]

theorem depth_joinMembers : ∀ items : List (Str × Json),
    depthMembers (joinMembers items) = depthMembers items
  | [] => rfl
  | (key, value) :: items => by
    rw [joinMembers, depthMembers, depth_joinStrings value, depth_joinMembers items, depthMembers]

end

mutual

/-- A value that is read back but for its strings, which may be any. -/
def Sendable [Decoder] : Json → Prop
  | null => True
  | bool _ => True
  | int n => n.natAbs < 10 ^ 4300
  | float text => FloatText text
  | str _ => True
  | list items => SendableItems items
  | obj items => (items.map Prod.fst).Nodup ∧ SendableMembers items

def SendableItems [Decoder] : List Json → Prop
  | [] => True
  | item :: items => Sendable item ∧ SendableItems items

def SendableMembers [Decoder] : List (Str × Json) → Prop
  | [] => True
  | (key, value) :: items => Unpaired key ∧ Sendable value ∧ SendableMembers items

end

section

variable [Decoder]

theorem sendableItems_iff {items : List Json} :
    SendableItems items ↔ ∀ item ∈ items, Sendable item := by
  induction items with
  | nil => simp [SendableItems]
  | cons item items ih => simp [SendableItems, ih]

theorem sendableMembers_append {items more : List (Str × Json)} :
    SendableMembers (items ++ more) ↔ SendableMembers items ∧ SendableMembers more := by
  induction items with
  | nil => simp [SendableMembers]
  | cons item items ih =>
    obtain ⟨key, value⟩ := item
    simp [SendableMembers, ih, and_assoc]

mutual

theorem loadable_joinStrings : ∀ {value : Json}, Sendable value → Loadable (joinStrings value)
  | null, _ => trivial
  | bool _, _ => trivial
  | int _, h => h
  | float _, h => h
  | str s, _ => unpaired_joined s
  | list _, h => loadable_joinItems h
  | obj items, h => ⟨by rw [map_fst_joinMembers]; exact h.1, loadable_joinMembers h.2⟩

theorem loadable_joinItems : ∀ {items : List Json}, SendableItems items →
    LoadableItems (joinItems items)
  | [], _ => trivial
  | _ :: _, h => ⟨loadable_joinStrings h.1, loadable_joinItems h.2⟩

theorem loadable_joinMembers : ∀ {items : List (Str × Json)}, SendableMembers items →
    LoadableMembers (joinMembers items)
  | [], _ => trivial
  | (_, _) :: _, h => ⟨h.1, loadable_joinStrings h.2.1, loadable_joinMembers h.2.2⟩

end

/-- **Whatever its strings are, a value is read as the one with their halves joined.** -/
theorem readAs_dumps_joined {value : Json} (h : Sendable value) :
    ReadAs (dumps value) (joinStrings value) := by
  have hread := readAs_dumps (loadable_joinStrings h)
  rwa [dumps_joinStrings] at hread

/-- Of two readings of one text there is only one value. The text is put in front of nothing, with
    fuel and room enough for both. -/
theorem ReadAs.unique {text : Str} {v w : Json} (hv : ReadAs text v) (hw : ReadAs text w) :
    v = w := by
  -- the room is the reader's, so there may as well be enough for both
  have hv := hv.scan (2 * text.length) (max v.depth w.depth) [] (fun _ => .nil) (le_refl _)
    (le_max_left _ _)
  have hw := hw.scan (2 * text.length) (max v.depth w.depth) [] (fun _ => .nil) (le_refl _)
    (le_max_right _ _)
  rw [hv, Except.ok.injEq, Prod.mk.injEq] at hw
  exact hw.1

theorem joinStrings_eq_of_dumps {v w : Json} (hv : Sendable v) (hw : Sendable w)
    (h : dumps v = dumps w) : joinStrings v = joinStrings w := by
  have hread := readAs_dumps_joined hv
  rw [h] at hread
  exact hread.unique (readAs_dumps_joined hw)

end

end Py.Json
