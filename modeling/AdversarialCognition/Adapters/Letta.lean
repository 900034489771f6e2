import AdversarialCognition.Lib.Ecma

/-!
# The ids in a turn's text

`adapters/letta/bridge.js`: `idsFrom` looks for the first opening bracket from which a JSON array
of strings can be read. From a bracket it keeps the depth of the brackets outside quotes and tries
`JSON.parse` wherever that comes down to zero. A text that does not parse sends it to the next
opening bracket; a value that is no array of strings does not, and it reads on.

An array that `JSON.stringify` has written is found whatever stands behind it
(`idsFrom_stringify`): inside quotes the scan follows the escapes, so the first bracket that
closes is the array's own.

## The text of a turn

Strings here are JavaScript's, of code units, and so is what stands around the array; a half of a
surrogate pair is a unit like any other. `stringify` writes such a half as an escape, and
`escape_cases` lists what it can write for a unit.

The proof follows the scan from left to right over what `stringify` has written: a unit, the units
of a string, the string with its quotes, the strings after the first, and the bracket. Each of
these leaves the scan in the state in which it found it, whatever is taken already and whatever
follows.

The prose before the array has no opening bracket. With one it could, for all the scan knows, be
the beginning of the array.
-/

namespace AdversarialCognition.Letta

open Ecma

/-- Where the scan from a bracket is. -/
structure Scan where
  depth : ℤ
  quoted : Bool
  escaped : Bool

/-- `parsed.every((value) => typeof value === "string")`, with the strings. -/
def strings? : Value → Option (List JsStr)
  | .array items => items.mapM fun
      | .string s => some s
      | _ => none
  | _ => none

/-- The scan from a bracket: the ids it returns, unless it ends or breaks off without any. `taken`
    is the text from the bracket on. -/
def scanFrom (scan : Scan) (taken : JsStr) : JsStr → Option (List JsStr)
  | [] => none
  | char :: rest =>
      if scan.quoted then
        if scan.escaped then scanFrom { scan with escaped := false } (taken ++ [char]) rest
        else if char = 0x5C then scanFrom { scan with escaped := true } (taken ++ [char]) rest
        else if char = 0x22 then scanFrom { scan with quoted := false } (taken ++ [char]) rest
        else scanFrom scan (taken ++ [char]) rest
      else if char = 0x22 then scanFrom { scan with quoted := true } (taken ++ [char]) rest
      else if char = 0x5B then
        scanFrom { scan with depth := scan.depth + 1 } (taken ++ [char]) rest
      else if char = 0x5D then
        if scan.depth - 1 ≠ 0 then
          scanFrom { scan with depth := scan.depth - 1 } (taken ++ [char]) rest
        else
          match parse (taken ++ [char]) with
          | none => none
          | some parsed =>
              match strings? parsed with
              | some ids => some (ids.take 8)
              | none => scanFrom { scan with depth := scan.depth - 1 } (taken ++ [char]) rest
      else scanFrom scan (taken ++ [char]) rest

/-- `idsFrom`: the scan from every opening bracket in turn, the first that returns ids. -/
def idsFrom : JsStr → List JsStr
  | [] => []
  | char :: rest =>
      if char ≠ 0x5B then idsFrom rest
      else
        match scanFrom ⟨0, false, false⟩ [] (char :: rest) with
        | some ids => ids
        | none => idsFrom rest

/-!
## Any text

Nothing is assumed of the text here. The scan takes ids as it meets them, and stops at eight.
-/

/-- Eight ids are taken at most. The induction is that of the scan. -/
theorem length_of_scanFrom {scan : Scan} {taken text : JsStr} {ids : List JsStr}
    (h : scanFrom scan taken text = some ids) : ids.length ≤ 8 := by
  induction text generalizing scan taken with
  | nil => cases h
  | cons char rest ih =>
    unfold scanFrom at h
    split_ifs at h
    all_goals try exact ih h
    split at h
    · cases h
    · split at h
      · cases h
        exact List.length_take_le _ _
      · exact ih h

theorem length_idsFrom_le (text : JsStr) : (idsFrom text).length ≤ 8 := by
  induction text with
  | nil => exact Nat.zero_le 8
  | cons char rest ih =>
    unfold idsFrom
    split
    · exact ih
    · split
      · rename_i ids h
        exact length_of_scanFrom h
      · exact ih

/-!
## An array of strings

The reader counts brackets and skips what is in quotes, so that what is between two brackets is
found without being parsed. The lemmas follow the printer: a character, an escape, a string and
the strings of a list are each passed over with the scan left where it was, until the bracket of
the array closes it. What is printed before has no bracket, and what comes behind does not matter.
-/

theorem scanFrom_plain {depth : ℤ} {char : UInt16} (hquote : char ≠ 0x22) (hslash : char ≠ 0x5C)
    (taken rest : JsStr) : scanFrom ⟨depth, true, false⟩ taken (char :: rest) =
      scanFrom ⟨depth, true, false⟩ (taken ++ [char]) rest := by
  rw [scanFrom, if_pos rfl]
  dsimp only
  rw [if_neg Bool.false_ne_true, if_neg hslash, if_neg hquote]

/-- A unit that is escaped is no end, whatever it is. -/
theorem scanFrom_escaped (depth : ℤ) (char : UInt16) (taken rest : JsStr) :
    scanFrom ⟨depth, true, false⟩ taken (0x5C :: char :: rest) =
      scanFrom ⟨depth, true, false⟩ (taken ++ [0x5C, char]) rest := by
  have happend : taken ++ [0x5C] ++ [char] = taken ++ [0x5C, char] := List.append_assoc ..
  rw [scanFrom, if_pos rfl]
  dsimp only
  rw [if_neg Bool.false_ne_true, if_pos rfl, scanFrom, if_pos rfl, if_pos rfl, happend]

theorem scanFrom_escape (depth : ℤ) (c : UInt16) (taken rest : JsStr) :
    scanFrom ⟨depth, true, false⟩ taken (escape c ++ rest) =
      scanFrom ⟨depth, true, false⟩ (taken ++ escape c) rest := by
  rcases escape_cases c with ⟨e, -, heq⟩ | heq | ⟨heq, hquote, hslash, -⟩
  · rw [heq]
    exact scanFrom_escaped depth e taken rest
  · rw [heq]
    change scanFrom _ taken (0x5C :: 0x75 :: hexUnit (c.toNat / 4096) ::
      hexUnit (c.toNat / 256) :: hexUnit (c.toNat / 16) :: hexUnit c.toNat :: rest) = _
    rw [scanFrom_escaped, scanFrom_plain (hexUnit_ne _).1 (hexUnit_ne _).2,
      scanFrom_plain (hexUnit_ne _).1 (hexUnit_ne _).2,
      scanFrom_plain (hexUnit_ne _).1 (hexUnit_ne _).2,
      scanFrom_plain (hexUnit_ne _).1 (hexUnit_ne _).2]
    simp only [List.append_assoc]
    rfl
  · rw [heq]
    exact scanFrom_plain hquote hslash taken rest

theorem scanFrom_quote (depth : ℤ) (s taken rest : JsStr) :
    scanFrom ⟨depth, true, false⟩ taken (quote s ++ rest) =
      scanFrom ⟨depth, true, false⟩ (taken ++ quote s) rest := by
  fun_induction quote s generalizing taken with
  | case1 => rw [List.nil_append, List.append_nil]
  | case2 c => exact scanFrom_escape depth c taken rest
  | case3 c d s hpair ih =>
    rw [Bool.and_eq_true] at hpair
    have hhigh := plain_of_isHigh hpair.1
    have hlow := plain_of_isLow hpair.2
    rw [List.cons_append, List.cons_append, scanFrom_plain hhigh.1 hhigh.2.1,
      scanFrom_plain hlow.1 hlow.2.1, ih]
    simp only [List.append_assoc]
    rfl
  | case4 c d s hpair ih =>
    rw [List.append_assoc, scanFrom_escape, ih, List.append_assoc]

theorem scanFrom_stringifyString (depth : ℤ) (s taken rest : JsStr) :
    scanFrom ⟨depth, false, false⟩ taken (stringifyString s ++ rest) =
      scanFrom ⟨depth, false, false⟩ (taken ++ stringifyString s) rest := by
  have hopen : ∀ rest, scanFrom ⟨depth, false, false⟩ taken (0x22 :: rest) =
      scanFrom ⟨depth, true, false⟩ (taken ++ [0x22]) rest := by
    intro rest
    rw [scanFrom, if_neg Bool.false_ne_true, if_pos rfl]
  have hclose : ∀ taken, scanFrom ⟨depth, true, false⟩ taken (0x22 :: rest) =
      scanFrom ⟨depth, false, false⟩ (taken ++ [0x22]) rest := by
    intro taken
    rw [scanFrom, if_pos rfl]
    dsimp only
    rw [if_neg Bool.false_ne_true, if_neg (by decide), if_pos rfl]
  have htext : stringifyString s ++ rest = 0x22 :: (quote s ++ (0x22 :: rest)) := by
    rw [stringifyString, List.cons_append, List.cons_append, List.append_assoc]
    rfl
  have htaken : taken ++ [0x22] ++ quote s ++ [0x22] = taken ++ stringifyString s := by
    rw [List.append_assoc, List.append_assoc]
    rfl
  rw [htext, hopen, scanFrom_quote, hclose, htaken]

/-- The other strings of a list, with their commas, leave it too. -/
theorem scanFrom_tail (depth : ℤ) (ids : List JsStr) (taken rest : JsStr) :
    scanFrom ⟨depth, false, false⟩ taken (tail ids ++ rest) =
      scanFrom ⟨depth, false, false⟩ (taken ++ tail ids) rest := by
  induction ids generalizing taken with
  | nil => rw [tail, List.flatMap_nil, List.nil_append, List.append_nil]
  | cons id ids ih =>
    have hcomma : ∀ rest, scanFrom ⟨depth, false, false⟩ taken (0x2C :: rest) =
        scanFrom ⟨depth, false, false⟩ (taken ++ [0x2C]) rest := by
      intro rest
      rw [scanFrom, if_neg Bool.false_ne_true, if_neg (by decide), if_neg (by decide),
        if_neg (by decide)]
    have htail : tail (id :: ids) = 0x2C :: (stringifyString id ++ tail ids) := by
      rw [tail, List.flatMap_cons]
      rfl
    have htaken : taken ++ [0x2C] ++ stringifyString id ++ tail ids =
        taken ++ 0x2C :: (stringifyString id ++ tail ids) := by
      rw [List.append_assoc, List.append_assoc]
      rfl
    rw [htail, List.cons_append, List.append_assoc, hcomma, scanFrom_stringifyString, ih, htaken]

theorem strings?_map (ids : List JsStr) : strings? (.array (ids.map .string)) = some ids := by
  rw [strings?]
  induction ids with
  | nil => rfl
  | cons id ids ih =>
    rw [List.map_cons, List.mapM_cons, ih]
    rfl

theorem scanFrom_close {taken : JsStr} {ids : List JsStr}
    (h : taken ++ [0x5D] = stringify ids) (rest : JsStr) :
    scanFrom ⟨1, false, false⟩ taken (0x5D :: rest) = some (ids.take 8) := by
  rw [scanFrom, if_neg Bool.false_ne_true, if_neg (by decide), if_neg (by decide), if_pos rfl]
  dsimp only
  rw [if_neg (by decide), h, parse_stringify]
  dsimp only
  rw [strings?_map]

/-- **From its own bracket, the array is read.** -/
theorem scanFrom_stringify (ids : List JsStr) (rest : JsStr) :
    scanFrom ⟨0, false, false⟩ [] (stringify ids ++ rest) = some (ids.take 8) := by
  have hopen : ∀ rest, scanFrom ⟨0, false, false⟩ [] (0x5B :: rest) =
      scanFrom ⟨1, false, false⟩ [0x5B] rest := by
    intro rest
    rw [scanFrom, if_neg Bool.false_ne_true, if_neg (by decide), if_pos rfl]
    rfl
  cases ids with
  | nil =>
    have htext : stringify [] ++ rest = 0x5B :: 0x5D :: rest := rfl
    rw [htext, hopen]
    exact scanFrom_close (show [0x5B] ++ [0x5D] = stringify [] from rfl) rest
  -- the quotes and the comma in between leave the depth as it is
  | cons id ids =>
    have htext : stringify (id :: ids) ++ rest =
        0x5B :: (stringifyString id ++ (tail ids ++ 0x5D :: rest)) := by
      rw [stringify_cons, List.cons_append, List.append_assoc, List.append_assoc]
      rfl
    rw [htext, hopen, scanFrom_stringifyString, scanFrom_tail]
    refine scanFrom_close ?_ rest
    rw [stringify_cons, List.append_assoc, List.append_assoc]
    simp only [List.append_assoc]
    rfl

theorem idsFrom_append {front : JsStr} (h : 0x5B ∉ front) (text : JsStr) :
    idsFrom (front ++ text) = idsFrom text := by
  induction front with
  | nil => rfl
  | cons char front ih =>
    have hchar : char ≠ 0x5B := fun heq => h (heq ▸ List.mem_cons_self)
    rw [List.cons_append, idsFrom, if_pos hchar]
    exact ih fun hmem => h (List.mem_cons_of_mem _ hmem)

/-- **A list of strings is found, up to eight of them, behind any text without a bracket and
    before any text**; and whatever the text, no more than eight strings are. The scan goes from
    the first bracket and knows quotes and escapes, so what stands in an id does not mislead it. -/
theorem idsFrom_stringify :
    (∀ (ids : List JsStr) (front back : JsStr), 0x5B ∉ front →
      idsFrom (front ++ stringify ids ++ back) = ids.take 8) ∧
    ∀ text : JsStr, (idsFrom text).length ≤ 8 := by
  refine ⟨fun ids front back hfront => ?_, length_idsFrom_le⟩
  have hscan := scanFrom_stringify ids back
  have htext : stringify ids ++ back =
      0x5B :: (((ids.map stringifyString).intersperse [0x2C]).flatten ++ [0x5D] ++ back) := rfl
  rw [List.append_assoc, idsFrom_append hfront]
  rw [htext] at hscan ⊢
  rw [idsFrom, if_neg (not_not_intro rfl), hscan]

/-- Brackets and quotes in the ids, and a bracket behind the array. -/
theorem idsFrom_stringify_brackets :
    idsFrom ([0x68, 0x69, 0x20] ++ stringify [[0x5B, 0x22], [0x5D]] ++ [0x5D, 0x21]) =
      [[0x5B, 0x22], [0x5D]] :=
  idsFrom_stringify.1 [[0x5B, 0x22], [0x5D]] [0x68, 0x69, 0x20] [0x5D, 0x21] (by decide)

end AdversarialCognition.Letta
