import AdversarialCognition.Lib.Lines
import AdversarialCognition.Lib.RoundTrip

/-!
# Strings as they are

`json.dumps(text, ensure_ascii=False)` leaves what is past ASCII as it is. It is read back all the
same (`keyAs_rawStr`), but it may have in it whatever is past ASCII, line breaks too
(`forall_mem_rawStr_iff`).

There is a gain in it: halves of a surrogate pair that stand apart are not joined by the reader,
as it joins escapes only. So `keyAs_rawStr` has no condition on the text, where the reading of an
escaped string has one. And there is a price: a file with one such string on each line is one that
`splitlines` takes apart in other places.
-/

namespace Py.Json

open Str

/-- A code point inside quotes, where only quotes, backslashes and controls are escaped. -/
def rawPoint (c : CodePoint) : Str :=
  if c.val = 0x22 ∨ c.val = 0x5C ∨ c.val < 0x20 then dumpsPoint c else [c]

/-- A string as it is printed without escapes for what is past ASCII. -/
def rawStr (s : Str) : Str := lit "\"" ++ s.flatMap rawPoint ++ lit "\""

theorem scanString_rawPoint [Decoder] (n : ℕ) (c : CodePoint) (rest : Str) :
    scanString (n + 1) (rawPoint c ++ rest) = scanString.more n c rest := by
  unfold rawPoint
  split
  · exact scanString_dumpsPoint n (low?_eq_none (by omega) rest)
  · rename_i h
    rw [not_or, not_or] at h
    rw [List.singleton_append, scanString.eq_def]
    simp only [if_neg h.1, if_neg h.2.1, if_neg h.2.2]

/-- **A raw string is read back, whatever is in it.** -/
theorem keyAs_rawStr [Decoder] (s : Str) : KeyAs (rawStr s) s := by
  -- one character of the text at a time, whatever it takes to print it
  have hscan : ∀ (s : Str) (n : ℕ) (rest : Str), s.length < n →
      scanString n (s.flatMap rawPoint ++ CodePoint.ofChar '"' :: rest) = .ok (s, rest) := by
    intro s
    induction s with
    | nil =>
      intro n rest hn
      obtain ⟨m, rfl⟩ : ∃ m, n = m + 1 := ⟨n - 1, by rw [List.length_nil] at hn; omega⟩
      have hquote : (CodePoint.ofChar '"').val = 0x22 := by decide
      rw [List.flatMap_nil, List.nil_append, scanString.eq_def]
      simp only [if_pos hquote]
    | cons c s ih =>
      intro n rest hn
      obtain ⟨m, rfl⟩ : ∃ m, n = m + 1 := ⟨n - 1, by omega⟩
      rw [List.flatMap_cons, List.append_assoc, scanString_rawPoint, scanString.more,
        ih m rest (Nat.lt_of_succ_lt_succ hn)]
      rfl
  have hlength : s.length ≤ (s.flatMap rawPoint).length := by
    have hpoint : ∀ c : CodePoint, 1 ≤ (rawPoint c).length := by
      intro c
      unfold rawPoint dumpsPoint
      split_ifs <;> simp [lit]
    induction s with
    | nil => exact Nat.zero_le _
    | cons c s ih =>
      have := hpoint c
      rw [List.flatMap_cons, List.length_append, List.length_cons]
      omega
  have hquote : (lit "\"").length = 1 := by decide
  refine ⟨s.flatMap rawPoint ++ lit "\"", rfl, fun n rest hn => ?_⟩
  rw [rawStr, List.length_append, List.length_append, hquote] at hn
  rw [List.append_assoc]
  exact hscan s n rest (by omega)

theorem printable_hexDigit (n : ℕ) : 0x20 ≤ (hexDigit n).val ∧ (hexDigit n).val < 0x7F := by
  unfold hexDigit
  by_cases h : n % 16 < 10
  · rw [if_pos h]
    have hval : (Fin.ofNat 0x110000 (0x30 + n % 16)).val = 0x30 + n % 16 :=
      Nat.mod_eq_of_lt (by omega)
    omega
  · rw [if_neg h]
    have hval : (Fin.ofNat 0x110000 (0x57 + n % 16)).val = 0x57 + n % 16 :=
      Nat.mod_eq_of_lt (by omega)
    omega

theorem printable_dumpsPoint (c : CodePoint) : ∀ d ∈ dumpsPoint c, 0x20 ≤ d.val ∧ d.val < 0x7F := by
  have hhex : ∀ n, ∀ d ∈ hex 4 n, 0x20 ≤ d.val ∧ d.val < 0x7F := by
    intro n d hd
    obtain ⟨i, -, rfl⟩ := List.mem_map.mp hd
    exact printable_hexDigit _
  have hlit : ∀ w ∈ [lit "\\\"", lit "\\\\", lit "\\n", lit "\\r", lit "\\t", lit "\\f", lit "\\b",
      lit "\\u"], ∀ d ∈ w, 0x20 ≤ d.val ∧ d.val < 0x7F := by
    have hall : ∀ w ∈ [lit "\\\"", lit "\\\\", lit "\\n", lit "\\r", lit "\\t", lit "\\f", lit "\\b",
        lit "\\u"], w.all (fun d => 0x20 ≤ d.val && d.val < 0x7F) = true := by decide
    intro w hw d hd
    simpa using List.all_eq_true.mp (hall w hw) d hd
  have hu := hlit (lit "\\u") (by decide)
  unfold dumpsPoint
  dsimp only
  split_ifs with h₁ h₂ h₃ h₄ h₅ h₆ h₇ hascii hbmp
  · exact hlit _ (by decide)
  · exact hlit _ (by decide)
  · exact hlit _ (by decide)
  · exact hlit _ (by decide)
  · exact hlit _ (by decide)
  · exact hlit _ (by decide)
  · exact hlit _ (by decide)
  · exact List.forall_mem_singleton.mpr ⟨hascii.1, by omega⟩
  · exact List.forall_mem_append.mpr ⟨hu, hhex _⟩
  · exact List.forall_mem_append.mpr ⟨List.forall_mem_append.mpr
      ⟨List.forall_mem_append.mpr ⟨hu, hhex _⟩, hu⟩, hhex _⟩

/-- What holds of printable ASCII holds of a printed string if it holds of what is not escaped. So
    a printed string is on one line exactly if no line break past the controls is in the text. -/
theorem forall_mem_rawStr_iff {P : CodePoint → Prop} (hP : ∀ c, 0x20 ≤ c.val → c.val < 0x7F → P c)
    (s : Str) : (∀ c ∈ rawStr s, P c) ↔ ∀ c ∈ s, 0x20 ≤ c.val → P c := by
  have hpoint : ∀ c, (∀ d ∈ rawPoint c, P d) ↔ (0x20 ≤ c.val → P c) := by
    intro c
    unfold rawPoint
    split
    · rename_i h
      refine iff_of_true (fun d hd => ?_) fun hlow => hP c hlow (by omega)
      exact hP d (printable_dumpsPoint c d hd).1 (printable_dumpsPoint c d hd).2
    · rename_i h
      rw [List.forall_mem_singleton]
      exact ⟨fun hc _ => hc, fun hc => hc (by omega)⟩
  have hquote : lit "\"" = [CodePoint.ofChar '"'] := by decide
  have hquoted : P (CodePoint.ofChar '"') := hP _ (by decide) (by decide)
  rw [rawStr, hquote, List.forall_mem_append, List.forall_mem_append, List.forall_mem_singleton,
    and_iff_left hquoted, and_iff_right hquoted]
  constructor
  · intro h c hc
    exact (hpoint c).mp fun d hd => h d (List.mem_flatMap.mpr ⟨c, hc, hd⟩)
  · intro h d hd
    obtain ⟨c, hc, hd⟩ := List.mem_flatMap.mp hd
    exact (hpoint c).mpr (h c hc) d hd

/-!
## Values

The printer for whole values, with the same brackets and commas as the default one.
-/

mutual

/-- `json.dumps(value, ensure_ascii=False)` -/
def dumpsRaw : Json → Str
  | str s => rawStr s
  | list items => lit "[" ++ join ", " (dumpsRawItems items) ++ lit "]"
  | obj items => lit "\x7b" ++ join ", " (dumpsRawMembers items) ++ lit "\x7d"
  | other => dumps other

def dumpsRawItems : List Json → List Str
  | [] => []
  | item :: items => dumpsRaw item :: dumpsRawItems items

def dumpsRawMembers : List (Str × Json) → List Str
  | [] => []
  | (key, value) :: items => (rawStr key ++ lit ": " ++ dumpsRaw value) :: dumpsRawMembers items

end

end Py.Json
