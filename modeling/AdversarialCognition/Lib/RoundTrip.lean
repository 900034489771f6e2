import AdversarialCognition.Lib.Json
import AdversarialCognition.Lib.Printing

/-!
# What `dumps` prints, `loads` reads back

A value whose numbers the reader takes, whose strings have no surrogate pair left apart and whose
dictionaries have distinct keys, is read back as it was (`loads_dumps_of_loadable`). A value
without floats and surrogates is one of these, whatever the interpreter makes of a numeral, and so
printing loses nothing of such values.

## How it goes

The scanners are taken one at a time, each on a printed text with anything behind it. Behind a
number no digit may follow, nor what would go on with it; behind a value in a printed text there
is a comma, a bracket or nothing (`Follows`). With strings and numbers done, `ReadAs` says of a
text that it is read as a value wherever it stands, with fuel enough and room for its brackets. It
is closed under the brackets and commas of lists and dictionaries (`readAs_list`, `readAs_obj`),
and the dump of a value is then taken apart by recursion (`readAs_dumps`).

`ReadAs` is not about `dumps`. A printer with other escapes comes under the same rules as soon as
its strings do, and there is one such in this development.

## Three classes of values

`Printable` is what a program prints that knows what it prints: no floats, no surrogates.
`Loadable` is all of what `loads` reads back, with floats that print as they are and lone
surrogates. A third, in the module on surrogates, is what is read back but for halves left apart.
All three bound the integers by the limit on digits, which is a limit of the reader and not of the
printer, and none bounds the nesting: the room for it is asked for beside them.
-/

namespace Py.Json

open Str

/-!
## Strings

A code point is printed in one of four ways, and each is read back, with one proviso: an escape
that is the first half of a pair is joined with the second half, if that is what follows.
`Unpaired` is that this never happens between two neighbours.
-/

theorem hexValue?_hexDigit (n : ℕ) : hexValue? (hexDigit n) = some (n % 16) := by
  have hlt := Nat.mod_lt n (show 0 < 16 by decide)
  unfold hexDigit
  by_cases h : n % 16 < 10
  · rw [if_pos h]
    have hval : (Fin.ofNat 0x110000 (0x30 + n % 16)).val = 0x30 + n % 16 :=
      Nat.mod_eq_of_lt (by omega)
    simp only [hexValue?, isDigit, hval]
    rw [if_pos (by simp; omega)]
    congr 1
    omega
  · rw [if_neg h]
    have hval : (Fin.ofNat 0x110000 (0x57 + n % 16)).val = 0x57 + n % 16 :=
      Nat.mod_eq_of_lt (by omega)
    simp only [hexValue?, isDigit, hval]
    rw [if_neg (by simp; omega), if_neg (by simp; omega), if_pos (by simp; omega)]
    congr 1
    omega

theorem unit?_hex {v : ℕ} (hv : v < 0x10000) :
    ∃ a b c d, hex 4 v = [a, b, c, d] ∧ unit? a b c d = some v := by
  refine ⟨_, _, _, _, rfl, ?_⟩
  simp only [unit?, hexValue?_hexDigit, Option.bind_eq_bind, Option.bind_some, Option.pure_def,
    Nat.shiftRight_eq_div_pow, Option.some.injEq]
  omega

theorem ofVal_val (c : CodePoint) : ofVal c.val = c := Fin.ext (Nat.mod_eq_of_lt c.isLt)

theorem scanString_simple (n : ℕ) {e : CodePoint} {v : ℕ} (he : e.val ≠ 0x75)
    (hv : simpleEscape? e = some v) (rest : Str) :
    scanString (n + 1) (CodePoint.ofChar '\\' :: e :: rest) =
      scanString.more n (ofVal v) rest := by
  have hquote : (CodePoint.ofChar '\\').val ≠ 0x22 := by decide
  have hback : (CodePoint.ofChar '\\').val = 0x5C := by decide
  rw [scanString.eq_def]
  simp only [if_neg hquote, if_pos hback, if_neg he, hv]

/-- An escape of four digits, alone or with another behind it. Only with another that completes a
    pair is more than this escape read. -/
theorem scanString_unicode (n : ℕ) {v : ℕ} (hv : v < 0x10000) (rest : Str) :
    (low? v rest = none →
      scanString (n + 1) (lit "\\u" ++ hex 4 v ++ rest) = scanString.more n (ofVal v) rest) ∧
      ∀ c later, low? v rest = some (c, later) →
        scanString (n + 1) (lit "\\u" ++ hex 4 v ++ rest) = scanString.more n c later := by
  obtain ⟨a, b, c, d, hhex, hunit⟩ := unit?_hex hv
  have hlit : lit "\\u" = [CodePoint.ofChar '\\', CodePoint.ofChar 'u'] := by decide
  have hquote : (CodePoint.ofChar '\\').val ≠ 0x22 := by decide
  have hback : (CodePoint.ofChar '\\').val = 0x5C := by decide
  have hu : (CodePoint.ofChar 'u').val = 0x75 := by decide
  rw [hhex, hlit]
  simp only [List.cons_append, List.nil_append]
  rw [scanString.eq_def]
  constructor
  · intro hlow
    simp only [if_neg hquote, if_pos hback, if_pos hu, hunit, hlow]
  · intro joined later hlow
    simp only [if_neg hquote, if_pos hback, if_pos hu, hunit, hlow]

theorem pair?_eq_none {high low : ℕ} (h : ¬ (0xD800 ≤ high ∧ high ≤ 0xDBFF)) :
    pair? high low = none := by
  rw [pair?, if_neg fun hall => h ⟨hall.1, hall.2.1⟩]

/-- The halves `dumps` prints make the code point. -/
theorem pair?_halves {c : CodePoint} (h : 0xFFFF < c.val) :
    pair? (0xD800 + (c.val - 0x10000) / 0x400) (0xDC00 + (c.val - 0x10000) % 0x400) = some c := by
  have hlt := c.isLt
  have hsum : 0x10000 + (0xD800 + (c.val - 0x10000) / 0x400 - 0xD800) * 0x400 +
      (0xDC00 + (c.val - 0x10000) % 0x400 - 0xDC00) = c.val := by omega
  rw [pair?, if_pos (by omega), hsum, ofVal_val]

theorem low?_eq_none {v : ℕ} (h : ¬ (0xD800 ≤ v ∧ v ≤ 0xDBFF)) (rest : Str) :
    low? v rest = none := by
  unfold low?
  split
  · split
    · simp [pair?_eq_none h]
    · rfl
  · rfl

theorem low?_pair {high low : ℕ} {c : CodePoint} (hlow : low < 0x10000)
    (h : pair? high low = some c) (rest : Str) :
    low? high (lit "\\u" ++ hex 4 low ++ rest) = some (c, rest) := by
  obtain ⟨x, y, z, w, hhex, hunit⟩ := unit?_hex hlow
  have hlit : lit "\\u" = [CodePoint.ofChar '\\', CodePoint.ofChar 'u'] := by decide
  have hboth : ((CodePoint.ofChar '\\').val = 0x5C && (CodePoint.ofChar 'u').val = 0x75) = true := by
    decide
  rw [hhex, hlit]
  simp only [List.cons_append, List.nil_append, low?]
  rw [if_pos hboth]
  simp [hunit, h]

/-- How a code point is printed: by a character behind a backslash, as itself, by four digits,
    or, past U+FFFF, by two times four digits. -/
inductive Printed (c : CodePoint) : Str → Prop
  | letter {e : CodePoint} (he : e.val ≠ 0x75) (hv : simpleEscape? e = some c.val) :
      Printed c [CodePoint.ofChar '\\', e]
  | plain (hquote : c.val ≠ 0x22) (hback : c.val ≠ 0x5C) (hlow : 0x20 ≤ c.val) : Printed c [c]
  | escape (h : c.val ≤ 0xFFFF) : Printed c (lit "\\u" ++ hex 4 c.val)
  | halves (h : 0xFFFF < c.val) : Printed c (lit "\\u" ++
      hex 4 (0xD800 + (c.val - 0x10000) / 0x400) ++ lit "\\u" ++
        hex 4 (0xDC00 + (c.val - 0x10000) % 0x400))

theorem printed_dumpsPoint (c : CodePoint) : Printed c (dumpsPoint c) := by
  have hletter : ∀ (w : String) (e : Char), lit w = [CodePoint.ofChar '\\', CodePoint.ofChar e] →
      (CodePoint.ofChar e).val ≠ 0x75 → simpleEscape? (CodePoint.ofChar e) = some c.val →
      Printed c (lit w) := by
    intro w e hw he hv
    rw [hw]
    exact .letter he hv
  -- case by case, as the printer asks
  unfold dumpsPoint
  by_cases hquote : c.val = 0x22
  · rw [if_pos hquote]
    exact hletter _ '"' (by decide) (by decide) (by rw [hquote]; decide)
  by_cases hback : c.val = 0x5C
  · rw [if_neg hquote, if_pos hback]
    exact hletter _ '\\' (by decide) (by decide) (by rw [hback]; decide)
  by_cases hnewline : c.val = 0x0A
  · rw [if_neg hquote, if_neg hback, if_pos hnewline]
    exact hletter _ 'n' (by decide) (by decide) (by rw [hnewline]; decide)
  by_cases hreturn : c.val = 0x0D
  · rw [if_neg hquote, if_neg hback, if_neg hnewline, if_pos hreturn]
    exact hletter _ 'r' (by decide) (by decide) (by rw [hreturn]; decide)
  by_cases htab : c.val = 0x09
  · rw [if_neg hquote, if_neg hback, if_neg hnewline, if_neg hreturn, if_pos htab]
    exact hletter _ 't' (by decide) (by decide) (by rw [htab]; decide)
  by_cases hfeed : c.val = 0x0C
  · rw [if_neg hquote, if_neg hback, if_neg hnewline, if_neg hreturn, if_neg htab, if_pos hfeed]
    exact hletter _ 'f' (by decide) (by decide) (by rw [hfeed]; decide)
  by_cases hbackspace : c.val = 0x08
  · rw [if_neg hquote, if_neg hback, if_neg hnewline, if_neg hreturn, if_neg htab, if_neg hfeed,
      if_pos hbackspace]
    exact hletter _ 'b' (by decide) (by decide) (by rw [hbackspace]; decide)
  rw [if_neg hquote, if_neg hback, if_neg hnewline, if_neg hreturn, if_neg htab, if_neg hfeed,
    if_neg hbackspace]
  by_cases hascii : 0x20 ≤ c.val ∧ c.val ≤ 0x7E
  · rw [if_pos hascii]
    exact .plain hquote hback hascii.1
  rw [if_neg hascii]
  by_cases hbmp : c.val ≤ 0xFFFF
  · rw [if_pos hbmp]
    exact .escape hbmp
  · rw [if_neg hbmp]
    exact .halves (Nat.not_le.1 hbmp)

/-- **A printed code point is read back**, if what follows is not its second half. -/
theorem scanString_dumpsPoint (n : ℕ) {c : CodePoint} {rest : Str} (hc : low? c.val rest = none) :
    scanString (n + 1) (dumpsPoint c ++ rest) = scanString.more n c rest := by
  have hself := ofVal_val c
  have hlt := c.isLt
  have hprinted := printed_dumpsPoint c
  generalize dumpsPoint c = w at hprinted ⊢
  cases hprinted with
  | letter he hv =>
    rw [List.cons_append, List.singleton_append, scanString_simple n he hv, hself]
  | plain hquote hback hlow =>
    rw [List.singleton_append, scanString.eq_def]
    simp only [if_neg hquote, if_neg hback, if_neg (Nat.not_lt.2 hlow)]
  | escape hbmp => rw [(scanString_unicode n (by omega) rest).1 hc, hself]
  | halves h =>
    rw [List.append_assoc, List.append_assoc, List.append_assoc, ← List.append_assoc (lit "\\u")
      (hex 4 (0xD800 + _)), ← List.append_assoc (lit "\\u") (hex 4 (0xDC00 + _))]
    exact (scanString_unicode n (by omega) _).2 c rest (low?_pair (by omega) (pair?_halves h) rest)

/-- The two are the halves of a code point past U+FFFF. -/
def Halves (high low : CodePoint) : Prop :=
  (0xD800 ≤ high.val ∧ high.val ≤ 0xDBFF) ∧ 0xDC00 ≤ low.val ∧ low.val ≤ 0xDFFF

/-- No two neighbours are the halves of a code point, which a reader would join. -/
def Unpaired (s : Str) : Prop := s.IsChain fun c d => ¬ Halves c d

theorem unpaired_of_encodable : ∀ {s : Str}, Encodable s → Unpaired s
  | [], _ => .nil
  | [c], _ => .singleton c
  | c :: d :: s, h => by
    refine .cons_cons (fun hhalves => ?_) (unpaired_of_encodable fun e he =>
      h e (List.mem_cons_of_mem _ he))
    exact h c List.mem_cons_self ⟨hhalves.1.1, by have := hhalves.1.2; omega⟩

theorem low?_of_ne {high : ℕ} {b u : CodePoint} (h : b.val ≠ 0x5C ∨ u.val ≠ 0x75) (rest : Str) :
    low? high (b :: u :: rest) = none := by
  have hfalse : (decide (b.val = 0x5C) && decide (u.val = 0x75)) = false := by
    simp only [Bool.and_eq_false_iff, decide_eq_false_iff_not]
    exact h
  unfold low?
  split
  · rename_i heq
    simp only [List.cons.injEq] at heq
    rw [← heq.1, ← heq.2.1, hfalse]
    rfl
  · rfl

theorem low?_escape {high v : ℕ} (hv : v < 0x10000) (h : pair? high v = none) (rest : Str) :
    low? high (lit "\\u" ++ hex 4 v ++ rest) = none := by
  obtain ⟨x, y, z, w, hhex, hunit⟩ := unit?_hex hv
  have hlit : lit "\\u" = [CodePoint.ofChar '\\', CodePoint.ofChar 'u'] := by decide
  have hboth : ((CodePoint.ofChar '\\').val = 0x5C && (CodePoint.ofChar 'u').val = 0x75) = true := by
    decide
  rw [hhex, hlit]
  simp only [List.cons_append, List.nil_append, low?]
  rw [if_pos hboth]
  simp [hunit, h]

/-- What follows a printed code point is read as its second half only if it is one. -/
theorem low?_dumpsPoint {c d : CodePoint} (h : ¬ Halves c d) {rest : Str} (hrest : rest ≠ []) :
    low? c.val (dumpsPoint d ++ rest) = none := by
  have hlt := d.isLt
  have hprinted := printed_dumpsPoint d
  generalize dumpsPoint d = w at hprinted ⊢
  cases hprinted with
  | letter he hv => exact low?_of_ne (.inr he) rest
  | plain hquote hback hlow =>
    obtain ⟨u, w, rfl⟩ := List.exists_cons_of_ne_nil hrest
    exact low?_of_ne (.inl hback) w
  | escape hbmp =>
    exact low?_escape (by omega) (by rw [pair?, if_neg (fun hall => h ⟨⟨hall.1, hall.2.1⟩, hall.2.2⟩)]) rest
  | halves h =>
    -- the first half of a pair is no second half
    rw [List.append_assoc, List.append_assoc, ← List.append_assoc (lit "\\u")]
    exact low?_escape (by omega) (by rw [pair?, if_neg (by omega)]) _

/-- **A printed string is read back**, if no two halves stand side by side in it. One unit of fuel
    for each character is enough, as an escape takes one as well. -/
theorem scanString_dumpsStr {n : ℕ} {s : Str} (hs : Unpaired s) (hn : s.length < n) (rest : Str) :
    scanString n (s.flatMap dumpsPoint ++ CodePoint.ofChar '"' :: rest) = .ok (s, rest) := by
  induction s generalizing n with
  | nil =>
    obtain ⟨m, rfl⟩ : ∃ m, n = m + 1 := ⟨n - 1, by simp at hn; omega⟩
    have hquote : (CodePoint.ofChar '"').val = 0x22 := by decide
    rw [List.flatMap_nil, List.nil_append, scanString.eq_def]
    simp only [if_pos hquote]
  | cons c s ih =>
    obtain ⟨m, rfl⟩ : ∃ m, n = m + 1 := ⟨n - 1, by omega⟩
    have hlow : low? c.val (s.flatMap dumpsPoint ++ CodePoint.ofChar '"' :: rest) = none := by
      cases s with
      | nil =>
        rw [List.flatMap_nil, List.nil_append]
        cases rest with
        | nil => rfl
        | cons u rest => exact low?_of_ne (.inl (by decide)) rest
      | cons d s =>
        rw [List.flatMap_cons, List.append_assoc]
        exact low?_dumpsPoint (List.isChain_cons_cons.mp hs).1
          (List.append_ne_nil_of_right_ne_nil _ (List.cons_ne_nil _ _))
    rw [List.flatMap_cons, List.append_assoc, scanString_dumpsPoint m hlow, scanString.more,
      ih hs.of_cons (Nat.lt_of_succ_lt_succ hn)]
    rfl

/-!
## Integers

A numeral is read up to its last digit, so no digit may follow, and neither a point nor an
exponent. In a printed text what follows is a comma, a bracket, a brace, or nothing.
-/

theorem val_digitChar {d : ℕ} (hd : d < 10) : (CodePoint.ofChar (Nat.digitChar d)).val = 0x30 + d := by
  have hall : ∀ d < 10, (CodePoint.ofChar (Nat.digitChar d)).val = 0x30 + d := by decide
  exact hall d hd

theorem ofNat_of_lt {n : ℕ} (hn : n < 10) : ofNat n = [CodePoint.ofChar (Nat.digitChar n)] := by
  rw [ofNat, Nat.toDigits_of_lt_base hn]
  rfl

theorem ofNat_of_ge {n : ℕ} (hn : 10 ≤ n) :
    ofNat n = ofNat (n / 10) ++ [CodePoint.ofChar (Nat.digitChar (n % 10))] := by
  rw [ofNat, Nat.toDigits_of_base_le (by decide) hn, List.map_append]
  rfl

theorem isDigit_of_mem {n : ℕ} : ∀ c ∈ ofNat n, isDigit c = true := by
  intro c hc
  obtain ⟨d, hd, rfl⟩ := List.mem_map.1 hc
  have hdigit : 0x30 ≤ d.val.toNat ∧ d.val.toNat ≤ 0x39 := by
    simpa [Char.isDigit, UInt32.le_iff_toNat_le] using
      Nat.isDigit_of_mem_toDigits (by decide) (by decide) hd
  rw [isDigit, Bool.and_eq_true]
  exact ⟨decide_eq_true hdigit.1, decide_eq_true hdigit.2⟩

/-- A numeral begins with a zero only if it is one. -/
theorem head_ofNat {n : ℕ} (hn : n ≠ 0) : ∃ c rest, ofNat n = c :: rest ∧ c.val ≠ 0x30 := by
  induction n using Nat.strongRecOn with
  | ind n ih =>
    by_cases hlt : n < 10
    · refine ⟨_, [], ofNat_of_lt hlt, ?_⟩
      rw [val_digitChar hlt]
      omega
    · obtain ⟨c, rest, hrest, hc⟩ := ih (n / 10) (by omega) (by omega)
      rw [ofNat_of_ge (by omega), hrest]
      exact ⟨c, _, rfl, hc⟩

theorem ofDigits_ofNat (n : ℕ) : Nat.ofDigits 10 ((ofNat n).reverse.map fun c => c.val - 0x30) = n := by
  induction n using Nat.strongRecOn with
  | ind n ih =>
    by_cases hlt : n < 10
    · rw [ofNat_of_lt hlt]
      simp only [List.reverse_cons, List.reverse_nil, List.nil_append, List.map_cons, List.map_nil,
        val_digitChar hlt, Nat.ofDigits_singleton]
      omega
    · have hmod : n % 10 < 10 := Nat.mod_lt n (by decide)
      rw [ofNat_of_ge (by omega), List.reverse_append, List.reverse_singleton,
        List.singleton_append, List.map_cons, Nat.ofDigits_cons, val_digitChar hmod,
        ih (n / 10) (by omega)]
      omega

theorem length_ofNat_le {n k : ℕ} (hk : 0 < k) (hn : n < 10 ^ k) : (ofNat n).length ≤ k := by
  rw [ofNat, List.length_map]
  exact Nat.toDigits_length 10 n k hk hn

/-- What may stand behind a value in a printed text: nothing, or what goes on with the list or
    dictionary it is in. -/
def Follows (rest : Str) : Prop :=
  ∀ c ∈ rest.head?, c.val = 0x2C ∨ c.val = 0x5D ∨ c.val = 0x7D

theorem Follows.nil : Follows [] := by simp [Follows]

theorem follows_cons {c : CodePoint} (h : c.val = 0x2C ∨ c.val = 0x5D ∨ c.val = 0x7D) (rest : Str) :
    Follows (c :: rest) := by
  intro d hd
  rw [List.head?_cons, Option.mem_some] at hd
  exact hd ▸ h

theorem span_digits {s rest : Str} (hs : ∀ c ∈ s, isDigit c = true) (hrest : Follows rest) :
    (s ++ rest).takeWhile isDigit = s ∧ (s ++ rest).dropWhile isDigit = rest := by
  have hnone : rest.takeWhile isDigit = [] ∧ rest.dropWhile isDigit = rest := by
    cases rest with
    | nil => exact ⟨rfl, rfl⟩
    | cons c rest =>
      have hc : isDigit c = false := by
        have := hrest c rfl
        simp only [isDigit, Bool.and_eq_false_imp, decide_eq_true_eq, decide_eq_false_iff_not]
        omega
      rw [List.takeWhile_cons, List.dropWhile_cons, hc]
      exact ⟨rfl, rfl⟩
  rw [List.takeWhile_append_of_pos hs, List.dropWhile_append_of_pos hs, hnone.1, hnone.2,
    List.append_nil]
  exact ⟨rfl, rfl⟩

theorem takeWhile_isDigit_append {rest : Str} (h : Follows rest) (s : Str) :
    (s ++ rest).takeWhile isDigit = s.takeWhile isDigit ∧
      (s ++ rest).dropWhile isDigit = s.dropWhile isDigit ++ rest := by
  induction s with
  | nil => exact span_digits (List.forall_mem_nil _) h
  | cons c s ih =>
    rw [List.cons_append, List.takeWhile_cons, List.takeWhile_cons, List.dropWhile_cons,
      List.dropWhile_cons]
    split
    · rw [ih.1, ih.2]
      exact ⟨rfl, rfl⟩
    · exact ⟨rfl, rfl⟩

theorem scanFraction_of_follows {rest : Str} (h : Follows rest) : scanFraction rest = ([], rest) := by
  unfold scanFraction
  split
  · rename_i c d rest
    have := h c rfl
    rw [if_neg]
    simp only [Bool.and_eq_true, decide_eq_true_eq]
    omega
  · rfl

theorem scanExponent_of_follows {rest : Str} (h : Follows rest) : scanExponent rest = ([], rest) := by
  cases rest with
  | nil => rfl
  | cons c rest =>
    have := h c rfl
    unfold scanExponent
    dsimp only
    rw [if_neg]
    simp only [Bool.or_eq_true, decide_eq_true_eq]
    omega

/-- The digits of a numeral, its sign already read. -/
def scanDigits (sign : Str) : Str → Option (Str × Str)
  | c :: rest =>
      if c.val = 0x30 then some (sign ++ [c], rest)
      else if isDigit c then some (sign ++ c :: rest.takeWhile isDigit, rest.dropWhile isDigit)
      else none
  | [] => none

theorem scanInt_cons (c : CodePoint) (s : Str) :
    scanInt (c :: s) = if c.val = 0x2D then scanDigits [c] s else scanDigits [] (c :: s) := by
  unfold scanInt
  by_cases hsign : c.val = 0x2D
  · simp only [if_pos hsign]
    cases s with
    | nil => rfl
    | cons d s => rfl
  · simp only [if_neg hsign]
    rfl

theorem scanDigits_cons_eq_some_iff {sign integer rest s : Str} {c : CodePoint} :
    scanDigits sign (c :: s) = some (integer, rest) ↔
      (c.val = 0x30 ∧ integer = sign ++ [c] ∧ rest = s) ∨
        (c.val ≠ 0x30 ∧ isDigit c = true ∧ integer = sign ++ c :: s.takeWhile isDigit ∧
          rest = s.dropWhile isDigit) := by
  rw [scanDigits]
  constructor
  · intro h
    split at h
    · rename_i hzero
      cases h
      exact .inl ⟨hzero, rfl, rfl⟩
    · rename_i hzero
      split at h
      · rename_i hdigit
        cases h
        exact .inr ⟨hzero, hdigit, rfl, rfl⟩
      · cases h
  · rintro (⟨hzero, rfl, rfl⟩ | ⟨hzero, hdigit, rfl, rfl⟩)
    · rw [if_pos hzero]
    · rw [if_neg hzero, if_pos hdigit]

/-- What is read of a text is a sign, or none, and digits, whatever comes behind them. -/
theorem exists_sign {s : Str} (h : s ≠ []) : ∃ sign t, s = sign ++ t ∧
    (sign = [] ∨ sign = [CodePoint.ofChar '-']) ∧
      ∀ more, scanInt (s ++ more) = scanDigits sign (t ++ more) := by
  obtain ⟨c, s, rfl⟩ := List.exists_cons_of_ne_nil h
  by_cases hsign : c.val = 0x2D
  · have hc : c = CodePoint.ofChar '-' := Fin.ext hsign
    refine ⟨[c], s, rfl, .inr (by rw [hc]), fun more => ?_⟩
    rw [List.cons_append, scanInt_cons, if_pos hsign]
  · refine ⟨[], c :: s, rfl, .inl rfl, fun more => ?_⟩
    rw [List.cons_append, scanInt_cons, if_neg hsign]

theorem exists_scanDigits {s integer rest : Str} (h : scanInt s = some (integer, rest)) :
    ∃ sign t, s = sign ++ t ∧ (sign = [] ∨ sign = [CodePoint.ofChar '-']) ∧
      scanDigits sign t = some (integer, rest) := by
  have hne : s ≠ [] := by
    rintro rfl
    cases h
  obtain ⟨sign, t, hs, hsign, hscan⟩ := exists_sign hne
  have hwhole := hscan []
  rw [List.append_nil, List.append_nil] at hwhole
  exact ⟨sign, t, hs, hsign, hwhole ▸ h⟩

/-- What is read of a numeral stays if the digits in it end where they did. -/
theorem scanInt_append_of_span {s integer rest more : Str} (h : scanInt s = some (integer, rest))
    (hspan : ∀ u : Str, u.dropWhile isDigit = rest →
      (u ++ more).takeWhile isDigit = u.takeWhile isDigit ∧
        (u ++ more).dropWhile isDigit = u.dropWhile isDigit ++ more) :
    scanInt (s ++ more) = some (integer, rest ++ more) := by
  have hne : s ≠ [] := by
    rintro rfl
    cases h
  obtain ⟨sign, t, -, -, hscan⟩ := exists_sign hne
  have hwhole := hscan []
  rw [List.append_nil, List.append_nil, h] at hwhole
  rw [hscan]
  cases t with
  | nil => cases hwhole
  | cons c t =>
    rw [List.cons_append, scanDigits_cons_eq_some_iff]
    rcases scanDigits_cons_eq_some_iff.mp hwhole.symm with ⟨hzero, hinteger, hrest⟩ |
      ⟨hzero, hdigit, hinteger, hrest⟩
    · exact .inl ⟨hzero, hinteger, by rw [hrest]⟩
    · obtain ⟨htake, hdrop⟩ := hspan t hrest.symm
      exact .inr ⟨hzero, hdigit, by rw [htake, hinteger], by rw [hdrop, hrest]⟩

/-- What is read of a numeral does not depend on what stands behind it. -/
theorem scanInt_append {s integer rest : Str} (h : scanInt s = some (integer, rest)) {more : Str}
    (hmore : Follows more) : scanInt (s ++ more) = some (integer, rest ++ more) :=
  scanInt_append_of_span h fun u _ => takeWhile_isDigit_append hmore u

/-- What is read of a fraction does not depend on what stands behind it. -/
theorem scanFraction_append (s : Str) {more : Str} (hmore : Follows more) :
    scanFraction (s ++ more) = ((scanFraction s).1, (scanFraction s).2 ++ more) := by
  match s with
  | [] => exact scanFraction_of_follows hmore
  | [c] =>
    cases more with
    | nil => rfl
    | cons d more =>
      have hd : isDigit d = false := by
        have := hmore d rfl
        simp only [isDigit, Bool.and_eq_false_imp, decide_eq_true_eq, decide_eq_false_iff_not]
        omega
      simp [scanFraction, hd]
  | c :: d :: s =>
    obtain ⟨htake, hdrop⟩ := takeWhile_isDigit_append hmore s
    simp only [List.cons_append, scanFraction, htake, hdrop]
    split <;> rfl

theorem scanExponent_append (s : Str) {more : Str} (hmore : Follows more) :
    scanExponent (s ++ more) = ((scanExponent s).1, (scanExponent s).2 ++ more) := by
  have hnone : more.takeWhile isDigit = [] := (span_digits (List.forall_mem_nil _) hmore).1
  match s with
  | [] => exact scanExponent_of_follows hmore
  | [c] =>
    have hsign : ∀ d t, more = d :: t → ¬ (d.val = 0x2B ∨ d.val = 0x2D) := by
      rintro d t rfl
      have := hmore d rfl
      omega
    cases more with
    | nil => simp [scanExponent]
    | cons d more => simp [scanExponent, hsign d more rfl, hnone]
  | c :: d :: s =>
    obtain ⟨htake, hdrop⟩ := takeWhile_isDigit_append hmore s
    obtain ⟨htake', hdrop'⟩ := takeWhile_isDigit_append hmore (d :: s)
    rw [List.cons_append] at htake' hdrop'
    by_cases hexponent : (c.val = 0x65 || c.val = 0x45) = true
    · by_cases hsign : (d.val = 0x2B || d.val = 0x2D) = true
      · simp only [List.cons_append, scanExponent, if_pos hexponent, if_pos hsign, htake, hdrop]
        split <;> rfl
      · simp only [List.cons_append, scanExponent, if_pos hexponent, if_neg hsign, htake', hdrop']
        split <;> rfl
    · simp only [List.cons_append, scanExponent, if_neg hexponent]

theorem scanDigits_ofNat (sign : Str) (n : ℕ) {rest : Str} (h : Follows rest) :
    scanDigits sign (ofNat n ++ rest) = some (sign ++ ofNat n, rest) := by
  by_cases hn : n = 0
  · subst hn
    rfl
  · obtain ⟨c, digits, hdigits, hc⟩ := head_ofNat hn
    have hall := isDigit_of_mem (n := n)
    rw [hdigits] at hall ⊢
    have hspan := span_digits (fun d hd => hall d (List.mem_cons_of_mem _ hd)) h
    rw [List.cons_append, scanDigits_cons_eq_some_iff, hspan.1, hspan.2]
    exact .inr ⟨hc, hall c List.mem_cons_self, rfl, rfl⟩

theorem ofInt_negSucc (n : ℕ) : ofInt (Int.negSucc n) = CodePoint.ofChar '-' :: ofNat (n + 1) := by
  rw [ofInt, if_pos (Int.negSucc_lt_zero n), Int.natAbs_negSucc]
  rfl

theorem ofInt_ofNat (n : ℕ) : ofInt n = ofNat n := by
  rw [ofInt, if_neg (by omega), Int.natAbs_natCast]

theorem scanInt_ofInt (n : ℤ) {rest : Str} (h : Follows rest) :
    scanInt (ofInt n ++ rest) = some (ofInt n, rest) := by
  cases n with
  | ofNat n =>
    have hint : ofInt (Int.ofNat n) = ofNat n := ofInt_ofNat n
    have hscan := scanDigits_ofNat [] n h
    rw [hint]
    obtain ⟨c, digits, hdigits⟩ := List.exists_cons_of_ne_nil
      (show ofNat n ≠ [] by rw [ofNat]; simp [Nat.toDigits_ne_nil])
    have hc : c.val ≠ 0x2D := by
      have hdigit := isDigit_of_mem (n := n) c (hdigits ▸ List.mem_cons_self)
      simp only [isDigit, Bool.and_eq_true, decide_eq_true_eq] at hdigit
      omega
    rw [hdigits, List.cons_append] at hscan ⊢
    rw [scanInt_cons, if_neg hc]
    exact hscan
  | negSucc n =>
    have hminus : (CodePoint.ofChar '-').val = 0x2D := by decide
    rw [ofInt_negSucc, List.cons_append, scanInt_cons, if_pos hminus]
    exact scanDigits_ofNat [CodePoint.ofChar '-'] (n + 1) h

theorem filter_isDigit_ofNat (n : ℕ) : (ofNat n).filter isDigit = ofNat n :=
  List.filter_eq_self.2 isDigit_of_mem

/-- An integer is read back unless it has too many digits, which the sign is none of. -/
theorem intOf_ofInt {n : ℤ} (hn : n.natAbs < 10 ^ 4300) : intOf (ofInt n) = .ok n := by
  have hlimit := length_ofNat_le (by decide) hn
  cases n with
  | ofNat n =>
    have hlength : ¬ 4300 < (ofNat n).length := Nat.not_lt.2 hlimit
    have hhead : ((ofNat n).head?.any fun c => c.val = 0x2D) = false := by
      cases hdigits : ofNat n with
      | nil => rfl
      | cons c digits =>
        have hdigit := isDigit_of_mem (n := n) c (hdigits ▸ List.mem_cons_self)
        simp only [isDigit, Bool.and_eq_true, decide_eq_true_eq] at hdigit
        simp only [List.head?_cons, Option.any_some, decide_eq_false_iff_not]
        omega
    have hint : ofInt (Int.ofNat n) = ofNat n := ofInt_ofNat n
    unfold intOf
    rw [hint]
    simp only [filter_isDigit_ofNat, ofDigits_ofNat, hhead, if_neg hlength]
    rfl
  | negSucc n =>
    have hlength : ¬ 4300 < (ofNat (n + 1)).length := Nat.not_lt.2 hlimit
    have hfilter : (CodePoint.ofChar '-' :: ofNat (n + 1)).filter isDigit = ofNat (n + 1) := by
      rw [List.filter_cons_of_neg (by decide), filter_isDigit_ofNat]
    have hhead : ((CodePoint.ofChar '-' :: ofNat (n + 1)).head?.any fun c => c.val = 0x2D) = true := by
      rw [List.head?_cons, Option.any_some]
      decide
    unfold intOf
    rw [ofInt_negSucc]
    simp only [hfilter, ofDigits_ofNat, hhead, if_neg hlength]
    rfl

theorem keyword?_eq_none {word : String} {value : Json} {s : Str}
    (h : (lit word).isPrefixOf s = false) : keyword? word value s = none := by
  rw [keyword?, h]
  rfl

/-- A digit begins no constant, and a sign before it begins none either. -/
theorem constant?_digit {c : CodePoint} (hc : isDigit c = true) (rest : Str) :
    constant? (c :: rest) = none ∧ constant? (CodePoint.ofChar '-' :: c :: rest) = none := by
  have hne : ∀ d : CodePoint, isDigit d = false → (d == c) = false := by
    intro d hd
    rw [beq_eq_false_iff_ne]
    intro heq
    rw [heq, hc] at hd
    exact absurd hd.symm Bool.false_ne_true
  -- no constant begins with a digit, nor with a sign and a digit
  have hword : ∀ (word : String) (d : CodePoint) (w : Str), lit word = d :: w →
      isDigit d = false → (lit word).isPrefixOf (c :: rest) = false := by
    intro word d w hw hd
    rw [hw, List.isPrefixOf, hne d hd, Bool.false_and]
  have hsigned : ∀ (word : String) (d e : CodePoint) (w : Str), lit word = d :: e :: w →
      isDigit e = false → (lit word).isPrefixOf (CodePoint.ofChar '-' :: c :: rest) = false := by
    intro word d e w hw he
    rw [hw, List.isPrefixOf, List.isPrefixOf, hne e he, Bool.false_and, Bool.and_false]
  constructor
  · simp only [constant?, keyword?_eq_none (hword "null" _ _ rfl (by decide)),
      keyword?_eq_none (hword "true" _ _ rfl (by decide)),
      keyword?_eq_none (hword "false" _ _ rfl (by decide)),
      keyword?_eq_none (hword "NaN" _ _ rfl (by decide)),
      keyword?_eq_none (hword "Infinity" _ _ rfl (by decide)),
      keyword?_eq_none (hword "-Infinity" _ _ rfl (by decide))]
    rfl
  · simp only [constant?, keyword?_eq_none (hsigned "null" _ _ _ rfl (by decide)),
      keyword?_eq_none (hsigned "true" _ _ _ rfl (by decide)),
      keyword?_eq_none (hsigned "false" _ _ _ rfl (by decide)),
      keyword?_eq_none (hsigned "NaN" _ _ _ rfl (by decide)),
      keyword?_eq_none (hsigned "Infinity" _ _ _ rfl (by decide)),
      keyword?_eq_none (hsigned "-Infinity" _ _ _ rfl (by decide))]
    rfl

/-- The first character of a numeral: a digit, or a sign with a digit behind it. -/
theorem scanInt_head {s integer rest : Str} (h : scanInt s = some (integer, rest)) : ∃ c w, s = c :: w ∧
    (isDigit c = true ∨ c = CodePoint.ofChar '-' ∧ ∃ d v, w = d :: v ∧ isDigit d = true) := by
  obtain ⟨sign, t, rfl, hsign, hscan⟩ := exists_scanDigits h
  have hdigit : ∃ d v, t = d :: v ∧ isDigit d = true := by
    cases t with
    | nil => cases hscan
    | cons d v =>
      refine ⟨d, v, rfl, ?_⟩
      rcases scanDigits_cons_eq_some_iff.mp hscan with ⟨hzero, -⟩ | ⟨-, hdigit, -⟩
      · simp [isDigit, hzero]
      · exact hdigit
  rcases hsign with rfl | rfl
  · obtain ⟨d, v, ht, hd⟩ := hdigit
    exact ⟨d, v, ht, .inl hd⟩
  · exact ⟨_, t, rfl, .inr ⟨rfl, hdigit⟩⟩

theorem scanInt_head_val {s integer rest : Str} (h : scanInt s = some (integer, rest)) :
    ∃ c w, s = c :: w ∧ (c.val = 0x2D ∨ 0x30 ≤ c.val ∧ c.val ≤ 0x39) := by
  obtain ⟨c, w, hw, hc⟩ := scanInt_head h
  refine ⟨c, w, hw, ?_⟩
  cases hc with
  | inl hdigit =>
    simp only [isDigit, Bool.and_eq_true, decide_eq_true_eq] at hdigit
    exact .inr hdigit
  | inr hsign =>
    rw [hsign.1]
    exact .inl (by decide)

section

variable [Decoder]

theorem scanNumber_ofInt {n : ℤ} (hn : n.natAbs < 10 ^ 4300) {rest : Str} (h : Follows rest) :
    scanNumber (ofInt n ++ rest) = .ok (int n, rest) := by
  unfold scanNumber
  rw [scanInt_ofInt n h]
  simp only [scanFraction_of_follows h, scanExponent_of_follows h, and_self, if_true,
    intOf_ofInt hn]
  rfl

theorem scanNumber_append {s rest : Str} {j : Json} (h : scanNumber s = .ok (j, rest)) {more : Str}
    (hmore : Follows more) : scanNumber (s ++ more) = .ok (j, rest ++ more) := by
  unfold scanNumber at h ⊢
  cases hint : scanInt s with
  | none =>
    rw [hint] at h
    cases h
  | some read =>
    obtain ⟨integer, after⟩ := read
    rw [hint] at h
    rw [scanInt_append hint hmore]
    simp only [scanFraction_append after hmore, scanExponent_append _ hmore] at h ⊢
    split at h
    · rename_i hinteger
      rw [if_pos hinteger]
      cases hread : intOf integer with
      | ok n =>
        rw [hread] at h
        cases h
        rfl
      | error e =>
        rw [hread] at h
        cases h
    · rename_i hfloat
      rw [if_neg hfloat]
      cases h
      rfl

/-- A numeral is read by the number scanner, and begins with no bracket, brace or quote. -/
theorem scanOnce_number {s integer after : Str} (hint : scanInt s = some (integer, after))
    (m room : ℕ) : scanOnce (m + 1) room s = scanNumber s := by
  obtain ⟨c, w, rfl, hc⟩ := scanInt_head hint
  have hconstant : constant? (c :: w) = none := by
    cases hc with
    | inl hdigit => exact (constant?_digit hdigit _).1
    | inr hsign =>
      obtain ⟨rfl, d, v, rfl, hd⟩ := hsign
      exact (constant?_digit hd _).2
  have hrange : c.val = 0x2D ∨ 0x30 ≤ c.val ∧ c.val ≤ 0x39 := by
    obtain ⟨d, v, heq, hd⟩ := scanInt_head_val hint
    exact (List.cons.inj heq).1 ▸ hd
  rw [scanOnce]
  rw [if_neg (by omega), if_neg (by omega), if_neg (by omega), hconstant]

end

/-!
## Values

The classes of values, and the rules by which the reading of a value is put together from that of
its parts. The rules do not mention the printer.
-/

mutual

/-- A value that can be read back: integers within the limit of the reader, no floats, texts that
    can be encoded, and keys that are distinct. -/
def Printable : Json → Prop
  | null => True
  | bool _ => True
  | int n => n.natAbs < 10 ^ 4300
  | float _ => False
  | str s => Encodable s
  | list items => PrintableItems items
  | obj items => (items.map Prod.fst).Nodup ∧ PrintableMembers items

def PrintableItems : List Json → Prop
  | [] => True
  | item :: items => Printable item ∧ PrintableItems items

def PrintableMembers : List (Str × Json) → Prop
  | [] => True
  | (key, value) :: items => Encodable key ∧ Printable value ∧ PrintableMembers items

end

/-- The text of a float that is read as it: a constant, or a numeral that prints as itself. -/
def FloatText [Decoder] (text : Str) : Prop :=
  text = lit "nan" ∨ text = lit "inf" ∨ text = lit "-inf" ∨ scanNumber text = .ok (float text, [])

mutual

/-- A value that is read back, its floats and lone surrogates too. -/
def Loadable [Decoder] : Json → Prop
  | null => True
  | bool _ => True
  | int n => n.natAbs < 10 ^ 4300
  | float text => FloatText text
  | str s => Unpaired s
  | list items => LoadableItems items
  | obj items => (items.map Prod.fst).Nodup ∧ LoadableMembers items

def LoadableItems [Decoder] : List Json → Prop
  | [] => True
  | item :: items => Loadable item ∧ LoadableItems items

def LoadableMembers [Decoder] : List (Str × Json) → Prop
  | [] => True
  | (key, value) :: items => Unpaired key ∧ Loadable value ∧ LoadableMembers items

end

section

variable [Decoder]

mutual

theorem loadable_of_printable : ∀ {j : Json}, Printable j → Loadable j
  | null, _ => trivial
  | bool _, _ => trivial
  | int _, h => h
  | float _, h => absurd h (by simp [Printable])
  | str _, h => unpaired_of_encodable h
  | list _, h => loadableItems_of_printable h
  | obj _, h => ⟨h.1, loadableMembers_of_printable h.2⟩

theorem loadableItems_of_printable : ∀ {items : List Json}, PrintableItems items → LoadableItems items
  | [], _ => trivial
  | _ :: _, h => ⟨loadable_of_printable h.1, loadableItems_of_printable h.2⟩

theorem loadableMembers_of_printable : ∀ {items : List (Str × Json)}, PrintableMembers items →
    LoadableMembers items
  | [], _ => trivial
  | (_, _) :: _, h =>
    ⟨unpaired_of_encodable h.1, loadable_of_printable h.2.1, loadableMembers_of_printable h.2.2⟩

end

end

theorem printable_ofNat {n k : ℕ} (hk : k ≤ 4300) (h : n < 10 ^ k) : Printable (.int n) := by
  rw [Printable, Int.natAbs_natCast]
  refine lt_of_lt_of_le h ?_
  gcongr
  decide

/-- The value is printed between quotes, brackets or braces. -/
def enclosed : Json → Bool
  | str _ | list _ | obj _ => true
  | _ => false

/-- What stands behind the first item of a printed list. -/
def itemsTail (items : List Json) : Str := (dumpsItems items).flatMap fun w => lit ", " ++ w

/-- What stands behind the first member of a printed dictionary. -/
def membersTail (items : List (Str × Json)) : Str :=
  (dumpsMembers items).flatMap fun w => lit ", " ++ w

theorem join_items (item : Json) (items : List Json) :
    join ", " (dumpsItems (item :: items)) = dumps item ++ itemsTail items := by
  rw [dumpsItems, join, SelfDelimiting.flatten_intersperse_cons]
  rfl

theorem join_members (key : Str) (value : Json) (items : List (Str × Json)) :
    join ", " (dumpsMembers ((key, value) :: items)) =
      dumpsStr key ++ lit ": " ++ dumps value ++ membersTail items := by
  rw [dumpsMembers, join, SelfDelimiting.flatten_intersperse_cons]
  rfl

theorem lit_comma : lit ", " = [CodePoint.ofChar ',', CodePoint.ofChar ' '] := by decide

theorem lit_colon : lit ": " = [CodePoint.ofChar ':', CodePoint.ofChar ' '] := by decide

theorem skip_cons {c : CodePoint} (hc : isWhitespace c = false) (rest : Str) :
    skip (c :: rest) = c :: rest := by
  rw [skip, List.dropWhile_cons, hc]
  rfl

theorem skip_space (rest : Str) : skip (CodePoint.ofChar ' ' :: rest) = skip rest := by
  have hspace : isWhitespace (CodePoint.ofChar ' ') = true := by decide
  rw [skip, List.dropWhile_cons, hspace]
  rfl

theorem dumpsFloat_cases [Decoder] {text : Str} (h : FloatText text) :
    text = lit "nan" ∧ dumpsFloat text = lit "NaN" ∨
      text = lit "inf" ∧ dumpsFloat text = lit "Infinity" ∨
        text = lit "-inf" ∧ dumpsFloat text = lit "-Infinity" ∨
          scanNumber text = .ok (float text, []) ∧ dumpsFloat text = text := by
  unfold dumpsFloat
  by_cases hnan : text = lit "nan"
  · exact .inl ⟨hnan, if_pos hnan⟩
  by_cases hinf : text = lit "inf"
  · rw [if_neg hnan, if_pos hinf]
    exact .inr (.inl ⟨hinf, rfl⟩)
  by_cases hneg : text = lit "-inf"
  · rw [if_neg hnan, if_neg hinf, if_pos hneg]
    exact .inr (.inr (.inl ⟨hneg, rfl⟩))
  · rw [if_neg hnan, if_neg hinf, if_neg hneg]
    exact .inr (.inr (.inr ⟨((h.resolve_left hnan).resolve_left hinf).resolve_left hneg, rfl⟩))

theorem scanInt_of_number [Decoder] {s rest : Str} {j : Json} (h : scanNumber s = .ok (j, rest)) :
    ∃ integer after, scanInt s = some (integer, after) := by
  unfold scanNumber at h
  cases hint : scanInt s with
  | none =>
    rw [hint] at h
    cases h
  | some read => exact ⟨read.1, read.2, rfl⟩

/-- What a numeral begins with is no whitespace and no bracket. -/
theorem head_of_scanInt {s integer rest : Str} (h : scanInt s = some (integer, rest)) :
    ∃ c u, s = c :: u ∧ isWhitespace c = false ∧ c.val ≠ 0x5D ∧ c.val ≠ 0xFEFF := by
  obtain ⟨c, u, hu, hc⟩ := scanInt_head_val h
  refine ⟨c, u, hu, ?_⟩
  simp only [isWhitespace, Bool.or_eq_false_iff, decide_eq_false_iff_not]
  omega

theorem length_dumpsStr (s : Str) : s.length + 2 ≤ (dumpsStr s).length := by
  have hpoint : ∀ c : CodePoint, 1 ≤ (dumpsPoint c).length := by
    intro c
    unfold dumpsPoint
    split_ifs <;> simp [lit]
  have hbody : ∀ t : Str, t.length ≤ (t.flatMap dumpsPoint).length := by
    intro t
    induction t with
    | nil => simp
    | cons c t ih =>
      have := hpoint c
      rw [List.flatMap_cons, List.length_append, List.length_cons]
      omega
  have := hbody s
  have hquote : (lit "\"").length = 1 := by decide
  rw [dumpsStr, List.length_append, List.length_append, hquote]
  omega

/-- What stands behind the first of some texts joined by commas. -/
def commaTail (ws : List Str) : Str := ws.flatMap fun w => lit ", " ++ w

theorem commaTail_cons (w : Str) (ws : List Str) :
    commaTail (w :: ws) = CodePoint.ofChar ',' :: CodePoint.ofChar ' ' :: (w ++ commaTail ws) := by
  rw [commaTail, List.flatMap_cons, lit_comma]
  rfl

theorem join_cons (w : Str) (ws : List Str) : join ", " (w :: ws) = w ++ commaTail ws := by
  rw [join, SelfDelimiting.flatten_intersperse_cons]
  rfl

theorem follows_commaTail (ws : List Str) {c : CodePoint} (hc : c.val = 0x5D ∨ c.val = 0x7D)
    (rest : Str) : Follows (commaTail ws ++ c :: rest) := by
  cases ws with
  | nil => exact follows_cons (.inr hc) rest
  | cons w ws =>
    rw [commaTail_cons]
    exact follows_cons (.inl (by decide)) _

theorem setItems_of_not_mem {key : Str} {value : Json} {items : List (Str × Json)}
    (h : key ∉ items.map Prod.fst) : Dict.setItems key value items = items ++ [(key, value)] := by
  induction items with
  | nil => rfl
  | cons item items ih =>
    rw [List.map_cons, List.mem_cons, not_or] at h
    rw [Dict.setItems, if_neg (Ne.symm h.1), ih h.2, List.cons_append]

variable [Decoder]

theorem scanOnce_constant {word : String} {value : Json} (n room : ℕ) (rest : Str)
    (hword : ∃ c w, lit word = c :: w ∧ c.val ≠ 0x22 ∧ c.val ≠ 0x7B ∧ c.val ≠ 0x5B)
    (hconstant : constant? (lit word ++ rest) = some (value, rest)) :
    scanOnce (n + 1) room (lit word ++ rest) = .ok (value, rest) := by
  obtain ⟨c, w, hw, hquote, hbrace, hbracket⟩ := hword
  rw [hw, List.cons_append] at hconstant ⊢
  rw [scanOnce, if_neg hquote, if_neg hbrace, if_neg hbracket, hconstant]

/-- The text of a value, wherever it stands in a printed text, if there is room for it. Brackets,
    braces and quotes end a value by themselves, so only behind a scalar does it matter what
    follows. -/
structure ReadAs (w : Str) (j : Json) : Prop where
  head : ∃ c u, w = c :: u ∧ isWhitespace c = false ∧ c.val ≠ 0x5D ∧ c.val ≠ 0xFEFF
  scan : ∀ (n room : ℕ) (rest : Str), (enclosed j = false → Follows rest) → 2 * w.length ≤ n →
    j.depth ≤ room → scanOnce n room (w ++ rest) = .ok (j, rest)

/-- The text of a string, as that of a key. -/
def KeyAs (w key : Str) : Prop :=
  ∃ body, w = CodePoint.ofChar '"' :: body ∧
    ∀ (n : ℕ) (rest : Str), w.length ≤ n → scanString n (body ++ rest) = .ok (key, rest)

/-- The text of a member of a dictionary. -/
def MemberAs (w : Str) (item : Str × Json) : Prop :=
  ∃ k v, w = k ++ lit ": " ++ v ∧ KeyAs k item.1 ∧ ReadAs v item.2

variable {w : Str} {ws : List Str} {j : Json} {js : List Json}

theorem ReadAs.skip (h : ReadAs w j) (rest : Str) : skip (w ++ rest) = w ++ rest := by
  obtain ⟨c, u, rfl, hc, -⟩ := h.head
  rw [List.cons_append, skip_cons hc]

theorem ReadAs.loads (h : ReadAs w j) (hroom : j.depth ≤ Decoder.room) : loads w = .ok j := by
  have hscan := h.scan (2 * w.length + 1) Decoder.room [] (fun _ => .nil) (by omega) hroom
  have hskip := h.skip []
  rw [List.append_nil] at hscan hskip
  have hbom : (w.head?.any fun c => c.val = 0xFEFF) = false := by
    obtain ⟨c, u, rfl, -, -, hc⟩ := h.head
    rw [List.head?_cons, Option.any_some]
    exact decide_eq_false hc
  unfold Json.loads
  rw [hbom, hskip, hscan]
  rfl

/-- What is printed between brackets may be followed by blanks. -/
theorem ReadAs.loads_append (h : ReadAs w j) (hroom : j.depth ≤ Decoder.room)
    (hj : enclosed j = true) {blank : Str} (hblank : Json.skip blank = []) :
    Json.loads (w ++ blank) = .ok j := by
  have hscan := h.scan (2 * (w ++ blank).length + 1) Decoder.room blank
    (fun hfalse => absurd (hj.symm.trans hfalse) (by decide))
    (by rw [List.length_append]; omega) hroom
  have hbom : ((w ++ blank).head?.any fun c => c.val = 0xFEFF) = false := by
    obtain ⟨c, u, rfl, -, -, hc⟩ := h.head
    rw [List.cons_append, List.head?_cons, Option.any_some]
    exact decide_eq_false hc
  unfold Json.loads
  rw [hbom, h.skip blank, hscan]
  show (if Json.skip blank = [] then _ else _) = _
  rw [if_pos hblank]
  rfl

theorem readAs_constant {word : String}
    (hword : ∃ c u, lit word = c :: u ∧ c.val ≠ 0x22 ∧ c.val ≠ 0x7B ∧ c.val ≠ 0x5B ∧
      isWhitespace c = false ∧ c.val ≠ 0x5D ∧ c.val ≠ 0xFEFF)
    (hconstant : ∀ rest, constant? (lit word ++ rest) = some (j, rest)) : ReadAs (lit word) j := by
  obtain ⟨c, u, hw, hquote, hbrace, hbracket, hspace, hclose, hbom⟩ := hword
  refine ⟨⟨c, u, hw, hspace, hclose, hbom⟩, fun n room rest _ hn _ => ?_⟩
  obtain ⟨m, rfl⟩ : ∃ m, n = m + 1 := ⟨n - 1, by rw [hw, List.length_cons] at hn; omega⟩
  exact scanOnce_constant m room rest ⟨c, u, hw, hquote, hbrace, hbracket⟩ (hconstant rest)

theorem KeyAs.readAs {key : Str} (h : KeyAs w key) : ReadAs w (str key) := by
  obtain ⟨body, rfl, hscan⟩ := h
  have hquote : (CodePoint.ofChar '"').val = 0x22 := by decide
  refine ⟨⟨_, body, rfl, by decide, by decide, by decide⟩, fun n room rest _ hn _ => ?_⟩
  obtain ⟨m, rfl⟩ : ∃ m, n = m + 1 := ⟨n - 1, by rw [List.length_cons] at hn; omega⟩
  rw [List.length_cons] at hn hscan
  rw [List.cons_append, scanOnce, if_pos hquote, hscan m rest (by omega)]
  rfl

/-- The items of a list, one after the other. The induction is on the items behind the first, with
    two units of fuel for each character of them. -/
theorem scanItems_readAs (h : ReadAs w j) (hs : List.Forall₂ ReadAs ws js) (n : ℕ) {room : ℕ}
    (rest : Str) (hn : 2 * (w ++ commaTail ws).length + 2 ≤ n)
    (hroom : depthItems (j :: js) ≤ room) :
    scanItems n room (w ++ commaTail ws ++ CodePoint.ofChar ']' :: rest) = .ok (j :: js, rest) := by
  induction hs generalizing w j n with
  | nil =>
    obtain ⟨hj, -⟩ := max_le_iff.mp hroom
    obtain ⟨m, rfl⟩ : ∃ m, n = m + 1 := ⟨n - 1, by omega⟩
    have htail : commaTail [] = [] := rfl
    rw [htail, List.append_nil] at hn ⊢
    have hitem := h.scan m room (CodePoint.ofChar ']' :: rest)
      (fun _ => follows_commaTail [] (.inl rfl) rest) (by omega) hj
    have hbracket : (CodePoint.ofChar ']').val = 0x5D := by decide
    rw [scanItems, hitem]
    simp only [bind, Except.bind, skip_cons (show isWhitespace (CodePoint.ofChar ']') = false by decide),
      if_pos hbracket]
    rfl
  | cons hnext hs ih =>
    rename_i next i ws is
    obtain ⟨hj, hjs⟩ := max_le_iff.mp hroom
    obtain ⟨m, rfl⟩ : ∃ m, n = m + 1 := ⟨n - 1, by omega⟩
    have hlength : (commaTail (next :: ws)).length = (next ++ commaTail ws).length + 2 := by
      rw [commaTail_cons, List.length_cons, List.length_cons]
    rw [List.length_append, hlength] at hn
    -- the first item ends where the comma begins, and the rest is read behind it
    have hitem := h.scan m room (commaTail (next :: ws) ++ CodePoint.ofChar ']' :: rest)
      (fun _ => follows_commaTail _ (.inl rfl) rest) (by omega) hj
    have hitems := ih hnext m (by omega) hjs
    have hskip := hnext.skip (commaTail ws ++ CodePoint.ofChar ']' :: rest)
    have hcomma : (CodePoint.ofChar ',').val ≠ 0x5D ∧ (CodePoint.ofChar ',').val = 0x2C := by decide
    rw [List.append_assoc, scanItems, hitem]
    rw [List.append_assoc] at hitems
    simp only [bind, Except.bind, commaTail_cons, List.cons_append,
      skip_cons (show isWhitespace (CodePoint.ofChar ',') = false by decide), if_neg hcomma.1,
      if_pos hcomma.2, skip_space, List.append_assoc, hskip, hitems]
    rfl

/-- **A list is read item by item.** -/
theorem readAs_list (h : List.Forall₂ ReadAs ws js) :
    ReadAs (lit "[" ++ join ", " ws ++ lit "]") (list js) := by
  refine ⟨⟨_, _, rfl, by decide, by decide, by decide⟩, fun n room rest hfollows hn hroom => ?_⟩
  rw [depth] at hroom
  have hnonzero : room ≠ 0 := by omega
  have hinside : depthItems js ≤ room - 1 := by omega
  -- an empty list is closed before any item is looked for
  cases h with
  | nil =>
    obtain ⟨m, rfl⟩ : ∃ m, n = m + 1 := ⟨n - 1, by simp [lit] at hn; omega⟩
    obtain ⟨within, rfl⟩ := Nat.exists_eq_succ_of_ne_zero hnonzero
    rfl
  | cons hitem hs =>
    rename_i w j ws js
    have htext : lit "[" ++ join ", " (w :: ws) ++ lit "]" ++ rest =
        CodePoint.ofChar '[' :: (w ++ commaTail ws ++ CodePoint.ofChar ']' :: rest) := by
      rw [join_cons]
      simp [lit]
    have hlength : (lit "[" ++ join ", " (w :: ws) ++ lit "]").length =
        (w ++ commaTail ws).length + 2 := by
      rw [join_cons]
      simp [lit]
      omega
    obtain ⟨m, rfl⟩ : ∃ m, n = m + 1 := ⟨n - 1, by omega⟩
    have hitems := scanItems_readAs hitem hs m rest (by omega) hinside
    have hskip := hitem.skip (commaTail ws ++ CodePoint.ofChar ']' :: rest)
    obtain ⟨c, u, hw, -, hc, -⟩ := hitem.head
    have hbracket : (CodePoint.ofChar '[').val = 0x5B := by decide
    rw [htext, scanOnce, if_neg (by decide), if_neg (by decide), if_pos hbracket, if_neg hnonzero]
    rw [List.append_assoc] at hitems ⊢
    rw [hskip]
    rw [hw, List.cons_append] at hitems ⊢
    simp only [if_neg hc, hitems]
    rfl

/-- One member is read and put into the dictionary; what is behind it decides how it goes on. -/
theorem scanMembers_step {item : Str × Json} (h : MemberAs w item) {found : List (Str × Json)}
    (hfresh : item.1 ∉ found.map Prod.fst) {n room : ℕ} (hn : 2 * w.length ≤ n)
    (hroom : item.2.depth ≤ room) {rest : Str} (hrest : Follows rest) :
    scanMembers (n + 1) room found (w ++ rest) =
      match skip rest with
      | e :: rest =>
          if e.val = 0x7D then .ok (found ++ [item], rest)
          else if e.val = 0x2C then scanMembers n room (found ++ [item]) (skip rest)
          else .error .decode
      | [] => .error .decode := by
  obtain ⟨k, v, rfl, ⟨body, rfl, hkey⟩, hvalue⟩ := h
  simp only [List.length_append, List.length_cons] at hn hkey
  have hquote : (CodePoint.ofChar '"').val = 0x22 := by decide
  have hcolon : (CodePoint.ofChar ':').val = 0x3A := by decide
  have htext : CodePoint.ofChar '"' :: body ++ lit ": " ++ v ++ rest = CodePoint.ofChar '"' ::
      (body ++ CodePoint.ofChar ':' :: CodePoint.ofChar ' ' :: (v ++ rest)) := by
    rw [lit_colon]
    simp
  rw [htext, scanMembers, if_pos hquote, hkey n _ (by omega)]
  simp only [bind, Except.bind,
    skip_cons (show isWhitespace (CodePoint.ofChar ':') = false by decide), if_pos hcolon,
    skip_space, hvalue.skip, hvalue.scan n room rest (fun _ => hrest) (by omega) hroom,
    setItems_of_not_mem hfresh]
  rfl

/-- The members of a dictionary, one after the other, behind those found. A key that was not found
    before is put at the end, so the order is kept. -/
theorem scanMembers_memberAs {item : Str × Json} {items : List (Str × Json)} (h : MemberAs w item)
    (hs : List.Forall₂ MemberAs ws items) (n : ℕ) {room : ℕ} (found : List (Str × Json)) (rest : Str)
    (hnodup : ((found ++ item :: items).map Prod.fst).Nodup)
    (hn : 2 * (w ++ commaTail ws).length + 2 ≤ n) (hroom : depthMembers (item :: items) ≤ room) :
    scanMembers n room found (w ++ commaTail ws ++ CodePoint.ofChar '}' :: rest) =
      .ok (found ++ item :: items, rest) := by
  induction hs generalizing w item n found with
  | nil =>
    obtain ⟨hitem, -⟩ := max_le_iff.mp hroom
    obtain ⟨m, rfl⟩ : ∃ m, n = m + 1 := ⟨n - 1, by omega⟩
    -- a new key is appended where `dict` puts it: last
    have hfresh : item.1 ∉ found.map Prod.fst := by
      rw [List.map_append] at hnodup
      exact fun hmem => (List.disjoint_of_nodup_append hnodup) hmem List.mem_cons_self
    have htail : commaTail [] = [] := rfl
    have hclose : (CodePoint.ofChar '}').val = 0x7D := by decide
    rw [htail, List.append_nil] at hn ⊢
    have hstep := scanMembers_step h hfresh (n := m) (by omega) hitem
      (follows_commaTail [] (.inr hclose) rest)
    rw [htail, List.nil_append] at hstep
    rw [hstep, skip_cons (show isWhitespace (CodePoint.ofChar '}') = false by decide)]
    dsimp only
    rw [if_pos hclose]
  | cons hnext hs ih =>
    rename_i next after ws items
    obtain ⟨hitem, hitems⟩ := max_le_iff.mp hroom
    obtain ⟨m, rfl⟩ : ∃ m, n = m + 1 := ⟨n - 1, by omega⟩
    have hfresh : item.1 ∉ found.map Prod.fst := by
      rw [List.map_append] at hnodup
      exact fun hmem => (List.disjoint_of_nodup_append hnodup) hmem List.mem_cons_self
    have hcomma : (CodePoint.ofChar ',').val ≠ 0x7D ∧ (CodePoint.ofChar ',').val = 0x2C := by decide
    have hlength : (commaTail (next :: ws)).length = (next ++ commaTail ws).length + 2 := by
      rw [commaTail_cons, List.length_cons, List.length_cons]
    rw [List.length_append, hlength] at hn
    have hmembers := ih hnext m (found ++ [item])
      (by rwa [List.append_assoc, List.singleton_append]) (by omega) hitems
    have hskip : skip (next ++ commaTail ws ++ CodePoint.ofChar '}' :: rest) =
        next ++ commaTail ws ++ CodePoint.ofChar '}' :: rest := by
      obtain ⟨k, v, rfl, ⟨body, rfl, -⟩, -⟩ := hnext
      exact skip_cons (show isWhitespace (CodePoint.ofChar '"') = false by decide) _
    rw [List.append_assoc found, List.singleton_append] at hmembers
    rw [List.append_assoc, scanMembers_step h hfresh (by omega) hitem (follows_commaTail _ (.inr rfl) rest),
      commaTail_cons]
    simp only [List.cons_append,
      skip_cons (show isWhitespace (CodePoint.ofChar ',') = false by decide), if_neg hcomma.1,
      if_pos hcomma.2, skip_space, hskip, hmembers]

/-- **A dictionary is read member by member**, if its keys are distinct. -/
theorem readAs_obj {items : List (Str × Json)} (h : List.Forall₂ MemberAs ws items)
    (hnodup : (items.map Prod.fst).Nodup) :
    ReadAs (lit "\x7b" ++ join ", " ws ++ lit "\x7d") (obj items) := by
  refine ⟨⟨_, _, rfl, by decide, by decide, by decide⟩, fun n room rest hfollows hn hroom => ?_⟩
  rw [depth] at hroom
  have hnonzero : room ≠ 0 := by omega
  have hinside : depthMembers items ≤ room - 1 := by omega
  cases h with
  | nil =>
    obtain ⟨m, rfl⟩ : ∃ m, n = m + 1 := ⟨n - 1, by simp [lit] at hn; omega⟩
    obtain ⟨within, rfl⟩ := Nat.exists_eq_succ_of_ne_zero hnonzero
    rfl
  | cons hitem hs =>
    rename_i w item ws items
    have htext : lit "\x7b" ++ join ", " (w :: ws) ++ lit "\x7d" ++ rest =
        CodePoint.ofChar '{' :: (w ++ commaTail ws ++ CodePoint.ofChar '}' :: rest) := by
      rw [join_cons]
      simp [lit]
    have hlength : (lit "\x7b" ++ join ", " (w :: ws) ++ lit "\x7d").length =
        (w ++ commaTail ws).length + 2 := by
      rw [join_cons]
      simp [lit]
      omega
    obtain ⟨m, rfl⟩ : ∃ m, n = m + 1 := ⟨n - 1, by omega⟩
    have hmembers := scanMembers_memberAs hitem hs m [] rest hnodup (by omega) hinside
    have hbrace : (CodePoint.ofChar '{').val = 0x7B := by decide
    have hclose : (CodePoint.ofChar '"').val ≠ 0x7D := by decide
    -- the first key begins with a quote, so the object is not closed at once
    rw [htext, scanOnce, if_neg (by decide), if_pos hbrace, if_neg hnonzero]
    obtain ⟨k, v, rfl, ⟨body, rfl, -⟩, -⟩ := hitem
    simp only [List.cons_append] at hmembers ⊢
    rw [skip_cons (by decide)]
    simp only [if_neg hclose, hmembers]
    rfl

/-!
## What is printed

By recursion over the value, with the rules.
-/

omit [Decoder] in
theorem keyAs_dumpsStr {key : Str} (h : Unpaired key) : KeyAs (dumpsStr key) key := by
  have hlength := length_dumpsStr key
  refine ⟨key.flatMap dumpsPoint ++ lit "\"", rfl, fun n rest hn => ?_⟩
  rw [List.append_assoc]
  exact scanString_dumpsStr h (by omega) rest

theorem readAs_number {integer after : Str} (hint : scanInt w = some (integer, after))
    (hnumber : ∀ rest, Follows rest → scanNumber (w ++ rest) = .ok (j, rest))
    (hj : enclosed j = false) : ReadAs w j := by
  have hhead := head_of_scanInt hint
  refine ⟨hhead, fun n room rest hrest hn _ => ?_⟩
  obtain ⟨c, u, hu, -⟩ := hhead
  obtain ⟨m, rfl⟩ : ∃ m, n = m + 1 := ⟨n - 1, by rw [hu, List.length_cons] at hn; omega⟩
  rw [scanOnce_number (scanInt_append hint (hrest hj)) m room]
  exact hnumber rest (hrest hj)

theorem readAs_ofInt {n : ℤ} (hn : n.natAbs < 10 ^ 4300) : ReadAs (ofInt n) (int n) := by
  have hint := scanInt_ofInt n .nil
  rw [List.append_nil] at hint
  exact readAs_number hint (fun _ hrest => scanNumber_ofInt hn hrest) rfl

theorem readAs_dumpsFloat {text : Str} (h : FloatText text) : ReadAs (dumpsFloat text) (float text) := by
  rcases dumpsFloat_cases h with ⟨rfl, heq⟩ | ⟨rfl, heq⟩ | ⟨rfl, heq⟩ | ⟨hnumber, heq⟩
  · rw [heq]
    exact readAs_constant ⟨_, _, rfl, by decide, by decide, by decide, by decide, by decide, by decide⟩
      fun rest => rfl
  · rw [heq]
    exact readAs_constant ⟨_, _, rfl, by decide, by decide, by decide, by decide, by decide, by decide⟩
      fun rest => rfl
  · rw [heq]
    exact readAs_constant ⟨_, _, rfl, by decide, by decide, by decide, by decide, by decide, by decide⟩
      fun rest => rfl
  · obtain ⟨integer, after, hint⟩ := scanInt_of_number hnumber
    rw [heq]
    exact readAs_number hint (fun _ hrest => scanNumber_append hnumber hrest) rfl

mutual

/-- **What `dumps` prints is read as what it was printed from.** -/
theorem readAs_dumps : ∀ {j : Json}, Loadable j → ReadAs (dumps j) j
  | null, _ => readAs_constant
      ⟨_, _, rfl, by decide, by decide, by decide, by decide, by decide, by decide⟩ fun _ => rfl
  | bool true, _ => readAs_constant
      ⟨_, _, rfl, by decide, by decide, by decide, by decide, by decide, by decide⟩ fun _ => rfl
  | bool false, _ => readAs_constant
      ⟨_, _, rfl, by decide, by decide, by decide, by decide, by decide, by decide⟩ fun _ => rfl
  | int _, h => readAs_ofInt h
  | float _, h => readAs_dumpsFloat h
  | str _, h => (keyAs_dumpsStr h).readAs
  | list _, h => readAs_list (readAs_dumpsItems h)
  | obj _, h => readAs_obj (memberAs_dumpsMembers h.2) h.1

theorem readAs_dumpsItems : ∀ {items : List Json}, LoadableItems items →
    List.Forall₂ ReadAs (dumpsItems items) items
  | [], _ => .nil
  | _ :: _, h => .cons (readAs_dumps h.1) (readAs_dumpsItems h.2)

theorem memberAs_dumpsMembers : ∀ {items : List (Str × Json)}, LoadableMembers items →
    List.Forall₂ MemberAs (dumpsMembers items) items
  | [], _ => .nil
  | (_, _) :: _, h =>
    .cons ⟨_, _, rfl, keyAs_dumpsStr h.1, readAs_dumps h.2.1⟩ (memberAs_dumpsMembers h.2.2)

end

/-- **What `dumps` prints, `loads` reads back**, of all that it could have read, if there is room for
    it. -/
theorem loads_dumps_of_loadable {j : Json} (hj : Loadable j) (hroom : j.depth ≤ Decoder.room) :
    loads (dumps j) = .ok j :=
  (readAs_dumps hj).loads hroom

theorem loads_dumps {j : Json} (hj : Printable j) (hroom : j.depth ≤ Decoder.room) :
    loads (dumps j) = .ok j :=
  loads_dumps_of_loadable (loadable_of_printable hj) hroom

omit [Decoder] in
/-- **Printing loses nothing**, of values that are read back. Two values with one text could not
    both be read back from it, given the room, and the room is ours to choose. -/
theorem dumps_inj {i j : Json} (hi : Printable i) (hj : Printable j) (h : dumps i = dumps j) :
    i = j := by
  -- no interpreter at hand need have the room, but one with enough of it could be had
  let roomy : Decoder := ⟨id, max 16 (max i.depth j.depth), le_max_left _ _⟩
  have hi_room : i.depth ≤ roomy.room := (le_max_left _ _).trans (le_max_right _ _)
  have hj_room : j.depth ≤ roomy.room := (le_max_right _ _).trans (le_max_right _ _)
  have hread := @loads_dumps roomy i hi hi_room
  rw [h, @loads_dumps roomy j hj hj_room, Except.ok.injEq] at hread
  exact hread.symm

end Py.Json
