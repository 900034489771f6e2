import Mathlib.Data.List.Basic
import Mathlib.Data.Fintype.Basic

/-!
# JSON in ECMAScript

`JSON.parse` and `JSON.stringify`, over strings of UTF-16 code units. A number is kept as its
text. `stringify` is written out for lists of strings. It escapes the quote, the backslash,
control characters and the surrogates that have no partner, and leaves all else as it is.

`parse_stringify` is the round trip, for strings of any code units. It is read off the scan of one
string (`scanString_quote`), which follows `quote` from code point to code point.

## Against the JSON of Python

There are two models of JSON in this development, because there are two implementations in play
and they differ in what matters here. A string is code units in one and code points in the other;
lone surrogates are escaped by the one and, where ASCII is not forced, left alone by the other;
and `NaN` is a value for Python and a syntax error here. The nesting of brackets has no limit in
this one: no result asks about a text that is nested deeply, and `fuel` is counted off the length
of the text, so it is never what a scan fails for.
-/

namespace Ecma

/-- A string is its code units. -/
abbrev JsStr := List UInt16

inductive Value
  | null
  | boolean (b : Bool)
  | number (text : JsStr)
  | string (s : JsStr)
  | array (items : List Value)
  | object (members : List (JsStr × Value))

/-!
## Code units

Strings here are lists of 16-bit units, and a character past the first plane is a pair of
surrogates. A unit is escaped by four hexadecimal digits, which are read in either case.
-/

def isHigh (c : UInt16) : Bool := 0xD800 ≤ c && c ≤ 0xDBFF

def isLow (c : UInt16) : Bool := 0xDC00 ≤ c && c ≤ 0xDFFF

def isDigit (c : UInt16) : Bool := 0x30 ≤ c && c ≤ 0x39

def isWhitespace (c : UInt16) : Bool := c = 0x20 || c = 0x09 || c = 0x0A || c = 0x0D

/-- A hexadecimal digit, in lower case. -/
def hexUnit (n : ℕ) : UInt16 :=
  if n % 16 < 10 then UInt16.ofNat (0x30 + n % 16) else UInt16.ofNat (0x57 + n % 16)

/-- Its value, in either case. -/
def hexValue? (c : UInt16) : Option ℕ :=
  if isDigit c then some (c.toNat - 0x30)
  else if 0x61 ≤ c && c ≤ 0x66 then some (c.toNat - 0x57)
  else if 0x41 ≤ c && c ≤ 0x46 then some (c.toNat - 0x37)
  else none

theorem hexUnit_mod (n : ℕ) : hexUnit (n % 16) = hexUnit n := by
  rw [hexUnit, hexUnit, Nat.mod_mod]

theorem hexValue?_hexUnit (n : ℕ) : hexValue? (hexUnit n) = some (n % 16) := by
  have hdigit : ∀ d : Fin 16, hexValue? (hexUnit d.val) = some d.val := by decide
  rw [← hexUnit_mod]
  exact hdigit ⟨n % 16, Nat.mod_lt n (by decide)⟩

/-- The four digits of a unit. -/
def hex4 (c : UInt16) : JsStr :=
  [hexUnit (c.toNat / 4096), hexUnit (c.toNat / 256), hexUnit (c.toNat / 16), hexUnit c.toNat]

def unit? (a b c d : UInt16) : Option UInt16 := do
  let w ← hexValue? a
  let x ← hexValue? b
  let y ← hexValue? c
  let z ← hexValue? d
  return UInt16.ofNat (((w * 16 + x) * 16 + y) * 16 + z)

theorem unit?_hex4 (c : UInt16) :
    unit? (hexUnit (c.toNat / 4096)) (hexUnit (c.toNat / 256)) (hexUnit (c.toNat / 16))
      (hexUnit c.toNat) = some c := by
  have hlt := c.toNat_lt
  have hsum : ((c.toNat / 4096 % 16 * 16 + c.toNat / 256 % 16) * 16 + c.toNat / 16 % 16) * 16 +
      c.toNat % 16 = c.toNat := by omega
  simp only [unit?, hexValue?_hexUnit, Option.bind_eq_bind, Option.bind_some, hsum,
    UInt16.ofNat_toNat]
  rfl

theorem hexUnit_ne (n : ℕ) : hexUnit n ≠ 0x22 ∧ hexUnit n ≠ 0x5C := by
  have hdigit : ∀ d : Fin 16, hexUnit d.val ≠ 0x22 ∧ hexUnit d.val ≠ 0x5C := by decide
  rw [← hexUnit_mod]
  exact hdigit ⟨n % 16, Nat.mod_lt n (by decide)⟩

/-!
## `JSON.stringify`

The printer, for a list of strings. A surrogate without its other half is escaped, and so are
quotes, backslashes and control characters.
-/

/-- `\uXXXX` -/
def unicodeEscape (c : UInt16) : JsStr := 0x5C :: 0x75 :: hex4 c

/-- The escape of a unit that is written with one letter. -/
def letter? (c : UInt16) : Option UInt16 :=
  if c = 0x22 then some 0x22
  else if c = 0x5C then some 0x5C
  else if c = 0x08 then some 0x62
  else if c = 0x09 then some 0x74
  else if c = 0x0A then some 0x6E
  else if c = 0x0C then some 0x66
  else if c = 0x0D then some 0x72
  else none

/-- A unit that is no half of a pair. -/
def escape (c : UInt16) : JsStr :=
  match letter? c with
  | some e => [0x5C, e]
  | none => if c < 0x20 || isHigh c || isLow c then unicodeEscape c else [c]

/-- `QuoteJSONString`, inside the quotes. -/
def quote : JsStr → JsStr
  | [] => []
  | [c] => escape c
  | c :: d :: rest =>
      if isHigh c && isLow d then c :: d :: quote rest else escape c ++ quote (d :: rest)

def stringifyString (s : JsStr) : JsStr := 0x22 :: quote s ++ [0x22]

/-- `JSON.stringify(ids)` of a list of strings. -/
def stringify (ids : List JsStr) : JsStr :=
  0x5B :: ((ids.map stringifyString).intersperse [0x2C]).flatten ++ [0x5D]

/-!
## `JSON.parse`

The reader, for all of JSON, with fuel that goes down by one at each call. How much of it is
enough is known from the length of the text.
-/

def skip (s : JsStr) : JsStr := s.dropWhile isWhitespace

/-- What a letter stands for behind a backslash. -/
def ofLetter? (c : UInt16) : Option UInt16 :=
  if c = 0x22 then some 0x22
  else if c = 0x5C then some 0x5C
  else if c = 0x2F then some 0x2F
  else if c = 0x62 then some 0x08
  else if c = 0x66 then some 0x0C
  else if c = 0x6E then some 0x0A
  else if c = 0x72 then some 0x0D
  else if c = 0x74 then some 0x09
  else none

/-- A string from behind its opening quote, and what follows it. A control character may not stand
    in it unescaped. -/
def scanString : JsStr → Option (JsStr × JsStr)
  | [] => none
  | c :: rest =>
      if c = 0x22 then some ([], rest)
      else if c = 0x5C then
        match rest with
        | 0x75 :: a :: b :: d :: e :: rest => do
            let v ← unit? a b d e
            let (s, rest) ← scanString rest
            return (v :: s, rest)
        | e :: rest => do
            let v ← ofLetter? e
            let (s, rest) ← scanString rest
            return (v :: s, rest)
        | [] => none
      else if c < 0x20 then none
      else do
        let (s, rest) ← scanString rest
        return (c :: s, rest)

/-- The integer part of a number. -/
def scanInt (s : JsStr) : Option (JsStr × JsStr) :=
  let (sign, s) := match s with
    | c :: rest => if c = 0x2D then ([c], rest) else ([], c :: rest)
    | [] => ([], [])
  match s with
  | c :: rest =>
      if c = 0x30 then some (sign ++ [c], rest)
      else if isDigit c then some (sign ++ c :: rest.takeWhile isDigit, rest.dropWhile isDigit)
      else none
  | [] => none

def scanFraction (s : JsStr) : Option (JsStr × JsStr) :=
  match s with
  | c :: rest =>
      if c = 0x2E then
        if rest.takeWhile isDigit = [] then none
        else some (c :: rest.takeWhile isDigit, rest.dropWhile isDigit)
      else some ([], s)
  | [] => some ([], s)

def scanExponent (s : JsStr) : Option (JsStr × JsStr) :=
  match s with
  | c :: rest =>
      if c = 0x65 || c = 0x45 then
        let (sign, rest) := match rest with
          | d :: more => if d = 0x2B || d = 0x2D then ([d], more) else ([], d :: more)
          | [] => ([], [])
        if rest.takeWhile isDigit = [] then none
        else some (c :: sign ++ rest.takeWhile isDigit, rest.dropWhile isDigit)
      else some ([], s)
  | [] => some ([], s)

def scanNumber (s : JsStr) : Option (Value × JsStr) := do
  let (integer, rest) ← scanInt s
  let (fraction, rest) ← scanFraction rest
  let (exponent, rest) ← scanExponent rest
  return (.number (integer ++ fraction ++ exponent), rest)

def keyword? (word : JsStr) (value : Value) (s : JsStr) : Option (Value × JsStr) :=
  if word.isPrefixOf s then some (value, s.drop word.length) else none

def null : JsStr := [0x6E, 0x75, 0x6C, 0x6C]

def true' : JsStr := [0x74, 0x72, 0x75, 0x65]

def false' : JsStr := [0x66, 0x61, 0x6C, 0x73, 0x65]

mutual

/-- A value and what follows it. Two units of fuel for each code unit are enough: every call goes
    one unit down, and at most two are made before a character is taken. -/
def scanValue : ℕ → JsStr → Option (Value × JsStr)
  | 0, _ => none
  | _, [] => none
  | n + 1, c :: rest =>
      if c = 0x22 then do
        let (s, rest) ← scanString rest
        return (.string s, rest)
      else if c = 0x5B then
        match skip rest with
        | d :: rest =>
            if d = 0x5D then some (.array [], rest) else do
              let (items, rest) ← scanItems n (d :: rest)
              return (.array items, rest)
        | [] => none
      else if c = 0x7B then
        match skip rest with
        | d :: rest =>
            if d = 0x7D then some (.object [], rest) else do
              let (members, rest) ← scanMembers n (d :: rest)
              return (.object members, rest)
        | [] => none
      else
        keyword? null .null (c :: rest) <|> keyword? true' (.boolean true) (c :: rest) <|>
          keyword? false' (.boolean false) (c :: rest) <|> scanNumber (c :: rest)

/-- The items of an array, from the first of them to behind the bracket. -/
def scanItems : ℕ → JsStr → Option (List Value × JsStr)
  | 0, _ => none
  | n + 1, s => do
      let (item, rest) ← scanValue n s
      match skip rest with
      | c :: rest =>
          if c = 0x2C then do
            let (items, rest) ← scanItems n (skip rest)
            return (item :: items, rest)
          else if c = 0x5D then some ([item], rest)
          else none
      | [] => none

/-- The members of an object, from the first of them to behind the brace. -/
def scanMembers : ℕ → JsStr → Option (List (JsStr × Value) × JsStr)
  | 0, _ => none
  | n + 1, s =>
      match s with
      | [] => none
      | c :: rest =>
          if c = 0x22 then do
            let (key, rest) ← scanString rest
            match skip rest with
            | c :: rest =>
                if c = 0x3A then do
                  let (value, rest) ← scanValue n (skip rest)
                  match skip rest with
                  | c :: rest =>
                      if c = 0x2C then do
                        let (members, rest) ← scanMembers n (skip rest)
                        return ((key, value) :: members, rest)
                      else if c = 0x7D then some ([(key, value)], rest)
                      else none
                  | [] => none
                else none
            | [] => none
          else none

end

/-- `JSON.parse(text)`, or nothing where it throws. White space may stand on both sides. -/
def parse (text : JsStr) : Option Value := do
  let (value, rest) ← scanValue (2 * text.length + 1) (skip text)
  if skip rest = [] then some value else none

/-!
## The round trip

Unit by unit, a string is read as it was printed, up to its closing quote.
-/

/-- A unit from the space on that is neither a quote nor a backslash. -/
def Plain (c : UInt16) : Prop := c ≠ 0x22 ∧ c ≠ 0x5C ∧ ¬ c < 0x20

/-- The three ways a unit is written: with a letter, in hexadecimal, or as it is. -/
theorem escape_cases (c : UInt16) :
    (∃ e, letter? c = some e ∧ escape c = [0x5C, e]) ∨ escape c = unicodeEscape c ∨
      (escape c = [c] ∧ Plain c) := by
  unfold escape
  cases hletter : letter? c with
  | some e => exact Or.inl ⟨e, rfl, rfl⟩
  | none =>
    dsimp only
    split_ifs with h
    · exact Or.inr (Or.inl rfl)
    · refine Or.inr (Or.inr ⟨rfl, ?_, ?_, ?_⟩)
      · rintro rfl
        cases hletter
      · rintro rfl
        cases hletter
      · intro hlt
        simp [hlt] at h

theorem ofLetter?_of_letter? {c e : UInt16} (h : letter? c = some e) :
    e ≠ 0x75 ∧ ofLetter? e = some c := by
  unfold letter? at h
  split_ifs at h
  all_goals
    subst_vars
    cases h
    exact ⟨by decide, rfl⟩

theorem scanString_plain {c : UInt16} (h : Plain c) (rest : JsStr) :
    scanString (c :: rest) = (scanString rest).map fun (s, rest) => (c :: s, rest) := by
  obtain ⟨hquote, hslash, hctrl⟩ := h
  rw [scanString.eq_def]
  dsimp only
  rw [if_neg hquote, if_neg hslash, if_neg hctrl]
  cases scanString rest with
  | none => rfl
  | some p => rfl

theorem scanString_letter {c e : UInt16} (h : letter? c = some e) (rest : JsStr) :
    scanString (0x5C :: e :: rest) = (scanString rest).map fun (s, rest) => (c :: s, rest) := by
  obtain ⟨hu, hof⟩ := ofLetter?_of_letter? h
  rw [scanString.eq_def]
  dsimp only
  rw [if_neg (by decide), if_pos rfl]
  split
  · rename_i heq
    exact absurd (List.cons.inj heq).1 hu
  · rename_i heq
    obtain ⟨rfl, rfl⟩ := List.cons.inj heq
    rw [hof]
    cases scanString rest with
    | none => rfl
    | some p => rfl
  · rename_i heq
    cases heq

theorem scanString_unicode (c : UInt16) (rest : JsStr) :
    scanString (unicodeEscape c ++ rest) =
      (scanString rest).map fun (s, rest) => (c :: s, rest) := by
  change scanString (0x5C :: 0x75 :: hexUnit (c.toNat / 4096) :: hexUnit (c.toNat / 256) ::
    hexUnit (c.toNat / 16) :: hexUnit c.toNat :: rest) = _
  rw [scanString.eq_def]
  dsimp only
  rw [if_neg (by decide), if_pos rfl]
  split
  · rename_i heq
    simp only [List.cons.injEq, true_and] at heq
    obtain ⟨rfl, rfl, rfl, rfl, rfl⟩ := heq
    rw [unit?_hex4]
    cases scanString rest with
    | none => rfl
    | some p => rfl
  · rename_i hno heq
    obtain ⟨rfl, rfl⟩ := List.cons.inj heq
    exact absurd rfl (hno _ _ _ _ _ rfl)
  · rename_i heq
    cases heq

theorem scanString_escape (c : UInt16) (rest : JsStr) :
    scanString (escape c ++ rest) = (scanString rest).map fun (s, rest) => (c :: s, rest) := by
  rcases escape_cases c with ⟨e, hletter, heq⟩ | heq | ⟨heq, hplain⟩
  · rw [heq]
    exact scanString_letter hletter rest
  · rw [heq]
    exact scanString_unicode c rest
  · rw [heq]
    exact scanString_plain hplain rest

theorem plain_of_isHigh {c : UInt16} (h : isHigh c = true) : Plain c := by
  refine ⟨?_, ?_, fun hlt => ?_⟩
  · rintro rfl
    exact absurd h (by decide)
  · rintro rfl
    exact absurd h (by decide)
  · simp only [isHigh, Bool.and_eq_true, decide_eq_true_eq, UInt16.le_iff_toNat_le,
      UInt16.lt_iff_toNat_lt, UInt16.reduceToNat] at h hlt
    omega

theorem plain_of_isLow {c : UInt16} (h : isLow c = true) : Plain c := by
  refine ⟨?_, ?_, fun hlt => ?_⟩
  · rintro rfl
    exact absurd h (by decide)
  · rintro rfl
    exact absurd h (by decide)
  · simp only [isLow, Bool.and_eq_true, decide_eq_true_eq, UInt16.le_iff_toNat_le,
      UInt16.lt_iff_toNat_lt, UInt16.reduceToNat] at h hlt
    omega

/-- **A string is read back up to its closing quote.** The cases are those of `quote`: a pair of
    surrogates is written as it is, and any other unit by itself. -/
theorem scanString_quote (s rest : JsStr) :
    scanString (quote s ++ 0x22 :: rest) = some (s, rest) := by
  fun_induction quote s with
  | case1 =>
    rw [List.nil_append, scanString.eq_def]
    exact if_pos rfl
  | case2 c =>
    rw [scanString_escape, scanString.eq_def]
    rfl
  | case3 c d s hpair ih =>
    rw [Bool.and_eq_true] at hpair
    rw [List.cons_append, List.cons_append, scanString_plain (plain_of_isHigh hpair.1),
      scanString_plain (plain_of_isLow hpair.2), ih]
    rfl
  | case4 c d s hpair ih =>
    rw [List.append_assoc, scanString_escape, ih]
    rfl

/-!
## Lists of strings

And so are the strings of a list, with their commas and the bracket at the end.
-/

/-- What stands behind the first string of a list. -/
def tail (ids : List JsStr) : JsStr := ids.flatMap fun id => 0x2C :: stringifyString id

theorem flatten_intersperse (s : JsStr) (l : List JsStr) :
    ((s :: l).intersperse [0x2C]).flatten = s ++ l.flatMap fun t => 0x2C :: t := by
  induction l generalizing s with
  | nil => rw [List.intersperse_singleton, List.flatten_singleton, List.flatMap_nil, List.append_nil]
  | cons t l ih =>
    rw [List.intersperse_cons_cons, List.flatten_cons, List.flatten_cons, ih, List.flatMap_cons]
    rfl

theorem stringify_cons (id : JsStr) (ids : List JsStr) :
    stringify (id :: ids) = 0x5B :: (stringifyString id ++ tail ids ++ [0x5D]) := by
  rw [stringify, List.map_cons, flatten_intersperse, List.flatMap_map]
  rfl

theorem scanValue_stringifyString (n : ℕ) (id rest : JsStr) :
    scanValue (n + 1) (stringifyString id ++ rest) = some (.string id, rest) := by
  have hscan : scanString (quote id ++ [0x22] ++ rest) = some (id, rest) := by
    rw [List.append_assoc]
    exact scanString_quote id rest
  rw [stringifyString, List.cons_append, List.cons_append, scanValue, if_pos rfl, hscan]
  rfl

/-- The items of a printed list, from the first one on. The fuel goes down with every item, so the
    bound is on their number. -/
theorem scanItems_stringify (n : ℕ) (id : JsStr) (ids : List JsStr) (rest : JsStr)
    (hn : ids.length + 2 ≤ n) :
    scanItems n (stringifyString id ++ (tail ids ++ 0x5D :: rest)) =
      some ((id :: ids).map .string, rest) := by
  induction ids generalizing id n with
  | nil =>
    obtain ⟨m, rfl⟩ : ∃ m, n = m + 1 + 1 := ⟨n - 2, by simp at hn; omega⟩
    rw [scanItems, scanValue_stringifyString]
    rfl
  | cons next ids ih =>
    obtain ⟨m, rfl⟩ : ∃ m, n = m + 1 + 1 := ⟨n - 2, by simp at hn; omega⟩
    have hrest := ih (m + 1) next (by simp at hn; omega)
    have htail : tail (next :: ids) ++ 0x5D :: rest =
        0x2C :: (stringifyString next ++ (tail ids ++ 0x5D :: rest)) := by
      rw [tail, List.flatMap_cons, List.append_assoc]
      rfl
    have hskip : ∀ s, skip (stringifyString next ++ s) = stringifyString next ++ s := fun _ => rfl
    have hcomma : ∀ s, skip (0x2C :: s) = 0x2C :: s := fun _ => rfl
    rw [scanItems, scanValue_stringifyString, htail]
    simp only [Option.bind_eq_bind, Option.bind_some]
    rw [hcomma]
    dsimp only
    rw [if_pos rfl, hskip, hrest]
    rfl

theorem length_le_tail (ids : List JsStr) : ids.length ≤ (tail ids).length := by
  induction ids with
  | nil => exact Nat.le_refl 0
  | cons id ids ih =>
    rw [tail, List.flatMap_cons, List.length_append, List.length_cons, List.length_cons]
    rw [tail] at ih
    omega

theorem scanValue_stringify (n : ℕ) (id : JsStr) (ids : List JsStr) (hn : ids.length + 2 ≤ n) :
    scanValue (n + 1) (stringify (id :: ids)) = some (.array ((id :: ids).map .string), []) := by
  have hitems := scanItems_stringify n id ids [] hn
  have hfirst : stringifyString id ++ (tail ids ++ [0x5D]) =
      0x22 :: (quote id ++ [0x22] ++ (tail ids ++ [0x5D])) := rfl
  have hskip : ∀ s, skip (0x22 :: s) = 0x22 :: s := fun _ => rfl
  rw [stringify_cons, List.append_assoc]
  rw [hfirst] at hitems ⊢
  rw [scanValue, if_neg (by decide), if_pos rfl, hskip]
  dsimp only
  rw [if_neg (by decide), hitems]
  rfl

/-- **What `JSON.stringify` writes of a list of strings, `JSON.parse` reads as it.** -/
theorem parse_stringify (ids : List JsStr) :
    parse (stringify ids) = some (.array (ids.map .string)) := by
  cases ids with
  | nil => rfl
  | cons id ids =>
    have hlength := length_le_tail ids
    have hfuel : ids.length + 2 ≤ 2 * (stringify (id :: ids)).length := by
      rw [stringify_cons, List.length_cons, List.length_append, List.length_append]
      omega
    have hskip : skip (stringify (id :: ids)) = stringify (id :: ids) := rfl
    rw [parse, hskip, scanValue_stringify _ id ids hfuel]
    rfl

end Ecma
