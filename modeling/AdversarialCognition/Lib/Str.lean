import Mathlib.Data.Finset.Basic
import Mathlib.Data.List.Lex

/-!
# Python strings

A `str` is a sequence of code points, lone surrogates included. That is wider than Lean's
`String`, whose characters are the Unicode scalar values, and the difference is observable:
`str.encode("utf-8")` raises on a surrogate and on nothing else. Comparison, length, concatenation
and equality of `Str` are those of `List`, which is what Python does code point by code point.

## What is taken from the interpreter

Two tables of the interpreter are not written out. `str.isprintable` is a field of `Runtime`, with
the one fact `repr` needs of it. Lower-casing is kept only where it can be seen from ASCII: among
the code points past 127, exactly U+0130 and U+212A have a lower case with an ASCII character in
it.

SHA-256 is a field of `Runtime` as well. Most of what is proved with a hash is proved of every
function on bytes, and asks for injectivity where it needs it and only on the texts at hand. So
nothing rests on a property that no hash function has. A run on a given input takes the real one,
from the module on SHA-256.

## What is left out

There is no slicing with negative indices, no formatting and no regular expression here. What the
sources do with a regular expression is one of two things, a scan for the runs of a character
class (`runs`, below) or for tags in brackets, which has a module of its own.
-/

namespace Py

/-- A code point, surrogates included. A `Char` would leave them out, and it is on them that
    `encode` raises. -/
abbrev CodePoint := Fin 0x110000

abbrev Str := List CodePoint

/-- Under a name, for the definitions that look for a character in a text. -/
instance lawfulBEqCodePoint : LawfulBEq CodePoint := inferInstance

/-- Under a name, for the definitions that look for a text in a list. -/
instance lawfulBEqStr : LawfulBEq Str := inferInstance

inductive Exn
  | unicodeEncodeError
  deriving DecidableEq, Repr

namespace CodePoint

/-- A scalar value as a code point. The converse is `toChar?`, and is partial. -/
def ofChar (c : Char) : CodePoint :=
  ⟨c.val.toNat, by
    rcases c.valid with h | h <;> omega⟩

/-- U+D800 to U+DFFF: a code point that is no scalar value. -/
def IsSurrogate (c : CodePoint) : Prop := 0xD800 ≤ c.val ∧ c.val ≤ 0xDFFF

instance (c : CodePoint) : Decidable c.IsSurrogate :=
  inferInstanceAs (Decidable (_ ∧ _))

def toChar? (c : CodePoint) : Option Char :=
  if c.val.isValidChar then some (Char.ofNat c.val) else none

theorem toChar?_eq_none_iff {c : CodePoint} : c.toChar? = none ↔ c.IsSurrogate := by
  have hc := c.isLt
  unfold toChar? IsSurrogate Nat.isValidChar
  split
  · rename_i h
    simp only [reduceCtorEq, false_iff]
    omega
  · rename_i h
    simp only [true_iff]
    omega

/-- `str.lower` at one code point, as far as ASCII can tell: a code point that is left
    alone here has a lower case outside ASCII in Python too. -/
def lower (c : CodePoint) : Str :=
  if 0x41 ≤ c.val ∧ c.val ≤ 0x5A then [c + 0x20]
  else if c.val = 0x130 then [0x69, 0x307]
  else if c.val = 0x212A then [0x6B]
  else [c]

end CodePoint

namespace Str

def lit (s : String) : Str := s.toList.map CodePoint.ofChar

instance : Coe String Str := ⟨lit⟩

theorem length_lit (s : String) : (lit s).length = s.length := by
  rw [lit, List.length_map, String.length_toList]

/-- The length of a literal is read off it, and is not counted character by character. -/
theorem length_lit_le {s : String} {m n : ℕ} (hs : s.length = n) (hn : n ≤ m) :
    (lit s).length ≤ m := by
  rw [length_lit, hs]
  exact hn

theorem length_append_of {s t : String} {m n : ℕ} (hs : s.length = m) (ht : t.length = n) :
    (s ++ t).length = m + n := by
  rw [String.length_append, hs, ht]

/-!
## UTF-8

Encoding raises on a surrogate and on nothing else, so whether a text can be encoded is a matter
of its characters, and of its parts if it is put together.
-/

/-- Whether `encode` succeeds: no code point is a surrogate. -/
def Encodable (s : Str) : Prop := ∀ c ∈ s, ¬ c.IsSurrogate

instance (s : Str) : Decidable s.Encodable :=
  inferInstanceAs (Decidable (∀ c ∈ s, ¬ c.IsSurrogate))

/-- `s.encode("utf-8")`, with the bytes of the scalar values one after another. Under the default
    error handler one surrogate is enough for the whole text to raise. -/
def encode (s : Str) : Except Exn (List UInt8) :=
  match s.mapM CodePoint.toChar? with
  | some cs => .ok (cs.flatMap String.utf8EncodeChar)
  | none => .error .unicodeEncodeError

@[simp] theorem encodable_append {s t : Str} :
    Encodable (s ++ t) ↔ Encodable s ∧ Encodable t := by
  simp only [Encodable, List.mem_append]
  constructor
  · intro h
    exact ⟨fun c hc => h c (Or.inl hc), fun c hc => h c (Or.inr hc)⟩
  · rintro ⟨hs, ht⟩ c (hc | hc)
    · exact hs c hc
    · exact ht c hc

/-- **`encode` raises on a surrogate and on nothing else.** So whether it raises can be decided of
    the text before the call, and the conditions of the results that follow say `Encodable` where
    the source calls `encode`. -/
theorem encode_ok_iff {s : Str} : (∃ bytes, s.encode = .ok bytes) ↔ s.Encodable := by
  have hmap : ∀ t : Str, (∃ cs, t.mapM CodePoint.toChar? = some cs) ↔ t.Encodable := by
    intro t
    -- the characters are converted one by one, and the first that is none stops it
    induction t with
    | nil => simp [Encodable]
    | cons c t ih =>
      simp only [List.mapM_cons]
      cases hc : c.toChar? with
      | none =>
        have hsur := CodePoint.toChar?_eq_none_iff.mp hc
        simp [Encodable, hsur]
      | some ch =>
        have hsur : ¬ c.IsSurrogate := fun h => by
          rw [CodePoint.toChar?_eq_none_iff.mpr h] at hc
          simp at hc
        have hcons : Encodable (c :: t) ↔ Encodable t := by
          simp [Encodable, hsur]
        rw [hcons, ← ih]
        cases ht : t.mapM CodePoint.toChar? <;> simp
  unfold encode
  rw [← hmap s]
  cases s.mapM CodePoint.toChar? <;> simp

theorem encodable_flatten {l : List Str} (h : ∀ s ∈ l, Encodable s) : Encodable l.flatten := by
  intro c hc
  obtain ⟨s, hs, hcs⟩ := List.mem_flatten.mp hc
  exact h s hs c hcs

theorem encodable_intersperse {sep : Str} (hsep : Encodable sep) : ∀ {l : List Str},
    (∀ s ∈ l, Encodable s) → ∀ s ∈ l.intersperse sep, Encodable s
  | [], _ => by simp
  | [a], h => by simpa using h
  | a :: a' :: l, h => by
    rw [List.intersperse_cons_cons]
    intro s hs
    rcases List.mem_cons.mp hs with rfl | hs
    · exact h _ List.mem_cons_self
    · rcases List.mem_cons.mp hs with rfl | hs
      · exact hsep
      · exact encodable_intersperse hsep (fun t ht => h t (List.mem_cons_of_mem _ ht)) s hs

theorem encodable_ite {p : Prop} [Decidable p] {s t : Str} (hs : p → Encodable s)
    (ht : ¬ p → Encodable t) : Encodable (if p then s else t) := by
  by_cases hp : p
  · rw [if_pos hp]
    exact hs hp
  · rw [if_neg hp]
    exact ht hp

/-!
## Scanning with a character class

What is used of regular expressions and of the methods of `str`, each as the function on lists of
code points that it is.
-/

/-- The leftmost-longest scan of `re.findall("[..]+", s)`; `acc` is the match being read. A match
    ends before the first character that is no member, and where the text ends. -/
def runsFrom (p : CodePoint → Bool) (acc : Str) : Str → List Str
  | [] => if acc.isEmpty then [] else [acc]
  | c :: s =>
      if p c then runsFrom p (acc ++ [c]) s
      else if acc.isEmpty then runsFrom p [] s
      else acc :: runsFrom p [] s

/-- `re.findall` of one character class repeated: the maximal runs of its members. -/
def runs (p : CodePoint → Bool) (s : Str) : List Str := runsFrom p [] s

/-- `s.lower()`, as far as ASCII can tell. -/
def lower (s : Str) : Str := s.flatMap CodePoint.lower

/-- `c.isspace()`, which is also what `strip` without an argument takes away. U+001C to U+001F
    count as white space here, and U+200B does not. -/
def isspace (c : CodePoint) : Bool :=
  (0x09 ≤ c.val && c.val ≤ 0x0D) || (0x1C ≤ c.val && c.val ≤ 0x20) || c.val = 0x85 ||
    c.val = 0xA0 || c.val = 0x1680 || (0x2000 ≤ c.val && c.val ≤ 0x200A) || c.val = 0x2028 ||
    c.val = 0x2029 || c.val = 0x202F || c.val = 0x205F || c.val = 0x3000

/-- `s.strip()` -/
def strip (s : Str) : Str := ((s.dropWhile isspace).reverse.dropWhile isspace).reverse

/-- `s.find(c)`, with `none` for -1. -/
def find (c : CodePoint) (s : Str) : Option ℕ := s.findIdx? (· == c)

/-- `s.rfind(c)`, with `none` for -1. -/
def rfind (c : CodePoint) (s : Str) : Option ℕ :=
  (find c s.reverse).map fun i => s.length - 1 - i

/-!
## `str` and `repr` of the values an f-string prints

The values are natural numbers and strings, and the `repr` of a string is where the interpreter
decides what is printable.
-/

def hexDigit (n : ℕ) : CodePoint :=
  if n % 16 < 10 then Fin.ofNat _ (0x30 + n % 16) else Fin.ofNat _ (0x57 + n % 16)

/-- `n` as `width` hexadecimal digits. -/
def hex (width n : ℕ) : Str :=
  (List.range width).map fun i => hexDigit (n >>> (4 * (width - 1 - i)))

/-- `str(n)` of a natural number. -/
def ofNat (n : ℕ) : Str := (Nat.toDigits 10 n).map CodePoint.ofChar

theorem encodable_singleton {c : CodePoint} (h : c.val < 0x80) : Encodable [c] := by
  intro d hd
  rw [List.mem_singleton.mp hd]
  simp only [CodePoint.IsSurrogate, not_and]
  omega

theorem encodable_ofChars (cs : List Char) : Encodable (cs.map CodePoint.ofChar) := by
  intro c hc
  obtain ⟨ch, -, rfl⟩ := List.mem_map.mp hc
  have := ch.valid
  simp only [UInt32.isValidChar, Nat.isValidChar] at this
  simp only [CodePoint.IsSurrogate, CodePoint.ofChar]
  omega

theorem encodable_lit (s : String) : (lit s).Encodable := encodable_ofChars _

theorem encodable_ofNat (n : ℕ) : (ofNat n).Encodable := encodable_ofChars _

theorem encodable_hex (width n : ℕ) : (hex width n).Encodable := by
  intro c hc
  obtain ⟨i, -, rfl⟩ := List.mem_map.mp hc
  simp only [CodePoint.IsSurrogate, hexDigit]
  split <;> simp only [Fin.ofNat, not_and, not_le] <;> omega

end Str

/-- What the model takes from the interpreter as given: the compression of `hashlib`'s SHA-256, as
    a function on bytes, and the character table behind `str.isprintable`, of which `repr` relies
    on surrogates (category Cs) never being printable. Every result that mentions a digest or a
    `repr` is about all of these. -/
class Runtime where
  sha256 : List UInt8 → List UInt8
  isprintable : CodePoint → Bool
  isprintable_surrogate : ∀ {c : CodePoint}, c.IsSurrogate → isprintable c = false

namespace Str

variable [Runtime]

/-- How `repr` prints one code point between quotes `quote`. The short escapes come before the
    hexadecimal ones, and those take as many digits as the code point needs: two, four or eight. -/
def reprPoint (quote : CodePoint) (c : CodePoint) : Str :=
  if c = quote ∨ c.val = 0x5C then [0x5C, c]
  else if c.val = 0x09 then lit "\\t"
  else if c.val = 0x0A then lit "\\n"
  else if c.val = 0x0D then lit "\\r"
  else if c.val < 0x20 ∨ c.val = 0x7F then lit "\\x" ++ hex 2 c.val
  else if c.val < 0x7F then [c]
  else if Runtime.isprintable c then [c]
  else if c.val ≤ 0xFF then lit "\\x" ++ hex 2 c.val
  else if c.val ≤ 0xFFFF then lit "\\u" ++ hex 4 c.val
  else lit "\\U" ++ hex 8 c.val

/-- `repr(s)`: double quotes only for a string with a single quote and no double one. -/
def repr (s : Str) : Str :=
  let quote : CodePoint := if 0x27 ∈ s ∧ 0x22 ∉ s then 0x22 else 0x27
  [quote] ++ s.flatMap (reprPoint quote) ++ [quote]

/-- A quote is ASCII, and everything else is escaped unless it is printable. -/
theorem encodable_reprPoint {quote : CodePoint} (hq : quote.val < 0x80) (c : CodePoint) :
    (reprPoint quote c).Encodable := by
  have hescape : ∀ (s : String) (width n : ℕ), Encodable (lit s ++ hex width n) := by
    intro s width n
    exact encodable_append.mpr ⟨encodable_lit s, encodable_hex width n⟩
  unfold reprPoint
  apply encodable_ite
  · intro h
    have hc : c.val < 0x80 := by
      cases h with
      | inl heq => exact heq ▸ hq
      | inr hbackslash => omega
    exact encodable_append.mpr ⟨encodable_singleton (by decide), encodable_singleton hc⟩
  -- tab, newline and carriage return
  intro _
  apply encodable_ite (fun _ => encodable_lit _)
  intro _
  apply encodable_ite (fun _ => encodable_lit _)
  intro _
  apply encodable_ite (fun _ => encodable_lit _)
  -- the other control characters, and the rest of ASCII
  intro _
  apply encodable_ite (fun _ => hescape _ _ _)
  intro _
  apply encodable_ite
  · intro hascii
    exact encodable_singleton (by omega)
  -- past ASCII, what is printed is no surrogate
  intro _
  apply encodable_ite
  · intro hprint d hd hsur
    rw [List.mem_singleton.mp hd] at hsur
    rw [Runtime.isprintable_surrogate hsur] at hprint
    simp at hprint
  intro _
  apply encodable_ite (fun _ => hescape _ _ _)
  intro _
  exact encodable_ite (fun _ => hescape _ _ _) (fun _ => hescape _ _ _)

/-- **`repr` is always encodable**, whatever the string: it escapes surrogates. This is why an
    error text with a `repr` in it can be printed and hashed where the text itself could not. -/
theorem encodable_repr (s : Str) : (repr s).Encodable := by
  have hq : ∀ q : CodePoint, q.val < 0x80 →
      Encodable ([q] ++ s.flatMap (reprPoint q) ++ [q]) := by
    intro q hq
    refine encodable_append.mpr ⟨encodable_append.mpr ⟨encodable_singleton hq, ?_⟩,
      encodable_singleton hq⟩
    intro c hc
    obtain ⟨d, -, hd⟩ := List.mem_flatMap.mp hc
    exact encodable_reprPoint hq d c hd
  unfold repr
  refine hq _ ?_
  split <;> decide

end Str

end Py
