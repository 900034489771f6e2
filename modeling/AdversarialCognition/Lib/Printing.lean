import AdversarialCognition.Lib.Delimited
import AdversarialCognition.Lib.Str
import Mathlib.Algebra.Group.Nat.Defs

/-!
# What printing keeps

The printers of `Lib.Str` lose nothing: a decimal numeral, a fixed number of hexadecimal digits
and the UTF-8 bytes of a string each determine what they were made from, and a `repr` can moreover
be split off the front of any longer text. The last is what its quotes and escapes are for.
Whichever quote it opens with, the body has that quote only behind a backslash, and the character
after a backslash says how many digits follow.

## Why this is wanted

A digest is taken of a text that was put together of many. That two digests are equal says, where
the hash does not collide, that the texts are; what it says of the parts is another question, and
it is the one an auditor asks. With parts that can be split off, the whole determines each of
them. With parts that are only written one behind the other it need not, and there are results in
this development of the one kind and of the other.
-/

namespace Py.Str

/-!
## Literals

Different literals are different strings.
-/

theorem ofChar_injective : Function.Injective CodePoint.ofChar := by
  intro c d h
  have hval := congrArg (fun p : CodePoint => p.val) h
  exact Char.ext (UInt32.toNat_inj.mp hval)

@[simp] theorem lit_inj {a b : String} : lit a = lit b ↔ a = b := by
  unfold lit
  rw [(List.map_injective_iff.mpr ofChar_injective).eq_iff, String.toList_inj]

/-!
## Digits

Decimal and hexadecimal numerals. The first have no leading zeros, the second have a width, and
either of these makes them determine the number.
-/

/-- Decimal numerals of different numbers are different, as there are no leading zeros. -/
theorem ofNat_injective : Function.Injective ofNat := by
  intro n m h
  have hdigits : Nat.toDigits 10 n = Nat.toDigits 10 m :=
    List.map_injective_iff.mpr ofChar_injective h
  rw [← Nat.ofDigitChars_ten_toDigits (n := n), hdigits, Nat.ofDigitChars_ten_toDigits]

theorem isDigit_of_mem_ofNat {n : ℕ} {c : Char} (h : CodePoint.ofChar c ∈ ofNat n) :
    c.isDigit := by
  obtain ⟨d, hd, hc⟩ := List.mem_map.mp h
  rw [← ofChar_injective hc]
  exact Nat.isDigit_of_mem_toDigits (by decide) (by decide) hd

theorem hexDigit_inj {n m : ℕ} (h : hexDigit n = hexDigit m) : n % 16 = m % 16 := by
  have hval := congrArg Fin.val h
  unfold hexDigit at hval
  split_ifs at hval <;> simp only [Fin.ofNat] at hval <;> omega

theorem hex_succ (width n : ℕ) : hex (width + 1) n = hexDigit (n >>> (4 * width)) :: hex width n := by
  simp only [hex, List.range_succ_eq_map, List.map_cons, List.map_map]
  congr 1
  refine List.map_congr_left fun i hi => ?_
  have : width + 1 - 1 - (i + 1) = width - 1 - i := by omega
  simp only [Function.comp_apply, Nat.succ_eq_add_one, this]

@[simp] theorem length_hex (width n : ℕ) : (hex width n).length = width := by
  simp [hex]

/-- The digits determine the number up to what they have no room for. -/
theorem hex_inj {width n m : ℕ} (h : hex width n = hex width m) :
    n % 16 ^ width = m % 16 ^ width := by
  induction width with
  | zero => simp [Nat.mod_one]
  | succ width ih =>
    rw [hex_succ, hex_succ] at h
    obtain ⟨hhead, htail⟩ := List.cons.inj h
    have hdigit := hexDigit_inj hhead
    rw [Nat.shiftRight_eq_div_pow, Nat.shiftRight_eq_div_pow, Nat.pow_mul] at hdigit
    rw [Nat.pow_succ, Nat.mod_mul, Nat.mod_mul, ih htail]
    exact congrArg _ (congrArg _ hdigit)

theorem hex_inj_of_lt {width n m : ℕ} (hn : n < 16 ^ width) (hm : m < 16 ^ width)
    (h : hex width n = hex width m) : n = m := by
  have hmod := hex_inj h
  rwa [Nat.mod_eq_of_lt hn, Nat.mod_eq_of_lt hm] at hmod

/-!
## UTF-8

Encoding is injective where it does not raise.
-/

theorem toChar?_inj {c d : CodePoint} {ch : Char} (hc : c.toChar? = some ch)
    (hd : d.toChar? = some ch) : c = d := by
  have hval : ∀ e : CodePoint, e.toChar? = some ch → e.val = ch.val.toNat := by
    intro e he
    unfold CodePoint.toChar? at he
    split at he
    · rename_i hvalid
      rw [← Option.some.inj he, Char.ofNat, dif_pos hvalid]
      rfl
    · simp at he
  exact Fin.ext ((hval c hc).trans (hval d hd).symm)

theorem mapM_toChar?_inj : ∀ {s t : Str} {cs : List Char}, s.mapM CodePoint.toChar? = some cs →
    t.mapM CodePoint.toChar? = some cs → s = t := by
  intro s
  induction s with
  | nil =>
    intro t cs hs ht
    cases t with
    | nil => rfl
    | cons d t =>
      rw [List.mapM_nil] at hs
      rw [← Option.some.inj hs] at ht
      simp [List.mapM_cons, Option.bind_eq_some_iff] at ht
  | cons c s ih =>
    intro t cs hs ht
    simp only [List.mapM_cons, Option.bind_eq_bind, Option.bind_eq_some_iff, Option.pure_def] at hs
    obtain ⟨ch, hch, cs', hcs', hcons⟩ := hs
    rw [← Option.some.inj hcons] at ht
    cases t with
    | nil => simp at ht
    | cons d t =>
      simp only [List.mapM_cons, Option.bind_eq_bind, Option.bind_eq_some_iff, Option.pure_def,
        Option.some.injEq] at ht
      obtain ⟨dh, hdh, ds, hds, heq⟩ := ht
      obtain ⟨rfl, rfl⟩ := List.cons.inj heq
      rw [toChar?_inj hch hdh, ih hcs' hds]

/-- **The bytes determine the text**, of all texts that can be encoded. -/
theorem encode_inj {s t : Str} {bytes : List UInt8} (hs : s.encode = .ok bytes)
    (ht : t.encode = .ok bytes) : s = t := by
  unfold encode at hs ht
  cases hcs : s.mapM CodePoint.toChar? with
  | none => simp [hcs] at hs
  | some cs =>
    cases hds : t.mapM CodePoint.toChar? with
    | none => simp [hds] at ht
    | some ds =>
      simp only [hcs, Except.ok.injEq] at hs
      simp only [hds, Except.ok.injEq] at ht
      have hbytes : String.ofList cs = String.ofList ds := by
        rw [← String.toByteArray_inj]
        show (cs.flatMap String.utf8EncodeChar).toByteArray =
          (ds.flatMap String.utf8EncodeChar).toByteArray
        rw [hs, ht]
      exact mapM_toChar?_inj hcs (String.ofList_injective hbytes ▸ hds)

/-!
## `repr`

The `repr` of a string is self-delimiting, with either quote: a quote inside comes only behind a
backslash. Each escape says how many digits it has, so escapes are read off one by one.
-/

/-- How many digits follow the character `t` of an escape. -/
def escapeWidth (t : CodePoint) : ℕ :=
  if t = CodePoint.ofChar 'x' then 2
  else if t = CodePoint.ofChar 'u' then 4
  else if t = CodePoint.ofChar 'U' then 8
  else 0

/-- What an escape without digits stands for. -/
def unescape (t : CodePoint) : CodePoint :=
  if t = CodePoint.ofChar 't' then CodePoint.ofChar '\t'
  else if t = CodePoint.ofChar 'n' then CodePoint.ofChar '\n'
  else if t = CodePoint.ofChar 'r' then CodePoint.ofChar '\r'
  else t

def IsQuote (q : CodePoint) : Prop := q.val = 0x27 ∨ q.val = 0x22

/-- `w` is a backslash, a character, and as many digits of `c` as the character says; where
    it says none, the character alone stands for `c`. -/
def IsEscape (c : CodePoint) (w : Str) : Prop :=
  ∃ t, w = CodePoint.ofChar '\\' :: t :: hex (escapeWidth t) c.val ∧ (escapeWidth t = 0 → c = unescape t) ∧
    (escapeWidth t ≠ 0 → c.val < 16 ^ escapeWidth t)

theorem isEscape_char {c t : CodePoint} (ht : escapeWidth t = 0) (hc : c = unescape t) :
    IsEscape c [0x5C, t] :=
  ⟨t, by rw [ht]; rfl, fun _ => hc, fun h => absurd ht h⟩

theorem isEscape_hex {c t : CodePoint} {width : ℕ} (ht : escapeWidth t = width) (hw : width ≠ 0)
    (hc : c.val < 16 ^ width) : IsEscape c (0x5C :: t :: hex width c.val) := by
  subst ht
  exact ⟨t, rfl, fun h => absurd h hw, fun _ => hc⟩

theorem isEscape_inj {c d : CodePoint} {v w x y : Str} (hc : IsEscape c v) (hd : IsEscape d w)
    (h : v ++ x = w ++ y) : c = d ∧ x = y := by
  obtain ⟨t, rfl, hchar, hhex⟩ := hc
  obtain ⟨u, rfl, hchar', hhex'⟩ := hd
  simp only [List.cons_append, List.cons.injEq, true_and] at h
  obtain ⟨rfl, h⟩ := h
  obtain ⟨hdigits, hxy⟩ := List.append_inj h (by simp)
  refine ⟨?_, hxy⟩
  by_cases hwidth : escapeWidth t = 0
  · rw [hchar hwidth, hchar' hwidth]
  · exact Fin.ext (hex_inj_of_lt (hhex hwidth) (hhex' hwidth) hdigits)

variable [Runtime]

/-- A code point is printed as itself, and then it is neither the quote nor a backslash, or as an
    escape. The cases are those of the printer, in its order. -/
theorem reprPoint_cases {quote : CodePoint} (hq : IsQuote quote) (c : CodePoint) :
    (reprPoint quote c = [c] ∧ c ≠ quote ∧ c ≠ 0x5C) ∨ IsEscape c (reprPoint quote c) := by
  by_cases hself : c = quote ∨ c.val = 0x5C
  · -- the quote and the backslash stand for themselves behind a backslash
    have hc : c = 0x27 ∨ c = 0x22 ∨ c = 0x5C := by
      cases hself with
      | inl heq => exact heq ▸ (hq.imp Fin.ext fun h => Or.inl (Fin.ext h))
      | inr hval => exact Or.inr (Or.inr (Fin.ext hval))
    refine Or.inr ?_
    rw [reprPoint, if_pos hself]
    apply isEscape_char
    · rcases hc with rfl | rfl | rfl <;> rfl
    · rcases hc with rfl | rfl | rfl <;> rfl
  have hplain : c ≠ quote ∧ c ≠ 0x5C :=
    ⟨fun h => hself (Or.inl h), fun h => hself (Or.inr (congrArg Fin.val h))⟩
  rw [reprPoint, if_neg hself]
  by_cases htab : c.val = 0x09
  · rw [if_pos htab]
    exact Or.inr (isEscape_char rfl (Fin.ext htab))
  by_cases hnewline : c.val = 0x0A
  · rw [if_neg htab, if_pos hnewline]
    exact Or.inr (isEscape_char rfl (Fin.ext hnewline))
  by_cases hreturn : c.val = 0x0D
  · rw [if_neg htab, if_neg hnewline, if_pos hreturn]
    exact Or.inr (isEscape_char rfl (Fin.ext hreturn))
  rw [if_neg htab, if_neg hnewline, if_neg hreturn]
  by_cases hcontrol : c.val < 0x20 ∨ c.val = 0x7F
  · rw [if_pos hcontrol]
    exact Or.inr (isEscape_hex rfl (by decide) (by omega))
  rw [if_neg hcontrol]
  by_cases hascii : c.val < 0x7F
  · rw [if_pos hascii]
    exact Or.inl ⟨rfl, hplain⟩
  rw [if_neg hascii]
  by_cases hprint : Runtime.isprintable c = true
  · rw [if_pos hprint]
    exact Or.inl ⟨rfl, hplain⟩
  rw [if_neg hprint]
  have hbound := c.isLt
  split_ifs
  · exact Or.inr (isEscape_hex rfl (by decide) (by omega))
  · exact Or.inr (isEscape_hex rfl (by decide) (by omega))
  · exact Or.inr (isEscape_hex rfl (by decide) (by omega))

theorem selfDelimiting_reprPoint {quote : CodePoint} (hq : IsQuote quote) :
    SelfDelimiting (reprPoint quote) := by
  intro c d x y h
  cases reprPoint_cases hq c with
  | inl hc =>
    rw [hc.1] at h
    cases reprPoint_cases hq d with
    | inl hd =>
      rw [hd.1] at h
      exact List.cons.inj h
    | inr hd =>
      obtain ⟨t, hw, -⟩ := hd
      rw [hw] at h
      exact absurd (List.cons.inj h).1 hc.2.2
  | inr hc =>
    cases reprPoint_cases hq d with
    | inl hd =>
      obtain ⟨t, hw, -⟩ := hc
      rw [hw, hd.1] at h
      exact absurd (List.cons.inj h).1.symm hd.2.2
    | inr hd => exact isEscape_inj hc hd h

/-- Inside the quotes, the quote comes only behind a backslash. -/
theorem notBegunBy_reprPoint {quote : CodePoint} (hq : IsQuote quote) :
    SelfDelimiting.NotBegunBy quote (reprPoint quote) := by
  intro c
  cases reprPoint_cases hq c with
  | inl hc => exact ⟨c, [], hc.1, hc.2.1⟩
  | inr hc =>
    obtain ⟨t, hw, -⟩ := hc
    refine ⟨_, _, hw, fun hquote => ?_⟩
    subst hquote
    cases hq with
    | inl h => exact absurd h (by decide)
    | inr h => exact absurd h (by decide)

/-- **A `repr` can be split off the front of any text.** The first character says which quote it
    was printed with, and the next one of these that stands behind no backslash ends it. -/
theorem selfDelimiting_repr : SelfDelimiting repr := by
  have hbody : ∀ quote : CodePoint, IsQuote quote →
      SelfDelimiting fun s : Str => s.flatMap (reprPoint quote) ++ [quote] :=
    fun quote hq => (selfDelimiting_reprPoint hq).flatMap_terminated (notBegunBy_reprPoint hq)
  have hshape : ∀ s : Str, ∃ quote, IsQuote quote ∧
      repr s = quote :: (s.flatMap (reprPoint quote) ++ [quote]) := by
    intro s
    by_cases hq : (0x27 : CodePoint) ∈ s ∧ (0x22 : CodePoint) ∉ s
    · exact ⟨0x22, Or.inr rfl, by simp [repr, hq]⟩
    · exact ⟨0x27, Or.inl rfl, by simp only [repr, if_neg hq]; rfl⟩
  intro s t x y h
  obtain ⟨q, hq, hs⟩ := hshape s
  obtain ⟨q', -, ht⟩ := hshape t
  rw [hs, ht] at h
  -- the first character of the text is the quote the rest was printed with
  obtain ⟨rfl, hrest⟩ := List.cons.inj h
  exact hbody q hq s t x y hrest

end Py.Str
