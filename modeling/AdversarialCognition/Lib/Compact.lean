import AdversarialCognition.Lib.Canonical
import AdversarialCognition.Lib.Surrogates

/-!
# Printing without spaces

`json.dumps(value, separators=(",", ":"))`. Put back behind every comma and colon that is not in a
string, the spaces make it the text that `dumps` prints; so it determines the value as that does.

The detour saves a second reader. There is one decoder, and the round trip of the default printer
goes through it. A text without the spaces is one that the decoder reads as well, and to show this
directly would be to go through all of its scanners once more. Instead `spaced` puts the spaces in
with three states, of which two are there to know what is in a string, and the one lemma about it
is `spacedAs_compact`, by recursion over the value. So two values with one compact text have one
default text, and whatever that determines is determined.
-/

namespace Py.Json

open Str

mutual

/-- `json.dumps(value, separators=(",", ":"))` -/
def compact : Json → Str
  | null => lit "null"
  | bool true => lit "true"
  | bool false => lit "false"
  | int n => ofInt n
  | float text => dumpsFloat text
  | str s => dumpsStr s
  | list items => lit "[" ++ join "," (compactItems items) ++ lit "]"
  | obj items => lit "\x7b" ++ join "," (compactMembers items) ++ lit "\x7d"

def compactItems : List Json → List Str
  | [] => []
  | item :: items => compact item :: compactItems items

def compactMembers : List (Str × Json) → List Str
  | [] => []
  | (key, value) :: items => (dumpsStr key ++ lit ":" ++ compact value) :: compactMembers items

end

/-!
## The spaces

`spaced` reads the compact text and puts a space behind each comma and colon that stands outside
of strings. Every part of a compact text is read as the same part of the default one, and the
parts go together because each leaves the reader where it has found it.
-/

/-- Where in a text its reader is: behind a backslash, in a string, or in neither. -/
inductive Place
  | outside
  | inside
  | escaped

/-- The text with a space behind every comma and colon outside of strings. A backslash in a string
    takes the next character with it, so that an escaped quote does not end the string. -/
def spaced : Place → Str → Str
  | _, [] => []
  | .outside, c :: s =>
      if c.val = 0x22 then c :: spaced .inside s
      else if c.val = 0x2C ∨ c.val = 0x3A then c :: CodePoint.ofChar ' ' :: spaced .outside s
      else c :: spaced .outside s
  | .inside, c :: s =>
      if c.val = 0x22 then c :: spaced .outside s
      else if c.val = 0x5C then c :: spaced .escaped s
      else c :: spaced .inside s
  | .escaped, c :: s => c :: spaced .inside s

/-- From one place to another, `w` is read as `v`, whatever comes behind it. -/
def SpacedAs (p : Place) (w : Str) (q : Place) (v : Str) : Prop :=
  ∀ t, spaced p (w ++ t) = v ++ spaced q t

section SpacedAs

variable {p q r : Place} {w w' v v' : Str}

theorem SpacedAs.append (h : SpacedAs p w q v) (h' : SpacedAs q w' r v') :
    SpacedAs p (w ++ w') r (v ++ v') := by
  intro t
  rw [List.append_assoc, h, h', List.append_assoc]

theorem SpacedAs.nil : SpacedAs p [] p [] := fun _ => rfl

/-- What is neither a quote nor a separator is read as itself. -/
theorem spacedAs_outside (h : ∀ c ∈ w, c.val ≠ 0x22 ∧ c.val ≠ 0x2C ∧ c.val ≠ 0x3A) :
    SpacedAs .outside w .outside w := by
  intro t
  induction w with
  | nil => rfl
  | cons c w ih =>
    obtain ⟨⟨hquote, hcomma, hcolon⟩, hw⟩ := List.forall_mem_cons.mp h
    have hplain : ¬ (c.val = 0x2C ∨ c.val = 0x3A) := fun h => h.elim hcomma hcolon
    rw [List.cons_append, spaced, if_neg hquote, if_neg hplain, ih hw, List.cons_append]

theorem spacedAs_inside (h : ∀ c ∈ w, c.val ≠ 0x22 ∧ c.val ≠ 0x5C) : SpacedAs .inside w .inside w := by
  intro t
  induction w with
  | nil => rfl
  | cons c w ih =>
    obtain ⟨⟨hquote, hslash⟩, hw⟩ := List.forall_mem_cons.mp h
    rw [List.cons_append, spaced, if_neg hquote, if_neg hslash, ih hw, List.cons_append]

theorem spacedAs_quote (hp : p = .outside ∧ q = .inside ∨ p = .inside ∧ q = .outside) :
    SpacedAs p (lit "\"") q (lit "\"") := by
  intro t
  rcases hp with ⟨rfl, rfl⟩ | ⟨rfl, rfl⟩
  · rfl
  · rfl

theorem spacedAs_escape {c : CodePoint} (h : ∀ d ∈ w, d.val ≠ 0x22 ∧ d.val ≠ 0x5C) :
    SpacedAs .inside (CodePoint.ofChar '\\' :: c :: w) .inside (CodePoint.ofChar '\\' :: c :: w) := by
  intro t
  have hescape : spaced .inside (CodePoint.ofChar '\\' :: c :: (w ++ t)) =
      CodePoint.ofChar '\\' :: c :: spaced .inside (w ++ t) := rfl
  rw [List.cons_append, List.cons_append, hescape, spacedAs_inside h t]
  rfl

end SpacedAs

theorem plain_hex (width n : ℕ) : ∀ c ∈ hex width n, c.val ≠ 0x22 ∧ c.val ≠ 0x5C := by
  intro c hc
  obtain ⟨i, -, rfl⟩ := List.mem_map.mp hc
  generalize n >>> (4 * (width - 1 - i)) = m
  unfold hexDigit
  by_cases h : m % 16 < 10
  · have hval : (Fin.ofNat 0x110000 (0x30 + m % 16)).val = 0x30 + m % 16 :=
      Nat.mod_eq_of_lt (by omega)
    rw [if_pos h, hval]
    omega
  · have hval : (Fin.ofNat 0x110000 (0x57 + m % 16)).val = 0x57 + m % 16 :=
      Nat.mod_eq_of_lt (by omega)
    rw [if_neg h, hval]
    omega

theorem spacedAs_dumpsPoint (c : CodePoint) : SpacedAs .inside (dumpsPoint c) .inside (dumpsPoint c) := by
  have hletter : ∀ w ∈ [lit "\\\"", lit "\\\\", lit "\\n", lit "\\r", lit "\\t", lit "\\f", lit "\\b",
      lit "\\u"], SpacedAs .inside w .inside w := by
    intro w hw
    simp only [List.mem_cons, List.not_mem_nil, or_false] at hw
    rcases hw with rfl | rfl | rfl | rfl | rfl | rfl | rfl | rfl <;>
      exact spacedAs_escape (List.forall_mem_nil _)
  have hhex : ∀ n, SpacedAs .inside (lit "\\u" ++ hex 4 n) .inside (lit "\\u" ++ hex 4 n) :=
    fun n => (hletter _ (by decide)).append (spacedAs_inside (plain_hex 4 n))
  unfold dumpsPoint
  dsimp only
  split_ifs with hquote hslash
  · exact hletter _ (by decide)
  · exact hletter _ (by decide)
  · exact hletter _ (by decide)
  · exact hletter _ (by decide)
  · exact hletter _ (by decide)
  · exact hletter _ (by decide)
  · exact hletter _ (by decide)
  · exact spacedAs_inside (List.forall_mem_singleton.mpr ⟨hquote, hslash⟩)
  · exact hhex _
  · rw [List.append_assoc (_ ++ _)]
    exact (hhex _).append (hhex _)

theorem spacedAs_dumpsStr (s : Str) : SpacedAs .outside (dumpsStr s) .outside (dumpsStr s) := by
  have hbody : SpacedAs .inside (s.flatMap dumpsPoint) .inside (s.flatMap dumpsPoint) := by
    induction s with
    | nil => exact .nil
    | cons c s ih => exact (spacedAs_dumpsPoint c).append ih
  exact ((spacedAs_quote (.inl ⟨rfl, rfl⟩)).append hbody).append (spacedAs_quote (.inr ⟨rfl, rfl⟩))

theorem spacedAs_ofInt (n : ℤ) : SpacedAs .outside (ofInt n) .outside (ofInt n) := by
  have hdigits : ∀ m : ℕ, ∀ c ∈ ofNat m, c.val ≠ 0x22 ∧ c.val ≠ 0x2C ∧ c.val ≠ 0x3A := by
    intro m c hc
    have hdigit := isDigit_of_mem c hc
    simp only [isDigit, Bool.and_eq_true, decide_eq_true_eq] at hdigit
    omega
  have hminus : ∀ c ∈ lit "-", c.val ≠ 0x22 ∧ c.val ≠ 0x2C ∧ c.val ≠ 0x3A :=
    List.forall_mem_singleton.mpr (by decide)
  unfold ofInt
  split
  · exact spacedAs_outside (List.forall_mem_append.mpr ⟨hminus, hdigits _⟩)
  · exact spacedAs_outside (hdigits _)

theorem spacedAs_join {ws vs : List Str}
    (h : List.Forall₂ (fun w v => SpacedAs .outside w .outside v) ws vs) :
    SpacedAs .outside (join "," ws) .outside (join ", " vs) := by
  have hcomma : SpacedAs .outside (lit ",") .outside (lit ", ") := fun _ => rfl
  induction h with
  | nil => exact .nil
  | cons hw hws ih =>
    cases hws with
    | nil =>
      intro t
      simpa [join] using hw t
    | cons hw' hws =>
      simp only [join, List.intersperse_cons_cons, List.flatten_cons] at ih ⊢
      exact hw.append (hcomma.append ih)

mutual

/-- **With its spaces back, the text is the one that `dumps` prints.** -/
theorem spacedAs_compact : ∀ {value : Json}, Floatless value →
    SpacedAs .outside (compact value) .outside (dumps value)
  | null, _ => fun _ => rfl
  | bool true, _ => fun _ => rfl
  | bool false, _ => fun _ => rfl
  | int n, _ => spacedAs_ofInt n
  | float _, h => h.elim
  | str s, _ => spacedAs_dumpsStr s
  | list _, h =>
    have hopen : SpacedAs .outside (lit "[") .outside (lit "[") := fun _ => rfl
    have hclose : SpacedAs .outside (lit "]") .outside (lit "]") := fun _ => rfl
    (hopen.append (spacedAs_join (spacedAs_compactItems h))).append hclose
  | obj _, h =>
    have hopen : SpacedAs .outside (lit "\x7b") .outside (lit "\x7b") := fun _ => rfl
    have hclose : SpacedAs .outside (lit "\x7d") .outside (lit "\x7d") := fun _ => rfl
    (hopen.append (spacedAs_join (spacedAs_compactMembers h))).append hclose

theorem spacedAs_compactItems : ∀ {items : List Json}, FloatlessItems items →
    List.Forall₂ (fun w v => SpacedAs .outside w .outside v) (compactItems items) (dumpsItems items)
  | [], _ => .nil
  | _ :: _, h => .cons (spacedAs_compact h.1) (spacedAs_compactItems h.2)

theorem spacedAs_compactMembers : ∀ {items : List (Str × Json)}, FloatlessMembers items →
    List.Forall₂ (fun w v => SpacedAs .outside w .outside v) (compactMembers items) (dumpsMembers items)
  | [], _ => .nil
  | (key, _) :: _, h =>
    have hcolon : SpacedAs .outside (lit ":") .outside (lit ": ") := fun _ => rfl
    .cons (((spacedAs_dumpsStr key).append hcolon).append (spacedAs_compact h.1))
      (spacedAs_compactMembers h.2)

end

theorem spaced_compact {value : Json} (h : Floatless value) :
    spaced .outside (compact value) = dumps value := by
  have hspaced := spacedAs_compact h []
  rwa [List.append_nil, spaced, List.append_nil] at hspaced

/-- **The text determines the value**, of those that are read back as they are. -/
theorem compact_inj {v w : Json} (hv : Printable v) (hw : Printable w) (h : compact v = compact w) :
    v = w := by
  apply dumps_inj hv hw
  rw [← spaced_compact hv.floatless, ← spaced_compact hw.floatless, h]

/-- Whatever the strings are, the text determines the value but for halves of surrogate pairs that
    stand side by side: those are read as the character they make. -/
theorem joinStrings_eq_of_compact [Decoder] {v w : Json} (hv : Floatless v) (hw : Floatless w)
    (hv' : Sendable v) (hw' : Sendable w) (h : compact v = compact w) :
    joinStrings v = joinStrings w := by
  apply joinStrings_eq_of_dumps hv' hw'
  rw [← spaced_compact hv, ← spaced_compact hw, h]

theorem mem_spaced {c : CodePoint} : ∀ {p : Place} {s : Str}, c ∈ s → c ∈ spaced p s
  | p, d :: s, h => by
    have hrest : ∀ q, c ∈ d :: spaced q s := by
      intro q
      rcases List.mem_cons.mp h with rfl | h
      · exact List.mem_cons_self
      · exact List.mem_cons_of_mem _ (mem_spaced h)
    have hspace : c ∈ d :: CodePoint.ofChar ' ' :: spaced .outside s := by
      rcases List.mem_cons.mp (hrest .outside) with rfl | h
      · exact List.mem_cons_self
      · exact List.mem_cons_of_mem _ (List.mem_cons_of_mem _ h)
    cases p with
    | outside =>
      rw [spaced]
      split_ifs
      · exact hrest _
      · exact hspace
      · exact hrest _
    | inside =>
      rw [spaced]
      split_ifs
      · exact hrest _
      · exact hrest _
      · exact hrest _
    | escaped => exact hrest _

theorem encodable_compact {value : Json} (h : Floatless value) : Encodable (compact value) := by
  intro c hc
  have hmem := mem_spaced (p := .outside) hc
  rw [spaced_compact h] at hmem
  exact encodable_dumps h c hmem

end Py.Json
