import AdversarialCognition.Lib.TextFile

/-!
# The link sanitizer of the book

`docs/book/code/sanitize_links.py`: outside of fences, a Markdown link whose target is no file is
replaced by its text, and one that stands behind an odd number of backticks is left alone. The
module says of itself that it is safe to run again.

It is not. A second pass finds what the first one leaves, and a link that loses its brackets and
its target can uncover another:

* the bracket in the text of an outer link,
* two brackets that an emptied link has kept apart,
* a link that was inline code as long as the target before it had its backtick,
* a fence, which the text of a link may be.

## Reading past what goes

So the characters of a line are marked here, by whether they go, and a line is read *past what
goes*: `LinkPast` is a link that is read so, `FencePast` a fence. A line is `Steady` if it is read
so to its end without coming upon a broken link outside of inline code. This is a matter of the
line as it is, of its brackets, parentheses and backticks and of which of them go.

The sanitizer is idempotent on a file exactly if its lines are steady wherever the second pass
looks at them (`sanitizeFile_again_iff`), and where it looks is a matter of fences (`Stable`). The
lines that the second pass reads are those that the first one made, as no line loses its end and
nothing is written that was not read.

## What is modelled

The two patterns are read off character by character: `LINK.sub` is a list of tokens, and a match
is what a link is printed as (`link?_eq_some_iff`), so the induction over a line is over its
tokens (`tokens_induction`).

Files are given by which raw targets name one. What `resolve` makes of a path, and an error it may
meet there, is part of that. The walk over a directory is left out: each file is read and written
by itself.
-/

namespace AdversarialCognition

namespace SanitizeLinks

open Py Py.Str

/-!
## Links

A link is the three groups of a match: whether it is an image, the text, and the target. A line is
read as tokens, each of which is a match or a character that begins none.
-/

/-- The characters that a link is made of. -/
def bang : CodePoint := CodePoint.ofChar '!'

def lbracket : CodePoint := CodePoint.ofChar '['

def rbracket : CodePoint := CodePoint.ofChar ']'

def lparen : CodePoint := CodePoint.ofChar '('

def rparen : CodePoint := CodePoint.ofChar ')'

def backtick : CodePoint := CodePoint.ofChar (Char.ofNat 0x60)

def tilde : CodePoint := CodePoint.ofChar '~'

/-- A match of `LINK`: its three groups. -/
structure Link where
  image : Bool
  text : Str
  target : Str

/-- `match.group(0)` -/
def Link.source (l : Link) : Str :=
  (if l.image then [bang] else []) ++ lbracket :: l.text ++ rbracket :: lparen :: l.target ++ [rparen]

/-- `\(([^)]+)\)` -/
def target? : Str → Option Str
  | [] => none
  | c :: s =>
      if c = lparen ∧ s.takeWhile (· != rparen) ≠ [] ∧ rparen ∈ s then
        some (s.takeWhile (· != rparen))
      else none

/-- `\[([^\]]*)\]\(([^)]+)\)` -/
def bracketed? (image : Bool) : Str → Option Link
  | [] => none
  | c :: s =>
      if c = lbracket then
        match s.dropWhile (· != rbracket) with
        | [] => none
        | _ :: rest => (target? rest).map (Link.mk image (s.takeWhile (· != rbracket)))
      else none

/-- `LINK.match` -/
def link? : Str → Option Link
  | [] => none
  | c :: s => if c = bang then bracketed? true s else bracketed? false (c :: s)

/-- A line as `LINK.sub` reads it: what is copied, and the matches. -/
inductive Token
  | char (c : CodePoint)
  | link (l : Link)

/-- The part of the line that the token was read from. -/
def Token.source : Token → Str
  | .char c => [c]
  | .link l => l.source

/-- The tokens of a line behind the next `skip` characters. -/
def tokensFrom : ℕ → Str → List Token
  | _, [] => []
  | skip + 1, _ :: s => tokensFrom skip s
  | 0, c :: s =>
      match link? (c :: s) with
      | some l => .link l :: tokensFrom (l.source.length - 1) s
      | none => .char c :: tokensFrom 0 s

/-- The whole line. A match is skipped as a whole, so its text is not searched for links. -/
def tokens (line : Str) : List Token := tokensFrom 0 line

/-!
## The sanitizer

What the source does with a match, a line and a file. The number of links that were rewritten is
returned along with the text, since a file with none is not written.
-/

/-- `KEEP_PREFIXES` -/
def keepPrefixes : List Str :=
  ["http://", "https://", "mailto:", "obsidian:", "firstpair:", "#", "//"].map lit

/-- `removeprefix`, of one character. -/
def removePrefix (c : CodePoint) (s : Str) : Str := if s.head? = some c then s.tail else s

/-- `removesuffix`, of one character. -/
def removeSuffix (c : CodePoint) (s : Str) : Str := if s.getLast? = some c then s.dropLast else s

/-- What is left of a target without its angle brackets, its fragment and its query. -/
def rawTarget (target : Str) : Str :=
  let raw := removeSuffix (CodePoint.ofChar '>') (removePrefix (CodePoint.ofChar '<') target.strip)
  strip ((raw.takeWhile (· != CodePoint.ofChar '#')).takeWhile (· != CodePoint.ofChar '?'))

/-- `FENCE.match`: three backticks or three tildes, behind whitespace. -/
def isFence (line : Str) : Bool :=
  let s := line.dropWhile isspace
  3 ≤ (s.takeWhile (· == backtick)).length || 3 ≤ (s.takeWhile (· == tilde)).length

/-- The text so far ends in inline code: an odd number of backticks is behind it. -/
def inCode (before : Str) : Bool := before.count backtick % 2 = 1

section Sanitize

-- of a raw target: it is a file, from where the Markdown file is
variable (isFile : Str → Bool)

/-- `_resolves` -/
def resolves (target : Str) : Bool :=
  let raw := rawTarget target
  raw.isEmpty || (keepPrefixes.any fun p => p.isPrefixOf raw.lower) || isFile raw

/-- `replace`, in `_sanitize_line`, and whether it changed anything. -/
def replace (before : Str) (l : Link) : Str × ℕ :=
  if inCode before then (l.source, 0)
  else if resolves isFile l.target then (l.source, 0)
  else (l.text, 1)

/-- `LINK.sub(replace, ..)`, of what stands behind `before`. -/
def sanitizeTokens : Str → List Token → Str × ℕ
  | _, [] => ([], 0)
  | before, .char c :: ts =>
      let (rest, changed) := sanitizeTokens (before ++ [c]) ts
      (c :: rest, changed)
  | before, .link l :: ts =>
      let (text, one) := replace isFile before l
      let (rest, changed) := sanitizeTokens (before ++ l.source) ts
      (text ++ rest, one + changed)

/-- `_sanitize_line` -/
def sanitizeLine (line : Str) : Str × ℕ := sanitizeTokens isFile [] (tokens line)

/-- The loop of `sanitize_file`. -/
def sanitizeLines : Bool → List Str → List Str × ℕ
  | _, [] => ([], 0)
  | fenced, line :: lines =>
      if isFence line then
        let (out, total) := sanitizeLines (!fenced) lines
        (line :: out, total)
      else if fenced then
        let (out, total) := sanitizeLines fenced lines
        (line :: out, total)
      else
        let (new, changed) := sanitizeLine isFile line
        let (out, total) := sanitizeLines fenced lines
        (new :: out, changed + total)

/-- `sanitize_file`: what the file has behind it, and the links that were rewritten. A file
    without any is not written. -/
def sanitizeFile (file : Str) : Str × ℕ :=
  let (out, total) := sanitizeLines isFile false (splitlinesKeepEnds (universalNewlines file))
  if total = 0 then (file, 0) else (out.flatten, total)

end Sanitize

/-!
## What a match is

The pattern, read both ways: it matches what a link is printed as, and whatever it matches is such
a print. The text of a link ends at the first closing bracket and its target at the first closing
parenthesis.
-/

/-- The groups of a match have none of the characters that end them. -/
structure Link.Valid (l : Link) : Prop where
  text : rbracket ∉ l.text
  target : rparen ∉ l.target
  nonempty : l.target ≠ []

theorem dropWhile_bne {c : CodePoint} {u : Str} (h : c ∉ u) (rest : Str) :
    (u ++ c :: rest).dropWhile (· != c) = c :: rest ∧ (u ++ c :: rest).takeWhile (· != c) = u := by
  have hall : ∀ d ∈ u, (d != c) = true := fun d hd => by
    rw [bne_iff_ne]
    rintro rfl
    exact h hd
  rw [List.dropWhile_append_of_pos hall, List.takeWhile_append_of_pos hall]
  simp

/-- What is before the first of a character, and what is behind it. -/
theorem exists_split {c : CodePoint} {s : Str} (h : c ∈ s) :
    ∃ rest, s = s.takeWhile (· != c) ++ c :: rest ∧ s.dropWhile (· != c) = c :: rest := by
  obtain ⟨u, rest, rfl, hu⟩ := List.eq_append_cons_of_mem h
  obtain ⟨hdrop, htake⟩ := dropWhile_bne hu rest
  exact ⟨rest, by rw [htake], hdrop⟩

theorem notMem_takeWhile (c : CodePoint) (s : Str) : c ∉ s.takeWhile (· != c) := fun h => by
  simpa using List.mem_takeWhile_imp h

/-- A target is what is in parentheses, without a closing one in it, and not nothing. -/
theorem target?_eq_some_iff {s t : Str} : target? s = some t ↔
    rparen ∉ t ∧ t ≠ [] ∧ ∃ rest, s = lparen :: t ++ rparen :: rest := by
  constructor
  · intro h
    cases s with
    | nil => cases h
    | cons c s =>
      rw [target?] at h
      split at h
      · rename_i hc
        obtain ⟨rfl, hne, hmem⟩ := hc
        obtain rfl := Option.some.inj h
        obtain ⟨rest, hs, -⟩ := exists_split hmem
        exact ⟨notMem_takeWhile _ _, hne, rest, congrArg (lparen :: ·) hs⟩
      · cases h
  · rintro ⟨ht, hne, rest, rfl⟩
    have htake := (dropWhile_bne ht rest).2
    rw [List.cons_append, target?, htake, if_pos ⟨rfl, hne, by simp⟩]

/-- The text makes of an opening bracket before it the beginning of a link. -/
def Opens (s : Str) : Prop :=
  ∃ u rest t, s = u ++ rbracket :: rest ∧ rbracket ∉ u ∧ target? rest = some t

/-- A match begins with a bracket, and its text ends at the first closing one. -/
theorem bracketed?_eq_some_iff {image : Bool} {s : Str} {l : Link} :
    bracketed? image s = some l ↔ l.image = image ∧ rbracket ∉ l.text ∧
      ∃ rest, s = lbracket :: l.text ++ rbracket :: rest ∧ target? rest = some l.target := by
  constructor
  · intro h
    cases s with
    | nil => cases h
    | cons c s =>
      rw [bracketed?] at h
      split at h
      · rename_i hc
        subst hc
        by_cases hmem : rbracket ∈ s
        · obtain ⟨rest, hs, hdrop⟩ := exists_split hmem
          rw [hdrop] at h
          obtain ⟨t, ht, rfl⟩ := Option.map_eq_some_iff.mp h
          exact ⟨rfl, notMem_takeWhile _ _, rest, congrArg (lbracket :: ·) hs, ht⟩
        · have hdrop : s.dropWhile (· != rbracket) = [] := by
            refine List.dropWhile_eq_nil_iff.mpr fun d hd => ?_
            rw [bne_iff_ne]
            rintro rfl
            exact hmem hd
          rw [hdrop] at h
          cases h
      · cases h
  · rintro ⟨rfl, htext, rest, rfl, ht⟩
    obtain ⟨hdrop, htake⟩ := dropWhile_bne htext rest
    rw [List.cons_append, bracketed?, if_pos rfl, hdrop]
    simp only [ht, htake, Option.map_some]

theorem bracketed?_isSome_iff (image : Bool) {s : Str} :
    (∃ l, bracketed? image (lbracket :: s) = some l) ↔ Opens s := by
  constructor
  · rintro ⟨l, h⟩
    obtain ⟨-, htext, rest, hs, ht⟩ := bracketed?_eq_some_iff.mp h
    exact ⟨l.text, rest, l.target, (List.cons.inj hs).2, htext, ht⟩
  · rintro ⟨u, rest, t, rfl, hu, ht⟩
    exact ⟨⟨image, u, t⟩, bracketed?_eq_some_iff.mpr ⟨rfl, hu, rest, rfl, ht⟩⟩

theorem link?_lbracket (s : Str) : link? (lbracket :: s) = bracketed? false (lbracket :: s) := by
  rw [link?, if_neg (by decide)]

/-- A bracket is copied if what is behind it makes no link of it. -/
theorem link?_eq_none_iff {s : Str} : link? (lbracket :: s) = none ↔ ¬ Opens s := by
  rw [link?_lbracket, ← bracketed?_isSome_iff false, Option.eq_none_iff_forall_ne_some]
  exact not_exists.symm

/-- **`LINK` matches what a link is printed as**, and nothing else. -/
theorem link?_eq_some_iff {s : Str} {l : Link} :
    link? s = some l ↔ l.Valid ∧ ∃ rest, s = l.source ++ rest := by
  -- without the exclamation mark, the source is read in order
  have hbracketed : ∀ (image : Bool) (s : Str), bracketed? image s = some l ↔ l.image = image ∧
      l.Valid ∧ ∃ rest, s = lbracket :: l.text ++ rbracket :: lparen :: l.target ++ rparen :: rest := by
    intro image s
    rw [bracketed?_eq_some_iff]
    constructor
    · rintro ⟨himage, htext, rest, rfl, ht⟩
      obtain ⟨htarget, hne, rest, rfl⟩ := target?_eq_some_iff.mp ht
      exact ⟨himage, ⟨htext, htarget, hne⟩, rest, by simp⟩
    · rintro ⟨himage, hvalid, rest, rfl⟩
      refine ⟨himage, hvalid.text, lparen :: l.target ++ rparen :: rest, by simp, ?_⟩
      exact target?_eq_some_iff.mpr ⟨hvalid.target, hvalid.nonempty, rest, rfl⟩
  cases s with
  | nil =>
    refine iff_of_false (fun h => nomatch h) ?_
    rintro ⟨-, rest, h⟩
    have := congrArg List.length h
    simp [Link.source] at this
  | cons c s =>
    have hne : bang ≠ lbracket := by decide
    obtain ⟨image, text, target⟩ := l
    rw [link?]
    -- an image is told by its first character, and a plain link by its bracket
    by_cases hc : c = bang
    · subst hc
      rw [if_pos rfl, hbracketed]
      constructor
      · rintro ⟨rfl, hvalid, rest, rfl⟩
        exact ⟨hvalid, rest, by simp [Link.source]⟩
      · rintro ⟨hvalid, rest, hs⟩
        cases image with
        | true => exact ⟨rfl, hvalid, rest, by simpa [Link.source] using hs⟩
        | false => simp [Link.source, hne] at hs
    · rw [if_neg hc, hbracketed]
      constructor
      · rintro ⟨rfl, hvalid, rest, hs⟩
        exact ⟨hvalid, rest, by simpa [Link.source] using hs⟩
      · rintro ⟨hvalid, rest, hs⟩
        cases image with
        | false => exact ⟨rfl, hvalid, rest, by simpa [Link.source] using hs⟩
        | true => simp [Link.source, hc] at hs

/-!
## The tokens of a line

The tokens of a line are determined by what it begins with: a link, or a character that begins
none. That gives an induction over a line, token by token, in which a link is one step.
-/

theorem Link.source_ne_nil (l : Link) : l.source ≠ [] := by
  simp [Link.source]

theorem link?_source {l : Link} (h : l.Valid) (rest : Str) : link? (l.source ++ rest) = some l :=
  link?_eq_some_iff.mpr ⟨h, rest, rfl⟩

theorem tokensFrom_drop (skip : ℕ) (s : Str) : tokensFrom skip s = tokens (s.drop skip) := by
  induction skip generalizing s with
  | zero => rfl
  | succ skip ih =>
    cases s with
    | nil => rfl
    | cons c s => exact ih s

theorem tokens_char {c : CodePoint} {s : Str} (h : link? (c :: s) = none) :
    tokens (c :: s) = .char c :: tokens s := by
  rw [tokens, tokensFrom, h]
  rfl

theorem tokens_link {l : Link} (h : l.Valid) (rest : Str) :
    tokens (l.source ++ rest) = .link l :: tokens rest := by
  obtain ⟨c, u, hu⟩ := List.exists_cons_of_ne_nil l.source_ne_nil
  have hmatch := link?_source h rest
  rw [hu, List.cons_append] at hmatch ⊢
  rw [tokens, tokensFrom, hmatch]
  simp only [tokensFrom_drop, hu, List.length_cons, Nat.add_sub_cancel, List.drop_left]

/-- **Token by token**: what holds of the empty text, and is kept by a character that begins no
    match and by a match, holds of every text. -/
theorem tokens_induction {P : Str → Prop} (nil : P [])
    (char : ∀ c s, link? (c :: s) = none → P s → P (c :: s))
    (link : ∀ (l : Link) (s : Str), l.Valid → P s → P (l.source ++ s)) (s : Str) : P s := by
  induction hn : s.length using Nat.strongRecOn generalizing s with
  | ind n ih =>
    cases s with
    | nil => exact nil
    | cons c s =>
      cases hmatch : link? (c :: s) with
      | none => exact char c s hmatch (ih s.length (by simp [← hn]) s rfl)
      | some l =>
        obtain ⟨hvalid, rest, hs⟩ := link?_eq_some_iff.mp hmatch
        rw [hs] at hn ⊢
        have hpos := List.length_pos_iff.mpr l.source_ne_nil
        exact link l rest hvalid (ih rest.length (by rw [List.length_append] at hn; omega) rest rfl)

theorem tokens_concat {c : CodePoint} (hc : c ≠ rparen) (s : Str) :
    tokens (s ++ [c]) = tokens s ++ [.char c] := by
  induction s using tokens_induction with
  | nil =>
    refine tokens_char ?_
    rw [Option.eq_none_iff_forall_ne_some]
    intro l hl
    obtain ⟨-, rest, h⟩ := link?_eq_some_iff.mp hl
    have := congrArg List.length h
    simp [Link.source] at this
    omega
  | char x s hmatch ih =>
    have hnone : link? (x :: (s ++ [c])) = none := by
      rw [Option.eq_none_iff_forall_ne_some] at hmatch ⊢
      intro l hl
      obtain ⟨hvalid, rest, h⟩ := link?_eq_some_iff.mp hl
      -- the match ends before the last character
      rcases List.eq_nil_or_concat rest with rfl | ⟨rest, d, rfl⟩
      · have hlast := congrArg List.getLast? h
        rw [List.append_nil, ← List.cons_append, List.getLast?_concat, Link.source,
          List.getLast?_concat] at hlast
        exact hc (Option.some.inj hlast)
      · rw [List.concat_eq_append, ← List.cons_append, ← List.append_assoc] at h
        exact hmatch l (link?_eq_some_iff.mpr ⟨hvalid, rest, (List.append_inj' h rfl).1⟩)
    rw [List.cons_append, tokens_char hnone, tokens_char hmatch, ih, List.cons_append]
  | link l s hvalid ih =>
    rw [List.append_assoc, tokens_link hvalid, tokens_link hvalid, ih, List.cons_append]

/-!
## What stays of a line

The characters of a line are marked, so that what a pass leaves of it is part of the line and not
a new text. Where a link is dropped its brackets and its target go, and the text between them
stays.
-/

/-- A character of a line, which stays or goes. -/
structure Mark where
  char : CodePoint
  gone : Bool

/-- All of the text stays. -/
def stays (s : Str) : List Mark := s.map fun c => ⟨c, false⟩

/-- All of it goes. -/
def goes (s : Str) : List Mark := s.map fun c => ⟨c, true⟩

/-- The characters that stay. -/
def staying (ms : List Mark) : Str := (ms.filter fun m => !m.gone).map Mark.char

/-- Of a link that is dropped everything goes but its text. -/
def Link.marks (l : Link) : List Mark :=
  goes ((if l.image then [bang] else []) ++ [lbracket]) ++ stays l.text ++
    goes (rbracket :: lparen :: l.target ++ [rparen])

section Marks

variable (isFile : Str → Bool)

/-- The link is replaced by its text. -/
def Dropped (before : Str) (l : Link) : Prop :=
  inCode before = false ∧ resolves isFile l.target = false

instance (before : Str) (l : Link) : Decidable (Dropped isFile before l) :=
  inferInstanceAs (Decidable (_ ∧ _))

/-- The marks of what stands behind `before`. -/
def marksFrom : Str → List Token → List Mark
  | _, [] => []
  | before, .char c :: ts => ⟨c, false⟩ :: marksFrom (before ++ [c]) ts
  | before, .link l :: ts =>
      (if Dropped isFile before l then l.marks else stays l.source) ++
        marksFrom (before ++ l.source) ts

/-- The line, with what goes of it marked: the brackets and the targets of its broken links. -/
def marks (line : Str) : List Mark := marksFrom isFile [] (tokens line)

variable {isFile} {before : Str} {l : Link}

@[simp] theorem staying_stays (s : Str) : staying (stays s) = s := by
  have hall : (stays s).filter (fun m => !m.gone) = stays s := by
    rw [List.filter_eq_self, stays, List.forall_mem_map]
    exact fun _ _ => rfl
  rw [staying, hall, stays, List.map_map]
  exact List.map_id s

@[simp] theorem staying_goes (s : Str) : staying (goes s) = [] := by
  have hnone : (goes s).filter (fun m => !m.gone) = [] := by
    rw [List.filter_eq_nil_iff, goes, List.forall_mem_map]
    exact fun _ _ => Bool.false_ne_true
  rw [staying, hnone, List.map_nil]

@[simp] theorem staying_append (ms ns : List Mark) :
    staying (ms ++ ns) = staying ms ++ staying ns := by
  rw [staying, List.filter_append, List.map_append]
  rfl

@[simp] theorem staying_gone (c : CodePoint) (ms : List Mark) :
    staying (⟨c, true⟩ :: ms) = staying ms := rfl

@[simp] theorem staying_stay (c : CodePoint) (ms : List Mark) :
    staying (⟨c, false⟩ :: ms) = c :: staying ms := rfl

@[simp] theorem staying_nil : staying [] = [] := rfl

theorem replace_cases (isFile : Str → Bool) (before : Str) (l : Link) :
    Dropped isFile before l ∧ replace isFile before l = (l.text, 1) ∨
      (inCode before = true ∨ resolves isFile l.target = true) ∧
        replace isFile before l = (l.source, 0) := by
  unfold replace Dropped
  cases inCode before with
  | true => exact .inr ⟨.inl rfl, rfl⟩
  | false =>
    cases resolves isFile l.target with
    | true => exact .inr ⟨.inr rfl, rfl⟩
    | false => exact .inl ⟨⟨rfl, rfl⟩, rfl⟩

theorem not_dropped_iff : ¬ Dropped isFile before l ↔
    inCode before = true ∨ resolves isFile l.target = true := by
  rw [Dropped, not_and_or, Bool.not_eq_false, Bool.not_eq_false]

theorem staying_marksFrom (isFile : Str → Bool) (before : Str) (ts : List Token) :
    staying (marksFrom isFile before ts) = (sanitizeTokens isFile before ts).1 := by
  induction ts generalizing before with
  | nil => rfl
  | cons t ts ih =>
    cases t with
    | char c => exact congrArg (c :: ·) (ih _)
    | link l =>
      have hlink : staying (if Dropped isFile before l then l.marks else stays l.source) =
          (replace isFile before l).1 := by
        rcases replace_cases isFile before l with ⟨hdropped, heq⟩ | ⟨hkept, heq⟩
        · rw [if_pos hdropped, heq]
          simp [Link.marks]
        · rw [if_neg (not_dropped_iff.mpr hkept), heq, staying_stays]
      rw [marksFrom, staying_append, hlink, ih]
      rfl

/-- **What a pass leaves of a line is what stays of it.** -/
theorem staying_marks (isFile : Str → Bool) (line : Str) :
    staying (marks isFile line) = (sanitizeLine isFile line).1 := staying_marksFrom isFile [] _

theorem exists_mark {ms : List Mark} {c : CodePoint} {u v : Str} (h : staying ms = u ++ c :: v) :
    ∃ ms₁ ms₂, ms = ms₁ ++ ⟨c, false⟩ :: ms₂ ∧ staying ms₁ = u ∧ staying ms₂ = v := by
  induction ms generalizing u with
  | nil => simp at h
  | cons m ms ih =>
    obtain ⟨d, gone⟩ := m
    cases gone with
    | true =>
      obtain ⟨ms₁, ms₂, rfl, hu, hv⟩ := ih h
      exact ⟨⟨d, true⟩ :: ms₁, ms₂, rfl, hu, hv⟩
    | false =>
      rw [staying_stay] at h
      cases u with
      | nil =>
        obtain ⟨rfl, hv⟩ := List.cons.inj h
        exact ⟨[], ms, rfl, rfl, hv⟩
      | cons e u =>
        obtain ⟨rfl, hrest⟩ := List.cons.inj h
        obtain ⟨ms₁, ms₂, rfl, hu, hv⟩ := ih hrest
        exact ⟨⟨d, false⟩ :: ms₁, ms₂, rfl, congrArg (d :: ·) hu, hv⟩

end Marks

/-!
## Reading past what goes

A second pass reads the characters that stay. What it sees as a link may be spread over the line,
with characters in between that go; `LinkPast` is such a link among the marks.
-/

/-- Past what goes, the marks begin with a link: an opening bracket, a text up to the first closing
    bracket that stays, and right behind that a target in parentheses, of characters that stay. -/
def LinkPast (ms link : List Mark) (target : Str) (rest : List Mark) : Prop :=
  ∃ text gap inner,
    link = ⟨lbracket, false⟩ :: text ++ ⟨rbracket, false⟩ :: gap ++ ⟨lparen, false⟩ :: inner ++
      [⟨rparen, false⟩] ∧
    ms = link ++ rest ∧ rbracket ∉ staying text ∧ staying gap = [] ∧
    rparen ∉ staying inner ∧ staying inner = target ∧ target ≠ []

/-- Past what goes, the marks begin with a fence. -/
def FencePast (ms : List Mark) : Prop :=
  ∃ blank fence rest, ms = blank ++ fence ++ rest ∧ (∀ c ∈ staying blank, isspace c = true) ∧
    (staying fence = List.replicate 3 backtick ∨ staying fence = List.replicate 3 tilde)

/-- The marks `ms`, which stand behind the marks `before`, are read to their end past what goes, and
    every link in them is in inline code or resolves. What goes counts for nothing, not even for
    the backticks; and where a link is read, what is within it is not read again. -/
inductive Steady (isFile : Str → Bool) : List Mark → List Mark → Prop
  | done {before : List Mark} : Steady isFile before []
  | char {before ms : List Mark} {m : Mark}
      (none : ∀ link target rest, ¬ LinkPast (m :: ms) link target rest)
      (later : Steady isFile (before ++ [m]) ms) : Steady isFile before (m :: ms)
  | link {before ms link rest : List Mark} {target : Str} (opens : LinkPast ms link target rest)
      (kept : inCode (staying before) = true ∨ resolves isFile target = true)
      (later : Steady isFile (before ++ link) rest) : Steady isFile before ms

section Reading

variable {isFile : Str → Bool} {ms link rest : List Mark} {target : Str}

theorem LinkPast.source (h : LinkPast ms link target rest) :
    ∃ l : Link, l.Valid ∧ l.target = target ∧ staying link = l.source := by
  obtain ⟨text, gap, inner, rfl, -, htext, hgap, hinner, rfl, hne⟩ := h
  refine ⟨⟨false, staying text, staying inner⟩, ⟨htext, hinner, hne⟩, rfl, ?_⟩
  simp [Link.source, hgap]

theorem LinkPast.append (h : LinkPast ms link target rest) : ms = link ++ rest := by
  obtain ⟨_, _, _, -, hms, -⟩ := h
  exact hms

/-- A link among the characters that stay has its place among the marks. -/
theorem exists_linkPast {l : Link} {v : Str} (hvalid : l.Valid) (himage : l.image = false)
    (h : staying (⟨lbracket, false⟩ :: ms) = l.source ++ v) :
    ∃ link rest, LinkPast (⟨lbracket, false⟩ :: ms) link l.target rest ∧
      staying link = l.source ∧ staying rest = v := by
  obtain ⟨_, text, target⟩ := l
  subst himage
  have hms : staying ms = text ++ rbracket :: (lparen :: (target ++ rparen :: v)) := by
    simpa [Link.source] using h
  obtain ⟨texts, ms₁, rfl, rfl, hms₁⟩ := exists_mark hms
  obtain ⟨gap, ms₂, rfl, hgap, hms₂⟩ := exists_mark (u := []) hms₁
  obtain ⟨inner, rest, rfl, rfl, rfl⟩ := exists_mark hms₂
  refine ⟨⟨lbracket, false⟩ :: texts ++ ⟨rbracket, false⟩ :: gap ++ ⟨lparen, false⟩ :: inner ++
    [⟨rparen, false⟩], rest, ⟨texts, gap, inner, rfl, by simp, hvalid.text, hgap, hvalid.target, rfl,
    hvalid.nonempty⟩, ?_, rfl⟩
  simp [Link.source, hgap]

/-- An opening bracket that stays opens a link past what goes exactly if it opens one in what
    stays. -/
theorem exists_linkPast_iff : (∃ link target rest, LinkPast (⟨lbracket, false⟩ :: ms) link target rest) ↔
    Opens (staying ms) := by
  rw [← bracketed?_isSome_iff false, ← link?_lbracket]
  constructor
  · rintro ⟨link, target, rest, h⟩
    obtain ⟨l, hvalid, -, hsource⟩ := h.source
    refine ⟨l, link?_eq_some_iff.mpr ⟨hvalid, staying rest, ?_⟩⟩
    rw [← hsource, ← staying_append, ← h.append]
    rfl
  · rintro ⟨l, h⟩
    have himage : l.image = false := by
      rw [link?_lbracket] at h
      exact (bracketed?_eq_some_iff.mp h).1
    obtain ⟨hvalid, v, hv⟩ := link?_eq_some_iff.mp h
    obtain ⟨link, rest, hlink, -, -⟩ := exists_linkPast hvalid himage hv
    exact ⟨link, l.target, rest, hlink⟩

/-!
## A second pass

The second pass over a line changes nothing exactly if every link that is read past what goes is
one that a pass leaves: in inline code, as counted in what stays before it, or with a target that
resolves.
-/

/-- A pass over the text, behind `before`, changes nothing. -/
def Clean (isFile : Str → Bool) (before s : Str) : Prop :=
  (sanitizeTokens isFile before (tokens s)).2 = 0

variable {before s : Str} {c : CodePoint}

theorem clean_source_iff {l : Link} (h : l.Valid) : Clean isFile before (l.source ++ s) ↔
    (inCode before = true ∨ resolves isFile l.target = true) ∧
      Clean isFile (before ++ l.source) s := by
  unfold Clean
  rw [tokens_link h, sanitizeTokens]
  simp only [Nat.add_eq_zero_iff]
  refine and_congr_left' ?_
  rcases replace_cases isFile before l with ⟨hdropped, heq⟩ | ⟨hkept, heq⟩
  · simp [heq, hdropped.1, hdropped.2]
  · simpa [heq] using hkept

theorem clean_char_iff (h : link? (c :: s) = none) :
    Clean isFile before (c :: s) ↔ Clean isFile (before ++ [c]) s := by
  unfold Clean
  rw [tokens_char h]
  rfl

/-- What opens no link is copied. An exclamation mark may make an image of the link behind it,
    which then is as broken as before. -/
theorem clean_cons_iff (h : c = lbracket → ¬ Opens s) :
    Clean isFile before (c :: s) ↔ Clean isFile (before ++ [c]) s := by
  cases hmatch : link? (c :: s) with
  | none => exact clean_char_iff hmatch
  | some l =>
    obtain ⟨hvalid, rest, heq⟩ := link?_eq_some_iff.mp hmatch
    obtain ⟨image, text, target⟩ := l
    have hplain : Link.Valid ⟨false, text, target⟩ := ⟨hvalid.text, hvalid.target, hvalid.nonempty⟩
    cases image with
    | false =>
      obtain ⟨rfl, -⟩ := List.cons.inj heq
      exact absurd hmatch (by rw [link?_eq_none_iff.mpr (h rfl)]; simp)
    | true =>
      obtain ⟨rfl, hs⟩ := List.cons.inj heq
      have hsource : s = Link.source ⟨false, text, target⟩ ++ rest := hs
      have hcode : inCode (before ++ [bang]) = inCode before := by
        have hbang : [bang].count backtick = 0 := by decide
        unfold inCode
        rw [List.count_append, hbang, Nat.add_zero]
      have hbefore : before ++ Link.source ⟨true, text, target⟩ =
          before ++ [bang] ++ Link.source ⟨false, text, target⟩ := by simp [Link.source]
      rw [heq, clean_source_iff hvalid, hsource, clean_source_iff hplain, hcode, hbefore]

/-- From the pass to the reading. The induction is on the number of marks, as a link takes several
    of them at once. -/
theorem steady_of_clean (before ms : List Mark) (h : Clean isFile (staying before) (staying ms)) :
    Steady isFile before ms := by
  induction hn : ms.length using Nat.strongRecOn generalizing before ms with
  | ind n ih =>
    cases ms with
    | nil => exact .done
    | cons m ms =>
      have hone : ∀ {m : Mark}, Clean isFile (staying (before ++ [m])) (staying ms) →
          Steady isFile (before ++ [m]) ms := fun hlater =>
        ih ms.length (by rw [← hn, List.length_cons]; omega) _ _ hlater rfl
      -- a link that is read is left by the pass, and behind it both go on
      by_cases hopens : ∃ link target rest, LinkPast (m :: ms) link target rest
      · obtain ⟨link, target, rest, hlink⟩ := hopens
        obtain ⟨l, hvalid, rfl, hsource⟩ := hlink.source
        have hms := hlink.append
        rw [hms, staying_append, hsource, clean_source_iff hvalid] at h
        refine .link hlink h.1 (ih rest.length ?_ _ _ ?_ rfl)
        · have hlength := congrArg List.length hms
          rw [List.length_append] at hlength
          have hpos : 0 < link.length := by
            obtain ⟨_, _, _, rfl, -⟩ := hlink
            simp
          omega
        · rw [staying_append, hsource]
          exact h.2
      · have hnone : ∀ link target rest, ¬ LinkPast (m :: ms) link target rest :=
          fun link target rest hlink => hopens ⟨link, target, rest, hlink⟩
        -- no link begins here: a mark that goes is nothing to the pass, and one that stays is
        -- copied
        refine .char hnone (hone ?_)
        obtain ⟨c, gone⟩ := m
        cases gone with
        | true => rwa [staying_append, staying_gone, staying_nil, List.append_nil]
        | false =>
          rw [staying_append]
          refine (clean_cons_iff fun hc => ?_).mp h
          subst hc
          exact fun hs => hopens (exists_linkPast_iff.mpr hs)

/-- And from the reading to the pass, by induction on the reading. -/
theorem Steady.clean {before ms : List Mark} (h : Steady isFile before ms) :
    Clean isFile (staying before) (staying ms) := by
  induction h with
  | done => rfl
  | @char before ms m hnone _ ih =>
    obtain ⟨c, gone⟩ := m
    rw [staying_append] at ih
    cases gone with
    | true => rwa [staying_gone, staying_nil, List.append_nil] at ih
    | false =>
      refine (clean_cons_iff fun hc hs => ?_).mpr ih
      subst hc
      obtain ⟨link, target, rest, hlink⟩ := exists_linkPast_iff.mpr hs
      exact hnone link target rest hlink
  | link hlink hkept _ ih =>
    obtain ⟨l, hvalid, rfl, hsource⟩ := hlink.source
    rw [staying_append, hsource] at ih
    rw [hlink.append, staying_append, hsource]
    exact (clean_source_iff hvalid).mpr ⟨hkept, ih⟩

/-- **A second pass changes nothing exactly if the line is steady.** -/
theorem clean_iff_steady (before ms : List Mark) :
    Clean isFile (staying before) (staying ms) ↔ Steady isFile before ms :=
  ⟨steady_of_clean before ms, Steady.clean⟩

/-!
## Fences

The same for the three backticks or tildes that open and close a fence: they may be what stays of
a line that was no fence.
-/

/-- A fence is three backticks or three tildes behind whitespace; more of them are part of the
    rest. -/
theorem isFence_iff {line : Str} : isFence line = true ↔ ∃ blank rest,
    (∀ c ∈ blank, isspace c = true) ∧ (line = blank ++ List.replicate 3 backtick ++ rest ∨
      line = blank ++ List.replicate 3 tilde ++ rest) := by
  -- three of a character and more of it are three and a rest
  have htake : ∀ (x : CodePoint) (t : Str), 3 ≤ (t.takeWhile (· == x)).length ↔
      ∃ rest, t = List.replicate 3 x ++ rest := by
    intro x t
    constructor
    · intro h
      have hall : t.takeWhile (· == x) = List.replicate (t.takeWhile (· == x)).length x := by
        rw [List.eq_replicate_iff]
        exact ⟨rfl, fun d hd => by simpa using List.mem_takeWhile_imp hd⟩
      obtain ⟨k, hk⟩ := Nat.exists_eq_add_of_le h
      refine ⟨List.replicate k x ++ t.dropWhile (· == x), ?_⟩
      rw [← List.append_assoc, List.replicate_append_replicate, ← hk, ← hall,
        List.takeWhile_append_dropWhile]
    · rintro ⟨rest, rfl⟩
      rw [List.takeWhile_append_of_pos (by simp), List.length_append, List.length_replicate]
      omega
  -- the character is no whitespace, so it ends what is skipped
  have hsplit : ∀ x : CodePoint, isspace x = false →
      ((∃ rest, line.dropWhile isspace = List.replicate 3 x ++ rest) ↔
        ∃ blank rest, (∀ c ∈ blank, isspace c = true) ∧
          line = blank ++ List.replicate 3 x ++ rest) := by
    intro x hx
    constructor
    · rintro ⟨rest, hrest⟩
      refine ⟨line.takeWhile isspace, rest, fun c hc => List.mem_takeWhile_imp hc, ?_⟩
      rw [List.append_assoc, ← hrest, List.takeWhile_append_dropWhile]
    · rintro ⟨blank, rest, hblank, rfl⟩
      refine ⟨rest, ?_⟩
      rw [List.append_assoc, List.dropWhile_append_of_pos hblank]
      exact List.dropWhile_cons_of_neg (by simp [hx])
  have hbacktick : isspace backtick = false := by decide
  have htilde : isspace tilde = false := by decide
  unfold isFence
  simp only [Bool.or_eq_true, decide_eq_true_iff, htake, hsplit backtick hbacktick,
    hsplit tilde htilde]
  simp only [and_or_left, exists_or]

/-- Marks whose characters that stay are made of two parts are. -/
theorem exists_marks_append {u v : Str} (h : staying ms = u ++ v) :
    ∃ ms₁ ms₂, ms = ms₁ ++ ms₂ ∧ staying ms₁ = u ∧ staying ms₂ = v := by
  cases v with
  | nil => exact ⟨ms, [], (List.append_nil ms).symm, by rw [h, List.append_nil], rfl⟩
  | cons c v =>
    obtain ⟨ms₁, ms₂, rfl, hu, hv⟩ := exists_mark h
    exact ⟨ms₁, _, rfl, hu, by rw [staying_stay, hv]⟩

/-- Past what goes there is a fence exactly if what stays is one. -/
theorem fencePast_iff : FencePast ms ↔ isFence (staying ms) = true := by
  rw [isFence_iff]
  constructor
  · rintro ⟨blank, fence, rest, rfl, hblank, hfence⟩
    refine ⟨staying blank, staying rest, hblank, ?_⟩
    rw [staying_append, staying_append]
    exact hfence.imp (fun h => by rw [h]) fun h => by rw [h]
  · rintro ⟨blank, rest, hblank, hline⟩
    have hparts : ∃ fence, (fence = List.replicate 3 backtick ∨ fence = List.replicate 3 tilde) ∧
        staying ms = blank ++ fence ++ rest := by
      rcases hline with hline | hline
      · exact ⟨_, .inl rfl, hline⟩
      · exact ⟨_, .inr rfl, hline⟩
    obtain ⟨fence, hfence, hstay⟩ := hparts
    obtain ⟨front, rest, rfl, hfront, -⟩ := exists_marks_append hstay
    obtain ⟨blanks, fences, rfl, rfl, rfl⟩ := exists_marks_append hfront
    exact ⟨blanks, fences, rest, rfl, hblank, hfence⟩

end Reading

/-!
## The file

A fence that comes into being turns around what counts as fenced from there on, so the two passes
may look at different lines. `Stable` follows both, line by line, and the rest is that the second
pass gets its lines as the first one left them.
-/

section File

variable (isFile : Str → Bool)

/-- The marks of a line that is no fence: between fences it stays as it is. -/
def lineMarks (fenced : Bool) (line : Str) : List Mark :=
  if fenced then stays line else marks isFile line

/-- The lines of a file, of which the first pass stands between fences if `fenced`. Past what goes a
    line may be a fence that was none, and from there on it is `again` that says where there are
    fences; and where there are none, every line is steady. -/
def Stable : Bool → Bool → List Str → Prop
  | _, _, [] => True
  | fenced, again, line :: lines =>
      if isFence line then Stable (!fenced) (!again) lines
      else
        (FencePast (lineMarks isFile fenced line) → Stable fenced (!again) lines) ∧
          (¬ FencePast (lineMarks isFile fenced line) →
            (again = true ∨ Steady isFile [] (lineMarks isFile fenced line)) ∧
              Stable fenced again lines)

variable {isFile} {fenced : Bool} {line : Str}

/-- What the loop makes of a line. -/
def outLine (isFile : Str → Bool) (fenced : Bool) (line : Str) : Str :=
  if isFence line then line else staying (lineMarks isFile fenced line)

/-- The loop, line by line: a fence turns what is fenced around. -/
theorem sanitizeLines_cons (lines : List Str) : (sanitizeLines isFile fenced (line :: lines)).1 =
    outLine isFile fenced line :: (sanitizeLines isFile (xor fenced (isFence line)) lines).1 := by
  rw [sanitizeLines, outLine, lineMarks]
  cases isFence line with
  | true => cases fenced <;> rfl
  | false =>
    cases fenced with
    | true => exact congrArg (· :: _) (staying_stays line).symm
    | false => exact congrArg (· :: _) (staying_marks isFile line).symm

/-- The links that a pass rewrites in the first of the lines, and the rest. -/
theorem total_eq_zero_iff (again : Bool) (lines : List Str) :
    (sanitizeLines isFile again (line :: lines)).2 = 0 ↔
      (isFence line = false → again = true ∨ Clean isFile [] line) ∧
        (sanitizeLines isFile (xor again (isFence line)) lines).2 = 0 := by
  rw [sanitizeLines]
  cases isFence line with
  | true => cases again <;> simp
  | false =>
    cases again with
    | true => simp
    | false =>
      simp only [Bool.false_eq_true, if_false, Nat.add_eq_zero_iff, false_or, Bool.xor_false,
        forall_const]
      rfl

/-- **A second loop over what the first made of the lines** rewrites nothing exactly if they are
    stable. -/
theorem sanitizeLines_again_iff (fenced again : Bool) (lines : List Str) :
    (sanitizeLines isFile again (sanitizeLines isFile fenced lines).1).2 = 0 ↔
      Stable isFile fenced again lines := by
  induction lines generalizing fenced again with
  | nil => exact iff_of_true rfl trivial
  | cons line lines ih =>
    rw [sanitizeLines_cons, total_eq_zero_iff, ih, Stable, outLine]
    cases hfence : isFence line with
    | true => simp [hfence]
    | false =>
      have hclean : Clean isFile [] (staying (lineMarks isFile fenced line)) ↔
          Steady isFile [] (lineMarks isFile fenced line) := clean_iff_steady [] _
      simp only [Bool.false_eq_true, if_false, Bool.xor_false]
      by_cases hpast : FencePast (lineMarks isFile fenced line)
      · rw [fencePast_iff.mp hpast]
        simp [hpast]
      · have hnone : isFence (staying (lineMarks isFile fenced line)) = false :=
          Bool.not_eq_true _ ▸ fun h => hpast (fencePast_iff.mpr h)
        rw [hnone, hclean]
        simp [hpast]

theorem sanitizeTokens_of_zero {before : Str} {ts : List Token}
    (h : (sanitizeTokens isFile before ts).2 = 0) :
    (sanitizeTokens isFile before ts).1 = ts.flatMap Token.source := by
  induction ts generalizing before with
  | nil => rfl
  | cons t ts ih =>
    cases t with
    | char c => exact congrArg (c :: ·) (ih h)
    | link l =>
      rw [sanitizeTokens] at h
      obtain ⟨hone, hrest⟩ := Nat.add_eq_zero_iff.mp h
      have hkept : (replace isFile before l).1 = l.source := by
        rcases replace_cases isFile before l with ⟨-, heq⟩ | ⟨-, heq⟩
        · rw [heq] at hone
          exact absurd hone one_ne_zero
        · rw [heq]
      rw [List.flatMap_cons, ← ih hrest]
      exact congrArg (· ++ _) hkept

theorem flatMap_source_tokens (s : Str) : (tokens s).flatMap Token.source = s := by
  induction s using tokens_induction with
  | nil => rfl
  | char c s hmatch ih =>
    rw [tokens_char hmatch, List.flatMap_cons, ih]
    rfl
  | link l s hvalid ih =>
    rw [tokens_link hvalid, List.flatMap_cons, ih]
    rfl

/-- A loop that rewrites nothing leaves the lines as they are. -/
theorem sanitizeLines_of_zero {lines : List Str} (h : (sanitizeLines isFile fenced lines).2 = 0) :
    (sanitizeLines isFile fenced lines).1 = lines := by
  induction lines generalizing fenced with
  | nil => rfl
  | cons line lines ih =>
    obtain ⟨hline, hlines⟩ := (total_eq_zero_iff fenced lines).mp h
    rw [sanitizeLines_cons, ih hlines, outLine, lineMarks]
    cases hfence : isFence line with
    | true => rfl
    | false =>
      cases fenced with
      | true => exact congrArg (· :: lines) (staying_stays line)
      | false =>
        have hclean : Clean isFile [] line := (hline hfence).resolve_left Bool.false_ne_true
        have hsame : staying (marks isFile line) = line := by
          rw [staying_marks, sanitizeLine, sanitizeTokens_of_zero hclean, flatMap_source_tokens]
        exact congrArg (· :: lines) hsame

/-! ### Its lines -/

theorem mem_of_mem_staying {c : CodePoint} {ms : List Mark} (h : c ∈ staying ms) :
    c ∈ ms.map Mark.char := by
  obtain ⟨m, hm, rfl⟩ := List.mem_map.mp h
  exact List.mem_map_of_mem (List.mem_filter.mp hm).1

theorem chars_marksFrom (before : Str) (ts : List Token) :
    (marksFrom isFile before ts).map Mark.char = ts.flatMap Token.source := by
  have hstays : ∀ s : Str, (stays s).map Mark.char = s := fun s => by
    rw [stays, List.map_map]
    exact List.map_id s
  have hgoes : ∀ s : Str, (goes s).map Mark.char = s := fun s => by
    rw [goes, List.map_map]
    exact List.map_id s
  induction ts generalizing before with
  | nil => rfl
  | cons t ts ih =>
    cases t with
    | char c => exact congrArg (c :: ·) (ih _)
    | link l =>
      have hlink : (if Dropped isFile before l then l.marks else stays l.source).map Mark.char =
          l.source := by
        split
        · simp [Link.marks, Link.source, hstays, hgoes]
        · exact hstays _
      rw [marksFrom, List.map_append, hlink, ih, List.flatMap_cons]
      rfl

theorem mem_of_mem_outLine {c : CodePoint} (h : c ∈ outLine isFile fenced line) : c ∈ line := by
  unfold outLine at h
  split at h
  · exact h
  · unfold lineMarks at h
    split at h
    · rwa [staying_stays] at h
    · have hmem := mem_of_mem_staying h
      rwa [marks, chars_marksFrom, flatMap_source_tokens] at hmem

/-- The marks of more tokens are those of the first and those of the others behind them. -/
theorem marksFrom_append (before : Str) (ts us : List Token) :
    marksFrom isFile before (ts ++ us) =
      marksFrom isFile before ts ++ marksFrom isFile (before ++ ts.flatMap Token.source) us := by
  induction ts generalizing before with
  | nil => simp [marksFrom]
  | cons t ts ih =>
    cases t with
    | char c =>
      rw [List.cons_append, marksFrom, ih, marksFrom, List.flatMap_cons, List.cons_append,
        List.append_assoc]
      rfl
    | link l =>
      rw [List.cons_append, marksFrom, ih, marksFrom, List.flatMap_cons, List.append_assoc,
        List.append_assoc]
      rfl

theorem marks_concat {c : CodePoint} (hc : isLineBreak c = true) (s : Str) :
    marks isFile (s ++ [c]) = marks isFile s ++ [⟨c, false⟩] := by
  have hne : c ≠ rparen := by
    rintro rfl
    exact absurd hc (by decide)
  rw [marks, tokens_concat hne, marksFrom_append]
  rfl

theorem outLine_concat (isFile : Str → Bool) (fenced : Bool) {s : Str} {c : CodePoint}
    (hs : Unbroken s) (hc : isLineBreak c = true) :
    ∃ w, Unbroken w ∧ outLine isFile fenced (s ++ [c]) = w ++ [c] := by
  unfold outLine
  cases isFence (s ++ [c]) with
  | true => exact ⟨s, hs, rfl⟩
  | false =>
    cases fenced with
    | true => exact ⟨s, hs, staying_stays _⟩
    | false =>
      refine ⟨staying (marks isFile s), fun d hd => hs d ?_, ?_⟩
      · have hmem := mem_of_mem_staying hd
        rwa [marks, chars_marksFrom, flatMap_source_tokens] at hmem
      · show staying (marks isFile (s ++ [c])) = _
        rw [marks_concat hc, staying_append]
        rfl

/-- The lines of what the loop wrote are the ones it made, but for an empty last one. -/
theorem sanitizeLines_flatten {s : Str} (hreturn : carriageReturn ∉ s) (again : Bool) :
    (sanitizeLines isFile again (splitlinesKeepEnds
        (sanitizeLines isFile fenced (splitlinesKeepEnds s)).1.flatten)).2 =
      (sanitizeLines isFile again (sanitizeLines isFile fenced (splitlinesKeepEnds s)).1).2 := by
  induction s, hreturn using lines_induction generalizing fenced again with
  -- the last line has no end, and may have become empty: then it is no line for the second pass
  | last s _ hs =>
    rw [splitlinesKeepEnds_of_unbroken hs]
    cases hempty : s.isEmpty with
    | true => rfl
    | false =>
      have hflatten : (sanitizeLines isFile fenced [s]).1.flatten = outLine isFile fenced s := by
        rw [sanitizeLines_cons]
        exact List.append_nil _
      have hunbroken : Unbroken (outLine isFile fenced s) :=
        fun c hc => hs c (mem_of_mem_outLine hc)
      simp only [Bool.false_eq_true, if_false, hflatten]
      rw [splitlinesKeepEnds_of_unbroken hunbroken, sanitizeLines_cons]
      cases hout : (outLine isFile fenced s).isEmpty with
      | true =>
        rw [List.isEmpty_iff.mp hout]
        cases again <;> rfl
      | false => rfl
  -- a line with an end keeps it, so the text is cut where it was joined
  | line s c t _ _ hs hc hreturn ih =>
    obtain ⟨w, hw, hout⟩ := outLine_concat isFile fenced hs hc
    rw [splitlinesKeepEnds_break hs hc hreturn, sanitizeLines_cons, hout, List.flatten_cons,
      List.append_assoc, List.singleton_append, splitlinesKeepEnds_break hw hc hreturn]
    rw [sanitizeLines, sanitizeLines]
    simp only [ih]
    split
    · rfl
    · split
      · rfl
      · rfl

theorem mem_of_mem_sanitizeLines {lines : List Str} {c : CodePoint}
    (h : c ∈ (sanitizeLines isFile fenced lines).1.flatten) : c ∈ lines.flatten := by
  induction lines generalizing fenced with
  | nil => exact h
  | cons line lines ih =>
    rw [sanitizeLines_cons, List.flatten_cons, List.mem_append] at h
    rw [List.flatten_cons, List.mem_append]
    exact h.imp mem_of_mem_outLine ih

end File

/-!
## Where there are no files

One way to fail: an image within a link, and no target that resolves.
-/

/-- Nothing is opened by a closing bracket alone. -/
example : sanitizeFile (fun _ => false) (sanitizeFile (fun _ => false) (lit "][](x)(y)")).1 =
    (lit "](y)", 0) := by
  decide

end SanitizeLinks

end AdversarialCognition
