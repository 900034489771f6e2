import AdversarialCognition.Lib.Scalars
import AdversarialCognition.Lib.Untyped

/-!
# More text behind a value

What is read off the front of a text is read off the front of any longer one, unless the text ends
in the midst of a number (`scanOnce_extend`). So a text that is a list or a dictionary is no value
any more when something stands behind it that is no whitespace (`loads_append`).

The round trip speaks of printed texts. Here the texts are any that are read, printed by whomever,
with their own white space and escapes; so the scanners are followed once more, now along a
reading that is known to succeed. Each of the three lemmas `extendsOnce_succ`, `extendsItems_succ`
and `extendsMembers_succ` is about one scanner with a unit of fuel more, and they are put together
by induction (`extends_all`). A number is the only thing that more text can change, as its end is
not marked; `Stopped` says that what follows marks it.
-/

namespace Py.Json

open Str

/-- A value has ended before this character. -/
def stops (c : CodePoint) : Bool :=
  isWhitespace c || c.val = 0x2C || c.val = 0x5D || c.val = 0x7D

/-!
## Strings

A string ends at its closing quote, and what is read of it does not look behind that.
-/

theorem scanString_zero (s : Str) : scanString 0 s = .error .decode := by
  rw [scanString.eq_def]

theorem low?_extend {v : ℕ} {s rest : Str} {c : CodePoint} (h : low? v s = some (c, rest)) (t : Str) :
    low? v (s ++ t) = some (c, rest ++ t) := by
  match s with
  | b :: u :: a₀ :: a₁ :: a₂ :: a₃ :: s =>
    simp only [List.cons_append, low?] at h ⊢
    split at h
    · rename_i hboth
      rw [if_pos hboth]
      cases hunit : unit? a₀ a₁ a₂ a₃ with
      | none => simp [hunit] at h
      | some low =>
        cases hpair : pair? v low with
        | none => simp [hunit, hpair] at h
        | some d => simp_all
    · cases h

/-- An escape that is cut off is in no string, and so none is made of it. -/
theorem low?_extend_none {n v : ℕ} {s : Str} (h : ∃ read, scanString n s = .ok read)
    (hnone : low? v s = none) (t : Str) : low? v (s ++ t) = none := by
  obtain ⟨read, h⟩ := h
  cases n with
  | zero =>
    rw [scanString_zero] at h
    cases h
  | succ n =>
    rw [scanString.eq_def] at h
    match s with
    | b :: u :: a₀ :: a₁ :: a₂ :: a₃ :: s =>
      simp only [List.cons_append, low?] at hnone ⊢
      split at hnone
      · rename_i hboth
        rw [if_pos hboth]
        cases hunit : unit? a₀ a₁ a₂ a₃ with
        | none => rfl
        | some low => cases hpair : pair? v low <;> simp_all
      · rename_i hboth
        rw [if_neg hboth]
    | [] => cases h
    -- the string was read to its end, so what is here is no escape that was cut off
    | [b] =>
      have hb : b.val ≠ 0x5C := by
        intro hb
        simp [hb] at h
      cases t with
      | nil => rfl
      | cons u t => exact low?_of_ne (.inl hb) t
    | [b, u] | [b, u, a₀] | [b, u, a₀, a₁] | [b, u, a₀, a₁, a₂] =>
      refine low?_of_ne ?_ _
      by_contra hboth
      simp only [not_or, not_not] at hboth
      simp [hboth.1, hboth.2] at h

/-- A string that is read has its closing quote, and does not look behind it. -/
theorem scanString_extend {n m : ℕ} (hm : n ≤ m) {s w rest : Str}
    (h : scanString n s = .ok (w, rest)) (t : Str) : scanString m (s ++ t) = .ok (w, rest ++ t) := by
  induction n generalizing m s w rest with
  | zero =>
    rw [scanString_zero] at h
    cases h
  | succ n ih =>
    obtain ⟨m, rfl⟩ : ∃ k, m = k + 1 := ⟨m - 1, by omega⟩
    -- a character that was read, and the rest of the string by the induction hypothesis
    have hmore : ∀ c s, scanString.more n c s = .ok (w, rest) →
        (∃ read, scanString n s = .ok read) ∧ scanString.more m c (s ++ t) = .ok (w, rest ++ t) := by
      intro c s hs
      unfold scanString.more at hs ⊢
      obtain ⟨⟨u, r⟩, hread, heq⟩ := bind_eq_ok_iff.mp hs
      cases heq
      rw [ih (by omega) hread]
      exact ⟨⟨_, hread⟩, rfl⟩
    rw [scanString.eq_def] at h ⊢
    cases s with
    | nil => cases h
    | cons c s =>
      dsimp only [List.cons_append] at h ⊢
      by_cases hquote : c.val = 0x22
      · rw [if_pos hquote] at h ⊢
        cases h
        rfl
      rw [if_neg hquote] at h ⊢
      by_cases hback : c.val = 0x5C
      · rw [if_pos hback] at h ⊢
        cases s with
        | nil => cases h
        | cons e s =>
          dsimp only [List.cons_append] at h ⊢
          by_cases hu : e.val = 0x75
          · rw [if_pos hu] at h ⊢
            match s with
            | a₀ :: a₁ :: a₂ :: a₃ :: s =>
              dsimp only [List.cons_append] at h ⊢
              cases hunit : unit? a₀ a₁ a₂ a₃ with
              | none =>
                rw [hunit] at h
                cases h
              | some v =>
                rw [hunit] at h
                dsimp only at h ⊢
                -- a high surrogate looks ahead for its other half, and finds it in the longer
                -- text if here
                cases hlow : low? v s with
                | none =>
                  rw [hlow] at h
                  obtain ⟨hread, hs⟩ := hmore _ _ h
                  rw [low?_extend_none hread hlow]
                  exact hs
                | some found =>
                  rw [hlow] at h
                  rw [low?_extend hlow]
                  exact (hmore _ _ h).2
          · rw [if_neg hu] at h ⊢
            cases hsimple : simpleEscape? e with
            | none =>
              rw [hsimple] at h
              cases h
            | some v =>
              rw [hsimple] at h
              exact (hmore _ _ h).2
      rw [if_neg hback] at h ⊢
      by_cases hlow : c.val < 0x20
      · rw [if_pos hlow] at h
        cases h
      · rw [if_neg hlow] at h ⊢
        exact (hmore c s h).2

/-!
## Scalars

A numeral ends where the text does, or where something stands that cannot go on with it. So this
is asked of what comes behind.
-/

/-- What stands behind the value begins where it has ended. -/
def Stopped (rest : Str) : Prop := ∃ c r, rest = c :: r ∧ stops c = true

theorem span_extend {p : CodePoint → Bool} {s : Str} (h : s.dropWhile p ≠ []) (t : Str) :
    (s ++ t).takeWhile p = s.takeWhile p ∧ (s ++ t).dropWhile p = s.dropWhile p ++ t := by
  induction s with
  | nil => exact absurd rfl h
  | cons c s ih =>
    rw [List.cons_append, List.takeWhile_cons, List.takeWhile_cons, List.dropWhile_cons,
      List.dropWhile_cons]
    rw [List.dropWhile_cons] at h
    cases hc : p c with
    | true =>
      rw [hc, if_pos rfl] at h
      obtain ⟨htake, hdrop⟩ := ih h
      simp [htake, hdrop]
    | false => exact ⟨rfl, rfl⟩

theorem skip_extend {s r : Str} {c : CodePoint} (h : skip s = c :: r) (t : Str) :
    skip (s ++ t) = c :: (r ++ t) := by
  have hne : s.dropWhile isWhitespace ≠ [] := fun hnil => List.cons_ne_nil c r (h.symm.trans hnil)
  rw [skip, (span_extend hne t).2]
  exact congrArg (· ++ t) h

theorem stopped_of_skip {s r : Str} {c : CodePoint} (h : skip s = c :: r) (hc : stops c = true) :
    Stopped s := by
  cases s with
  | nil => cases h
  | cons d s =>
    refine ⟨d, s, rfl, ?_⟩
    by_cases hd : isWhitespace d = true
    · rw [stops, hd]
      rfl
    · rw [skip_cons (Bool.eq_false_iff.mpr hd)] at h
      rwa [(List.cons.inj h).1]

theorem scanInt_extend {s integer rest : Str} (h : scanInt s = some (integer, rest))
    (hrest : rest ≠ []) (t : Str) : scanInt (s ++ t) = some (integer, rest ++ t) :=
  scanInt_append_of_span h fun _ hu => span_extend (hu ▸ hrest) t

theorem scanFraction_extend {s : Str} {c : CodePoint} {r : Str} (h : (scanFraction s).2 = c :: r)
    (hc : c.val ≠ 0x2E) (t : Str) :
    scanFraction (s ++ t) = ((scanFraction s).1, (scanFraction s).2 ++ t) := by
  match s with
  | [] => cases h
  | [d] =>
    have hd : d = c := (List.cons.inj h).1
    cases t with
    | nil => rfl
    | cons e t => simp [scanFraction, hd, hc]
  | d :: e :: s =>
    simp only [scanFraction, List.cons_append] at h ⊢
    split at h
    · rename_i hpoint
      obtain ⟨htake, hdrop⟩ := span_extend (h ▸ List.cons_ne_nil c r) t
      rw [if_pos hpoint, if_pos hpoint, htake, hdrop]
    · rename_i hpoint
      rw [if_neg hpoint, if_neg hpoint]
      rfl

theorem scanExponent_extend {s : Str} {c : CodePoint} {r : Str} (h : (scanExponent s).2 = c :: r)
    (hc : c.val ≠ 0x65 ∧ c.val ≠ 0x45) (t : Str) :
    scanExponent (s ++ t) = ((scanExponent s).1, (scanExponent s).2 ++ t) := by
  have hnone : ∀ d s, d = c → scanExponent (d :: s) = ([], d :: s) := by
    rintro d s rfl
    simp [scanExponent, hc.1, hc.2]
  -- the exponent is read only if it has digits, and ends where they do
  have hdigits : ∀ (d : CodePoint) (sign whole u : Str),
      (if u.takeWhile isDigit = [] then (([] : Str), d :: whole)
        else (d :: sign ++ u.takeWhile isDigit, u.dropWhile isDigit)).2 = c :: r → d ≠ c →
      (if (u ++ t).takeWhile isDigit = [] then (([] : Str), d :: (whole ++ t))
        else (d :: sign ++ (u ++ t).takeWhile isDigit, (u ++ t).dropWhile isDigit)) =
        (d :: sign ++ u.takeWhile isDigit, u.dropWhile isDigit ++ t) ∧ u.takeWhile isDigit ≠ [] := by
    intro d sign whole u hu hne
    split at hu
    · exact absurd (List.cons.inj hu).1 hne
    · rename_i htake
      have hdigit : u.dropWhile isDigit ≠ [] := by
        rw [show u.dropWhile isDigit = c :: r from hu]
        exact List.cons_ne_nil c r
      obtain ⟨htake', hdrop⟩ := span_extend hdigit t
      rw [htake', hdrop, if_neg htake]
      exact ⟨rfl, htake⟩
  cases s with
  | nil => cases h
  | cons d s =>
    by_cases hd : d = c
    · rw [List.cons_append, hnone d _ hd, hnone d _ hd]
      rfl
    cases s with
    | nil =>
      refine absurd ?_ hd
      unfold scanExponent at h
      dsimp only at h
      split at h <;> exact (List.cons.inj h).1
    | cons e s =>
      simp only [scanExponent, List.cons_append] at h ⊢
      by_cases hexponent : (d.val = 0x65 || d.val = 0x45) = true
      · simp only [if_pos hexponent] at h ⊢
        by_cases hsign : (e.val = 0x2B || e.val = 0x2D) = true
        · simp only [if_pos hsign] at h ⊢
          obtain ⟨hextend, htake⟩ := hdigits d [e] (e :: s) s h hd
          rw [if_neg htake]
          exact hextend
        · simp only [if_neg hsign] at h ⊢
          obtain ⟨hextend, htake⟩ := hdigits d [] (e :: s) (e :: s) h hd
          rw [if_neg htake]
          exact hextend
      · rw [if_neg hexponent] at h
        exact absurd (List.cons.inj h).1 hd

section

variable [Decoder]

theorem scanNumber_extend {s rest : Str} {j : Json} (h : scanNumber s = .ok (j, rest))
    (hrest : Stopped rest) (t : Str) : scanNumber (s ++ t) = .ok (j, rest ++ t) := by
  unfold scanNumber at h ⊢
  cases hint : scanInt s with
  | none =>
    rw [hint] at h
    cases h
  | some read =>
    obtain ⟨integer, after⟩ := read
    rw [hint] at h
    dsimp only at h
    have heq : (scanExponent (scanFraction after).2).2 = rest := by
      split at h
      · obtain ⟨n, -, heq⟩ := bind_eq_ok_iff.mp h
        cases heq
        rfl
      · cases h
        rfl
    obtain ⟨c, r, hcons, hc⟩ := hrest
    have hexponent := heq.trans hcons
    have hval : c.val ≠ 0x2E ∧ c.val ≠ 0x65 ∧ c.val ≠ 0x45 := by
      simp only [stops, isWhitespace, Bool.or_eq_true, decide_eq_true_eq] at hc
      omega
    -- what is behind the fraction is the exponent, or what has stopped it
    obtain ⟨d, u, hfraction, hd⟩ : ∃ d u, (scanFraction after).2 = d :: u ∧ d.val ≠ 0x2E := by
      cases hfraction : (scanFraction after).2 with
      | nil =>
        rw [hfraction] at hexponent
        cases hexponent
      | cons d u =>
        refine ⟨d, u, rfl, fun hd => hval.1 ?_⟩
        rw [hfraction] at hexponent
        simp only [scanExponent, hd] at hexponent
        exact (List.cons.inj hexponent).1 ▸ hd
    have hafter : after ≠ [] := by
      rintro rfl
      cases hfraction
    rw [scanInt_extend hint hafter]
    simp only [scanFraction_extend hfraction hd, scanExponent_extend hexponent hval.2]
    split at h
    · rename_i hplain
      rw [if_pos hplain]
      obtain ⟨n, hn, hpair⟩ := bind_eq_ok_iff.mp h
      cases hpair
      rw [hn]
      rfl
    · rename_i hfloat
      rw [if_neg hfloat]
      cases h
      rfl

omit [Decoder] in
theorem constant?_extend {s rest : Str} {j : Json} (h : constant? s = some (j, rest)) (t : Str) :
    constant? (s ++ t) = some (j, rest ++ t) := by
  simp only [constant?, Option.orElse_eq_orElse, Option.orElse_eq_or, Option.or_eq_some_iff] at h
  rcases h with h | ⟨-, h | ⟨-, h | ⟨-, h | ⟨-, h | ⟨-, h⟩⟩⟩⟩⟩
  all_goals
    obtain ⟨rfl, rfl⟩ := keyword?_consumes h
    rw [List.append_assoc]
    rfl

/-!
## Values

The three scanners, each with a unit of fuel more than what it calls. A reading that has succeeded
takes the same steps on the longer text.
-/

theorem scanOnce_nil (n room : ℕ) : scanOnce n room [] = .error .decode := by
  cases n <;> simp [scanOnce]

theorem scanItems_nil (n room : ℕ) : scanItems n room [] = .error .decode := by
  cases n with
  | zero => rw [scanItems]
  | succ n =>
    rw [scanItems, scanOnce_nil]
    rfl

theorem scanMembers_nil (n room : ℕ) (found : List (Str × Json)) :
    scanMembers n room found [] = .error .decode := by
  cases n <;> simp [scanMembers]

omit [Decoder] in
theorem skip_append {s : Str} (h : skip s ≠ []) (t : Str) : skip (s ++ t) = skip s ++ t :=
  (span_extend h t).2

/-- A value that is read is read of any longer text, with as much fuel or more. The room stays the
    same: it is what the text needs and not what is left over. -/
def ExtendsOnce (n : ℕ) : Prop :=
  ∀ (m room : ℕ) (s rest : Str) (j : Json), n ≤ m → scanOnce n room s = .ok (j, rest) →
    enclosed j = true ∨ Stopped rest → ∀ t, scanOnce m room (s ++ t) = .ok (j, rest ++ t)

def ExtendsItems (n : ℕ) : Prop :=
  ∀ (m room : ℕ) (s rest : Str) (items : List Json), n ≤ m →
    scanItems n room s = .ok (items, rest) → ∀ t, scanItems m room (s ++ t) = .ok (items, rest ++ t)

def ExtendsMembers (n : ℕ) : Prop :=
  ∀ (m room : ℕ) (s rest : Str) (found items : List (Str × Json)), n ≤ m →
    scanMembers n room found s = .ok (items, rest) →
      ∀ t, scanMembers m room found (s ++ t) = .ok (items, rest ++ t)

/-- A value, by its first character. What is opened goes to the scanner of items or of members
    with a unit of fuel less. -/
theorem extendsOnce_succ {n : ℕ} (hitems : ExtendsItems n) (hmembers : ExtendsMembers n) :
    ExtendsOnce (n + 1) := by
  intro m room s rest j hm h hstop t
  obtain ⟨m, rfl⟩ : ∃ k, m = k + 1 := ⟨m - 1, by omega⟩
  have hle : n ≤ m := by omega
  cases s with
  | nil =>
    rw [scanOnce_nil] at h
    cases h
  | cons c s =>
    rw [scanOnce] at h
    by_cases hquote : c.val = 0x22
    · rw [if_pos hquote] at h
      obtain ⟨⟨w, r⟩, hw, heq⟩ := bind_eq_ok_iff.mp h
      cases heq
      rw [List.cons_append, scanOnce, if_pos hquote, scanString_extend hle hw]
      rfl
    rw [if_neg hquote] at h
    by_cases hbrace : c.val = 0x7B
    · rw [if_pos hbrace] at h
      -- a bracket without room is no value, so there is nothing to extend
      by_cases hfull : room = 0
      · rw [if_pos hfull] at h
        cases h
      rw [if_neg hfull] at h
      cases hskip : skip s with
      | nil =>
        rw [hskip] at h
        cases h
      | cons d r =>
        rw [hskip] at h
        rw [List.cons_append, scanOnce, if_neg hquote, if_pos hbrace, if_neg hfull,
          skip_extend hskip]
        dsimp only at h ⊢
        by_cases hclose : d.val = 0x7D
        · rw [if_pos hclose] at h ⊢
          cases h
          rfl
        · rw [if_neg hclose] at h ⊢
          obtain ⟨⟨items, r'⟩, hread, heq⟩ := bind_eq_ok_iff.mp h
          cases heq
          rw [← List.cons_append, hmembers m _ _ _ _ _ hle hread]
          rfl
    rw [if_neg hbrace] at h
    by_cases hbracket : c.val = 0x5B
    · rw [if_pos hbracket] at h
      by_cases hfull : room = 0
      · rw [if_pos hfull] at h
        cases h
      rw [if_neg hfull] at h
      cases hskip : skip s with
      | nil =>
        rw [hskip] at h
        cases h
      | cons d r =>
        rw [hskip] at h
        rw [List.cons_append, scanOnce, if_neg hquote, if_neg hbrace, if_pos hbracket,
          if_neg hfull, skip_extend hskip]
        dsimp only at h ⊢
        by_cases hclose : d.val = 0x5D
        · rw [if_pos hclose] at h ⊢
          cases h
          rfl
        · rw [if_neg hclose] at h ⊢
          obtain ⟨⟨items, r'⟩, hread, heq⟩ := bind_eq_ok_iff.mp h
          cases heq
          rw [← List.cons_append, hitems m _ _ _ _ hle hread]
          rfl
    rw [if_neg hbracket] at h
    cases hconstant : constant? (c :: s) with
    | some found =>
      rw [hconstant] at h
      cases h
      have hextend := constant?_extend hconstant t
      rw [List.cons_append] at hextend ⊢
      rw [scanOnce, if_neg hquote, if_neg hbrace, if_neg hbracket, hextend]
    | none =>
      rw [hconstant] at h
      have hscalar : enclosed j = false := (scanNumber_consumes h).1
      have hnumber := scanNumber_extend h (hstop.resolve_left (by simp [hscalar])) t
      obtain ⟨integer, after, hint⟩ := scanInt_of_number hnumber
      exact (scanOnce_number hint m room).trans hnumber

theorem extendsItems_succ {n : ℕ} (honce : ExtendsOnce n) (hitems : ExtendsItems n) :
    ExtendsItems (n + 1) := by
  intro m room s rest items hm h t
  obtain ⟨m, rfl⟩ : ∃ k, m = k + 1 := ⟨m - 1, by omega⟩
  have hle : n ≤ m := by omega
  rw [scanItems] at h ⊢
  obtain ⟨⟨item, r⟩, hitem, hrest⟩ := bind_eq_ok_iff.mp h
  dsimp only at hrest
  cases hskip : skip r with
  | nil =>
    rw [hskip] at hrest
    cases hrest
  | cons d r' =>
    rw [hskip] at hrest
    dsimp only at hrest
    -- behind an item the bracket closes the list, or a comma goes on with it
    by_cases hclose : d.val = 0x5D
    · have hread := honce m _ _ _ _ hle hitem (.inr (stopped_of_skip hskip (by simp [stops, hclose]))) t
      rw [if_pos hclose] at hrest
      cases hrest
      rw [hread]
      simp only [bind, Except.bind, skip_extend hskip, if_pos hclose]
      rfl
    rw [if_neg hclose] at hrest
    by_cases hcomma : d.val = 0x2C
    · have hread := honce m _ _ _ _ hle hitem (.inr (stopped_of_skip hskip (by simp [stops, hcomma]))) t
      rw [if_pos hcomma] at hrest
      obtain ⟨⟨more, u⟩, hmore, heq⟩ := bind_eq_ok_iff.mp hrest
      cases heq
      have hne : skip r' ≠ [] := by
        intro hnil
        rw [hnil, scanItems_nil] at hmore
        cases hmore
      rw [hread]
      simp only [bind, Except.bind, skip_extend hskip, if_neg hclose, if_pos hcomma,
        skip_append hne, hitems m _ _ _ _ hle hmore]
      rfl
    · rw [if_neg hcomma] at hrest
      cases hrest

theorem extendsMembers_succ {n : ℕ} (honce : ExtendsOnce n) (hmembers : ExtendsMembers n) :
    ExtendsMembers (n + 1) := by
  intro m room s rest found items hm h t
  obtain ⟨m, rfl⟩ : ∃ k, m = k + 1 := ⟨m - 1, by omega⟩
  have hle : n ≤ m := by omega
  cases s with
  | nil =>
    rw [scanMembers_nil] at h
    cases h
  | cons c s =>
    rw [scanMembers] at h
    rw [List.cons_append, scanMembers]
    by_cases hquote : c.val = 0x22
    · rw [if_pos hquote] at h ⊢
      obtain ⟨⟨key, r⟩, hkey, hrest⟩ := bind_eq_ok_iff.mp h
      rw [scanString_extend hle hkey]
      simp only [bind, Except.bind] at hrest ⊢
      cases hskip : skip r with
      | nil =>
        rw [hskip] at hrest
        cases hrest
      | cons d r₁ =>
        rw [hskip] at hrest
        rw [skip_extend hskip]
        dsimp only at hrest ⊢
        -- behind the key: a colon, and then the value
        by_cases hcolon : d.val = 0x3A
        · rw [if_pos hcolon] at hrest ⊢
          cases hvalue : scanOnce n room (skip r₁) with
          | error e =>
            rw [hvalue] at hrest
            cases hrest
          | ok read =>
            obtain ⟨value, r₂⟩ := read
            rw [hvalue] at hrest
            have hne : skip r₁ ≠ [] := by
              intro hnil
              rw [hnil, scanOnce_nil] at hvalue
              cases hvalue
            rw [skip_append hne]
            dsimp only at hrest
            -- behind the value a bracket closes the object, or a comma goes on with it
            cases hskip' : skip r₂ with
            | nil =>
              rw [hskip'] at hrest
              cases hrest
            | cons e r₃ =>
              rw [hskip'] at hrest
              dsimp only at hrest
              by_cases hclose : e.val = 0x7D
              · have hread := honce m _ _ _ _ hle hvalue
                  (.inr (stopped_of_skip hskip' (by simp [stops, hclose]))) t
                rw [if_pos hclose] at hrest
                cases hrest
                rw [hread]
                dsimp only
                rw [skip_extend hskip']
                dsimp only
                rw [if_pos hclose]
                rfl
              rw [if_neg hclose] at hrest
              by_cases hcomma : e.val = 0x2C
              · have hread := honce m _ _ _ _ hle hvalue
                  (.inr (stopped_of_skip hskip' (by simp [stops, hcomma]))) t
                rw [if_pos hcomma] at hrest
                have hne' : skip r₃ ≠ [] := by
                  intro hnil
                  rw [hnil, scanMembers_nil] at hrest
                  cases hrest
                rw [hread]
                dsimp only
                rw [skip_extend hskip']
                dsimp only
                rw [if_neg hclose, if_pos hcomma, skip_append hne']
                exact hmembers m _ _ _ _ _ hle hrest t
              · rw [if_neg hcomma] at hrest
                cases hrest
        · rw [if_neg hcolon] at hrest
          cases hrest
    · rw [if_neg hquote] at h
      cases h

/-- The three scanners call each other with a unit of fuel less, so the induction is on the fuel. -/
theorem extends_all (n : ℕ) : ExtendsOnce n ∧ ExtendsItems n ∧ ExtendsMembers n := by
  induction n with
  | zero =>
    refine ⟨fun m room s rest j _ h => ?_, fun m room s rest items _ h => ?_,
      fun m room s rest found items _ h => ?_⟩
    · rw [scanOnce] at h
      cases h
    · rw [scanItems] at h
      cases h
    · rw [scanMembers] at h
      cases h
  | succ n ih =>
    obtain ⟨honce, hitems, hmembers⟩ := ih
    exact ⟨extendsOnce_succ hitems hmembers, extendsItems_succ honce hitems,
      extendsMembers_succ honce hmembers⟩

/-- **What has been read is read of any longer text.** -/
theorem scanOnce_extend {n m room : ℕ} (hm : n ≤ m) {s rest : Str} {j : Json}
    (h : scanOnce n room s = .ok (j, rest)) (hstop : enclosed j = true ∨ Stopped rest) (t : Str) :
    scanOnce m room (s ++ t) = .ok (j, rest ++ t) :=
  (extends_all n).1 m room s rest j hm h hstop t

/-- **A text of a list or a dictionary** is none of any value once there stands something behind it
    that is no whitespace. -/
theorem loads_append {s : Str} {j : Json} (h : loads s = .ok j) (hj : enclosed j = true) {c : CodePoint}
    (hc : isWhitespace c = false) (t : Str) (i : Json) : loads (s ++ c :: t) ≠ .ok i := by
  intro hloads
  unfold loads at h hloads
  split at h
  · cases h
  · obtain ⟨⟨v, rest⟩, hscan, hrest⟩ := bind_eq_ok_iff.mp h
    have hne : skip s ≠ [] := by
      intro hnil
      rw [hnil, scanOnce_nil] at hscan
      cases hscan
    split at hloads
    · cases hloads
    · have hlength : 2 * s.length + 1 ≤ 2 * (s ++ c :: t).length + 1 := by
        rw [List.length_append]
        omega
      dsimp only at hrest
      split at hrest
      · rename_i hblank
        cases hrest
        have hextend := scanOnce_extend hlength hscan (.inl hj) (c :: t)
        -- whitespace is skipped up to the character, and it stays
        have hskip : skip (rest ++ c :: t) = c :: t := by
          rw [skip, List.dropWhile_append, show rest.dropWhile isWhitespace = [] from hblank]
          exact skip_cons hc t
        rw [skip_append hne, hextend] at hloads
        simp only [bind, Except.bind, hskip] at hloads
        cases hloads
      · cases hrest

end

end Py.Json
