import Mathlib.Data.List.Basic
import Mathlib.Logic.Function.Basic

/-!
# Self-delimiting encodings

An encoding into words is self-delimiting when its code can be split off the front of any longer
word: then whatever follows, both the value and the rest are determined. The property is closed
under the ways a printer puts its output together, and implies injectivity, so a printer is shown
to be injective by following its definition.

Injectivity alone is not closed under any of them. A number in decimal digits is determined by its
text, and two of them one behind the other are not. What makes the difference is a letter that
ends the code, a width that is fixed, or a prefix that announces it, and there is a lemma here for
each.

Joining two free words by a separator is *not* self-delimiting, and `join_eq_iff` says by how much
it is not: two pairs have one join exactly when they are equal or one separator inside the one is
the joint of the other. A program that keys a table by such a join confuses just these pairs.
-/

variable {α β γ : Type*}

/-- The code of a value can be split off the front of any longer word. -/
def SelfDelimiting (f : α → List β) : Prop :=
  ∀ a b x y, f a ++ x = f b ++ y → a = b ∧ x = y

namespace SelfDelimiting

variable {f : α → List β}

theorem injective (hf : SelfDelimiting f) : Function.Injective f := by
  intro a b h
  exact (hf a b [] [] (by rw [h])).1

theorem of_length (hlen : ∀ a b, (f a).length = (f b).length) (hf : Function.Injective f) :
    SelfDelimiting f := by
  intro a b x y h
  exact (List.append_inj h (hlen a b)).imp_left fun hab => hf hab

theorem prepend (p : List β) (hf : SelfDelimiting f) : SelfDelimiting fun a => p ++ f a := by
  intro a b x y h
  simp only [List.append_assoc] at h
  exact hf _ _ _ _ (List.append_cancel_left h)

theorem postpend (q : List β) (hf : SelfDelimiting f) : SelfDelimiting fun a => f a ++ q := by
  intro a b x y h
  simp only [List.append_assoc] at h
  obtain ⟨hab, hxy⟩ := hf _ _ _ _ h
  exact ⟨hab, List.append_cancel_left hxy⟩

theorem append {g : γ → List β} (hf : SelfDelimiting f) (hg : SelfDelimiting g) :
    SelfDelimiting fun p : α × γ => f p.1 ++ g p.2 := by
  intro ⟨a, c⟩ ⟨b, d⟩ x y h
  simp only [List.append_assoc] at h
  obtain ⟨hab, hrest⟩ := hf _ _ _ _ h
  obtain ⟨hcd, hxy⟩ := hg _ _ _ _ hrest
  exact ⟨by rw [hab, hcd], hxy⟩

/-- A letter that occurs in no code marks the end of one, and the codes need only be injective. -/
theorem terminated {stop : β} (hstop : ∀ a, stop ∉ f a) (hf : Function.Injective f) :
    SelfDelimiting fun a => f a ++ [stop] := by
  have hspan : ∀ u v x y : List β, stop ∉ u → stop ∉ v → u ++ stop :: x = v ++ stop :: y →
      u = v ∧ x = y := by
    intro u
    induction u with
    | nil =>
      intro v x y _ hv h
      cases v with
      | nil => exact ⟨rfl, (List.cons.inj h).2⟩
      | cons c v => exact absurd ((List.cons.inj h).1 ▸ List.mem_cons_self) hv
    | cons c u ih =>
      intro v x y hu hv h
      cases v with
      | nil => exact absurd ((List.cons.inj h).1 ▸ List.mem_cons_self) hu
      | cons d v =>
        obtain ⟨rfl, hrest⟩ := List.cons.inj h
        obtain ⟨rfl, hxy⟩ := ih v x y (fun hm => hu (List.mem_cons_of_mem _ hm))
          (fun hm => hv (List.mem_cons_of_mem _ hm)) hrest
        exact ⟨rfl, hxy⟩
  intro a b x y h
  simp only [List.append_assoc, List.cons_append, List.nil_append] at h
  exact (hspan _ _ _ _ (hstop a) (hstop b) h).imp_left fun hab => hf hab

/-!
## Sequences

The closure under lists: items one after the other up to a letter that begins none, items with a
separator between them, and items to the end of the word.
-/

/-- No code starts with `stop`, and none is empty. -/
def NotBegunBy (stop : β) (f : α → List β) : Prop := ∀ a, ∃ c w, f a = c :: w ∧ c ≠ stop

/-- A list is printed item by item and closed by a letter that begins no item. -/
theorem flatMap_terminated {stop : β} (hf : SelfDelimiting f) (hstop : NotBegunBy stop f) :
    SelfDelimiting fun s : List α => s.flatMap f ++ [stop] := by
  intro s
  induction s with
  | nil =>
    intro t x y h
    cases t with
    | nil => exact ⟨rfl, List.append_cancel_left h⟩
    | cons b t =>
      obtain ⟨c, w, hw, hc⟩ := hstop b
      simp only [List.flatMap_nil, List.nil_append, List.cons_append, List.flatMap_cons, hw] at h
      exact absurd (List.cons.inj h).1.symm hc
  | cons a s ih =>
    intro t x y h
    cases t with
    | nil =>
      obtain ⟨c, w, hw, hc⟩ := hstop a
      simp only [List.flatMap_nil, List.nil_append, List.cons_append, List.flatMap_cons, hw] at h
      exact absurd (List.cons.inj h).1 hc
    | cons b t =>
      simp only [List.flatMap_cons, List.append_assoc] at h
      obtain ⟨rfl, hrest⟩ := hf _ _ _ _ h
      obtain ⟨rfl, hxy⟩ := ih t x y (by simpa only [List.append_assoc] using hrest)
      exact ⟨rfl, hxy⟩

theorem flatMap_injective (hf : SelfDelimiting f) (hne : ∀ a, f a ≠ []) :
    Function.Injective fun s : List α => s.flatMap f := by
  intro s
  induction s with
  | nil =>
    intro t h
    cases t with
    | nil => rfl
    | cons b t =>
      simp only [List.flatMap_nil, List.flatMap_cons] at h
      exact absurd (List.append_eq_nil_iff.mp h.symm).1 (hne b)
  | cons a s ih =>
    intro t h
    cases t with
    | nil =>
      simp only [List.flatMap_nil, List.flatMap_cons] at h
      exact absurd (List.append_eq_nil_iff.mp h).1 (hne a)
    | cons b t =>
      simp only [List.flatMap_cons] at h
      obtain ⟨rfl, hrest⟩ := hf _ _ _ _ h
      rw [ih hrest]

theorem flatten_intersperse_cons (sep w : List β) (l : List (List β)) :
    ((w :: l).intersperse sep).flatten = w ++ l.flatMap fun v => sep ++ v := by
  induction l generalizing w with
  | nil => simp
  | cons v l ih =>
    rw [List.intersperse_cons_cons, List.flatten_cons, List.flatten_cons, ih]
    simp

/-- A list printed with a separator between its items and a closing letter after them. Neither the
    separator nor an item may begin with that letter. -/
theorem listed {stop : β} {sep : List β} (hf : SelfDelimiting f) (hstop : NotBegunBy stop f)
    (hsep : ∃ c w, sep = c :: w ∧ c ≠ stop) :
    SelfDelimiting fun l : List α => ((l.map f).intersperse sep).flatten ++ [stop] := by
  obtain ⟨d, v, rfl, hd⟩ := hsep
  have htail : SelfDelimiting fun l : List α => l.flatMap (fun a => (d :: v) ++ f a) ++ [stop] :=
    flatMap_terminated (hf.prepend _) fun a => ⟨d, v ++ f a, rfl, hd⟩
  intro l m x y h
  cases l with
  | nil =>
    cases m with
    | nil => exact ⟨rfl, List.append_cancel_left h⟩
    | cons b m =>
      obtain ⟨c, w, hw, hc⟩ := hstop b
      simp only [List.map_cons, flatten_intersperse_cons, hw] at h
      exact absurd (List.cons.inj h).1.symm hc
  | cons a l =>
    cases m with
    | nil =>
      obtain ⟨c, w, hw, hc⟩ := hstop a
      simp only [List.map_cons, flatten_intersperse_cons, hw] at h
      exact absurd (List.cons.inj h).1 hc
    | cons b m =>
      simp only [List.map_cons, flatten_intersperse_cons, List.append_assoc] at h
      obtain ⟨rfl, hrest⟩ := hf _ _ _ _ h
      obtain ⟨rfl, hxy⟩ := htail l m x y
        (by simpa only [List.flatMap_map, List.append_assoc] using hrest)
      exact ⟨rfl, hxy⟩

end SelfDelimiting

/-!
## Joins

Two free words around a separator, which is the case that is not self-delimiting.
-/

/-- A separator inside `p.2` is the joint of `q`. -/
def Shifts (sep : β) (p q : List β × List β) : Prop :=
  ∃ s, q.1 = p.1 ++ sep :: s ∧ p.2 = s ++ sep :: q.2

theorem Shifts.ne {sep : β} {p q : List β × List β} (h : Shifts sep p q) : p ≠ q := by
  rintro rfl
  obtain ⟨s, hp, -⟩ := h
  have hlen := congrArg List.length hp
  rw [List.length_append, List.length_cons] at hlen
  omega

/-- **How ambiguous a join is.** The two joints are the same place of the text, or one of them
    lies inside the other pair's first or second word. -/
theorem join_eq_iff {sep : β} {p q : List β × List β} :
    p.1 ++ sep :: p.2 = q.1 ++ sep :: q.2 ↔ p = q ∨ Shifts sep p q ∨ Shifts sep q p := by
  constructor
  · intro h
    cases List.append_eq_append_iff.mp h with
    | inl hpq =>
      obtain ⟨s, hq, hp⟩ := hpq
      cases s with
      | nil =>
        refine Or.inl (Prod.ext ?_ ?_)
        · rw [hq, List.append_nil]
        · exact (List.cons.inj hp).2
      | cons c s =>
        obtain ⟨rfl, hrest⟩ := List.cons.inj hp
        exact Or.inr (Or.inl ⟨s, hq, hrest⟩)
    | inr hqp =>
      obtain ⟨s, hp, hq⟩ := hqp
      cases s with
      | nil =>
        refine Or.inl (Prod.ext ?_ ?_)
        · rw [hp, List.append_nil]
        · exact (List.cons.inj hq).2.symm
      | cons c s =>
        obtain ⟨rfl, hrest⟩ := List.cons.inj hq
        exact Or.inr (Or.inr ⟨s, hp, hrest⟩)
  · intro h
    rcases h with rfl | ⟨s, hq, hp⟩ | ⟨s, hp, hq⟩
    · rfl
    · simp [hq, hp]
    · simp [hp, hq]
