import AdversarialCognition.Lib.Untyped
import Mathlib.Data.List.Forall2

/-!
# Lists that correspond item by item

What holds of the items of one list and of those of a list beside it, and the lists that a
computation that may raise makes of a list.

A report is made row by row of outcomes, and read back row by row from what was printed. Each such
step is a `mapM` in `Except`, of which all that matters is that the results stand beside what they
were made of. `mapM_forall₂` and `forall₂_of_mapM` are the two directions, and the other lemmas
carry a property of one side to the other.
-/

namespace Py

section Related

variable {α β γ ε : Type} {R : α → β → Prop} {l : List α} {bs : List β}

theorem exists_mem_of_forall₂ (h : List.Forall₂ R l bs) : ∀ a ∈ l, ∃ b ∈ bs, R a b := by
  induction h with
  | nil => exact List.forall_mem_nil _
  | cons hab _ ih =>
    refine List.forall_mem_cons.2 ⟨⟨_, List.mem_cons_self, hab⟩, fun a ha => ?_⟩
    obtain ⟨b, hb, hR⟩ := ih a ha
    exact ⟨b, List.mem_cons_of_mem _ hb, hR⟩

theorem map_eq_map_of_forall₂ {f : α → γ} {g : β → γ} (h : List.Forall₂ R l bs)
    (hfg : ∀ a b, R a b → g b = f a) : bs.map g = l.map f := by
  induction h with
  | nil => rfl
  | cons hab _ ih => rw [List.map_cons, List.map_cons, hfg _ _ hab, ih]

theorem forall_mem_of_forall₂ {P : β → Prop} (h : List.Forall₂ R l bs)
    (hP : ∀ a ∈ l, ∀ b, R a b → P b) : ∀ b ∈ bs, P b := by
  induction h with
  | nil => exact List.forall_mem_nil _
  | cons hab _ ih =>
    refine List.forall_mem_cons.2 ⟨hP _ List.mem_cons_self _ hab, ih fun a ha => ?_⟩
    exact hP a (List.mem_cons_of_mem _ ha)

theorem forall_mem_iff_of_forall₂ {P : α → Prop} {Q : β → Prop} (h : List.Forall₂ R l bs)
    (hiff : ∀ a ∈ l, ∀ b, R a b → (Q b ↔ P a)) : (∀ b ∈ bs, Q b) ↔ ∀ a ∈ l, P a := by
  induction h with
  | nil => simp
  | cons hab _ ih =>
    rw [List.forall_mem_cons, List.forall_mem_cons, hiff _ List.mem_cons_self _ hab,
      ih fun a ha => hiff a (List.mem_cons_of_mem _ ha)]

theorem exists_map_eq_of_forall₂ {δ ζ : Type} {f : α → γ} {g : β → δ} {u : ζ → γ} {v : ζ → δ}
    (h : List.Forall₂ R l bs) (hR : ∀ a b, R a b → ∃ c, f a = u c ∧ g b = v c) :
    ∃ cs : List ζ, l.map f = cs.map u ∧ bs.map g = cs.map v := by
  induction h with
  | nil => exact ⟨[], rfl, rfl⟩
  | cons hab _ ih =>
    obtain ⟨c, hf, hg⟩ := hR _ _ hab
    obtain ⟨cs, hfs, hgs⟩ := ih
    exact ⟨c :: cs, by rw [List.map_cons, List.map_cons, hf, hfs], by rw [List.map_cons, List.map_cons, hg, hgs]⟩

theorem mapM_forall₂ {f : α → Except ε β} (h : ∀ a ∈ l, ∃ b, f a = .ok b ∧ R a b) :
    ∃ bs, l.mapM f = .ok bs ∧ List.Forall₂ R l bs := by
  induction l with
  | nil => exact ⟨[], rfl, .nil⟩
  | cons a l ih =>
    obtain ⟨b, hb, hR⟩ := h a List.mem_cons_self
    obtain ⟨bs, hbs, hall⟩ := ih fun a hmem => h a (List.mem_cons_of_mem _ hmem)
    refine ⟨b :: bs, ?_, .cons hR hall⟩
    rw [List.mapM_cons, hb, hbs]
    rfl

theorem forall₂_of_mapM {f : α → Except ε β} (h : l.mapM f = .ok bs) :
    List.Forall₂ (fun a b => f a = .ok b) l bs := by
  induction l generalizing bs with
  | nil =>
    cases h
    exact .nil
  | cons a l ih =>
    rw [List.mapM_cons] at h
    obtain ⟨b, hb, h⟩ := bind_eq_ok_iff.1 h
    obtain ⟨rest, hrest, h⟩ := bind_eq_ok_iff.1 h
    cases h
    exact .cons hb (ih hrest)

theorem eq_map_of_mapM {f : α → Except ε β} {g : α → β} (h : l.mapM f = .ok bs)
    (hg : ∀ a b, f a = .ok b → b = g a) : bs = l.map g := by
  have hall := map_eq_map_of_forall₂ (g := id) (forall₂_of_mapM h) hg
  rwa [List.map_id] at hall

theorem mapM_zipWith {f : α → Except ε γ} {g : α → β → γ} (hlength : l.length = bs.length)
    (h : ∀ p ∈ l.zip bs, f p.1 = .ok (g p.1 p.2)) : l.mapM f = .ok (List.zipWith g l bs) := by
  induction l generalizing bs with
  | nil => rfl
  | cons a l ih =>
    cases bs with
    | nil => cases hlength
    | cons b bs =>
      obtain ⟨hfirst, hrest⟩ := List.forall_mem_cons.1 h
      rw [List.mapM_cons, hfirst, ih (Nat.succ.inj hlength) hrest]
      rfl

theorem eq_of_mem_zip {f : α → γ} {g : β → γ} (h : l.map f = bs.map g) :
    ∀ p ∈ l.zip bs, f p.1 = g p.2 := by
  induction l generalizing bs with
  | nil => exact List.forall_mem_nil _
  | cons a l ih =>
    cases bs with
    | nil => cases h
    | cons b bs =>
      rw [List.map_cons, List.map_cons, List.cons.injEq] at h
      exact List.forall_mem_cons.2 ⟨h.1, ih h.2⟩

end Related

end Py
