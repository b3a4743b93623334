import Mathlib.Data.List.Perm.Basic
import Bellows.Proofs.SideBySide

/-! Lists whose entries are related in some order, and attempts that go well together or fail
together, each failure in its own way. -/
namespace Bellows

variable {α β γ δ ε ε' : Type} {R : α → β → Prop} {S : γ → δ → Prop} {F : ε → ε' → Prop}
  {l : List α} {r : List β} {a : α} {b : β}

/-- The entries of one list, put in some order, are related to those of another one. -/
def UpToOrder (R : α → β → Prop) (l : List α) (r : List β) : Prop :=
  ∃ m, l.Perm m ∧ List.Forall₂ R m r

/-- Pieces that agree up to order make up wholes that do. -/
theorem perm_flatMap_of_forall₂ {f : α → List γ} {g : β → List γ} (h : List.Forall₂ R l r)
    (hfg : ∀ a b, R a b → (f a).Perm (g b)) : (l.flatMap f).Perm (r.flatMap g) := by
  induction h with
  | nil => exact .nil
  | cons hab _ ih =>
    rw [List.flatMap_cons, List.flatMap_cons]
    exact (hfg _ _ hab).append ih

namespace UpToOrder

theorem of_forall₂ (h : List.Forall₂ R l r) : UpToOrder R l r := ⟨l, .refl l, h⟩

theorem perm {l l' : List α} (h : UpToOrder (· = ·) l l') : l.Perm l' := by
  obtain ⟨m, hperm, hall⟩ := h
  rw [List.forall₂_eq_eq_eq] at hall
  exact hall ▸ hperm

theorem nil_iff (h : UpToOrder R l r) : l = [] ↔ r = [] := by
  obtain ⟨m, hperm, hall⟩ := h
  rw [← List.length_eq_zero_iff, ← List.length_eq_zero_iff, hperm.length_eq, hall.length_eq]

theorem exists_right (h : UpToOrder R l r) (ha : a ∈ l) : ∃ b ∈ r, R a b := by
  obtain ⟨m, hperm, hall⟩ := h
  exact exists_right_of_mem hall (hperm.mem_iff.mp ha)

theorem exists_left (h : UpToOrder R l r) (hb : b ∈ r) : ∃ a ∈ l, R a b := by
  obtain ⟨m, hperm, hall⟩ := h
  obtain ⟨a, ha, hab⟩ := exists_left_of_mem hall hb
  exact ⟨a, hperm.mem_iff.mpr ha, hab⟩

theorem filterMap {f : α → Option γ} {g : β → Option δ} (h : UpToOrder R l r)
    (hfg : ∀ a b, R a b → Option.Rel S (f a) (g b)) :
    UpToOrder S (l.filterMap f) (r.filterMap g) := by
  obtain ⟨m, hperm, hall⟩ := h
  exact ⟨m.filterMap f, hperm.filterMap f, List.rel_filterMap (fun {a b} => hfg a b) hall⟩

/-- Lists with the same keys, in whatever order, are related if entries under one key are. -/
theorem of_keys {κ : Type} {f : α → κ} {g : β → κ} (hkeys : (l.map f).Perm (r.map g))
    (h : ∀ a ∈ l, ∀ b ∈ r, f a = g b → R a b) : UpToOrder R l r := by
  have hcomp : Relation.Comp (List.Forall₂ fun a k => f a = k) List.Perm l (r.map g) :=
    ⟨l.map f, List.forall₂_map_right_iff.mpr (List.forall₂_same.mpr fun _ _ => rfl), hkeys⟩
  rw [List.forall₂_comp_perm_eq_perm_comp_forall₂] at hcomp
  obtain ⟨m, hperm, hall⟩ := hcomp
  rw [List.forall₂_map_right_iff, List.forall₂_iff_zip] at hall
  refine ⟨m, hperm, List.forall₂_iff_zip.mpr ⟨hall.1, fun hzip => ?_⟩⟩
  obtain ⟨ha, hb⟩ := List.of_mem_zip hzip
  exact h _ (hperm.mem_iff.mpr ha) _ hb (hall.2 hzip)

end UpToOrder

/-- Two attempts with related results, or with related failures. -/
inductive EndRelated (R : α → β → Prop) (F : ε → ε' → Prop) : Except ε α → Except ε' β → Prop
  | ok {a : α} {b : β} (h : R a b) : EndRelated R F (.ok a) (.ok b)
  | error {e : ε} {e' : ε'} (h : F e e') : EndRelated R F (.error e) (.error e')

namespace EndRelated

theorem imp {R' : α → β → Prop} {F' : ε → ε' → Prop} {x : Except ε α} {y : Except ε' β}
    (h : EndRelated R F x y) (hR : ∀ a b, R a b → R' a b)
    (hF : ∀ e e', x = .error e → F e e' → F' e e') : EndRelated R' F' x y := by
  cases h with
  | ok h => exact .ok (hR _ _ h)
  | error h => exact .error (hF _ _ rfl h)

/-- Attempts made in step end in related ways as a whole when each pair of them does. -/
theorem mapM {f : α → Except ε γ} {g : β → Except ε' δ}
    (h : List.Forall₂ (fun a b => EndRelated S F (f a) (g b)) l r) :
    EndRelated (List.Forall₂ S) F (l.mapM f) (r.mapM g) := by
  induction h with
  | nil => exact .ok .nil
  | @cons a b l r hab _ ih =>
    rw [List.mapM_cons, List.mapM_cons]
    generalize f a = x, g b = y at hab
    generalize l.mapM f = xs, r.mapM g = ys at ih
    cases hab with
    | error hF => exact .error hF
    | ok hcd =>
      cases ih with
      | error hF => exact .error hF
      | ok hrest => exact .ok (.cons hcd hrest)

end EndRelated

/-- Attempts that succeed together, with related results. -/
abbrev SucceedAlike (R : α → β → Prop) : Except ε α → Except ε' β → Prop :=
  EndRelated R fun _ _ => True

namespace SucceedAlike

variable {x : Except ε α} {y : Except ε' β}

theorem of_ok (h : ∀ a, x = .ok a → ∃ b, y = .ok b ∧ R a b)
    (h' : ∀ b, y = .ok b → ∃ a, x = .ok a) : SucceedAlike R x y := by
  cases x with
  | ok a =>
    obtain ⟨b, rfl, hab⟩ := h a rfl
    exact .ok hab
  | error e =>
    cases y with
    | ok b =>
      obtain ⟨a, ha⟩ := h' b rfl
      cases ha
    | error e' => exact .error trivial

theorem exists_right (h : SucceedAlike R x y) (hx : x = .ok a) : ∃ b, y = .ok b ∧ R a b := by
  cases h with
  | ok hab =>
    cases hx
    exact ⟨_, rfl, hab⟩
  | error _ => cases hx

theorem exists_left (h : SucceedAlike R x y) (hy : y = .ok b) : ∃ a, x = .ok a ∧ R a b := by
  cases h with
  | ok hab =>
    cases hy
    exact ⟨_, rfl, hab⟩
  | error _ => cases hy

/-- What comes next may rely on what the results so far have in common. -/
theorem bind {f : α → Except ε γ} {g : β → Except ε' δ} (h : SucceedAlike R x y)
    (hnext : ∀ a b, R a b → SucceedAlike S (f a) (g b)) : SucceedAlike S (x >>= f) (y >>= g) := by
  cases h with
  | ok hab => exact hnext _ _ hab
  | error _ => exact .error trivial

end SucceedAlike

/-- What is attempted in another order succeeds as well, with the results in another order. -/
theorem exists_mapM_eq_ok_of_perm {f : α → Except ε γ} {l l' : List α} {r : List γ}
    (hperm : l.Perm l') (h : l.mapM f = .ok r) : ∃ r', l'.mapM f = .ok r' ∧ r.Perm r' := by
  obtain ⟨r', hall, hr⟩ := List.perm_comp_forall₂ hperm.symm (mapM_eq_ok_iff.mp h)
  exact ⟨r', mapM_eq_ok_iff.mpr hall, hr.symm⟩

end Bellows
