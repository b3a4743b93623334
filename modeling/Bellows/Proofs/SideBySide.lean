import Mathlib.Data.Option.Basic
import Bellows.Proofs.Attempts

/-! Two computations side by side: related data goes in, related results come out, and where one
computation fails the other one fails in the same way. -/
namespace Bellows

variable {α β γ δ ε : Type} {R : α → β → Prop} {S : γ → δ → Prop}

/-- Two attempts with related results, or with the same failure. -/
inductive EndAlike (R : α → β → Prop) : Except ε α → Except ε β → Prop
  | ok {a : α} {b : β} (h : R a b) : EndAlike R (.ok a) (.ok b)
  | error (e : ε) : EndAlike R (.error e) (.error e)

namespace EndAlike

variable {x : Except ε α} {y : Except ε β}

/-- What comes next may rely on what the results so far have in common. -/
theorem bind {f : α → Except ε γ} {g : β → Except ε δ} (h : EndAlike R x y)
    (hnext : ∀ a b, R a b → EndAlike S (f a) (g b)) : EndAlike S (x >>= f) (y >>= g) := by
  cases h with
  | ok hab => exact hnext _ _ hab
  | error e => exact .error e

theorem map {f : α → γ} {g : β → δ} (h : EndAlike R x y)
    (hfg : ∀ a b, R a b → S (f a) (g b)) : EndAlike S (x.map f) (y.map g) := by
  cases h with
  | ok hab => exact .ok (hfg _ _ hab)
  | error e => exact .error e

theorem imp {S : α → β → Prop} (h : EndAlike R x y) (hRS : ∀ a b, R a b → S a b) :
    EndAlike S x y := by
  cases h with
  | ok hab => exact .ok (hRS _ _ hab)
  | error e => exact .error e

/-- Attempts made in step end alike as a whole when each pair of them does. -/
theorem mapM {l : List α} {r : List β} {f : α → Except ε γ} {g : β → Except ε δ}
    (h : List.Forall₂ (fun a b => EndAlike S (f a) (g b)) l r) :
    EndAlike (List.Forall₂ S) (l.mapM f) (r.mapM g) := by
  induction h with
  | nil => exact .ok .nil
  | cons hab _ ih =>
    rw [List.mapM_cons, List.mapM_cons]
    exact hab.bind fun c d hcd => ih.bind fun cs ds hrest => .ok (.cons hcd hrest)

/-- Attempts that both succeed have related results. -/
theorem related {a : α} {b : β} (h : EndAlike R x y) (hx : x = .ok a) (hy : y = .ok b) :
    R a b := by
  cases h with
  | ok hab =>
    cases hx
    cases hy
    exact hab
  | error e => cases hx

end EndAlike

/-- Fields on which related entries agree are the same lists. -/
theorem map_eq_of_forall₂ {l : List α} {r : List β} {f : α → γ} {g : β → γ}
    (h : List.Forall₂ R l r) (hfg : ∀ a b, R a b → f a = g b) : l.map f = r.map g := by
  induction h with
  | nil => rfl
  | cons hab _ ih => rw [List.map_cons, List.map_cons, hfg _ _ hab, ih]

theorem flatMap_eq_of_forall₂ {l : List α} {r : List β} {f : α → List γ} {g : β → List γ}
    (h : List.Forall₂ R l r) (hfg : ∀ a b, R a b → f a = g b) : l.flatMap f = r.flatMap g := by
  rw [List.flatMap_def, List.flatMap_def, map_eq_of_forall₂ h hfg]

/-- In matching lists each entry on the left has its partner on the right. -/
theorem exists_right_of_mem {l : List α} {r : List β} {a : α} (h : List.Forall₂ R l r)
    (ha : a ∈ l) : ∃ b ∈ r, R a b :=
  exists_left_of_mem h.flip ha

/-- What the partners of an entry in two lists have in common. -/
theorem forall₂_of_common {l : List α} {r : List β} {r' : List γ} {S : α → γ → Prop}
    {T : β → γ → Prop} (h : List.Forall₂ R l r) (h' : List.Forall₂ S l r')
    (hT : ∀ a ∈ l, ∀ b c, R a b → S a c → T b c) : List.Forall₂ T r r' := by
  induction h generalizing r' with
  | nil =>
    cases h'
    exact .nil
  | @cons a b _ _ hab _ ih =>
    cases h' with
    | cons hac hrest =>
      exact .cons (hT a List.mem_cons_self b _ hab hac)
        (ih hrest fun a' ha' => hT a' (List.mem_cons_of_mem _ ha'))

/-- What matches two lists one behind the other falls into two parts, one for each of them. -/
theorem forall₂_append_left_iff {l l' : List α} {r : List β} :
    List.Forall₂ R (l ++ l') r ↔
      ∃ s s', List.Forall₂ R l s ∧ List.Forall₂ R l' s' ∧ r = s ++ s' := by
  constructor
  · intro h
    exact ⟨r.take l.length, r.drop l.length, (List.forall₂_take_append r l l' h.flip).flip,
      (List.forall₂_drop_append r l l' h.flip).flip, (List.take_append_drop ..).symm⟩
  · rintro ⟨s, s', hs, hs', rfl⟩
    exact List.rel_append hs hs'

/-- A list that matches is there as soon as each entry has a partner. -/
theorem exists_forall₂_iff {l : List α} :
    (∃ r, List.Forall₂ R l r) ↔ ∀ a ∈ l, ∃ b, R a b := by
  constructor
  · rintro ⟨r, h⟩ a ha
    obtain ⟨b, _, hab⟩ := exists_right_of_mem h ha
    exact ⟨b, hab⟩
  · intro h
    induction l with
    | nil => exact ⟨[], .nil⟩
    | cons a l ih =>
      obtain ⟨b, hab⟩ := h a List.mem_cons_self
      obtain ⟨r, hr⟩ := ih fun a' ha' => h a' (List.mem_cons_of_mem _ ha')
      exact ⟨b :: r, .cons hab hr⟩

theorem isSome_eq_of_rel {a : Option α} {b : Option β} (h : Option.Rel R a b) :
    a.isSome = b.isSome := by
  cases h <;> rfl

/-- A field on which related values agree is read off both alike. -/
theorem map_eq_of_rel {a : Option α} {b : Option β} {f : α → γ} {g : β → γ} (h : Option.Rel R a b)
    (hfg : ∀ a b, R a b → f a = g b) : a.map f = b.map g := by
  cases h with
  | none => rfl
  | some hab => exact congrArg some (hfg _ _ hab)

theorem rel_getD {a : Option α} {b : Option β} {c : α} {d : β} (h : Option.Rel R a b)
    (hcd : R c d) : R (a.getD c) (b.getD d) := by
  cases h with
  | none => exact hcd
  | some hab => exact hab

/-- Lists related entry by entry have related last entries. -/
theorem rel_getLast? {l : List α} {r : List β} (h : List.Forall₂ R l r) :
    Option.Rel R l.getLast? r.getLast? := by
  induction h with
  | nil => exact .none
  | cons hab _ ih =>
    rw [List.getLast?_cons, List.getLast?_cons]
    exact .some (rel_getD ih hab)

/-- A search that cannot tell related entries apart finds related ones. -/
theorem rel_find? {l : List α} {r : List β} {p : α → Bool} {q : β → Bool}
    (h : List.Forall₂ R l r) (hpq : ∀ a b, R a b → p a = q b) :
    Option.Rel R (l.find? p) (r.find? q) := by
  induction h with
  | nil => exact .none
  | @cons a b _ _ hab _ ih =>
    rw [List.find?_cons, List.find?_cons, hpq a b hab]
    cases q b with
    | true => exact .some hab
    | false => exact ih

/-- What holds of neighbours on the left carries over to their partners. -/
theorem isChain_of_forall₂ {S : α → α → Prop} {T : β → β → Prop} {l : List α} {r : List β}
    (h : List.Forall₂ R l r) (hl : l.IsChain S)
    (hST : ∀ a a' b b', R a b → R a' b' → S a a' → T b b') : r.IsChain T := by
  induction h with
  | nil => exact .nil
  | cons hab hrest ih =>
    cases hrest with
    | nil => exact .singleton _
    | cons hab' _ =>
      obtain ⟨hhead, htail⟩ := List.isChain_cons_cons.mp hl
      exact .cons_cons (hST _ _ _ _ hab hab' hhead) (ih htail)

/-- Neighbours in two relations at once. -/
theorem isChain_and {S T : α → α → Prop} {l : List α} (hS : l.IsChain S) (hT : l.IsChain T) :
    l.IsChain fun a b => S a b ∧ T a b := by
  induction l with
  | nil => exact .nil
  | cons a l ih =>
    cases l with
    | nil => exact .singleton a
    | cons b l =>
      obtain ⟨hhead, htail⟩ := List.isChain_cons_cons.mp hS
      obtain ⟨hhead', htail'⟩ := List.isChain_cons_cons.mp hT
      exact .cons_cons ⟨hhead, hhead'⟩ (ih htail htail')

/-- Values found for all entries of a list. -/
theorem forall₂_of_mapM_eq_some {l : List α} {r : List β} {f : α → Option β}
    (h : l.mapM f = some r) : List.Forall₂ (fun a b => f a = some b) l r := by
  induction l generalizing r with
  | nil =>
    obtain rfl : [] = r := Option.some.inj h
    exact .nil
  | cons a l ih =>
    rw [List.mapM_cons] at h
    obtain ⟨b, hb, h⟩ := Option.bind_eq_some_iff.mp h
    obtain ⟨bs, hbs, h⟩ := Option.bind_eq_some_iff.mp h
    obtain rfl : b :: bs = r := Option.some.inj h
    exact .cons hb (ih hbs)

theorem rel_or {a a' : Option α} {b b' : Option β} (h : Option.Rel R a b)
    (h' : Option.Rel R a' b') : Option.Rel R (a.or a') (b.or b') := by
  cases h with
  | none => exact h'
  | some hab => exact .some hab

theorem rel_map {a : Option α} {b : Option β} {f : α → γ} {g : β → δ} (h : Option.Rel R a b)
    (hfg : ∀ a b, R a b → S (f a) (g b)) : Option.Rel S (a.map f) (b.map g) := by
  cases h with
  | none => exact .none
  | some hab => exact .some (hfg _ _ hab)

end Bellows
