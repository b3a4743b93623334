import Mathlib.Data.List.Basic

/-! Lists in which an entry is looked at together with those in front of it, and in which the latest
statement is the one that holds. -/
namespace Bellows

/-- The entries of a list, each with those in front of it. -/
def placesFrom {α : Type} (before : List α) : List α → List (List α × α)
  | [] => []
  | a :: l => (before, a) :: placesFrom (before ++ [a]) l

/-- The latest statement in a list in which some entries state something. -/
def latest? {α β : Type} (f : α → Option β) (l : List α) : Option β := (l.filterMap f).getLast?

variable {α β : Type} {l : List α} {f : α → Option β}

theorem placesFrom_append (before l l' : List α) :
    placesFrom before (l ++ l') = placesFrom before l ++ placesFrom (before ++ l) l' := by
  induction l generalizing before with
  | nil => rw [List.append_nil]; rfl
  | cons a l ih =>
    rw [List.cons_append, placesFrom, ih, List.append_assoc]
    rfl

theorem mem_placesFrom_iff {before : List α} {p : List α × α} :
    p ∈ placesFrom before l ↔ ∃ front after, l = front ++ p.2 :: after ∧ p.1 = before ++ front := by
  induction l generalizing before with
  | nil =>
    constructor
    · intro h
      cases h
    · rintro ⟨front, after, h, _⟩
      cases front <;> cases h
  | cons a l ih =>
    rw [placesFrom, List.mem_cons, ih]
    constructor
    · rintro (rfl | ⟨front, after, rfl, hbefore⟩)
      · exact ⟨[], l, rfl, (List.append_nil _).symm⟩
      · exact ⟨a :: front, after, rfl, by rw [hbefore, List.append_assoc]; rfl⟩
    · rintro ⟨front, after, h, hbefore⟩
      cases front with
      | nil =>
        cases h
        exact Or.inl (Prod.ext (hbefore.trans (List.append_nil _)) rfl)
      | cons _ front =>
        cases h
        exact Or.inr ⟨front, after, rfl, by rw [hbefore, List.append_assoc]; rfl⟩

theorem forall_mem_placesFrom {before : List α} {motive : α → Prop} :
    (∀ p ∈ placesFrom before l, motive p.2) ↔ ∀ a ∈ l, motive a := by
  constructor
  · intro h a ha
    obtain ⟨front, after, rfl⟩ := List.append_of_mem ha
    exact h (before ++ front, a) (mem_placesFrom_iff.mpr ⟨front, after, rfl, rfl⟩)
  · intro h p hp
    obtain ⟨front, after, rfl, _⟩ := mem_placesFrom_iff.mp hp
    exact h p.2 (List.mem_append_right _ List.mem_cons_self)

theorem flatMap_append_singleton (g : α → List β) (l : List α) (a : α) :
    (l ++ [a]).flatMap g = l.flatMap g ++ g a := by
  rw [List.flatMap_append, List.flatMap_singleton]

/-- Places in the lists that entries stand for, one list behind the other. -/
theorem placesFrom_flatMap (g : α → List β) (before l : List α) :
    placesFrom (before.flatMap g) (l.flatMap g) =
      (placesFrom before l).flatMap fun p => placesFrom (p.1.flatMap g) (g p.2) := by
  induction l generalizing before with
  | nil => rfl
  | cons a l ih =>
    rw [List.flatMap_cons, placesFrom_append, ← flatMap_append_singleton, ih, placesFrom,
      List.flatMap_cons]

/-- An entry that states nothing leaves the latest statement as it is. -/
theorem latest?_append_singleton (f : α → Option β) (l : List α) (a : α) :
    latest? f (l ++ [a]) = (f a).or (latest? f l) := by
  unfold latest?
  rw [List.filterMap_append, List.getLast?_append]
  cases h : f a with
  | none => rw [List.filterMap_cons_none h]; rfl
  | some b => rw [List.filterMap_cons_some h]; rfl

theorem latest?_eq_none_iff : latest? f l = none ↔ ∀ a ∈ l, f a = none := by
  unfold latest?
  rw [List.getLast?_eq_none_iff, List.filterMap_eq_nil_iff]

theorem isSome_latest?_iff : (latest? f l).isSome ↔ ∃ a ∈ l, (f a).isSome := by
  simp only [← Option.ne_none_iff_isSome, ne_eq, latest?_eq_none_iff, not_forall, exists_prop]

end Bellows
