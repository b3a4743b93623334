import Mathlib.Data.List.Forall2

/-! Attempts one after another: all of them succeed, or the first failure is the answer. -/
namespace Bellows

variable {α β ε : Type} {f : α → Except ε β} {a : α} {b : β} {e : ε} {l : List α} {r : List β}

/-- An attempt that goes on to succeed has succeeded so far. -/
theorem exists_of_bind_eq_ok {γ : Type} {x : Except ε β} {g : β → Except ε γ} {c : γ}
    (h : x >>= g = .ok c) : ∃ b, x = .ok b ∧ g b = .ok c := by
  cases x with
  | error e => cases h
  | ok b => exact ⟨b, rfl, h⟩

/-- An attempt that goes on to fail fails at once, or after it has succeeded so far. -/
theorem error_cases_of_bind {γ : Type} {x : Except ε β} {g : β → Except ε γ}
    (h : x >>= g = .error e) : x = .error e ∨ ∃ b, x = .ok b ∧ g b = .error e := by
  cases x with
  | error e' =>
    cases h
    exact Or.inl rfl
  | ok b => exact Or.inr ⟨b, rfl, h⟩

/-- A result that was changed comes from one that was not. -/
theorem exists_of_map_eq_ok {γ : Type} {x : Except ε β} {g : β → γ} {c : γ}
    (h : x.map g = .ok c) : ∃ b, x = .ok b ∧ g b = c := by
  cases x with
  | error e => cases h
  | ok b => exact ⟨b, rfl, Except.ok.inj h⟩

theorem eq_error_of_map {γ : Type} {x : Except ε β} {g : β → γ} (h : x.map g = .error e) :
    x = .error e := by
  cases x with
  | error e' =>
    cases h
    rfl
  | ok b => cases h

/-- What goes on without failing does not fail by itself. -/
theorem eq_error_of_bind {γ : Type} {x : Except ε β} {g : β → γ}
    (h : (x >>= fun b => .ok (g b)) = .error e) : x = .error e := by
  cases x with
  | error e' =>
    cases h
    rfl
  | ok b => cases h

theorem mapM_cons_of_ok (h : f a = .ok b) : (a :: l).mapM f = (l.mapM f).map (b :: ·) := by
  rw [List.mapM_cons, h]
  cases l.mapM f <;> rfl

theorem mapM_cons_of_error (h : f a = .error e) : (a :: l).mapM f = .error e := by
  rw [List.mapM_cons, h]
  rfl

theorem mapM_singleton (f : α → Except ε β) (a : α) : [a].mapM f = (f a).map ([·]) := by
  cases h : f a with
  | error e => exact mapM_cons_of_error h
  | ok b => exact mapM_cons_of_ok h

theorem mapM_eq_ok_iff : l.mapM f = .ok r ↔ List.Forall₂ (fun a b => f a = .ok b) l r := by
  induction l generalizing r with
  | nil =>
    rw [List.forall₂_nil_left_iff]
    exact ⟨fun h => (Except.ok.inj h).symm, fun h => by rw [h]; rfl⟩
  | cons a l ih =>
    constructor
    · intro h
      cases hfa : f a with
      | error e =>
        rw [mapM_cons_of_error hfa] at h
        cases h
      | ok b =>
        rw [mapM_cons_of_ok hfa] at h
        cases hrest : l.mapM f with
        | error e =>
          rw [hrest] at h
          cases h
        | ok bs =>
          rw [hrest] at h
          cases h
          exact .cons hfa (ih.mp hrest)
    · intro h
      cases h with
      | cons hfa hrest =>
        rw [mapM_cons_of_ok hfa, ih.mpr hrest]
        rfl

/-- Attempts that are known to succeed just map a list. -/
theorem mapM_eq_pure {m : Type → Type} [Monad m] [LawfulMonad m] {f : α → m β} {g : α → β}
    (h : ∀ a ∈ l, f a = pure (g a)) : l.mapM f = pure (l.map g) := by
  induction l with
  | nil => rw [List.mapM_nil, List.map_nil]
  | cons a l ih =>
    rw [List.mapM_cons, h a List.mem_cons_self, pure_bind,
      ih fun b hb => h b (List.mem_cons_of_mem _ hb), pure_bind, List.map_cons]

/-- The same attempts entry by entry are the same as a whole. -/
theorem mapM_congr {g : α → Except ε β} (h : ∀ a ∈ l, f a = g a) : l.mapM f = l.mapM g := by
  induction l with
  | nil => rfl
  | cons a l ih =>
    rw [List.mapM_cons, List.mapM_cons, h a List.mem_cons_self,
      ih fun b hb => h b (List.mem_cons_of_mem _ hb)]

/-- In matching lists each entry on the right has its partner on the left. -/
theorem exists_left_of_mem {R : α → β → Prop} (h : List.Forall₂ R l r) (hb : b ∈ r) :
    ∃ a ∈ l, R a b := by
  induction h with
  | nil => cases hb
  | @cons c d l r hcd _ ih =>
    rcases List.mem_cons.mp hb with rfl | hb
    · exact ⟨c, List.mem_cons_self, hcd⟩
    · obtain ⟨a, ha, hab⟩ := ih hb
      exact ⟨a, List.mem_cons_of_mem _ ha, hab⟩

/-- Order among entries carries over to their partners. -/
theorem pairwise_of_forall₂ {R : α → β → Prop} {S : α → α → Prop} {T : β → β → Prop}
    (h : List.Forall₂ R l r) (hl : l.Pairwise S)
    (hST : ∀ a a' b b', a ∈ l → R a b → R a' b' → S a a' → T b b') : r.Pairwise T := by
  induction h with
  | nil => exact List.Pairwise.nil
  | @cons a b l r hab hlr ih =>
    obtain ⟨hhead, htail⟩ := List.pairwise_cons.mp hl
    refine List.pairwise_cons.mpr ⟨fun b' hb' => ?_, ?_⟩
    · obtain ⟨a', ha', hab'⟩ := exists_left_of_mem hlr hb'
      exact hST a a' b b' List.mem_cons_self hab hab' (hhead a' ha')
    · exact ih htail fun c c' d d' hc => hST c c' d d' (List.mem_cons_of_mem _ hc)

/-- Attempts that succeed one by one succeed together. -/
theorem exists_mapM_eq_ok (h : ∀ a ∈ l, ∃ b, f a = .ok b) : ∃ r, l.mapM f = .ok r := by
  induction l with
  | nil => exact ⟨[], rfl⟩
  | cons a l ih =>
    obtain ⟨b, hb⟩ := h a List.mem_cons_self
    obtain ⟨r, hr⟩ := ih fun a ha => h a (List.mem_cons_of_mem _ ha)
    exact ⟨b :: r, by rw [mapM_cons_of_ok hb, hr]; rfl⟩

/-- The failure of the whole is that of one of the attempts. -/
theorem exists_of_mapM_eq_error (h : l.mapM f = .error e) : ∃ a ∈ l, f a = .error e := by
  induction l with
  | nil => cases h
  | cons a l ih =>
    cases hfa : f a with
    | error e' =>
      rw [mapM_cons_of_error hfa] at h
      cases h
      exact ⟨a, List.mem_cons_self, hfa⟩
    | ok b =>
      rw [mapM_cons_of_ok hfa] at h
      cases hrest : l.mapM f with
      | ok r =>
        rw [hrest] at h
        cases h
      | error e' =>
        rw [hrest] at h
        cases h
        obtain ⟨a', ha', he⟩ := ih hrest
        exact ⟨a', List.mem_cons_of_mem _ ha', he⟩

/-- A failure behind attempts that all succeed is the failure of the whole. -/
theorem mapM_eq_error {k : Nat} (hk : k < l.length) (he : f l[k] = .error e)
    (hbefore : ∀ j (hj : j < l.length), j < k → ∃ b, f l[j] = .ok b) : l.mapM f = .error e := by
  induction l generalizing k with
  | nil => exact absurd hk (Nat.not_lt_zero k)
  | cons a l ih =>
    cases k with
    | zero => exact mapM_cons_of_error he
    | succ k =>
      obtain ⟨b, hb⟩ : ∃ b, f a = .ok b := hbefore 0 (Nat.zero_lt_succ _) (Nat.zero_lt_succ _)
      have hrest := ih (Nat.lt_of_succ_lt_succ hk) he fun j hj hjk =>
        hbefore (j + 1) (Nat.succ_lt_succ hj) (Nat.succ_lt_succ hjk)
      rw [mapM_cons_of_ok hb, hrest]
      rfl

/-- An attempt on every entry comes to nothing exactly if one of them does. -/
theorem mapM_eq_none_iff {f : α → Option β} :
    l.mapM f = none ↔ ∃ a ∈ l, f a = none := by
  induction l with
  | nil => simp
  | cons a l ih =>
    rw [List.mapM_cons, List.exists_mem_cons_iff, ← ih]
    cases f a with
    | none => simp
    | some b => cases l.mapM f <;> simp

end Bellows
