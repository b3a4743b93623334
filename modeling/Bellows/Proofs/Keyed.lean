import Mathlib.Data.List.Induction
import Mathlib.Data.List.Nodup
import Bellows.Keyed
import Bellows.Proofs.SideBySide

/-! Maps that entries are put into: what they hold was put into them, and related entries make up
related maps. -/
namespace Bellows.Keyed

variable {κ ν μ : Type} [DecidableEq κ] {R : ν → μ → Prop} {es : List (κ × ν)}
  {es' : List (κ × μ)} {e : κ × ν}

theorem mem_putEntry {k : κ} {v : ν} (h : e ∈ putEntry k v es) : e = (k, v) ∨ e ∈ es := by
  induction es with
  | nil => exact Or.inl (List.mem_singleton.mp h)
  | cons d es ih =>
    unfold putEntry at h
    split at h
    · exact (List.mem_cons.mp h).imp id (List.mem_cons_of_mem _)
    · rcases List.mem_cons.mp h with rfl | h
      · exact Or.inr List.mem_cons_self
      · exact (ih h).imp id (List.mem_cons_of_mem _)

/-- What is found in a map that entries were put into is one of these entries. -/
theorem mem_of_mem_ofList (h : e ∈ (ofList es).entries) : e ∈ es := by
  have hfold : ∀ (es : List (κ × ν)) (m : Keyed κ ν),
      e ∈ (es.foldl (fun m e => m.put e.1 e.2) m).entries → e ∈ m.entries ∨ e ∈ es := by
    intro es
    induction es with
    | nil => exact fun m hmem => Or.inl hmem
    | cons d es ih =>
      intro m hmem
      rcases ih (m.put d.1 d.2) hmem with hold | hrest
      · rcases mem_putEntry hold with rfl | hold
        · exact Or.inr List.mem_cons_self
        · exact Or.inl hold
      · exact Or.inr (List.mem_cons_of_mem _ hrest)
  exact (hfold es empty h).elim (fun hnil => (by cases hnil)) id

/-- Of several entries put under one key the last one stays. -/
theorem get?_ofList (es : List (κ × ν)) (k : κ) :
    (ofList es).get? k = (es.filter (·.1 = k)).getLast?.map Prod.snd := by
  induction es using List.reverseRecOn with
  | nil => rfl
  | append_singleton es e ih =>
    have hput : ofList (es ++ [e]) = (ofList es).put e.1 e.2 := List.foldl_concat ..
    rw [hput, get?_put, ih, List.filter_append, List.getLast?_append]
    by_cases h : e.1 = k <;> simp [h]

theorem contains_iff_mem_keys {m : Keyed κ ν} {k : κ} : m.contains k ↔ k ∈ m.keys := by
  unfold contains keys
  rw [Option.isSome_iff_exists, List.mem_map]
  constructor
  · rintro ⟨v, hv⟩
    exact ⟨(k, v), (m.get?_eq_some_iff k v).mp hv, rfl⟩
  · rintro ⟨⟨_, v⟩, hmem, rfl⟩
    exact ⟨v, (m.get?_eq_some_iff _ v).mpr hmem⟩

/-- Related values under the same key. -/
def SameKey (R : ν → μ → Prop) (e : κ × ν) (e' : κ × μ) : Prop := e.1 = e'.1 ∧ R e.2 e'.2

theorem rel_find? (h : List.Forall₂ (SameKey R) es es') (k : κ) :
    Option.Rel R (find? k es) (find? k es') := by
  induction h with
  | nil => exact .none
  | cons he _ ih =>
    unfold find?
    rw [← he.1]
    split
    · exact .some he.2
    · exact ih

theorem rel_putEntry (h : List.Forall₂ (SameKey R) es es') {e : κ × ν} {e' : κ × μ}
    (he : SameKey R e e') :
    List.Forall₂ (SameKey R) (putEntry e.1 e.2 es) (putEntry e'.1 e'.2 es') := by
  obtain ⟨k, v⟩ := e
  obtain ⟨_, w⟩ := e'
  obtain ⟨rfl, hvw⟩ := he
  induction h with
  | nil => exact .cons ⟨rfl, hvw⟩ .nil
  | cons hd hrest ih =>
    unfold putEntry
    rw [← hd.1]
    split
    · exact .cons ⟨rfl, hvw⟩ hrest
    · exact .cons hd ih

/-- Related entries are put in the same places. -/
theorem rel_ofList (h : List.Forall₂ (SameKey R) es es') :
    List.Forall₂ (SameKey R) (ofList es).entries (ofList es').entries := by
  have hfold : ∀ {es : List (κ × ν)} {es' : List (κ × μ)} {m : Keyed κ ν} {m' : Keyed κ μ},
      List.Forall₂ (SameKey R) es es' → List.Forall₂ (SameKey R) m.entries m'.entries →
      List.Forall₂ (SameKey R) (es.foldl (fun m e => m.put e.1 e.2) m).entries
        (es'.foldl (fun m e => m.put e.1 e.2) m').entries := by
    intro es es' m m' hes
    induction hes generalizing m m' with
    | nil => exact id
    | cons he _ ih => exact fun hm => ih (rel_putEntry hm he)
  exact hfold h .nil

omit [DecidableEq κ] in
/-- Maps with the same entries, and the same keys in the same order, are the same. -/
theorem eq_of_perm {m m' : Keyed κ ν} (hkeys : m.keys = m'.keys)
    (hperm : m.entries.Perm m'.entries) : m = m' := by
  have hall : List.Forall₂ (fun e e' : κ × ν => e.1 = e'.1) m.entries m'.entries := by
    unfold keys at hkeys
    rwa [← List.forall₂_eq_eq_eq, List.forall₂_map_left_iff, List.forall₂_map_right_iff] at hkeys
  refine ext (List.forall₂_eq_eq_eq ▸ List.forall₂_iff_zip.mpr ⟨hall.length_eq, fun hzip => ?_⟩)
  have hsame := (List.forall₂_iff_zip.mp hall).2 hzip
  obtain ⟨hmem, hmem'⟩ := List.of_mem_zip hzip
  exact List.inj_on_of_nodup_map m'.distinct (hperm.mem_iff.mp hmem) hmem' hsame

end Bellows.Keyed
