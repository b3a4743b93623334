/-!
Entries under distinct keys, in the order in which the keys first came. Main statements: putting a
value changes exactly one look-up (`get?_put`), and a look-up finds the entry of its key
(`get?_eq_some_iff`).
-/
namespace Bellows

/-- A list of entries in which no key occurs twice. -/
structure Keyed (κ ν : Type) where
  entries : List (κ × ν)
  distinct : (entries.map Prod.fst).Nodup

namespace Keyed

variable {κ ν : Type}

@[ext] theorem ext {m n : Keyed κ ν} (h : m.entries = n.entries) : m = n := by
  cases m
  cases n
  cases h
  rfl

def keys (m : Keyed κ ν) : List κ := m.entries.map Prod.fst

def isEmpty (m : Keyed κ ν) : Bool := m.entries.isEmpty

def size (m : Keyed κ ν) : Nat := m.entries.length

/-- No entries. -/
def empty : Keyed κ ν := ⟨[], List.nodup_nil⟩

/-- Every value changed, each under its key. -/
def map {μ : Type} (m : Keyed κ ν) (f : ν → μ) : Keyed κ μ :=
  ⟨m.entries.map fun e => (e.1, f e.2), by
    have h : (m.entries.map fun e => (e.1, f e.2)).map Prod.fst = m.entries.map Prod.fst := by
      simp
    rw [h]
    exact m.distinct⟩

variable [DecidableEq κ]

/-- A key that occurs already keeps its place and takes the new value. -/
def putEntry (k : κ) (v : ν) : List (κ × ν) → List (κ × ν)
  | [] => [(k, v)]
  | e :: es => if e.1 = k then (k, v) :: es else e :: putEntry k v es

/-- The keys after a value was put: a new key comes last. -/
theorem keys_putEntry (k : κ) (v : ν) (es : List (κ × ν)) :
    (putEntry k v es).map Prod.fst
      = if k ∈ es.map Prod.fst then es.map Prod.fst else es.map Prod.fst ++ [k] := by
  induction es with
  | nil => simp [putEntry]
  | cons e es ih =>
    unfold putEntry
    by_cases h : e.1 = k
    · subst h
      simp
    · simp only [h, if_false, List.map_cons, ih, List.mem_cons, Ne.symm h, false_or]
      split <;> simp

/-- A key that is added only where it is new occurs once. -/
theorem nodup_add {k : κ} {ks : List κ} (h : ks.Nodup) :
    (if k ∈ ks then ks else ks ++ [k]).Nodup := by
  split
  · exact h
  · next hk =>
    rw [List.nodup_append]
    exact ⟨h, by simp, fun a ha b hb hab => hk (by simp_all)⟩

theorem nodup_putEntry {k : κ} {v : ν} {es : List (κ × ν)} (h : (es.map Prod.fst).Nodup) :
    ((putEntry k v es).map Prod.fst).Nodup := by
  rw [keys_putEntry]
  exact nodup_add h

/-- One entry is added or replaced. -/
def put (m : Keyed κ ν) (k : κ) (v : ν) : Keyed κ ν :=
  ⟨putEntry k v m.entries, nodup_putEntry m.distinct⟩

/-- Entries put one after another. -/
def ofList (es : List (κ × ν)) : Keyed κ ν := es.foldl (fun m e => m.put e.1 e.2) empty

theorem putEntry_of_notMem {k : κ} {v : ν} {es : List (κ × ν)} (h : k ∉ es.map Prod.fst) :
    putEntry k v es = es ++ [(k, v)] := by
  induction es with
  | nil => rfl
  | cons e es ih =>
    rw [List.map_cons, List.mem_cons, not_or] at h
    rw [putEntry, if_neg (Ne.symm h.1), ih h.2, List.cons_append]

/-- Entries under distinct keys stay as they are. -/
theorem entries_ofList {es : List (κ × ν)} (h : (es.map Prod.fst).Nodup) :
    (ofList es).entries = es := by
  have hfold : ∀ (es : List (κ × ν)) (m : Keyed κ ν), ((m.entries ++ es).map Prod.fst).Nodup →
      (es.foldl (fun m e => m.put e.1 e.2) m).entries = m.entries ++ es := by
    intro es
    induction es with
    | nil =>
      intro m _
      simp
    | cons e es ih =>
      intro m hm
      have hput : (m.put e.1 e.2).entries = m.entries ++ [e] := by
        refine putEntry_of_notMem fun hmem => ?_
        rw [List.map_append, List.nodup_append] at hm
        exact hm.2.2 _ hmem _ (by simp) rfl
      rw [List.foldl_cons, ih, hput, List.append_assoc]
      · rfl
      · rw [hput, List.append_assoc]
        exact hm
  exact (hfold es empty (by simpa [empty] using h)).trans (List.nil_append es)

/-- The value under a key in a list of entries. -/
def find? (k : κ) : List (κ × ν) → Option ν
  | [] => none
  | e :: es => if e.1 = k then some e.2 else find? k es

/-- The value under a key. -/
def get? (m : Keyed κ ν) (k : κ) : Option ν := find? k m.entries

def contains (m : Keyed κ ν) (k : κ) : Bool := (m.get? k).isSome

theorem find?_putEntry (k k' : κ) (v : ν) (es : List (κ × ν)) :
    find? k' (putEntry k v es) = if k = k' then some v else find? k' es := by
  induction es with
  | nil => simp [putEntry, find?]
  | cons e es ih =>
    unfold putEntry
    by_cases h : e.1 = k
    · subst h
      by_cases hk : e.1 = k' <;> simp [find?, hk]
    · by_cases hk : e.1 = k'
      · subst hk
        simp [find?, h, Ne.symm h]
      · simp [find?, h, hk, ih]

theorem get?_put (m : Keyed κ ν) (k k' : κ) (v : ν) :
    (m.put k v).get? k' = if k = k' then some v else m.get? k' :=
  find?_putEntry k k' v m.entries

theorem find?_eq_some_iff {k : κ} {v : ν} {es : List (κ × ν)} (h : (es.map Prod.fst).Nodup) :
    find? k es = some v ↔ (k, v) ∈ es := by
  induction es with
  | nil => simp [find?]
  | cons e es ih =>
    obtain ⟨he, hes⟩ := List.nodup_cons.1 h
    by_cases hk : e.1 = k
    · subst hk
      have hn : (e.1, v) ∉ es := fun hm => he (List.mem_map.2 ⟨_, hm, rfl⟩)
      simp only [find?, if_true, Option.some.injEq, List.mem_cons, hn, or_false]
      exact ⟨fun hv => by rw [← hv], fun hv => (congrArg Prod.snd hv).symm⟩
    · have hn : (k, v) ≠ e := fun heq => hk (by rw [← heq])
      simp [find?, hk, hn, ih hes]

theorem get?_eq_some_iff (m : Keyed κ ν) (k : κ) (v : ν) : m.get? k = some v ↔ (k, v) ∈ m.entries :=
  find?_eq_some_iff m.distinct

instance [DecidableEq ν] : DecidableEq (Keyed κ ν) := fun m n =>
  if h : m.entries = n.entries then isTrue (ext h) else isFalse fun hmn => h (congrArg entries hmn)

end Keyed
end Bellows
