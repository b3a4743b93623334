import Bellows.CommandLine.Path
import Bellows.Proofs.Text.Words

/-! Paths in normal form are read back from their text. The stem of a name is what stands in front
of its last point. -/
namespace Bellows.Path

variable {p : Path} {name stem : String}

/-- Whether a text can be a name inside a path in normal form. -/
def Names (name : String) : Prop := name ≠ "" ∧ name ≠ "." ∧ '/' ∉ name.toList

instance (name : String) : Decidable (Names name) := by
  unfold Names
  infer_instance

/-- A path in normal form. -/
structure Normal (p : Path) : Prop where
  root : p.root = "" ∨ p.root = "/" ∨ p.root = "//"
  names : ∀ name ∈ p.names, Names name

theorem splitOn_stroke (s : String) : s.splitOn "/" = (s.toList.splitOn '/').map String.ofList :=
  splitOn_char s '/'

theorem normal_ofText (s : String) : (ofText s).Normal := by
  constructor
  · change rootOf s.toList = "" ∨ rootOf s.toList = "/" ∨ rootOf s.toList = "//"
    unfold rootOf
    split
    · exact Or.inl rfl
    · exact Or.inr (Or.inr rfl)
    · exact Or.inr (Or.inl rfl)
  · intro name hname
    obtain ⟨hmem, hproper⟩ := List.mem_filter.mp hname
    rw [Bool.and_eq_true, decide_eq_true_eq, decide_eq_true_eq] at hproper
    refine ⟨hproper.1, hproper.2, ?_⟩
    rw [splitOn_stroke] at hmem
    obtain ⟨word, hword, rfl⟩ := List.mem_map.mp hmem
    rw [String.toList_ofList]
    exact not_mem_of_mem_splitOn hword

/-- Strokes in front of names are the root, and add nothing to the names. -/
theorem ofText_append {root : String} {cs : List Char}
    (hroot : root = "" ∨ root = "/" ∨ root = "//") (hcs : cs.takeWhile (· == '/') = []) :
    ofText (root ++ String.ofList cs) =
      ⟨root, ((cs.splitOn '/').map String.ofList).filter fun name => name ≠ "" && name ≠ "."⟩ := by
  unfold ofText
  rw [splitOn_stroke, String.toList_append, String.toList_ofList]
  obtain rfl | rfl | rfl := hroot
  · simp [rootOf, hcs]
  · simp [rootOf, hcs, List.splitOn_cons_eq_if_modifyHead]
  · simp [rootOf, hcs, List.splitOn_cons_eq_if_modifyHead]

/-- A name by itself is a path. -/
theorem ofText_name (h : Names name) : ofText name = ⟨"", [name]⟩ := by
  have hwords : name.splitOn "/" = [name] := splitOn_of_not_mem h.2.2
  have hroot : rootOf name.toList = "" := by
    have hnone : name.toList.takeWhile (· == '/') = [] := by
      cases hcs : name.toList with
      | nil => rfl
      | cons c cs =>
        refine List.takeWhile_cons_of_neg fun hc => h.2.2 ?_
        rw [hcs, beq_iff_eq.mp hc]
        exact List.mem_cons_self
    rw [rootOf, hnone]
    rfl
  simp [ofText, hwords, hroot, h.1, h.2.1]

/-- A path is read back from its text. -/
theorem ofText_text (h : p.Normal) : ofText p.text = p := by
  obtain ⟨root, names⟩ := p
  obtain ⟨hroot, hnames⟩ := h
  dsimp only at hroot hnames
  cases names with
  | nil =>
    rw [ofText, splitOn_stroke]
    obtain rfl | rfl | rfl := hroot <;> decide +kernel
  | cons name names =>
    obtain ⟨cs, hcs⟩ : ∃ cs, cs = ['/'].intercalate ((name :: names).map String.toList) := ⟨_, rfl⟩
    have hjoined : String.intercalate "/" (name :: names) = String.ofList cs := by
      have htoList := @String.toList_intercalate "/" (name :: names)
      rw [← String.ofList_toList (s := String.intercalate "/" (name :: names)), htoList, hcs]
      rfl
    obtain ⟨c, behind, hname⟩ := List.exists_cons_of_ne_nil
      (String.toList_eq_nil_iff.not.mpr (hnames name List.mem_cons_self).1)
    have hc : c ≠ '/' := by
      rintro rfl
      exact (hnames name List.mem_cons_self).2.2 (hname ▸ List.mem_cons_self)
    have hfirst : ∃ rest, cs = c :: rest := by
      rw [hcs, List.map_cons, hname]
      cases names <;> exact ⟨_, rfl⟩
    obtain ⟨rest, hrest⟩ := hfirst
    have hstrokes : cs.takeWhile (· == '/') = [] := by simp [hrest, hc]
    have hsplit : (cs.splitOn '/').map String.ofList = name :: names := by
      have hwords : ∀ word ∈ (name :: names).map String.toList, '/' ∉ word := by
        intro word hword
        obtain ⟨other, hother, rfl⟩ := List.mem_map.mp hword
        exact (hnames other hother).2.2
      rw [hcs, List.splitOn_intercalate '/' hwords (by simp), List.map_map]
      simp [Function.comp_def]
    have htext : text ⟨root, name :: names⟩ = root ++ String.ofList cs := by
      rw [text, hjoined]
      exact if_neg (by simp [hrest])
    rw [htext, ofText_append hroot hstrokes, hsplit, List.filter_eq_self.mpr]
    intro other hother
    simp [(hnames other hother).1, (hnames other hother).2.1]

/-- A name divided at its last point, with something on either side. -/
def Divided (name stem extension : String) : Prop :=
  name = stem ++ "." ++ extension ∧ stem ≠ "" ∧ extension ≠ "" ∧ '.' ∉ extension.toList

/-- The stem of a name is what is in front of its last point; a name that is not divided is a stem
as a whole. -/
def IsStem (name stem : String) : Prop :=
  (∃ extension, Divided name stem extension) ∨
    stem = name ∧ ∀ front extension, ¬ Divided name front extension

/-- A name is searched for its last point from its end. -/
theorem takeWhile_reverse {front behind : List Char} (hpoint : '.' ∉ behind) :
    (front ++ '.' :: behind).reverse.takeWhile (· != '.') = behind.reverse := by
  have hall : ∀ c ∈ behind.reverse, (c != '.') = true := by
    intro c hc
    exact bne_iff_ne.mpr fun heq => hpoint (heq ▸ List.mem_reverse.mp hc)
  rw [List.reverse_append, List.reverse_cons, List.append_assoc,
    List.takeWhile_append_of_pos hall]
  simp

theorem divide_append {front behind : List Char} (hfront : front ≠ []) (hbehind : behind ≠ [])
    (hpoint : '.' ∉ behind) : divide (front ++ '.' :: behind) = (front, '.' :: behind) := by
  have hplace : (front ++ '.' :: behind).length - (behind.reverse.length + 1) = front.length := by
    simp
  have hne : ¬ (behind.reverse.isEmpty || decide (front.length = 0)) = true := by
    simp [hbehind, hfront]
  simp only [divide, takeWhile_reverse hpoint, hplace]
  rw [if_neg hne, List.take_left, List.drop_left]

/-- A point at an end of a name divides nothing. -/
theorem divide_append_edge {front behind : List Char} (hedge : front = [] ∨ behind = [])
    (hpoint : '.' ∉ behind) :
    divide (front ++ '.' :: behind) = (front ++ '.' :: behind, []) := by
  have hplace : (front ++ '.' :: behind).length - (behind.reverse.length + 1) = front.length := by
    simp
  have hor : (behind.reverse.isEmpty || decide (front.length = 0)) = true := by
    obtain rfl | rfl := hedge <;> simp
  simp only [divide, takeWhile_reverse hpoint, hplace]
  rw [if_pos hor]

theorem divide_of_not_mem {name : List Char} (h : '.' ∉ name) : divide name = (name, []) := by
  have hall : ∀ c ∈ name.reverse, (c != '.') = true := by
    intro c hc
    exact bne_iff_ne.mpr fun heq => h (heq ▸ List.mem_reverse.mp hc)
  have htake : name.reverse.takeWhile (· != '.') = name.reverse := by
    rw [← List.append_nil name.reverse, List.takeWhile_append_of_pos hall, List.takeWhile_nil]
  have hplace : name.length - (name.reverse.length + 1) = 0 := by
    rw [List.length_reverse]
    omega
  simp only [divide, htake, hplace]
  rw [if_pos (by simp)]

/-- A name is divided at its last point or not at all. -/
theorem divide_cases (name : List Char) : divide name = (name, []) ∨
    ∃ front behind, name = front ++ '.' :: behind ∧ front ≠ [] ∧ behind ≠ [] ∧ '.' ∉ behind := by
  by_cases hmem : '.' ∈ name
  · obtain ⟨after, before, hreverse, hpoint⟩ :=
      List.eq_append_cons_of_mem (List.mem_reverse.mpr hmem)
    have hname : name = before.reverse ++ '.' :: after.reverse := by
      rw [← List.reverse_reverse name, hreverse]
      simp
    have hpoint' : '.' ∉ after.reverse := by rwa [List.mem_reverse]
    by_cases hedge : before.reverse = [] ∨ after.reverse = []
    · rw [hname]
      exact Or.inl (divide_append_edge hedge hpoint')
    · obtain ⟨hbefore, hafter⟩ := not_or.mp hedge
      exact Or.inr ⟨before.reverse, after.reverse, hname, hbefore, hafter, hpoint'⟩
  · exact Or.inl (divide_of_not_mem hmem)

theorem Divided.divide_eq {extension : String} (h : Divided name stem extension) :
    divide name.toList = (stem.toList, '.' :: extension.toList) := by
  obtain ⟨rfl, hstem, hextension, hpoint⟩ := h
  have hlist : (stem ++ "." ++ extension).toList = stem.toList ++ '.' :: extension.toList := by
    simp
  rw [hlist, divide_append (by simpa using hstem) (by simpa using hextension) hpoint]

theorem divided_of_append {front behind : List Char} (h : name.toList = front ++ '.' :: behind)
    (hfront : front ≠ []) (hbehind : behind ≠ []) (hpoint : '.' ∉ behind) :
    Divided name (String.ofList front) (String.ofList behind) := by
  refine ⟨?_, by simpa using hfront, by simpa using hbehind, by simpa using hpoint⟩
  rw [← String.toList_inj, h]
  simp

/-- Every name has one stem. -/
theorem isStem_iff : IsStem name stem ↔ stem = String.ofList (divide name.toList).1 := by
  constructor
  · rintro (⟨extension, h⟩ | ⟨rfl, hnone⟩)
    · rw [h.divide_eq, String.ofList_toList]
    · obtain hplain | ⟨front, behind, hname, hfront, hbehind, hpoint⟩ := divide_cases stem.toList
      · rw [hplain, String.ofList_toList]
      · exact (hnone _ _ (divided_of_append hname hfront hbehind hpoint)).elim
  · rintro rfl
    obtain hplain | ⟨front, behind, hname, hfront, hbehind, hpoint⟩ := divide_cases name.toList
    · rw [hplain, String.ofList_toList]
      refine Or.inr ⟨rfl, fun front extension h => ?_⟩
      exact List.cons_ne_nil _ _ (congrArg Prod.snd (hplain.symm.trans h.divide_eq)).symm
    · have h := divided_of_append hname hfront hbehind hpoint
      rw [h.divide_eq, String.ofList_toList]
      exact Or.inl ⟨_, h⟩

/-- A stem has no other characters than its name. -/
theorem mem_of_mem_divide {c : Char} {name : List Char} (h : c ∈ (divide name).1) : c ∈ name := by
  unfold divide at h
  dsimp only at h
  split at h
  · exact h
  · exact List.mem_of_mem_take h

theorem not_mem_stem (hp : p.Normal) : '/' ∉ p.stem.toList := by
  intro hstroke
  rw [stem, String.toList_ofList] at hstroke
  have hname := mem_of_mem_divide hstroke
  unfold name at hname
  cases hlast : p.names.getLast? with
  | none =>
    rw [hlast] at hname
    cases hname
  | some last =>
    rw [hlast] at hname
    exact (hp.names last (List.mem_of_getLast? hlast)).2.2 hname

/-- What has an extension is long enough for a name. -/
theorem names_append {front extension : String} (hextension : 1 < extension.length)
    (hstroke : '/' ∉ (front ++ extension).toList) : Names (front ++ extension) := by
  have hlength : 1 < (front ++ extension).length := by
    rw [String.length_append]
    omega
  refine ⟨?_, ?_, hstroke⟩
  · intro h
    rw [h] at hlength
    exact absurd hlength (by decide)
  · intro h
    rw [h] at hlength
    exact absurd hlength (by decide)

/-- The path beside another one is read back from its text. -/
theorem ofText_text_withName (hp : p.Normal) (h : Names name) :
    ofText (p.withName name).text = p.withName name := by
  refine ofText_text ⟨hp.root, fun other hother => ?_⟩
  obtain hother | hother := List.mem_append.mp hother
  · exact hp.names other (List.dropLast_subset _ hother)
  · rwa [List.mem_singleton.mp hother]

end Bellows.Path
