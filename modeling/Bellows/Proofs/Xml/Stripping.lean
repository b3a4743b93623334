import Mathlib.Data.List.Forall2
import Mathlib.Data.List.TakeWhile
import Bellows.Xml.Strip

/-! What is taken out of the text of a document: the first declaration of its type, as a whole, and
nothing else. What opens like a declaration and is none stays where it is. -/
namespace Bellows.Xml

/-- The opening of a declaration, each letter of it large or small. -/
def Opening (opening : List Char) : Prop :=
  List.Forall₂ (fun c letter => c = letter ∨ c = letter.toLower) opening declarationOpening

/-- A part in square brackets with nothing but blanks behind it, or no part at all. -/
inductive Brackets : List Char → Prop
  | absent : Brackets []
  | present {inner blanks : List Char} (hinner : ∀ c ∈ inner, c ≠ ']')
    (hblanks : ∀ c ∈ blanks, isBlank c = true) : Brackets ('[' :: inner ++ ']' :: blanks)

/-- A declaration from its opening to its end. -/
inductive Declaration : List Char → Prop
  | mk {opening run brackets : List Char} (hopening : Opening opening)
    (hrun : ∀ c ∈ run, c ≠ '>' ∧ c ≠ '[') (hbrackets : Brackets brackets) :
    Declaration (opening ++ run ++ brackets ++ ['>'])

/-- A text that falls into what stands in front of its first declaration, the declaration, and what
follows it. -/
structure FirstDeclaration (text front declaration rest : List Char) : Prop where
  eq : text = front ++ declaration ++ rest
  declaration : Declaration declaration
  shortest : ∀ front' declaration' rest', text = front' ++ declaration' ++ rest' →
    Declaration declaration' → front.length ≤ front'.length

/-- A text with a declaration somewhere in it. -/
def Declares (text : List Char) : Prop :=
  ∃ front declaration rest, text = front ++ declaration ++ rest ∧ Declaration declaration

variable {cs front rest opening d : List Char} {c letter : Char}

/-- A letter that is not small is the capital of itself and of its small letter alone. -/
theorem toUpper_eq_iff (hletter : letter.isLower = false) :
    c.toUpper = letter ↔ c = letter ∨ c = letter.toLower := by
  have hcapital : ¬ ('a'.val ≤ letter.val ∧ letter.val ≤ 'z'.val) := by
    rintro ⟨hlow, hhigh⟩
    have hsmall : letter.isLower = true :=
      Bool.and_eq_true_iff.mpr ⟨decide_eq_true hlow, decide_eq_true hhigh⟩
    cases hletter.symm.trans hsmall
  -- the codes of the two letters are 32 apart, and no other code is changed
  have hupper (h : 'a'.val ≤ c.val ∧ c.val ≤ 'z'.val) :
      c.toUpper.val = c.val + ('A'.val - 'a'.val) := by
    have hdef : c.toUpper = _ := dif_pos h
    rw [hdef]
  have hkept (h : ¬ ('a'.val ≤ c.val ∧ c.val ≤ 'z'.val)) : c.toUpper = c := dif_neg h
  have hlower (h : 'A'.val ≤ letter.val ∧ letter.val ≤ 'Z'.val) :
      letter.toLower.val = letter.val + ('a'.val - 'A'.val) := by
    have hdef : letter.toLower = _ := dif_pos h
    rw [hdef]
  have hother (h : ¬ ('A'.val ≤ letter.val ∧ letter.val ≤ 'Z'.val)) : letter.toLower = letter :=
    dif_neg h
  rw [Char.ext_iff, Char.ext_iff, Char.ext_iff]
  grind [UInt32.toNat_add, UInt32.toNat_inj]

theorem map_toUpper_eq_iff {letters : List Char} (h : ∀ letter ∈ letters, letter.isLower = false) :
    cs.map Char.toUpper = letters ↔
      List.Forall₂ (fun c letter => c = letter ∨ c = letter.toLower) cs letters := by
  induction letters generalizing cs with
  | nil => rw [List.map_eq_nil_iff, List.forall₂_nil_right_iff]
  | cons letter letters ih =>
    have hletters := fun l hl => h l (List.mem_cons_of_mem _ hl)
    cases cs with
    | nil => simp
    | cons c cs =>
      rw [List.map_cons, List.cons_eq_cons, List.forall₂_cons,
        toUpper_eq_iff (h letter List.mem_cons_self), ih hletters]

theorem opening_iff : Opening opening ↔ opening.map Char.toUpper = declarationOpening := by
  have hlarge : (declarationOpening.all fun letter => !letter.isLower) = true := by decide
  refine (map_toUpper_eq_iff fun letter hletter => ?_).symm
  simpa using List.all_eq_true.mp hlarge letter hletter

theorem Opening.length_eq (h : Opening opening) : opening.length = declarationOpening.length :=
  List.Forall₂.length_eq h

/-- An opening has its bracket in front and nowhere else. -/
theorem Opening.eq_cons (h : Opening opening) :
    ∃ behind, opening = '<' :: behind ∧ '<' ∉ behind := by
  have hupper := opening_iff.mp h
  cases h with
  | @cons c _ behind _ hc _ =>
    have hbracket : c = '<' := hc.elim id id
    refine ⟨behind, congrArg (· :: behind) hbracket, fun hmem => ?_⟩
    have hbehind : behind.map Char.toUpper = declarationOpening.tail := congrArg List.tail hupper
    have hlarge : '<'.toUpper ∈ declarationOpening.tail := hbehind ▸ List.mem_map_of_mem hmem
    exact absurd hlarge (by decide)

theorem Declaration.eq_cons (h : Declaration d) : ∃ behind, d = '<' :: behind := by
  cases h with
  | mk hopening _ _ =>
    obtain ⟨behind, rfl, -⟩ := hopening.eq_cons
    exact ⟨_, rfl⟩

theorem dropWhile_append_cons {p : Char → Bool} {run : List Char} (hc : p c = false)
    (hrun : ∀ d ∈ run, p d = true) : (run ++ c :: rest).dropWhile p = c :: rest := by
  rw [List.dropWhile_append_of_pos hrun, List.dropWhile_cons_of_neg (by simp [hc])]

/-- Dropping stops at the first character outside a class. -/
theorem dropWhile_eq_cons_iff {p : Char → Bool} : cs.dropWhile p = c :: rest ↔
    p c = false ∧ ∃ run, cs = run ++ c :: rest ∧ ∀ d ∈ run, p d = true := by
  constructor
  · intro h
    have hnot := List.head?_dropWhile_not p cs
    rw [h] at hnot
    refine ⟨by simpa using hnot, cs.takeWhile p, ?_, fun d hd => List.mem_takeWhile_imp hd⟩
    rw [← h, List.takeWhile_append_dropWhile]
  · rintro ⟨hc, run, rfl, hrun⟩
    exact dropWhile_append_cons hc hrun

theorem afterBrackets?_eq_some_iff : afterBrackets? cs = some rest ↔
    ∃ blanks, cs = blanks ++ '>' :: rest ∧ ∀ c ∈ blanks, isBlank c = true := by
  have hend : afterBrackets? cs = some rest ↔ cs.dropWhile isBlank = '>' :: rest := by
    unfold afterBrackets?
    split
    · next after hdrop => simp [hdrop]
    · next hother => simpa using hother rest
  rw [hend, dropWhile_eq_cons_iff]
  exact and_iff_right (by decide)

/-- A declaration behind its opening, read from the left: the run ends at the end of the
declaration, or at the bracket that opens its part in brackets. -/
theorem afterDeclaration?_eq_some_iff : afterDeclaration? cs = some rest ↔
    ∃ run brackets, cs = run ++ brackets ++ '>' :: rest ∧ (∀ c ∈ run, c ≠ '>' ∧ c ≠ '[') ∧
      Brackets brackets := by
  constructor
  · intro h
    unfold afterDeclaration? at h
    split at h
    · next after hdrop =>
      cases Option.some.inj h
      obtain ⟨-, run, rfl, hrun⟩ := dropWhile_eq_cons_iff.mp hdrop
      exact ⟨run, [], by simp, by simpa using hrun, .absent⟩
    · next inside hdrop =>
      obtain ⟨-, run, rfl, hrun⟩ := dropWhile_eq_cons_iff.mp hdrop
      split at h
      · next behind hinside =>
        obtain ⟨-, inner, rfl, hinner⟩ := dropWhile_eq_cons_iff.mp hinside
        obtain ⟨blanks, rfl, hblanks⟩ := afterBrackets?_eq_some_iff.mp h
        exact ⟨run, '[' :: inner ++ ']' :: blanks, by simp, by simpa using hrun,
          .present (by simpa using hinner) hblanks⟩
      · cases h
    · cases h
  · rintro ⟨run, brackets, rfl, hrun, hbrackets⟩
    have hpass : ∀ c ∈ run, (decide (c ≠ '>') && decide (c ≠ '[')) = true := by simpa using hrun
    unfold afterDeclaration?
    cases hbrackets with
    | absent =>
      simp only [List.append_nil, dropWhile_append_cons (c := '>') (by decide) hpass]
    | present hinner hblanks =>
      have hinside : ∀ c ∈ _, decide (c ≠ ']') = true := fun c hc => decide_eq_true (hinner c hc)
      have hafter : afterBrackets? (_ ++ '>' :: rest) = some rest :=
        afterBrackets?_eq_some_iff.mpr ⟨_, rfl, hblanks⟩
      simp only [List.cons_append, List.append_assoc, hafter,
        dropWhile_append_cons (c := '[') (by decide) hpass,
        dropWhile_append_cons (c := ']') (by decide) hinside]

/-- What is read off the front of a text is what follows a declaration there. -/
theorem declaration?_eq_some_iff :
    declaration? cs = some rest ↔ ∃ d, cs = d ++ rest ∧ Declaration d := by
  constructor
  · intro h
    unfold declaration? at h
    split at h
    · next hopening =>
      obtain ⟨run, brackets, hbehind, hrun, hbrackets⟩ := afterDeclaration?_eq_some_iff.mp h
      refine ⟨_, ?_, .mk (opening_iff.mpr hopening) hrun hbrackets⟩
      calc cs = cs.take declarationOpening.length ++ cs.drop declarationOpening.length :=
            (List.take_append_drop _ _).symm
        _ = _ := by rw [hbehind]; simp
    · cases h
  · rintro ⟨_, rfl, @⟨opening, run, brackets, hopening, hrun, hbrackets⟩⟩
    have hafter : afterDeclaration? (run ++ brackets ++ '>' :: rest) = some rest :=
      afterDeclaration?_eq_some_iff.mpr ⟨run, brackets, rfl, hrun, hbrackets⟩
    have hcs : opening ++ run ++ brackets ++ ['>'] ++ rest =
        opening ++ (run ++ brackets ++ '>' :: rest) := by simp
    rw [hcs, declaration?, List.take_left' hopening.length_eq, List.drop_left' hopening.length_eq,
      if_pos (opening_iff.mp hopening), hafter]

/-- Two declarations at the front of one text are the same. -/
theorem Declaration.unique {d d' rest' : List Char} (hd : Declaration d) (hd' : Declaration d')
    (h : d ++ rest = d' ++ rest') : d = d' ∧ rest = rest' := by
  have hrest : some rest = some rest' :=
    (declaration?_eq_some_iff.mpr ⟨d, rfl, hd⟩).symm.trans
      (declaration?_eq_some_iff.mpr ⟨d', h, hd'⟩)
  cases Option.some.inj hrest
  exact ⟨List.append_cancel_right h, rfl⟩

/-- Where no declaration is at the front, one that is behind the first character is all there is. -/
theorem FirstDeclaration.cons (hnone : declaration? (c :: cs) = none)
    (h : FirstDeclaration cs front d rest) : FirstDeclaration (c :: cs) (c :: front) d rest where
  eq := by rw [h.eq]; rfl
  declaration := h.declaration
  shortest := by
    intro front' d' rest' heq hd'
    cases front' with
    | nil =>
      have hsome := declaration?_eq_some_iff.mpr ⟨d', heq, hd'⟩
      rw [hnone] at hsome
      cases hsome
    | cons c' front' =>
      have hfront := h.shortest front' d' rest' (List.cons.inj heq).2 hd'
      simpa using hfront

theorem not_declares_cons (hnone : declaration? (c :: cs) = none) (h : ¬ Declares cs) :
    ¬ Declares (c :: cs) := by
  rintro ⟨front, d, rest, heq, hd⟩
  cases front with
  | nil =>
    have hsome := declaration?_eq_some_iff.mpr ⟨d, heq, hd⟩
    rw [hnone] at hsome
    cases hsome
  | cons c' front => exact h ⟨front, d, rest, (List.cons.inj heq).2, hd⟩

/-- The scan of a text for its first declaration: it either takes it out, or there is none. -/
theorem stripFrom_cases (passed cs : List Char) :
    (¬ Declares cs ∧ stripFrom passed cs = none) ∨
      ∃ front d rest, FirstDeclaration cs front d rest ∧
        stripFrom passed cs = some (passed.reverse ++ (front ++ rest)) := by
  -- on the characters still to be scanned; those passed over stand in front of the result
  induction cs generalizing passed with
  | nil =>
    refine .inl ⟨?_, rfl⟩
    rintro ⟨front, d, rest, heq, hd⟩
    obtain ⟨behind, rfl⟩ := hd.eq_cons
    simp at heq
  | cons c cs ih =>
    unfold stripFrom
    split
    · next rest hsome =>
      obtain ⟨d, heq, hd⟩ := declaration?_eq_some_iff.mp hsome
      exact .inr ⟨[], d, rest, ⟨heq, hd, fun _ _ _ _ _ => Nat.zero_le _⟩, rfl⟩
    · next hnone =>
      rcases ih (c :: passed) with ⟨hcs, hscan⟩ | ⟨front, d, rest, hfirst, hscan⟩
      · exact .inl ⟨not_declares_cons hnone hcs, hscan⟩
      · refine .inr ⟨c :: front, d, rest, hfirst.cons hnone, ?_⟩
        rw [hscan, List.reverse_cons, List.append_assoc]
        rfl

/-- The first declaration of a text is the only one that is first. -/
theorem FirstDeclaration.unique {front' d' rest' : List Char} (h : FirstDeclaration cs front d rest)
    (h' : FirstDeclaration cs front' d' rest') : front = front' ∧ d = d' ∧ rest = rest' := by
  have hlength : front.length = front'.length :=
    Nat.le_antisymm (h.shortest _ _ _ h'.eq h'.declaration) (h'.shortest _ _ _ h.eq h.declaration)
  have heq : front ++ (d ++ rest) = front' ++ (d' ++ rest') := by
    rw [← List.append_assoc, ← List.append_assoc, ← h.eq, ← h'.eq]
  obtain ⟨hfront, hbehind⟩ := List.append_inj heq hlength
  exact ⟨hfront, h.declaration.unique h'.declaration hbehind⟩

/-- An opening with no declaration at it or in front of it is passed over. -/
theorem FirstDeclaration.behind {passed : List Char} (hopening : Opening opening)
    (hnone : ∀ front' d' rest', passed ++ opening ++ cs = front' ++ d' ++ rest' →
      Declaration d' → passed.length < front'.length)
    (h : FirstDeclaration cs front d rest) :
    FirstDeclaration (passed ++ opening ++ cs) (passed ++ opening ++ front) d rest where
  eq := by rw [h.eq]; simp
  declaration := h.declaration
  shortest := by
    intro front' d' rest' heq hd'
    have hlonger := hnone front' d' rest' heq hd'
    have hsplit : passed ++ (opening ++ cs) = front' ++ (d' ++ rest') := by
      rw [← List.append_assoc, heq, List.append_assoc]
    obtain ⟨between, rfl, hbetween⟩ : ∃ between, front' = passed ++ between ∧
        opening ++ cs = between ++ (d' ++ rest') := by
      rcases List.append_eq_append_iff.mp hsplit with h | ⟨back, hback, -⟩
      · exact h
      · rw [hback, List.length_append] at hlonger
        omega
    -- a declaration begins with a bracket, which an opening has in its first place only
    obtain ⟨front'', rfl, hcs⟩ : ∃ front'', between = opening ++ front'' ∧
        cs = front'' ++ (d' ++ rest') := by
      rcases List.append_eq_append_iff.mp hbetween with h | ⟨back, hback, hrest⟩
      · exact h
      · obtain ⟨behind, rfl⟩ := hd'.eq_cons
        obtain ⟨letters, rfl, hletters⟩ := hopening.eq_cons
        cases between with
        | nil => simp at hlonger
        | cons b between =>
          cases back with
          | nil => exact ⟨[], by simpa using hback.symm, by simpa using hrest.symm⟩
          | cons c back =>
            have hc : '<' = c := (List.cons.inj hrest).1
            have hmem : c ∈ letters := by
              rw [(List.cons.inj hback).2]
              exact List.mem_append_right _ List.mem_cons_self
            exact absurd (hc ▸ hmem) hletters
    have hfront := h.shortest front'' d' rest' (by rw [hcs, List.append_assoc]) hd'
    simp only [List.length_append]
    omega

/-- The first declaration of a text is taken out as a whole and nothing else; where it begins, no
other declaration does. An opening that begins none, with none in front of it, is passed over. -/
theorem stripDoctype_removes_first (s : String) :
    (¬ Declares s.toList → stripDoctype s = s) ∧
      (Declares s.toList → ∃ front d rest, FirstDeclaration s.toList front d rest) ∧
      (∀ front d rest, FirstDeclaration s.toList front d rest →
        stripDoctype s = String.ofList (front ++ rest)) ∧
      (∀ front d rest d' rest', s.toList = front ++ d ++ rest → s.toList = front ++ d' ++ rest' →
        Declaration d → Declaration d' → d = d' ∧ rest = rest') ∧
      ∀ passed opening behind, s.toList = passed ++ opening ++ behind → Opening opening →
        (∀ front d rest, s.toList = front ++ d ++ rest → Declaration d →
          passed.length < front.length) →
        ∀ front d rest, FirstDeclaration behind front d rest →
          stripDoctype s = String.ofList (passed ++ opening ++ front ++ rest) := by
  have hstrip : ∀ front d rest, FirstDeclaration s.toList front d rest →
      stripDoctype s = String.ofList (front ++ rest) := by
    intro front d rest h
    rcases stripFrom_cases [] s.toList with ⟨hnone, -⟩ | ⟨front', d', rest', hfirst, hscan⟩
    · exact absurd ⟨front, d, rest, h.eq, h.declaration⟩ hnone
    · obtain ⟨rfl, -, rfl⟩ := h.unique hfirst
      simp only [stripDoctype, hscan, List.reverse_nil, List.nil_append]
  refine ⟨fun hnone => ?_, fun hdeclares => ?_, hstrip, ?_, ?_⟩
  · rcases stripFrom_cases [] s.toList with ⟨-, hscan⟩ | ⟨front, d, rest, hfirst, -⟩
    · simp only [stripDoctype, hscan]
    · exact absurd ⟨front, d, rest, hfirst.eq, hfirst.declaration⟩ hnone
  · rcases stripFrom_cases [] s.toList with ⟨hnone, -⟩ | ⟨front, d, rest, hfirst, -⟩
    · exact absurd hdeclares hnone
    · exact ⟨front, d, rest, hfirst⟩
  · intro front d rest d' rest' hd hd' hdecl hdecl'
    rw [hd, List.append_assoc, List.append_assoc] at hd'
    exact hdecl.unique hdecl' (List.append_cancel_left hd')
  · intro passed opening behind hs hopening hnone front d rest hfirst
    rw [hs] at hnone
    exact hstrip _ d rest (hs ▸ hfirst.behind hopening hnone)

-- an opening whose brackets are followed by more than blanks begins no declaration
example : stripDoctype "<!DOCTYPE a [b] c><!doctype d[>] >e" = "<!DOCTYPE a [b] c>e" := by decide

end Bellows.Xml
