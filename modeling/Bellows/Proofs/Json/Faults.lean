import Mathlib.Data.List.Infix
import Bellows.Json.Reader
import Bellows.Proofs.Attempts
import Bellows.Proofs.Json.Number

/-! How reading JSON goes wrong: a reader only ever takes characters off the front of its text, and
what it complains about, a number of too many digits or half of a pair, stands in the text. -/
namespace Bellows.Json

variable {α β : Type} {cs cs' rest : List Char} {x : Except Fault (α × List Char)}

/-- Whether a run of so many digits stands in a text. -/
def HasDigits (cs : List Char) (n : Nat) : Prop :=
  ∃ digits, digits <:+: cs ∧ (∀ c ∈ digits, c.isDigit = true) ∧ digits.length = n

/-- An escape behind its backslash: one letter, a unit that is no half of a pair, or both halves. -/
inductive Escape : List Char → Prop
  | letter {c d : Char} (h : shortEscape? c = some d) : Escape [c]
  | unit {digits : List Char} {u : Nat} (hunit : readUnit digits = some (u, []))
    (hu : u < 0xd800 ∨ 0xe000 ≤ u) : Escape ('u' :: digits)
  | pair {digits digits' : List Char} {high low : Nat} (hhigh : readUnit digits = some (high, []))
    (hlow : readUnit digits' = some (low, [])) (hu : 0xd800 ≤ high ∧ high < 0xdc00)
    (hl : 0xdc00 ≤ low ∧ low < 0xe000) : Escape ('u' :: (digits ++ '\\' :: 'u' :: digits'))

/-- Characters of a text between its marks, with nothing but whole escapes among them. -/
inductive Whole : List Char → Prop
  | nil : Whole []
  | char {c : Char} {cs : List Char} (hescape : c ≠ '\\') (hmark : c ≠ '"') (h : Whole cs) :
    Whole (c :: cs)
  | escape {token cs : List Char} (htoken : Escape token) (h : Whole cs) :
    Whole ('\\' :: (token ++ cs))

/-- Whether the escape of a second half comes next. -/
def StartsLow (cs : List Char) : Prop :=
  ∃ behind low rest, cs = '\\' :: 'u' :: behind ∧ readUnit behind = some (low, rest) ∧
    0xdc00 ≤ low ∧ low < 0xe000

/-- The escape of half of a pair, behind its backslash, without the escape of the other half. -/
inductive LoneHalf : List Char → Prop
  | high {behind rest : List Char} {u : Nat} (hunit : readUnit behind = some (u, rest))
    (hu : 0xd800 ≤ u ∧ u < 0xdc00) (hrest : ¬ StartsLow rest) : LoneHalf ('u' :: behind)
  | low {behind rest : List Char} {u : Nat} (hunit : readUnit behind = some (u, rest))
    (hu : 0xdc00 ≤ u ∧ u < 0xe000) : LoneHalf ('u' :: behind)

/-- Whether a text, behind its opening mark, comes to half of a pair. -/
def ComesToHalf (cs : List Char) : Prop :=
  ∃ front behind, cs = front ++ '\\' :: behind ∧ Whole front ∧ LoneHalf behind

/-- Whether half of a pair stands behind an opening mark somewhere in a document. -/
def HasHalf (cs : List Char) : Prop := ∃ behind, '"' :: behind <:+ cs ∧ ComesToHalf behind

/-- An answer of a reader: the rest is an end of the text, or what is wrong stands in it. -/
def Answers (cs : List Char) : Except Fault (α × List Char) → Prop
  | .ok (_, rest) => rest <:+ cs
  | .error .malformed => True
  | .error (.hugeInteger digits) => digitLimit < digits ∧ HasDigits cs digits
  | .error .unpaired => HasHalf cs

theorem HasDigits.of_suffix {n : Nat} (h : HasDigits cs' n) (hs : cs' <:+ cs) : HasDigits cs n := by
  obtain ⟨digits, hdigits, hall, hlength⟩ := h
  exact ⟨digits, hdigits.trans hs.isInfix, hall, hlength⟩

theorem HasHalf.of_suffix (h : HasHalf cs') (hs : cs' <:+ cs) : HasHalf cs := by
  obtain ⟨behind, hbehind, hhalf⟩ := h
  exact ⟨behind, hbehind.trans hs, hhalf⟩

theorem HasHalf.backslash_mem (h : HasHalf cs) : '\\' ∈ cs := by
  obtain ⟨_, hbehind, front, behind, rfl, _⟩ := h
  exact hbehind.subset
    (List.mem_cons_of_mem _ (List.mem_append_right front List.mem_cons_self))

theorem Answers.of_suffix (h : Answers cs' x) (hs : cs' <:+ cs) : Answers cs x := by
  match x, h with
  | .ok _, h => exact h.trans hs
  | .error .malformed, _ => exact True.intro
  | .error (.hugeInteger _), ⟨hlimit, hdigits⟩ => exact ⟨hlimit, hdigits.of_suffix hs⟩
  | .error .unpaired, h => exact HasHalf.of_suffix h hs

/-- What reads on from the rest answers for the whole text. -/
theorem Answers.bind {f : α × List Char → Except Fault (β × List Char)} (h : Answers cs x)
    (hf : ∀ a rest, rest <:+ cs → Answers rest (f (a, rest))) : Answers cs (x >>= f) := by
  match x, h with
  | .ok (a, rest), h => exact (hf a rest h).of_suffix h
  | .error .malformed, _ => exact True.intro
  | .error (.hugeInteger _), h => exact h
  | .error .unpaired, h => exact h

theorem skipSpaces_suffix (cs : List Char) : skipSpaces cs <:+ cs := List.dropWhile_suffix _

theorem tail_suffix {c : Char} (h : skipSpaces cs = c :: rest) : rest <:+ cs :=
  (List.suffix_cons c rest).trans (h ▸ skipSpaces_suffix cs)

/-- A run of digits is taken off the front of a text. -/
theorem span_digits {ds : List Char} (h : cs.span Char.isDigit = (ds, rest)) :
    cs = ds ++ rest ∧ ∀ c ∈ ds, c.isDigit = true := by
  rw [List.span_eq_takeWhile_dropWhile] at h
  cases h
  exact ⟨List.takeWhile_append_dropWhile.symm, fun c hc => List.mem_takeWhile_imp hc⟩

/-- The digits of a unit are taken off the front of a text. -/
theorem readUnit_eq_some {u : Nat} (h : readUnit cs = some (u, rest)) :
    ∃ digits, cs = digits ++ rest ∧ readUnit digits = some (u, []) := by
  unfold readUnit at h
  split at h
  · next a b c d cs =>
    simp only [Option.bind_eq_bind, Option.bind_eq_some_iff, Option.some.injEq, Prod.mk.injEq] at h
    obtain ⟨_, ha, _, hb, _, hc, _, hd, rfl, rfl⟩ := h
    refine ⟨[a, b, c, d], rfl, ?_⟩
    simp only [readUnit, ha, hb, hc, hd]
    rfl
  · cases h

theorem isHighUnit_iff {u : Nat} : isHighUnit u = true ↔ 0xd800 ≤ u ∧ u < 0xdc00 := by
  rw [isHighUnit, Bool.and_eq_true, decide_eq_true_eq, decide_eq_true_eq]

theorem isLowUnit_iff {u : Nat} : isLowUnit u = true ↔ 0xdc00 ≤ u ∧ u < 0xe000 := by
  rw [isLowUnit, Bool.and_eq_true, decide_eq_true_eq, decide_eq_true_eq]

theorem readPair_eq_ok {high : Nat} {c : Char} (h : readPair high cs = .ok (c, rest)) :
    ∃ digits low, cs = '\\' :: 'u' :: (digits ++ rest) ∧ readUnit digits = some (low, []) ∧
      0xdc00 ≤ low ∧ low < 0xe000 := by
  unfold readPair at h
  split at h
  · split at h
    · next hunit =>
      split at h
      · next hlow =>
        obtain ⟨-, rfl⟩ := Prod.mk.inj (Except.ok.inj h)
        obtain ⟨digits, rfl, hdigits⟩ := readUnit_eq_some hunit
        exact ⟨digits, _, rfl, hdigits, isLowUnit_iff.mp hlow⟩
      · cases h
    · cases h
  · cases h

theorem readPair_eq_error {high : Nat} {fault : Fault} (h : readPair high cs = .error fault) :
    fault = .malformed ∨ fault = .unpaired ∧ ¬ StartsLow cs := by
  unfold readPair at h
  split at h
  · split at h
    · next hunit =>
      split at h
      · cases h
      · next hlow =>
        cases h
        refine Or.inr ⟨rfl, ?_⟩
        rintro ⟨_, _, _, hcs, hunit', hlow'⟩
        cases hcs
        cases hunit.symm.trans hunit'
        exact hlow (isLowUnit_iff.mpr hlow')
    · cases h
      exact Or.inl rfl
  · next hnone =>
    cases h
    refine Or.inr ⟨rfl, ?_⟩
    rintro ⟨_, _, _, rfl, _⟩
    exact hnone _ rfl

theorem readEscape_eq_ok {c : Char} (h : readEscape cs = .ok (c, rest)) :
    ∃ token, cs = token ++ rest ∧ Escape token := by
  unfold readEscape at h
  split at h
  · split at h
    · next hunit =>
      obtain ⟨digits, rfl, hdigits⟩ := readUnit_eq_some hunit
      split at h
      · next hhigh =>
        obtain ⟨digits', low, rfl, hdigits', hlow⟩ := readPair_eq_ok h
        refine ⟨'u' :: (digits ++ '\\' :: 'u' :: digits'), ?_,
          .pair hdigits hdigits' (isHighUnit_iff.mp hhigh) hlow⟩
        simp
      · next hhigh =>
        split at h
        · cases h
        · next hlow =>
          cases h
          rw [isHighUnit_iff] at hhigh
          rw [isLowUnit_iff] at hlow
          exact ⟨'u' :: digits, rfl, .unit hdigits (by omega)⟩
    · cases h
  · split at h
    · next hshort =>
      cases h
      exact ⟨[_], rfl, .letter hshort⟩
    · cases h
  · cases h

theorem readEscape_eq_error {fault : Fault} (h : readEscape cs = .error fault) :
    fault = .malformed ∨ fault = .unpaired ∧ LoneHalf cs := by
  unfold readEscape at h
  split at h
  · split at h
    · next hunit =>
      split at h
      · next hhigh =>
        exact (readPair_eq_error h).imp_right
          (.imp_right (.high hunit (isHighUnit_iff.mp hhigh)))
      split at h
      · next hlow =>
        cases h
        exact Or.inr ⟨rfl, .low hunit (isLowUnit_iff.mp hlow)⟩
      · cases h
    · cases h
      exact Or.inl rfl
  · split at h
    · cases h
    · cases h
      exact Or.inl rfl
  · cases h
    exact Or.inl rfl

theorem ComesToHalf.cons {c : Char} (h : ComesToHalf cs) (hescape : c ≠ '\\') (hmark : c ≠ '"') :
    ComesToHalf (c :: cs) := by
  obtain ⟨front, behind, rfl, hfront, hhalf⟩ := h
  exact ⟨c :: front, behind, rfl, .char hescape hmark hfront, hhalf⟩

theorem ComesToHalf.escape {token : List Char} (h : ComesToHalf cs) (htoken : Escape token) :
    ComesToHalf ('\\' :: (token ++ cs)) := by
  obtain ⟨front, behind, rfl, hfront, hhalf⟩ := h
  refine ⟨'\\' :: (token ++ front), behind, ?_, .escape htoken hfront, hhalf⟩
  rw [List.cons_append, List.append_assoc]

theorem readText_eq_ok {fuel : Nat} {acc : List Char} {s : String}
    (h : readText fuel acc cs = .ok (s, rest)) : rest <:+ cs := by
  induction fuel generalizing acc cs with
  | zero => cases h
  | succ fuel ih =>
    unfold readText at h
    split at h
    · cases h
    · cases h
      exact List.suffix_cons _ _
    · obtain ⟨⟨c, behind⟩, hescape, hrest⟩ := exists_of_bind_eq_ok h
      obtain ⟨token, rfl, _⟩ := readEscape_eq_ok hescape
      exact (ih hrest).trans ((List.suffix_append token behind).trans (List.suffix_cons _ _))
    · split at h
      · cases h
      · exact (ih h).trans (List.suffix_cons _ _)

/-- A text is given up where it breaks the grammar, or at the first half of a pair. -/
theorem readText_eq_error {fuel : Nat} {acc : List Char} {fault : Fault}
    (h : readText fuel acc cs = .error fault) :
    fault = .malformed ∨ fault = .unpaired ∧ ComesToHalf cs := by
  induction fuel generalizing acc cs with
  | zero =>
    cases h
    exact Or.inl rfl
  | succ fuel ih =>
    unfold readText at h
    split at h
    · cases h
      exact Or.inl rfl
    · cases h
    · next behind =>
      obtain hescape | ⟨⟨c, rest⟩, hescape, hrest⟩ := error_cases_of_bind h
      · exact (readEscape_eq_error hescape).imp_right
          (.imp_right fun hhalf => ⟨[], behind, rfl, .nil, hhalf⟩)
      · obtain ⟨token, rfl, htoken⟩ := readEscape_eq_ok hescape
        exact (ih hrest).imp_right (.imp_right fun hhalf => hhalf.escape htoken)
    · next hmark hescape =>
      split at h
      · cases h
        exact Or.inl rfl
      · exact (ih h).imp_right (.imp_right fun hhalf => hhalf.cons hescape hmark)

/-- A text answers together with its opening mark. -/
theorem readText_answers (fuel : Nat) (cs : List Char) :
    Answers ('"' :: cs) (readText fuel [] cs) := by
  cases h : readText fuel [] cs with
  | ok result => exact (readText_eq_ok h).trans (List.suffix_cons _ _)
  | error fault =>
    obtain rfl | ⟨rfl, hhalf⟩ := readText_eq_error h
    · exact True.intro
    · exact ⟨cs, List.suffix_rfl, hhalf⟩

theorem wholeDigits_eq_some {whole : List Char} (h : wholeDigits cs = some (whole, rest)) :
    cs = whole ++ rest ∧ ∀ c ∈ whole, c.isDigit = true := by
  unfold wholeDigits at h
  split at h
  · cases h
    exact ⟨rfl, List.forall_mem_singleton.mpr rfl⟩
  · rcases hspan : cs.span Char.isDigit with ⟨digits, behind⟩
    rw [hspan] at h
    dsimp only at h
    split at h
    · cases h
    · cases h
      exact span_digits hspan

theorem fractionDigits_suffix (cs : List Char) : (fractionDigits cs).2 <:+ cs := by
  unfold fractionDigits
  split
  · next behind =>
    rcases hspan : behind.span Char.isDigit with ⟨digits, more⟩
    dsimp only
    split
    · exact List.suffix_rfl
    · rw [(span_digits hspan).1]
      exact (List.suffix_append digits more).trans (List.suffix_cons _ _)
  · exact List.suffix_rfl

theorem splitSign_suffix (cs : List Char) : (Numeral.splitSign cs).2 <:+ cs := by
  unfold Numeral.splitSign
  split
  · exact List.suffix_cons _ _
  · exact List.suffix_cons _ _
  · exact List.suffix_rfl

theorem exponentPart_suffix (cs : List Char) : (exponentPart cs).2 <:+ cs := by
  unfold exponentPart
  split
  · next e behind =>
    rcases hsign : Numeral.splitSign behind with ⟨negative, after⟩
    rcases hspan : after.span Char.isDigit with ⟨digits, more⟩
    have hafter : after <:+ behind := by
      have := splitSign_suffix behind
      rwa [hsign] at this
    dsimp only
    rw [hspan]
    split
    · have hmore : more <:+ after := (span_digits hspan).1 ▸ List.suffix_append digits more
      exact hmore.trans (hafter.trans (List.suffix_cons e behind))
    · exact List.suffix_rfl
  · exact List.suffix_rfl

/-- A number that is too long is the one that the text begins with. -/
theorem readNumber_answers (negative : Bool) (cs : List Char) :
    Answers cs (readNumber negative cs) := by
  unfold readNumber
  split
  · exact True.intro
  · next whole behind hwhole =>
    obtain ⟨hcs, hdigits⟩ := wholeDigits_eq_some hwhole
    have hbehind : behind <:+ cs := hcs ▸ List.suffix_append whole behind
    have hrest := (exponentPart_suffix (fractionDigits behind).2).trans
      ((fractionDigits_suffix behind).trans hbehind)
    dsimp only
    split
    · split
      · next hlimit =>
        exact ⟨hlimit, whole, hcs ▸ (List.prefix_append whole behind).isInfix, hdigits, rfl⟩
      · exact hrest
    · exact hrest

theorem afterWord?_suffix {word : String} (h : afterWord? word cs = some rest) : rest <:+ cs := by
  unfold afterWord? at h
  split at h
  · cases h
    exact List.drop_suffix _ _
  · cases h

theorem readScalar_answers (cs : List Char) : Answers cs (readScalar cs) := by
  unfold readScalar
  split
  · next result hword =>
    obtain ⟨⟨word, v⟩, _, hafter⟩ := List.exists_of_findSome?_eq_some hword
    obtain ⟨behind, hbehind, rfl⟩ := Option.map_eq_some_iff.mp hafter
    exact afterWord?_suffix hbehind
  · split
    · exact (readNumber_answers _ _).of_suffix (List.suffix_cons _ _)
    · exact readNumber_answers _ _

section

variable {fuel : Nat} (hvalue : ∀ cs, Answers cs (readValue fuel cs))
include hvalue

theorem readItems_answers_succ (hitems : ∀ acc cs, Answers cs (readItems fuel acc cs))
    (acc : List Value) (cs : List Char) : Answers cs (readItems (fuel + 1) acc cs) := by
  unfold readItems
  refine (hvalue cs).bind fun v behind _ => ?_
  dsimp only
  split
  · next more hskip =>
    exact (hitems _ _).of_suffix ((skipSpaces_suffix _).trans (tail_suffix hskip))
  · next more hskip => exact tail_suffix hskip
  · exact True.intro

theorem readMembers_answers_succ (hmembers : ∀ acc cs, Answers cs (readMembers fuel acc cs))
    (acc : List (Value × Value)) (cs : List Char) :
    Answers cs (readMembers (fuel + 1) acc cs) := by
  unfold readMembers
  split
  · refine (readText_answers fuel _).bind fun k behind _ => ?_
    dsimp only
    split
    · next more hcolon =>
      refine (((hvalue _).bind fun v behind _ => ?_).of_suffix (skipSpaces_suffix _)).of_suffix
        (tail_suffix hcolon)
      dsimp only
      split
      · next more hskip =>
        exact (hmembers _ _).of_suffix ((skipSpaces_suffix _).trans (tail_suffix hskip))
      · next more hskip => exact tail_suffix hskip
      · exact True.intro
    · exact True.intro
  · exact True.intro

end

theorem readValue_answers_succ {fuel : Nat} (hitems : ∀ acc cs, Answers cs (readItems fuel acc cs))
    (hmembers : ∀ acc cs, Answers cs (readMembers fuel acc cs)) (cs : List Char) :
    Answers cs (readValue (fuel + 1) cs) := by
  unfold readValue
  split
  · exact (readText_answers fuel _).bind fun s behind _ => List.suffix_rfl
  · split
    · next hskip => exact (tail_suffix hskip).trans (List.suffix_cons _ _)
    · exact ((hitems _ _).of_suffix (skipSpaces_suffix _)).of_suffix (List.suffix_cons _ _)
  · split
    · next hskip => exact (tail_suffix hskip).trans (List.suffix_cons _ _)
    · exact ((hmembers _ _).of_suffix (skipSpaces_suffix _)).of_suffix (List.suffix_cons _ _)
  · exact readScalar_answers _

/-- Values, items and members call one another with less fuel each time. -/
theorem answers (fuel : Nat) : (∀ cs, Answers cs (readValue fuel cs)) ∧
    (∀ acc cs, Answers cs (readItems fuel acc cs)) ∧
    ∀ acc cs, Answers cs (readMembers fuel acc cs) := by
  induction fuel with
  | zero => exact ⟨fun _ => True.intro, fun _ _ => True.intro, fun _ _ => True.intro⟩
  | succ fuel ih =>
    obtain ⟨hvalue, hitems, hmembers⟩ := ih
    exact ⟨readValue_answers_succ hitems hmembers, readItems_answers_succ hvalue hitems,
      readMembers_answers_succ hvalue hmembers⟩

/-- A document that is refused has in it what it is refused for. -/
theorem answers_of_read {s : String} {fault : Fault} (h : read s = .error fault) :
    Answers (α := Value) s.toList (.error fault) := by
  have hvalue := (answers ((skipSpaces s.toList).length + 1)).1 (skipSpaces s.toList)
  unfold read at h
  dsimp only at h
  cases hread : readValue ((skipSpaces s.toList).length + 1) (skipSpaces s.toList) with
  | ok result =>
    rw [hread] at h
    change (if (skipSpaces result.2).isEmpty then Except.ok result.1 else _) = _ at h
    split at h
    · cases h
    · cases h
      exact True.intro
  | error fault' =>
    rw [hread] at h hvalue
    cases h
    exact hvalue.of_suffix (skipSpaces_suffix _)

/-- Whether a text is read without coming upon half of a pair. -/
def Paired (s : String) : Prop := read s ≠ .error .unpaired

/-- A document without half of a pair is read without coming upon one. -/
theorem paired_of_not_hasHalf {s : String} (h : ¬ HasHalf s.toList) : Paired s :=
  fun hread => h (answers_of_read hread)

end Bellows.Json
