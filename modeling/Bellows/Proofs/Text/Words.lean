import Mathlib.Data.String.Basic

/-! A text split at a character into words, and words put together again. -/
namespace Bellows

open String

/-- What is read at a place in the middle of a text. -/
theorem read_ofList_append (l m r : List Char) (c : Char) :
    ¬ Pos.Raw.atEnd (ofList (l ++ m ++ c :: r)) ⟨utf8Len l + utf8Len m⟩ ∧
    Pos.Raw.get (ofList (l ++ m ++ c :: r)) ⟨utf8Len l + utf8Len m⟩ = c ∧
    Pos.Raw.next (ofList (l ++ m ++ c :: r)) ⟨utf8Len l + utf8Len m⟩ =
      ⟨utf8Len l + utf8Len m + c.utf8Size⟩ := by
  rw [← utf8Len_append]
  exact ⟨(atEnd_of_valid (l ++ m) (c :: r)).not.mpr (List.cons_ne_nil c r),
    get_of_valid (l ++ m) (c :: r), next_of_valid (l ++ m) c r⟩

/-- A separator of one character is read at once. -/
theorem read_separator (sep : Char) : Pos.Raw.get (ofList [sep]) 0 = sep ∧
    Pos.Raw.next (ofList [sep]) 0 = ⟨sep.utf8Size⟩ ∧
    Pos.Raw.atEnd (ofList [sep]) ⟨sep.utf8Size⟩ := by
  have hget := get_of_valid [] [sep]
  have hnext := next_of_valid [] sep []
  have hend := (atEnd_of_valid [sep] []).mpr rfl
  simp only [utf8Len_nil, utf8Len_cons, Nat.zero_add, List.nil_append, List.append_nil] at *
  exact ⟨hget, hnext, hend⟩

/-- Splitting at a character, in the middle of a word: `l` is behind, `m` is the word so far. -/
theorem splitOnAux_char (sep : Char) (l m r : List Char) (words : List String) :
    splitOnAux (ofList (l ++ m ++ r)) (ofList [sep]) ⟨utf8Len l⟩ ⟨utf8Len l + utf8Len m⟩ 0 words =
      words.reverse ++ (List.splitOnPPrepend (· == sep) r m.reverse).map ofList := by
  obtain ⟨hsep, hsepNext, hsepEnd⟩ := read_separator sep
  induction r generalizing l m words with
  | nil =>
    have hend : Pos.Raw.atEnd (ofList (l ++ m ++ [])) ⟨utf8Len l + utf8Len m⟩ := by
      rw [← utf8Len_append]
      exact (atEnd_of_valid (l ++ m) []).mpr rfl
    rw [splitOnAux, if_pos hend, extract_of_valid]
    simp
  | cons c r ih =>
    obtain ⟨hend, hget, hnext⟩ := read_ofList_append l m r c
    rw [splitOnAux, if_neg hend]
    by_cases hc : c = sep
    · have hword : Pos.Raw.extract (ofList (l ++ m ++ c :: r)) ⟨utf8Len l⟩
          (Pos.Raw.unoffsetBy ⟨utf8Len l + utf8Len m + c.utf8Size⟩ ⟨sep.utf8Size⟩) =
            ofList m := by
        have hback : Pos.Raw.unoffsetBy ⟨utf8Len l + utf8Len m + c.utf8Size⟩ ⟨sep.utf8Size⟩ =
            ⟨utf8Len l + utf8Len m⟩ := by
          rw [hc]
          exact Pos.Raw.ext (Nat.add_sub_cancel _ _)
        rw [hback]
        exact extract_of_valid l m (c :: r)
      have hrest := ih (l ++ m ++ [c]) [] (ofList m :: words)
      rw [show l ++ m ++ [c] ++ [] ++ r = l ++ m ++ c :: r by simp] at hrest
      simp only [hget, hnext, hsep, hsepNext]
      rw [if_pos (by rw [hc]; exact beq_self_eq_true sep), if_pos hsepEnd, hword,
        List.splitOnPPrepend_cons_pos (by simpa using hc), List.reverse_reverse]
      simpa [Nat.add_assoc] using hrest
    · have hrest := ih l (m ++ [c]) words
      rw [show l ++ (m ++ [c]) ++ r = l ++ m ++ c :: r by simp] at hrest
      have hstay : Pos.Raw.unoffsetBy ⟨utf8Len l + utf8Len m⟩ 0 = ⟨utf8Len l + utf8Len m⟩ := rfl
      have hne : ¬ (c == Pos.Raw.get (ofList [sep]) 0) = true := by
        rw [hsep, beq_iff_eq]
        exact hc
      rw [hget, if_neg hne, hstay, hnext, List.splitOnPPrepend_cons_neg (by simpa using hc)]
      simpa [Nat.add_assoc] using hrest

theorem splitOn_char (s : String) (sep : Char) :
    s.splitOn (ofList [sep]) = (s.toList.splitOn sep).map ofList := by
  have hne : ¬ (ofList [sep] == "") = true := by simp
  rw [splitOn, if_neg hne, List.splitOn_eq_splitOnP]
  simpa using splitOnAux_char sep [] [] s.toList []

/-- What the separator is not in is one word. -/
theorem splitOn_of_not_mem {s : String} {sep : Char} (h : sep ∉ s.toList) :
    s.splitOn (ofList [sep]) = [s] := by
  have hnone : ∀ c ∈ s.toList, (c == sep) = false := by
    rintro c hc
    exact beq_false_of_ne fun heq => h (heq ▸ hc)
  rw [splitOn_char, List.splitOn_eq_splitOnP, List.splitOnP_eq_singleton hnone, List.map_singleton,
    ofList_toList]

theorem splitOn_blank (s : String) :
    s.splitOn " " = (s.toList.splitOn ' ').map ofList :=
  splitOn_char s ' '

/-- The separator is in none of the words. -/
theorem not_mem_of_mem_splitOn {sep : Char} {cs word : List Char} (h : word ∈ cs.splitOn sep) :
    sep ∉ word := by
  induction cs generalizing word with
  | nil =>
    obtain rfl : word = [] := List.mem_singleton.mp h
    exact List.not_mem_nil
  | cons c cs ih =>
    rw [List.splitOn_cons_eq_if_modifyHead] at h
    split at h
    · obtain rfl | hword := List.mem_cons.mp h
      · exact List.not_mem_nil
      · exact ih hword
    · next hc =>
      cases hcs : cs.splitOn sep with
      | nil => exact (List.splitOn_ne_nil sep cs hcs).elim
      | cons first words =>
        rw [hcs, List.modifyHead_cons] at h
        obtain rfl | hword := List.mem_cons.mp h
        · have hfirst : sep ∉ first := ih (hcs ▸ List.mem_cons_self)
          have hne : c ≠ sep := fun heq => hc (beq_iff_eq.mpr heq)
          exact List.not_mem_cons_of_ne_of_not_mem hne.symm hfirst
        · exact ih (hcs ▸ List.mem_cons_of_mem _ hword)

theorem prefix_intercalate (s word : String) (words : List String) :
    word.toList <+: (s.intercalate (word :: words)).toList := by
  cases words <;> simp

end Bellows
