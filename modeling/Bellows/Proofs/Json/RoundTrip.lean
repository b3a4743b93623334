import Bellows.Proofs.Json.Number
import Bellows.Proofs.Json.Text

/-! Values in JSON: what is written at any depth and in any layout is read back as it was. -/
namespace Bellows

namespace Value

variable {k : String} {v : Value} {es : List (Value × Value)} {entries : List (String × Value)}

/-- Entries under texts. -/
def named (entries : List (String × Value)) : List (Value × Value) :=
  entries.map fun e => (.text e.1, e.2)

theorem put_of_notMem (h : k ∉ entries.map Prod.fst) :
    put (.text k) v (named entries) = named entries ++ [(.text k, v)] := by
  induction entries with
  | nil => rfl
  | cons e es ih =>
    rw [List.map_cons, List.mem_cons, not_or] at h
    have hsame : sameKey (.text e.1) (.text k) = false := by
      simp [sameKey, Ne.symm h.1]
    have hrest := ih h.2
    unfold named at hrest ⊢
    rw [List.map_cons, put, hsame, hrest]
    rfl

/-- Entries under different texts stay as they are. -/
theorem ofEntries_named (h : (entries.map Prod.fst).Nodup) :
    ofEntries (named entries) = .map (named entries) := by
  have hfold : ∀ entries done : List (String × Value), ((done ++ entries).map Prod.fst).Nodup →
      (named entries).foldl (fun es e => put e.1 e.2 es) (named done) =
        named (done ++ entries) := by
    intro entries
    induction entries with
    | nil =>
      intro done _
      rw [List.append_nil]
      rfl
    | cons e es ih =>
      intro done hnodup
      have hnew : e.1 ∉ done.map Prod.fst := by
        intro hmem
        rw [List.map_append, List.nodup_append] at hnodup
        exact hnodup.2.2 _ hmem _ (List.mem_map_of_mem List.mem_cons_self) rfl
      have hput : put (.text e.1) e.2 (named done) = named (done ++ [e]) := by
        rw [put_of_notMem hnew, named, named, List.map_append]
        rfl
      have hrest := ih (done ++ [e]) (by rwa [List.append_assoc])
      rw [List.append_assoc] at hrest
      change (named es).foldl _ (put (.text e.1) e.2 (named done)) = _
      rw [hput]
      exact hrest
  exact congrArg Value.map (hfold entries [] h)

end Value

namespace Json

/-- Values that JSON has a form for: whole numbers that are short enough to be read, and maps that
have different texts as their keys. -/
inductive Plain : Value → Prop
  | null : Plain .null
  | bool (b : Bool) : Plain (.bool b)
  | int (n : Int) (short : (decimalDigits n.natAbs).length ≤ digitLimit) : Plain (.int n)
  | float (x : Binary64) : Plain (.float x)
  | text (s : String) : Plain (.text s)
  | list (items : List Value) (plain : ∀ v ∈ items, Plain v) : Plain (.list items)
  | map (entries : List (String × Value)) (distinct : (entries.map Prod.fst).Nodup)
    (plain : ∀ e ∈ entries, Plain e.2) : Plain (.map (Value.named entries))

variable {l : Layout} {depth fuel : Nat} {v : Value} {cs rest : List Char}

theorem skipSpaces_append (hspaces : ∀ c ∈ cs, isSpace c = true) :
    skipSpaces (cs ++ rest) = skipSpaces rest := List.dropWhile_append_of_pos hspaces

theorem skipSpaces_cons {c : Char} (h : isSpace c = false) (cs : List Char) :
    skipSpaces (c :: cs) = c :: cs := List.dropWhile_cons_of_neg (by simp [h])

theorem isSpace_newline (l : Layout) (depth : Nat) : ∀ c ∈ l.newline depth, isSpace c = true := by
  intro c hc
  unfold Layout.newline at hc
  split at hc
  · cases hc
  · rcases List.mem_cons.mp hc with rfl | hblank
    · rfl
    · rw [List.eq_of_mem_replicate hblank]
      rfl

/-- A comma, and spaces behind it. -/
theorem exists_comma (l : Layout) (depth : Nat) :
    ∃ gap, l.comma depth = ',' :: gap ∧ ∀ c ∈ gap, isSpace c = true := by
  unfold Layout.comma
  split
  · exact ⟨[' '], rfl, List.forall_mem_singleton.mpr rfl⟩
  · exact ⟨_, rfl, isSpace_newline l depth⟩

theorem itemChars_eq (l : Layout) (depth : Nat) (items : List Value) :
    itemChars l depth items = items.map (chars l depth) := by
  induction items with
  | nil => rfl
  | cons v vs ih => rw [itemChars, ih, List.map_cons]

/-- The text of one entry. -/
def memberChars (l : Layout) (depth : Nat) (e : String × Value) : List Char :=
  textChars e.1 ++ ':' :: ' ' :: chars l depth e.2

theorem entryChars_eq (l : Layout) (depth : Nat) (entries : List (String × Value)) :
    entryChars l depth (Value.named entries) = entries.map (memberChars l depth) := by
  induction entries with
  | nil => rfl
  | cons e es ih =>
    unfold Value.named at ih ⊢
    rw [List.map_cons, entryChars, ih, List.map_cons]
    rfl

/-- Parts with something between them. -/
theorem intercalate_cons (sep p : List Char) (ps : List (List Char)) :
    sep.intercalate (p :: ps) = p ++ ps.flatMap (sep ++ ·) := by
  induction ps generalizing p with
  | nil => simp [List.intercalate]
  | cons q ps ih =>
    have hstep : sep.intercalate (p :: q :: ps) = p ++ (sep ++ sep.intercalate (q :: ps)) := by
      simp [List.intercalate]
    rw [hstep, ih, List.flatMap_cons, List.append_assoc]

/-- How numbers and words begin. -/
def opensScalar (c : Char) : Bool := c.isDigit || ['-', 'n', 't', 'f', 'N', 'I'].contains c

/-- How values begin. -/
def opensValue (c : Char) : Bool := opensScalar c || ['"', '[', '\x7b'].contains c

theorem ne_of_opensScalar {c d : Char} (hc : opensScalar c = true) (hd : opensScalar d = false) :
    c ≠ d := by
  rintro rfl
  rw [hc] at hd
  cases hd

theorem ne_of_opensValue {c d : Char} (hc : opensValue c = true) (hd : opensValue d = false) :
    c ≠ d := by
  rintro rfl
  rw [hc] at hd
  cases hd

theorem isSpace_of_opensValue {c : Char} (hc : opensValue c = true) : isSpace c = false := by
  have hspace : c ≠ ' ' := ne_of_opensValue hc rfl
  have htab : c ≠ '\t' := ne_of_opensValue hc rfl
  have hline : c ≠ '\n' := ne_of_opensValue hc rfl
  have hreturn : c ≠ '\r' := ne_of_opensValue hc rfl
  simp [isSpace, hspace, htab, hline, hreturn]

theorem opensScalar_of_isDigit {c : Char} (hc : c.isDigit = true) : opensScalar c = true := by
  rw [opensScalar, hc, Bool.true_or]

/-- A number begins as numbers do. -/
theorem head_numberChars (x : Binary64) :
    ∃ c cs, numberChars x = c :: cs ∧ opensScalar c = true := by
  cases x with
  | nan => exact ⟨'N', _, rfl, rfl⟩
  | infinite s =>
    cases s with
    | false => exact ⟨'I', _, rfl, rfl⟩
    | true => exact ⟨'-', _, rfl, rfl⟩
  | finite s n h =>
    obtain ⟨c, ds, hds, hc⟩ := head_magnitudeChars h
    rw [numberChars_finite, hds]
    cases s with
    | false => exact ⟨c, ds, rfl, opensScalar_of_isDigit hc⟩
    | true => exact ⟨'-', c :: ds, rfl, rfl⟩

theorem head_toString_int (m : Int) :
    ∃ c cs, (toString m).toList = c :: cs ∧ opensScalar c = true := by
  obtain ⟨c, ds, hds, hc⟩ := head_digits m.natAbs
  rw [toList_toString_int, hds]
  by_cases hm : m < 0
  · exact ⟨'-', c :: ds, if_pos hm, rfl⟩
  · exact ⟨c, ds, if_neg hm, opensScalar_of_isDigit hc⟩

/-- What begins as a number or a word is read as one. -/
theorem readValue_scalar {c : Char} (hc : opensScalar c = true) (fuel : Nat) (cs : List Char) :
    readValue (fuel + 1) (c :: cs) = readScalar (c :: cs) := by
  have hmark : c ≠ '"' := ne_of_opensScalar hc rfl
  have hlist : c ≠ '[' := ne_of_opensScalar hc rfl
  have hmap : c ≠ '\x7b' := ne_of_opensScalar hc rfl
  simp [readValue, hmark, hlist, hmap]

/-- The text of a value begins as values do. -/
theorem head_chars (h : Plain v) (l : Layout) (depth : Nat) :
    ∃ c cs, chars l depth v = c :: cs ∧ opensValue c = true := by
  have hscalar : ∀ cs : List Char, (∃ c ds, cs = c :: ds ∧ opensScalar c = true) →
      ∃ c ds, cs = c :: ds ∧ opensValue c = true := by
    rintro cs ⟨c, ds, hds, hc⟩
    exact ⟨c, ds, hds, by rw [opensValue, hc, Bool.true_or]⟩
  have hparts : ∀ (opening closing : Char) (parts : List (List Char)),
      opensValue opening = true → ∃ c ds,
        l.enclose depth opening closing parts = c :: ds ∧ opensValue c = true := by
    intro opening closing parts hopening
    unfold Layout.enclose
    split
    · exact ⟨opening, _, rfl, hopening⟩
    · exact ⟨opening, _, rfl, hopening⟩
  cases h with
  | null => exact ⟨'n', _, rfl, rfl⟩
  | bool b => cases b <;> exact ⟨_, _, rfl, rfl⟩
  | int m _ =>
    rw [chars]
    exact hscalar _ (head_toString_int m)
  | float x =>
    rw [chars]
    exact hscalar _ (head_numberChars x)
  | text s => exact ⟨'"', _, rfl, rfl⟩
  | list items _ =>
    rw [chars]
    exact hparts '[' ']' _ rfl
  | map entries _ _ =>
    rw [chars]
    exact hparts '\x7b' '\x7d' _ rfl

theorem skipSpaces_chars (h : Plain v) (l : Layout) (depth : Nat) (rest : List Char) :
    skipSpaces (chars l depth v ++ rest) = chars l depth v ++ rest := by
  obtain ⟨c, cs, hcs, hc⟩ := head_chars h l depth
  rw [hcs, List.cons_append]
  exact skipSpaces_cons (isSpace_of_opensValue hc) _

/-- A value is read back from the front of a text. -/
def ReadsBack (l : Layout) (v : Value) : Prop :=
  ∀ depth fuel rest, Closes rest → (chars l depth v).length < fuel →
    readValue fuel (chars l depth v ++ rest) = .ok (v, rest)

/-- What stands behind a part: the parts after it, each behind a comma, and the end of the whole. -/
def behind (l : Layout) (depth : Nat) (closing : Char) (parts : List (List Char))
    (rest : List Char) : List Char :=
  parts.flatMap (l.comma (depth + 1) ++ ·) ++ (l.newline depth ++ closing :: rest)

section

variable {closing : Char} {part : List Char} {parts : List (List Char)}

theorem enclose_append (l : Layout) (depth : Nat) (opening closing : Char) (part : List Char)
    (parts : List (List Char)) (rest : List Char) :
    l.enclose depth opening closing (part :: parts) ++ rest =
      opening :: (l.newline (depth + 1) ++ (part ++ behind l depth closing parts rest)) := by
  simp [Layout.enclose, intercalate_cons, behind]

/-- A part that follows stands behind a comma and spaces. -/
theorem exists_behind_cons (l : Layout) (depth : Nat) (closing : Char) (part : List Char)
    (parts : List (List Char)) :
    ∃ gap, (∀ c ∈ gap, isSpace c = true) ∧ ∀ rest, behind l depth closing (part :: parts) rest =
      ',' :: (gap ++ (part ++ behind l depth closing parts rest)) := by
  obtain ⟨gap, hcomma, hgap⟩ := exists_comma l (depth + 1)
  refine ⟨gap, hgap, fun rest => ?_⟩
  simp [behind, hcomma]

/-- Behind the last part there is only the end. -/
theorem skipSpaces_behind_nil (hclosing : isSpace closing = false) (rest : List Char) :
    skipSpaces (behind l depth closing [] rest) = closing :: rest := by
  rw [behind, List.flatMap_nil, List.nil_append, skipSpaces_append (isSpace_newline l depth),
    skipSpaces_cons hclosing]

theorem length_behind_pos (l : Layout) (depth : Nat) (closing : Char) (parts : List (List Char)) :
    0 < (behind l depth closing parts []).length := by
  simp only [behind, List.length_append, List.length_cons]
  omega

theorem closes_of_isSpace {c : Char} (hc : isSpace c = true) (cs : List Char) :
    Closes (c :: cs) := by
  have hblank : ((c = ' ' ∨ c = '\t') ∨ c = '\n') ∨ c = '\r' := by simpa [isSpace] using hc
  refine closes_cons ?_ cs
  rcases hblank with ((rfl | rfl) | rfl) | rfl <;> decide

/-- No part runs on into what stands behind it. -/
theorem closes_behind (l : Layout) (depth : Nat) (parts : List (List Char))
    (hclosing : Closes [closing]) (rest : List Char) :
    Closes (behind l depth closing parts rest) := by
  cases parts with
  | cons part parts =>
    obtain ⟨gap, _, hbehind⟩ := exists_behind_cons l depth closing part parts
    rw [hbehind]
    exact closes_cons (by decide) _
  | nil =>
    rw [behind, List.flatMap_nil, List.nil_append]
    cases hnewline : l.newline depth with
    | nil =>
      intro c hc
      exact hclosing c hc
    | cons c cs =>
      exact closes_of_isSpace (isSpace_newline l depth c (hnewline ▸ List.mem_cons_self)) _

end

section

variable {acc : List Value} {members : List (Value × Value)} {tail more : List Char} {k : String}

theorem readValue_list {c : Char} (hskip : skipSpaces more = c :: cs) (hc : c ≠ ']') :
    readValue (fuel + 1) ('[' :: more) = readItems fuel [] (c :: cs) := by
  simp [readValue, hskip, hc]

theorem readValue_map {c : Char} (hskip : skipSpaces more = c :: cs) (hc : c ≠ '\x7d') :
    readValue (fuel + 1) ('\x7b' :: more) = readMembers fuel [] (c :: cs) := by
  simp [readValue, hskip, hc]

theorem readItems_last (hv : readValue fuel cs = .ok (v, tail))
    (htail : skipSpaces tail = ']' :: rest) :
    readItems (fuel + 1) acc cs = .ok (.list (v :: acc).reverse, rest) := by
  simp only [readItems, hv, bind, Except.bind, htail]

theorem readItems_next (hv : readValue fuel cs = .ok (v, tail))
    (htail : skipSpaces tail = ',' :: more) :
    readItems (fuel + 1) acc cs = readItems fuel (v :: acc) (skipSpaces more) := by
  simp only [readItems, hv, bind, Except.bind, htail]

theorem readMembers_last (hk : readText fuel [] cs = .ok (k, ':' :: ' ' :: more))
    (hspaces : skipSpaces more = more) (hv : readValue fuel more = .ok (v, tail))
    (htail : skipSpaces tail = '\x7d' :: rest) :
    readMembers (fuel + 1) members ('"' :: cs) =
      .ok (Value.ofEntries ((.text k, v) :: members).reverse, rest) := by
  have hcolon : skipSpaces (':' :: ' ' :: more) = ':' :: ' ' :: more := skipSpaces_cons rfl _
  have hblank : skipSpaces (' ' :: more) = more := hspaces
  simp only [readMembers, hk, bind, Except.bind, hcolon, hblank, hv, htail]

theorem readMembers_next {rest : List Char} (hk : readText fuel [] cs = .ok (k, ':' :: ' ' :: more))
    (hspaces : skipSpaces more = more) (hv : readValue fuel more = .ok (v, tail))
    (htail : skipSpaces tail = ',' :: rest) :
    readMembers (fuel + 1) members ('"' :: cs) =
      readMembers fuel ((.text k, v) :: members) (skipSpaces rest) := by
  have hcolon : skipSpaces (':' :: ' ' :: more) = ':' :: ' ' :: more := skipSpaces_cons rfl _
  have hblank : skipSpaces (' ' :: more) = more := hspaces
  simp only [readMembers, hk, bind, Except.bind, hcolon, hblank, hv, htail]

end

/-- How parts are read, of a list or of a map: behind one of them the whole ends, or a comma stands
in front of the next one. -/
structure ReadsPart {α : Type} (run : Nat → List α → Reader Value) (whole : List α → Value)
    (text : α → List Char) (closing : Char) (a : α) : Prop where
  skip : ∀ tail, skipSpaces (text a ++ tail) = text a ++ tail
  last : ∀ {fuel acc tail rest}, (text a).length < fuel → Closes tail →
    skipSpaces tail = closing :: rest →
      run (fuel + 1) acc (text a ++ tail) = .ok (whole (acc ++ [a]), rest)
  next : ∀ {fuel acc tail more}, (text a).length < fuel → Closes tail →
    skipSpaces tail = ',' :: more →
      run (fuel + 1) acc (text a ++ tail) = run fuel (acc ++ [a]) (skipSpaces more)

/-- Parts are read back one after another. -/
theorem run_behind {α : Type} {run : Nat → List α → Reader Value} {whole : List α → Value}
    {text : α → List Char} {closing : Char} {a : α} {parts : List α} (hclosing : Closes [closing])
    (hspace : isSpace closing = false) (ha : ReadsPart run whole text closing a)
    (hparts : ∀ b ∈ parts, ReadsPart run whole text closing b) (acc : List α)
    (hfuel : (text a ++ behind l depth closing (parts.map text) []).length < fuel)
    (rest : List Char) : run fuel acc (text a ++ behind l depth closing (parts.map text) rest) =
      .ok (whole (acc ++ a :: parts), rest) := by
  induction parts generalizing a fuel acc with
  | nil =>
    obtain ⟨f, rfl⟩ : ∃ f, fuel = f + 1 := ⟨fuel - 1, by omega⟩
    have hpos := length_behind_pos l depth closing []
    rw [List.length_append, List.map_nil] at hfuel
    exact ha.last (by omega) (closes_behind l depth [] hclosing rest)
      (skipSpaces_behind_nil hspace rest)
  | cons b parts ih =>
    obtain ⟨f, rfl⟩ : ∃ f, fuel = f + 1 := ⟨fuel - 1, by omega⟩
    obtain ⟨hb, hparts⟩ := List.forall_mem_cons.mp hparts
    obtain ⟨gap, hgap, hbehind⟩ := exists_behind_cons l depth closing (text b) (parts.map text)
    have hlen := congrArg List.length (hbehind [])
    rw [List.length_cons, List.length_append] at hlen
    rw [List.length_append, List.map_cons] at hfuel
    have hcomma : skipSpaces (behind l depth closing (text b :: parts.map text) rest) =
        ',' :: (gap ++ (text b ++ behind l depth closing (parts.map text) rest)) := by
      rw [hbehind rest]
      exact skipSpaces_cons rfl _
    rw [List.map_cons, ha.next (by omega) (closes_behind l depth _ hclosing rest) hcomma,
      skipSpaces_append hgap, hb.skip, ih hb hparts (acc ++ [a]) (by omega), List.append_assoc]
    rfl

/-- The items of a list are read so. -/
theorem readsPart_item (h : Plain v) (hv : ReadsBack l v) (depth : Nat) :
    ReadsPart (fun fuel acc => readItems fuel acc.reverse) .list (chars l depth) ']' v where
  skip := skipSpaces_chars h l depth
  last := by
    intro fuel acc tail rest hfuel hclosing htail
    rw [readItems_last (hv depth fuel tail hclosing hfuel) htail, List.reverse_cons,
      List.reverse_reverse]
  next := by
    intro fuel acc tail more hfuel hclosing htail
    rw [readItems_next (hv depth fuel tail hclosing hfuel) htail, List.reverse_append]
    rfl

/-- The text of an entry is that of its key, which is read back, and then that of its value. -/
theorem exists_memberChars (e : String × Value) (l : Layout) (depth : Nat) {fuel : Nat}
    (hfuel : (memberChars l depth e).length ≤ fuel) (tail : List Char) :
    ∃ body, memberChars l depth e ++ tail = '"' :: body ∧
      readText fuel [] body = .ok (e.1, ':' :: ' ' :: (chars l depth e.2 ++ tail)) := by
  rw [memberChars, List.length_append] at hfuel
  obtain ⟨body, hbody, hread⟩ := @readText_textChars e.1 fuel (by omega)
    (':' :: ' ' :: (chars l depth e.2 ++ tail))
  refine ⟨body, ?_, hread⟩
  rw [← hbody, memberChars, List.append_assoc]
  rfl

theorem skipSpaces_memberChars (e : String × Value) (l : Layout) (depth : Nat) (tail : List Char) :
    skipSpaces (memberChars l depth e ++ tail) = memberChars l depth e ++ tail :=
  skipSpaces_cons rfl _

theorem length_chars_le (l : Layout) (depth : Nat) (e : String × Value) :
    (chars l depth e.2).length ≤ (memberChars l depth e).length := by
  simp only [memberChars, List.length_append, List.length_cons]
  omega

theorem reverse_named_concat (acc : List (String × Value)) (e : String × Value) :
    (Value.text e.1, e.2) :: (Value.named acc).reverse = (Value.named (acc ++ [e])).reverse := by
  simp [Value.named]

/-- The members of a map are read so. -/
theorem readsPart_member {e : String × Value} (h : Plain e.2) (hv : ReadsBack l e.2) (depth : Nat) :
    ReadsPart (fun fuel acc => readMembers fuel (Value.named acc).reverse)
      (fun es => Value.ofEntries (Value.named es)) (memberChars l depth) '\x7d' e where
  skip := skipSpaces_memberChars e l depth
  last := by
    intro fuel acc tail rest hfuel hclosing htail
    obtain ⟨body, hbody, hkey⟩ := exists_memberChars e l depth hfuel.le tail
    have hread := hv depth fuel tail hclosing ((length_chars_le l depth e).trans_lt hfuel)
    rw [hbody, readMembers_last hkey (skipSpaces_chars h l depth tail) hread htail,
      reverse_named_concat, List.reverse_reverse]
  next := by
    intro fuel acc tail more hfuel hclosing htail
    obtain ⟨body, hbody, hkey⟩ := exists_memberChars e l depth hfuel.le tail
    have hread := hv depth fuel tail hclosing ((length_chars_le l depth e).trans_lt hfuel)
    rw [hbody, readMembers_next hkey (skipSpaces_chars h l depth tail) hread htail,
      reverse_named_concat]

/-- Numbers and words are read back, being read as what they begin as. -/
theorem readsBack_scalar {text : List Char} (htext : ∀ depth, chars l depth v = text)
    (hhead : ∃ c cs, text = c :: cs ∧ opensScalar c = true)
    (hread : ∀ rest, Closes rest → readScalar (text ++ rest) = .ok (v, rest)) : ReadsBack l v := by
  intro depth fuel rest hrest hfuel
  obtain ⟨f, rfl⟩ : ∃ f, fuel = f + 1 := ⟨fuel - 1, by omega⟩
  obtain ⟨c, cs, rfl, hc⟩ := hhead
  rw [htext, ← hread rest hrest]
  exact readValue_scalar hc f (cs ++ rest)

theorem readsBack_text (s : String) (l : Layout) : ReadsBack l (.text s) := by
  intro depth fuel rest _ hfuel
  obtain ⟨f, rfl⟩ : ∃ f, fuel = f + 1 := ⟨fuel - 1, by omega⟩
  rw [chars] at hfuel ⊢
  obtain ⟨body, hbody, hread⟩ := readText_textChars s (Nat.le_of_lt_succ hfuel) rest
  rw [hbody]
  simp only [readValue, hread, bind, Except.bind]

theorem readsBack_list {items : List Value} (hitems : ∀ v ∈ items, Plain v ∧ ReadsBack l v) :
    ReadsBack l (.list items) := by
  intro depth fuel rest _ hfuel
  obtain ⟨f, rfl⟩ : ∃ f, fuel = f + 1 := ⟨fuel - 1, by omega⟩
  rw [chars, itemChars_eq] at hfuel ⊢
  cases items with
  | nil => rfl
  | cons v vs =>
    obtain ⟨hv, hvs⟩ := List.forall_mem_cons.mp hitems
    have hlen := congrArg List.length (enclose_append l depth '[' ']' (chars l (depth + 1) v)
      (vs.map (chars l (depth + 1))) [])
    rw [List.append_nil, List.length_cons, List.length_append] at hlen
    rw [List.map_cons] at hfuel ⊢
    have hbehind : (chars l (depth + 1) v ++
        behind l depth ']' (vs.map (chars l (depth + 1))) []).length < f := by omega
    have hread := run_behind (closes_cons (by decide) []) rfl
      (readsPart_item hv.1 hv.2 (depth + 1))
      (fun w hw => readsPart_item (hvs w hw).1 (hvs w hw).2 (depth + 1)) [] hbehind rest
    obtain ⟨c, cs, hcs, hc⟩ := head_chars hv.1 l (depth + 1)
    have hskip := (skipSpaces_append (isSpace_newline l (depth + 1))).trans
      (skipSpaces_chars hv.1 l (depth + 1) (behind l depth ']' (vs.map (chars l (depth + 1))) rest))
    rw [hcs, List.cons_append] at hskip hread
    rw [enclose_append, hcs, List.cons_append]
    exact (readValue_list hskip (ne_of_opensValue hc rfl)).trans hread

theorem readsBack_map {entries : List (String × Value)} (hdistinct : (entries.map Prod.fst).Nodup)
    (hentries : ∀ e ∈ entries, Plain e.2 ∧ ReadsBack l e.2) :
    ReadsBack l (.map (Value.named entries)) := by
  intro depth fuel rest _ hfuel
  obtain ⟨f, rfl⟩ : ∃ f, fuel = f + 1 := ⟨fuel - 1, by omega⟩
  rw [chars, entryChars_eq] at hfuel ⊢
  cases entries with
  | nil => rfl
  | cons e es =>
    obtain ⟨he, hes⟩ := List.forall_mem_cons.mp hentries
    have hlen := congrArg List.length (enclose_append l depth '\x7b' '\x7d'
      (memberChars l (depth + 1) e) (es.map (memberChars l (depth + 1))) [])
    rw [List.append_nil, List.length_cons, List.length_append] at hlen
    rw [List.map_cons] at hfuel ⊢
    have hbehind : (memberChars l (depth + 1) e ++
        behind l depth '\x7d' (es.map (memberChars l (depth + 1))) []).length < f := by omega
    have hread := run_behind (closes_cons (by decide) []) rfl
      (readsPart_member he.1 he.2 (depth + 1))
      (fun w hw => readsPart_member (hes w hw).1 (hes w hw).2 (depth + 1)) [] hbehind rest
    have hskip := (skipSpaces_append (isSpace_newline l (depth + 1))).trans
      (skipSpaces_memberChars e l (depth + 1)
        (behind l depth '\x7d' (es.map (memberChars l (depth + 1))) rest))
    rw [List.nil_append, Value.ofEntries_named hdistinct] at hread
    rw [enclose_append]
    exact (readValue_map hskip (by decide)).trans hread

/-- Every value that JSON has a form for is read back from the front of a text. -/
theorem readsBack_of_plain (h : Plain v) (l : Layout) : ReadsBack l v := by
  induction h with
  | null => exact readsBack_scalar (fun _ => rfl) ⟨'n', _, rfl, rfl⟩ fun _ _ => rfl
  | bool b =>
    cases b with
    | false => exact readsBack_scalar (fun _ => rfl) ⟨'f', _, rfl, rfl⟩ fun _ _ => rfl
    | true => exact readsBack_scalar (fun _ => rfl) ⟨'t', _, rfl, rfl⟩ fun _ _ => rfl
  | int m hm =>
    exact readsBack_scalar (fun depth => by rw [chars]) (head_toString_int m)
      fun _ hrest => readScalar_int hm hrest
  | float x =>
    exact readsBack_scalar (fun depth => by rw [chars]) (head_numberChars x)
      fun _ hrest => readScalar_float x hrest
  | text s => exact readsBack_text s l
  | list items hitems ih => exact readsBack_list fun v hv => ⟨hitems v hv, ih v hv⟩
  | map entries hdistinct hentries ih =>
    exact readsBack_map hdistinct fun e he => ⟨hentries e he, ih e he⟩

/-- Reading gives back what was written, on one line or on many. -/
theorem read_render (h : Plain v) (indent : Option Int) : read (render indent v) = .ok v := by
  have hskip : skipSpaces (chars (.ofIndent indent) 0 v) = chars (.ofIndent indent) 0 v := by
    have := skipSpaces_chars h (.ofIndent indent) 0 []
    rwa [List.append_nil] at this
  have hread := readsBack_of_plain h (.ofIndent indent) 0 _ [] closes_nil (Nat.lt_succ_self _)
  rw [List.append_nil] at hread
  simp only [read, render, String.toList_ofList, hskip, hread, bind, Except.bind]
  rfl

end Json
end Bellows
