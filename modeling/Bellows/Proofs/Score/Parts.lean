import Bellows.Proofs.Score.Threading

/-! Which elements the parts of a score are read from: of several elements with the same identifier
the last one. -/
namespace Bellows

open Xml (Element)

namespace MusicXml

variable {α : Type} {ornament : Dynamic} {root e : Element} {es : List Element}
  {written : Keyed String Element} {part name : String} {p : Part}
  {fault fault' : ScoreFault}

/-- The last of some elements with an identifier. -/
def lastNamed? (part : String) (es : List Element) : Option Element :=
  (es.filter fun e => e.attribute? "id" = some part).getLast?

theorem mem_of_lastNamed? (h : lastNamed? part es = some e) :
    e ∈ es ∧ e.attribute? "id" = some part := by
  obtain ⟨hmem, hid⟩ := List.mem_filter.mp (List.mem_of_getLast? h)
  exact ⟨hmem, of_decide_eq_true hid⟩

theorem exists_lastNamed?_iff :
    (∃ e, lastNamed? part es = some e) ↔ ∃ e ∈ es, e.attribute? "id" = some part := by
  constructor
  · rintro ⟨e, he⟩
    exact ⟨e, mem_of_lastNamed? he⟩
  · rintro ⟨e, he, hid⟩
    cases hlast : lastNamed? part es with
    | some last => exact ⟨last, rfl⟩
    | none =>
      have hnil := List.getLast?_eq_none_iff.mp hlast
      have hmem : e ∈ es.filter fun e => e.attribute? "id" = some part :=
        List.mem_filter.mpr ⟨he, decide_eq_true hid⟩
      rw [hnil] at hmem
      cases hmem

/-- An entry under the identifier of an element. -/
def EntryOf (f : Element → α) (e : Element) (entry : String × α) : Prop :=
  e.attribute? "id" = some entry.1 ∧ entry.2 = f e

theorem identified_eq_ok_iff {f : Element → α} {m : Keyed String α} :
    identified fault f es = .ok m ↔
      ∃ entries, List.Forall₂ (EntryOf f) es entries ∧ m = Keyed.ofList entries := by
  unfold identified
  constructor
  · intro h
    obtain ⟨entries, hentries, h⟩ := exists_of_bind_eq_ok h
    cases h
    refine ⟨entries, (mapM_eq_ok_iff.mp hentries).imp fun e entry he => ?_, rfl⟩
    split at he
    · next id hid =>
      cases he
      exact ⟨hid, rfl⟩
    · cases he
  · rintro ⟨entries, hentries, rfl⟩
    rw [(mapM_eq_ok_iff (r := entries)).mpr]
    · rfl
    · refine hentries.imp fun e entry he => ?_
      rw [he.1, ← he.2]

/-- A look-up finds the last element with the identifier. -/
theorem get?_of_identified {f : Element → α} {m : Keyed String α}
    (h : identified fault f es = .ok m) (part : String) :
    m.get? part = (lastNamed? part es).map f := by
  obtain ⟨entries, hentries, rfl⟩ := identified_eq_ok_iff.mp h
  have hfilter : List.Forall₂ (EntryOf f) (es.filter fun e => e.attribute? "id" = some part)
      (entries.filter (·.1 = part)) :=
    List.rel_filter (fun e entry he => by simp only [he.1, Option.some.injEq]) hentries
  rw [Keyed.get?_ofList]
  exact (map_eq_of_rel (rel_getLast? hfilter) fun _ _ he => he.2.symm).symm

theorem eq_of_identified_eq_error {f : Element → α} (h : identified fault f es = .error fault') :
    fault' = fault ∧ ∃ e ∈ es, e.attribute? "id" = none := by
  obtain ⟨e, he, hfault⟩ := exists_of_mapM_eq_error (eq_error_of_bind h)
  split at hfault
  · cases hfault
  · next hid =>
    cases hfault
    exact ⟨rfl, e, he, hid⟩

/-- Elements are identified if each of them has an identifier. -/
theorem exists_identified_eq_ok_iff {f : Element → α} :
    (∃ m, identified fault f es = .ok m) ↔ ∀ e ∈ es, (e.attribute? "id").isSome := by
  constructor
  · rintro ⟨m, h⟩ e he
    obtain ⟨entries, hentries, _⟩ := identified_eq_ok_iff.mp h
    obtain ⟨entry, _, hentry⟩ := exists_right_of_mem hentries he
    rw [hentry.1]
    rfl
  · intro hall
    cases h : identified fault f es with
    | ok m => exact ⟨m, rfl⟩
    | error fault' =>
      obtain ⟨_, e, he, hid⟩ := eq_of_identified_eq_error h
      have hsome := hall e he
      rw [hid] at hsome
      cases hsome

theorem contains_of_identified_iff {f : Element → α} {m : Keyed String α}
    (h : identified fault f es = .ok m) :
    m.contains part ↔ ∃ e ∈ es, e.attribute? "id" = some part := by
  rw [← exists_lastNamed?_iff, ← Option.isSome_iff_exists, Keyed.contains, get?_of_identified h,
    Option.isSome_map]

/-- A part is read from its element, which must have measures. -/
theorem readPart_eq_ok_iff : readPart ornament written part name = .ok p ↔ ∃ e,
    written.get? part = some e ∧
      readMeasures ornament part .start 1 (e.childrenWith "measure") = .ok p.measures ∧
      p.measures ≠ [] ∧ p.name = name := by
  unfold readPart
  cases written.get? part with
  | none =>
    constructor
    · intro h
      cases h
    · rintro ⟨e, he, _⟩
      cases he
  | some e =>
    constructor
    · intro h
      obtain ⟨measures, hmeasures, h⟩ := exists_of_bind_eq_ok h
      dsimp only at h
      split at h
      · cases h
      · next hmeasured =>
        cases h
        exact ⟨e, rfl, hmeasures, fun hnil => hmeasured (List.isEmpty_iff.mpr hnil), rfl⟩
    · rintro ⟨_, ⟨⟩, hmeasures, hmeasured, rfl⟩
      dsimp only
      rw [hmeasures]
      exact if_neg (by rwa [List.isEmpty_iff])

/-- Parts are attempted when all parts with measures are declared. -/
theorem readParts_eq_ok_iff {parts : List (String × Except ScoreFault Part)} :
    readParts ornament root = .ok parts ↔ ∃ declared written,
      declaredParts root = .ok declared ∧ writtenParts root = .ok written ∧
        (∀ part ∈ written.keys, declared.contains part) ∧
        parts = declared.entries.map fun d => (d.1, readPart ornament written d.1 d.2) := by
  unfold readParts
  constructor
  · intro h
    obtain ⟨declared, hdeclared, h⟩ := exists_of_bind_eq_ok h
    obtain ⟨written, hwritten, h⟩ := exists_of_bind_eq_ok h
    split at h
    · cases h
    · next hnone =>
      cases h
      refine ⟨declared, written, hdeclared, hwritten, fun part hpart => ?_, rfl⟩
      have hfound := List.find?_eq_none.mp hnone part hpart
      simpa using hfound
  · rintro ⟨declared, written, hdeclared, hwritten, hall, rfl⟩
    have hnone : (written.keys.find? fun part => !declared.contains part) = none := by
      rw [List.find?_eq_none]
      intro part hpart
      simp [hall part hpart]
    rw [hdeclared, hwritten]
    dsimp only [bind, Except.bind]
    rw [hnone]

end MusicXml

namespace Score

open MusicXml

variable {ornament : Dynamic} {root : Element} {score : Score} {fault : ScoreFault}

/-- Attempts to read parts under their identifiers all succeed. -/
theorem mapM_parts_eq_ok_iff {ds : List (String × String)} {written : Keyed String Element}
    {entries : List (String × Part)} :
    ((ds.map fun d => (d.1, readPart ornament written d.1 d.2)).mapM
      fun (part, result) => result.map (part, ·)) = .ok entries ↔
      List.Forall₂ (fun d s => s.1 = d.1 ∧ readPart ornament written d.1 d.2 = .ok s.2) ds
        entries := by
  have hread (part : String) (result : Except ScoreFault Part) (s : String × Part) :
      result.map (part, ·) = .ok s ↔ s.1 = part ∧ result = .ok s.2 := by
    obtain ⟨_, _⟩ := s
    cases result <;> simp [Except.map, eq_comm]
  rw [mapM_eq_ok_iff, List.forall₂_map_left_iff]
  simp only [hread]

/-- A score has the declared parts. -/
theorem ofElement_eq_ok_iff : ofElement ornament root = .ok score ↔ ∃ declared written,
    declaredParts root = .ok declared ∧ writtenParts root = .ok written ∧
      (∀ part ∈ written.keys, declared.contains part) ∧
      List.Forall₂ (fun d s => s.1 = d.1 ∧ readPart ornament written d.1 d.2 = .ok s.2)
        declared.entries score.entries := by
  unfold ofElement
  constructor
  · intro h
    obtain ⟨parts, hparts, h⟩ := exists_of_bind_eq_ok h
    obtain ⟨entries, hentries, h⟩ := exists_of_bind_eq_ok h
    cases h
    obtain ⟨declared, written, hdeclared, hwritten, hall, rfl⟩ := readParts_eq_ok_iff.mp hparts
    have hsame := mapM_parts_eq_ok_iff.mp hentries
    -- the parts are declared under distinct identifiers, so none takes the place of another
    have hkeys : entries.map Prod.fst = declared.entries.map Prod.fst :=
      (map_eq_of_forall₂ hsame fun d s hs => hs.1.symm).symm
    refine ⟨declared, written, hdeclared, hwritten, hall, ?_⟩
    rw [Keyed.entries_ofList (by rw [hkeys]; exact declared.distinct)]
    exact hsame
  · rintro ⟨declared, written, hdeclared, hwritten, hall, hsame⟩
    rw [readParts_eq_ok_iff.mpr ⟨declared, written, hdeclared, hwritten, hall, rfl⟩]
    dsimp only [bind, Except.bind]
    rw [mapM_parts_eq_ok_iff.mpr hsame]
    exact congrArg Except.ok (Keyed.ext (Keyed.entries_ofList score.distinct))

/-- Each part of a score was read from the last element with its identifier. -/
theorem readMeasures_of_ofElement {part : String} {p : Part}
    (h : ofElement ornament root = .ok score) (hp : (part, p) ∈ score.entries) :
    ∃ e, lastNamed? part (root.withTag "part") = some e ∧
      readMeasures ornament part .start 1 (e.childrenWith "measure") = .ok p.measures ∧
      p.measures ≠ [] := by
  obtain ⟨declared, written, _, hwritten, _, hsame⟩ := ofElement_eq_ok_iff.mp h
  obtain ⟨⟨_, name⟩, _, rfl, hread⟩ := exists_left_of_mem hsame hp
  obtain ⟨e, he, hmeasures, hmeasured, _⟩ := readPart_eq_ok_iff.mp hread
  rw [get?_of_identified hwritten, Option.map_id] at he
  exact ⟨e, he, hmeasures, hmeasured⟩

/-- In a score that was read from a document time runs forwards. -/
theorem regular_of_ofElement (h : ofElement ornament root = .ok score) : score.Regular := by
  rintro ⟨part, p⟩ hp m hm
  obtain ⟨e, _, hmeasures, _⟩ := readMeasures_of_ofElement h hp
  have hreads : List.Forall₂ (ReadsAt ornament) (placesFrom [] (e.childrenWith "measure"))
      p.measures := readsAt_of_readMeasures hmeasures
  obtain ⟨place, _, hread⟩ := exists_left_of_mem hreads hm
  exact hread.regular

end Score
end Bellows
