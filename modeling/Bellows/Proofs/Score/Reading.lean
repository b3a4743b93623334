import Bellows.Proofs.Event.Filling
import Bellows.Proofs.Keyed
import Bellows.Proofs.Role.Timelines
import Bellows.Score.Reading

/-! Reading a part. Its measures are read one after another, and each of them child by child. -/
namespace Bellows

open Xml (Element)

namespace MusicXml

variable {ornament : Dynamic} {dynamic : Option Dynamic} {running last : Running} {place : Nat}
  {child m : Element} {es : List Element} {note : Note} {notes : List Note} {measure : Measure}
  {measures : List Measure} {part name : String}

/-- One child of a measure: what holds behind it, and the note that it may be. -/
def readChild (ornament : Dynamic) (running : Running) (child : Element) :
    Except MeasureFault (Running × List Note) :=
  if child.tag = "attributes" then (readAttributes running child).map (·, [])
  else if child.tag = "direction" then
    .ok ({ running with dynamic := dynamicAfter running.dynamic child }, [])
  else if child.tag = "note" && !isSkipped child then
    (readNote ornament (dynamicAt running.dynamic child) child).map
      ({ running with dynamic := dynamicAt running.dynamic child }, [·])
  else .ok (running, [])

/-- What is read behind something that was read before. -/
def readBehind (ornament : Dynamic) (es : List Element) (before : Running × List Note) :
    Except MeasureFault (Running × List Note) :=
  (readChildren ornament before.1 es).map fun behind => (behind.1, before.2 ++ behind.2)

theorem readBehind_nil (ornament : Dynamic) (es : List Element) (running : Running) :
    readBehind ornament es (running, []) = readChildren ornament running es := by
  unfold readBehind
  cases readChildren ornament running es <;> rfl

/-- The children of a measure are read one after another. -/
theorem readChildren_cons (ornament : Dynamic) (running : Running) (child : Element)
    (es : List Element) : readChildren ornament running (child :: es) =
      readChild ornament running child >>= readBehind ornament es := by
  unfold readChildren readChild
  split
  · cases readAttributes running child with
    | error fault => rfl
    | ok running => exact (readBehind_nil ornament es running).symm
  split
  · exact (readBehind_nil ornament es _).symm
  split
  · dsimp only
    cases readNote ornament (dynamicAt running.dynamic child) child with
    | error fault => rfl
    | ok note => rfl
  · exact (readBehind_nil ornament es running).symm

theorem readChildren_cons_eq_ok_iff :
    readChildren ornament running (child :: es) = .ok (last, notes) ↔ ∃ next first rest,
      readChild ornament running child = .ok (next, first) ∧
      readChildren ornament next es = .ok (last, rest) ∧ notes = first ++ rest := by
  rw [readChildren_cons]
  constructor
  · intro h
    obtain ⟨⟨next, first⟩, hfirst, h⟩ := exists_of_bind_eq_ok h
    obtain ⟨behind, hrest, hsame⟩ := exists_of_map_eq_ok h
    cases hsame
    exact ⟨next, first, behind.2, hfirst, hrest, rfl⟩
  · rintro ⟨next, first, rest, hfirst, hrest, rfl⟩
    rw [hfirst]
    change readBehind ornament es (next, first) = _
    rw [readBehind, hrest]
    rfl

/-- Some children are read to their end when the first of them are, and then the others. -/
theorem readChildren_append_eq_ok_iff {es' : List Element} :
    readChildren ornament running (es ++ es') = .ok (last, notes) ↔ ∃ next first rest,
      readChildren ornament running es = .ok (next, first) ∧
      readChildren ornament next es' = .ok (last, rest) ∧ notes = first ++ rest := by
  induction es generalizing running notes with
  | nil =>
    constructor
    · intro h
      exact ⟨running, [], notes, rfl, h, rfl⟩
    · rintro ⟨next, first, rest, hfirst, hrest, rfl⟩
      cases hfirst
      exact hrest
  | cons child es ih =>
    rw [List.cons_append]
    constructor
    · intro h
      obtain ⟨next, first, _, hfirst, hbehind, rfl⟩ := readChildren_cons_eq_ok_iff.mp h
      obtain ⟨mid, between, rest, hbetween, hrest, rfl⟩ := ih.mp hbehind
      exact ⟨mid, first ++ between, rest,
        readChildren_cons_eq_ok_iff.mpr ⟨next, first, between, hfirst, hbetween, rfl⟩, hrest,
        (List.append_assoc ..).symm⟩
    · rintro ⟨mid, _, rest, hbefore, hrest, rfl⟩
      obtain ⟨next, first, between, hfirst, hbetween, rfl⟩ :=
        readChildren_cons_eq_ok_iff.mp hbefore
      exact readChildren_cons_eq_ok_iff.mpr ⟨next, first, between ++ rest, hfirst,
        ih.mpr ⟨mid, between, rest, hbetween, hrest, rfl⟩, List.append_assoc ..⟩

/-- Where nothing is stated, signature and divisions stay as they are. -/
theorem kept_of_readChild (hchild : child.tag ≠ "attributes")
    (h : readChild ornament running child = .ok (last, notes)) :
    last.signature = running.signature ∧ last.divisions = running.divisions := by
  unfold readChild at h
  rw [if_neg hchild] at h
  split at h
  · cases h
    exact ⟨rfl, rfl⟩
  split at h
  · obtain ⟨note, _, hsame⟩ := exists_of_map_eq_ok h
    cases hsame
    exact ⟨rfl, rfl⟩
  · cases h
    exact ⟨rfl, rfl⟩

theorem kept_of_readChildren (hes : ∀ child ∈ es, child.tag ≠ "attributes")
    (h : readChildren ornament running es = .ok (last, notes)) :
    last.signature = running.signature ∧ last.divisions = running.divisions := by
  induction es generalizing running notes with
  | nil =>
    cases h
    exact ⟨rfl, rfl⟩
  | cons child es ih =>
    obtain ⟨next, first, rest, hfirst, hrest, rfl⟩ := readChildren_cons_eq_ok_iff.mp h
    obtain ⟨hsignature, hdivisions⟩ := kept_of_readChild (hes child List.mem_cons_self) hfirst
    obtain ⟨hsignature', hdivisions'⟩ := ih (fun c hc => hes c (List.mem_cons_of_mem _ hc)) hrest
    exact ⟨hsignature'.trans hsignature, hdivisions'.trans hdivisions⟩

/-- A measure is accepted when its children are, and then signature and divisions are known. -/
theorem readMeasure_eq_ok_iff : readMeasure ornament running place m = .ok (last, measure) ↔
    ∃ notes signature divisions, readChildren ornament running m.children = .ok (last, notes) ∧
      last.signature = some signature ∧ last.divisions = some divisions ∧ 0 < divisions ∧
      measure = ⟨(measureNumber? m).getD place, signature, divisions, notes⟩ := by
  unfold readMeasure
  constructor
  · intro h
    obtain ⟨⟨next, notes⟩, hchildren, h⟩ := exists_of_bind_eq_ok h
    dsimp only at h
    split at h
    · next signature divisions hsignature hdivisions =>
      split at h
      · cases h
      · next hpos =>
        cases h
        exact ⟨notes, signature, divisions, hchildren, hsignature, hdivisions,
          Int.not_le.mp hpos, rfl⟩
    · cases h
  · rintro ⟨notes, signature, divisions, hchildren, hsignature, hdivisions, hpos, rfl⟩
    rw [hchildren]
    dsimp only [bind, Except.bind]
    rw [hsignature, hdivisions]
    exact if_neg (Int.not_le.mpr hpos)

theorem readMeasures_cons_eq_ok_iff :
    readMeasures ornament part running place (m :: es) = .ok measures ↔ ∃ next measure rest,
      readMeasure ornament running place m = .ok (next, measure) ∧
      readMeasures ornament part next (place + 1) es = .ok rest ∧ measures = measure :: rest := by
  rw [readMeasures]
  constructor
  · intro h
    split at h
    · cases h
    · next next measure hmeasure =>
      obtain ⟨rest, hrest, h⟩ := exists_of_bind_eq_ok h
      cases h
      exact ⟨next, measure, rest, hmeasure, hrest, rfl⟩
  · rintro ⟨next, measure, rest, hmeasure, hrest, rfl⟩
    rw [hmeasure]
    dsimp only
    rw [hrest]
    rfl

end MusicXml
end Bellows
