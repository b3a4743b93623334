import Bellows.Proofs.Score.Parts

/-! What is wrong with a document that is not read. Every fault names an element of the document
and says something true about it. -/
namespace Bellows

open Xml (Element)

namespace MusicXml

variable {ornament : Dynamic} {mark : Option Dynamic} {before bars es : List Element}
  {child e m : Element} {place : Nat} {part name tag : String} {fault : MeasureFault}

/-- A child of a measure with an element in it that should hold a whole number. -/
inductive NumberIn (child : Element) : Element → String → Prop
  | divisions (htag : child.tag = "attributes") : NumberIn child child "divisions"
  | beatType {time : Element} (htag : child.tag = "attributes")
    (htime : child.child? "time" = some time) : NumberIn child time "beat-type"
  | duration (hcounts : counts child) : NumberIn child child "duration"

/-- What is wrong with a child of a measure, behind some others in its part. -/
inductive Misread (p : List Element × Element) : MeasureFault → Prop
  | notWhole {e : Element} {tag text : String} (hnumber : NumberIn p.2 e tag)
    (htext : e.childText? tag = some text) (hwhole : whole? text = none) :
    Misread p (.notWhole tag text)
  | badBeats {time : Element} {text : String} (htag : p.2.tag = "attributes")
    (htime : p.2.child? "time" = some time) (htext : time.childText? "beats" = some text)
    (hgroups : ¬ ∀ group ∈ text.splitOn "+", ∃ n, readInteger group = .ok n) :
    Misread p (.badBeats text)
  | noDuration (hcounts : counts p.2) (hnone : ∀ n, number? "duration" p.2 = some n → n < 0) :
    Misread p .noDuration
  | restWithoutDynamic (hcounts : counts p.2) (hrest : p.2.has ["rest"])
    (hnone : ∀ item ∈ p.1 ++ [p.2], markOf? item = none) : Misread p .restWithoutDynamic
  | noteWithoutDynamic (hcounts : counts p.2) (hrest : ¬ p.2.has ["rest"]) (hneeds : NeedsMark p.2)
    (hnone : ∀ item ∈ p.1 ++ [p.2], markOf? item = none) : Misread p .noteWithoutDynamic

/-- What is wrong with a measure, behind some children of earlier ones. -/
inductive Faulty (before : List Element) (m : Element) : MeasureFault → Prop
  | misread {p : List Element × Element} {fault : MeasureFault}
    (hp : p ∈ placesFrom before m.children) (h : Misread p fault) : Faulty before m fault
  | lacks {signature divisions : Bool} (hlacks : signature ∨ divisions)
    (hsignature : signature = (latest? signatureOf? (before ++ m.children)).isNone)
    (hdivisions : divisions = (latest? divisionsOf? (before ++ m.children)).isNone) :
    Faulty before m (.lacks signature divisions)
  | divisionsNotPositive {n : Int}
    (hdivisions : latest? divisionsOf? (before ++ m.children) = some n) (hn : n ≤ 0) :
    Faulty before m .divisionsNotPositive

theorem notWhole_of_wholeChild (h : wholeChild tag e = .error fault) :
    ∃ text, e.childText? tag = some text ∧ whole? text = none ∧ fault = .notWhole tag text := by
  unfold wholeChild at h
  split at h
  · cases h
  · next text htext =>
    split at h
    · cases h
    · next hwhole =>
      cases h
      exact ⟨text, htext, hwhole, rfl⟩

theorem misread_of_readSignature (htag : child.tag = "attributes")
    (h : readSignature child = .error fault) : Misread (before, child) fault := by
  unfold readSignature at h
  split at h
  · cases h
  · next time htime =>
    obtain h | ⟨beatType, hbeatType, h⟩ := error_cases_of_bind h
    · obtain ⟨text, htext, hwhole, rfl⟩ := notWhole_of_wholeChild h
      exact .notWhole (.beatType htag htime) htext hwhole
    · split at h
      · next text n htext =>
        split at h
        · cases h
        · next hbeats =>
          cases h
          exact .badBeats htag htime htext (beats?_eq_none_iff.mp hbeats)
      · cases h

theorem misread_of_readAttributes {running : Running} (htag : child.tag = "attributes")
    (h : readAttributes running child = .error fault) : Misread (before, child) fault := by
  obtain h | ⟨signature, _, h⟩ := error_cases_of_bind h
  · exact misread_of_readSignature htag h
  obtain h | ⟨divisions, _, h⟩ := error_cases_of_bind h
  · obtain ⟨text, htext, hwhole, rfl⟩ := notWhole_of_wholeChild h
    exact .notWhole (.divisions htag) htext hwhole
  · cases h

theorem misread_of_readDuration (hcounts : counts child) (h : readDuration child = .error fault) :
    Misread (before, child) fault := by
  obtain h | ⟨written, hwritten, h⟩ := error_cases_of_bind h
  · obtain ⟨text, htext, hwhole, rfl⟩ := notWhole_of_wholeChild h
    exact .notWhole (.duration hcounts) htext hwhole
  obtain ⟨_, rfl⟩ := wholeChild_eq_ok_iff.mp hwritten
  have hnone : fault = .noDuration ∧ ∀ n, number? "duration" child = some n → n < 0 := by
    cases hnumber : number? "duration" child with
    | none =>
      rw [hnumber] at h
      cases h
      exact ⟨rfl, fun n hn => (by cases hn)⟩
    | some n =>
      rw [hnumber] at h
      dsimp only at h
      split at h
      · next hneg =>
        cases h
        refine ⟨rfl, fun n' hn => ?_⟩
        cases hn
        exact hneg
      · cases h
  obtain ⟨rfl, hnone⟩ := hnone
  exact .noDuration hcounts hnone

theorem misread_of_readKind (hcounts : counts child)
    (h : readKind ornament (latest? markOf? (before ++ [child])) child = .error fault) :
    Misread (before, child) fault := by
  have hmark (hmark : latest? markOf? (before ++ [child]) = none) :
      ∀ item ∈ (before, child).1 ++ [(before, child).2], markOf? item = none :=
    latest?_eq_none_iff.mp hmark
  unfold readKind at h
  split at h
  · next hrest =>
    split at h
    · cases h
    · next hnone =>
      cases h
      exact .restWithoutDynamic hcounts hrest (hmark hnone)
  next hrest =>
  split at h
  · cases h
  next hheld =>
  have hheld : ¬ isHeld child := fun h => hheld (of_decide_eq_true h)
  split at h
  · cases h
  next htrill =>
  split at h
  · cases h
  next htremolo =>
  split at h
  · cases h
  · next hnone =>
    cases h
    exact .noteWithoutDynamic hcounts hrest (Or.inr ⟨hheld, htrill, htremolo⟩) (hmark hnone)

theorem misread_of_readChild (h : readChild ornament (stateBehind before) child = .error fault) :
    Misread (before, child) fault := by
  unfold readChild at h
  split at h
  · next htag => exact misread_of_readAttributes htag (eq_error_of_map h)
  split at h
  · cases h
  split at h
  · next hcounts =>
    have hcounts : counts child := hcounts
    dsimp only [stateBehind] at h
    rw [dynamicAt_latest? hcounts] at h
    obtain h | ⟨n, _, h⟩ := error_cases_of_bind (eq_error_of_map h)
    · exact misread_of_readDuration hcounts h
    obtain h | ⟨kind, _, h⟩ := error_cases_of_bind h
    · exact misread_of_readKind hcounts h
    · cases h
  · cases h

/-- Children of a measure that are not read have one among them that is to blame. -/
theorem exists_misread (h : readChildren ornament (stateBehind before) es = .error fault) :
    ∃ p ∈ placesFrom before es, Misread p fault := by
  induction es generalizing before with
  | nil => cases h
  | cons child es ih =>
    rw [readChildren_cons] at h
    obtain h | ⟨⟨next, first⟩, hfirst, h⟩ := error_cases_of_bind h
    · exact ⟨(before, child), List.mem_cons_self, misread_of_readChild h⟩
    · obtain ⟨_, rfl, _⟩ := readChild_eq_ok_iff.mp hfirst
      obtain ⟨p, hp, hmisread⟩ := ih (eq_error_of_map h)
      exact ⟨p, List.mem_cons_of_mem _ hp, hmisread⟩

theorem faulty_of_readMeasure
    (h : readMeasure ornament (stateBehind before) place m = .error fault) :
    Faulty before m fault := by
  obtain h | ⟨⟨last, notes⟩, hchildren, h⟩ := error_cases_of_bind h
  · obtain ⟨p, hp, hmisread⟩ := exists_misread h
    exact .misread hp hmisread
  obtain ⟨_, rfl, _⟩ := readChildren_eq_ok_iff.mp hchildren
  dsimp only [stateBehind] at h
  split at h
  · next hdivisions =>
    split at h
    · next hn =>
      cases h
      exact .divisionsNotPositive hdivisions hn
    · cases h
  · next hlacks =>
    cases h
    refine .lacks ?_ rfl rfl
    rw [Option.isNone_iff_eq_none, Option.isNone_iff_eq_none, or_iff_not_imp_left]
    intro hsignature
    obtain ⟨signature, hsignature⟩ := Option.ne_none_iff_exists'.mp hsignature
    by_contra hdivisions
    obtain ⟨divisions, hdivisions⟩ := Option.ne_none_iff_exists'.mp hdivisions
    exact hlacks signature divisions hsignature hdivisions

/-- Measures of a part that are not read have one among them that is to blame. -/
theorem exists_faulty {fault : ScoreFault} (h : readMeasures ornament part
      (stateBehind (bars.flatMap Element.children)) place es = .error fault) :
    ∃ p ∈ placesFrom bars es, ∃ f, Faulty (p.1.flatMap Element.children) p.2 f ∧
      fault = .measure part (measureNumber? p.2) f := by
  induction es generalizing bars place with
  | nil => cases h
  | cons m es ih =>
    rw [readMeasures] at h
    split at h
    · next f hmeasure =>
      cases h
      exact ⟨(bars, m), List.mem_cons_self, f, faulty_of_readMeasure hmeasure, rfl⟩
    · next next measure hmeasure =>
      obtain ⟨rfl, _, _⟩ := readMeasure_eq_ok_iff_reads.mp hmeasure
      obtain h | ⟨rest, _, h⟩ := error_cases_of_bind h
      · rw [← flatMap_append_singleton] at h
        obtain ⟨p, hp, hfaulty⟩ := ih h
        exact ⟨p, List.mem_cons_of_mem _ hp, hfaulty⟩
      · cases h

/-- What is wrong with a document. -/
inductive Blames (root : Element) : ScoreFault → Prop
  | declarationWithoutId {d : Element} (hd : d ∈ root.withTag "score-part")
    (hid : d.attribute? "id" = none) : Blames root .declarationWithoutId
  | partWithoutId {e : Element} (he : e ∈ root.withTag "part") (hid : e.attribute? "id" = none) :
    Blames root .partWithoutId
  | partNotDeclared {e : Element} {part : String} (he : e ∈ root.withTag "part")
    (hid : e.attribute? "id" = some part)
    (hnone : ∀ d ∈ root.withTag "score-part", d.attribute? "id" ≠ some part) :
    Blames root (.partNotDeclared part)
  | partWithoutMeasures {d : Element} {part : String}
    (hd : lastNamed? part (root.withTag "score-part") = some d)
    (hnone : ∀ e, lastNamed? part (root.withTag "part") = some e → e.childrenWith "measure" = []) :
    Blames root (.partWithoutMeasures part (partName d))
  | measure {e : Element} {p : List Element × Element} {part : String} {fault : MeasureFault}
    (he : lastNamed? part (root.withTag "part") = some e)
    (hp : p ∈ placesFrom [] (e.childrenWith "measure"))
    (hfault : Faulty (p.1.flatMap Element.children) p.2 fault) :
    Blames root (.measure part (measureNumber? p.2) fault)

section

variable {root d : Element} {declared : Keyed String String} {written : Keyed String Element}
  {fault : ScoreFault}

theorem blames_of_readPart (hwritten : writtenParts root = .ok written)
    (hd : lastNamed? part (root.withTag "score-part") = some d)
    (h : readPart ornament written part (partName d) = .error fault) : Blames root fault := by
  have hget : written.get? part = lastNamed? part (root.withTag "part") := by
    rw [get?_of_identified hwritten, Option.map_id]
    rfl
  unfold readPart at h
  rw [hget] at h
  cases he : lastNamed? part (root.withTag "part") with
  | none =>
    rw [he] at h
    cases h
    refine .partWithoutMeasures hd fun e h => ?_
    rw [he] at h
    cases h
  | some e =>
    rw [he] at h
    obtain h | ⟨measures, hmeasures, h⟩ := error_cases_of_bind h
    · obtain ⟨p, hp, f, hfaulty, rfl⟩ : ∃ p ∈ placesFrom [] (e.childrenWith "measure"), ∃ f,
          Faulty (p.1.flatMap Element.children) p.2 f ∧
            fault = .measure part (measureNumber? p.2) f := exists_faulty h
      exact .measure he hp hfaulty
    · dsimp only at h
      split at h
      · next hempty =>
        cases h
        refine .partWithoutMeasures hd fun e' h => ?_
        rw [he] at h
        cases h
        exact (measures_eq_nil_iff hmeasures).mp (List.isEmpty_iff.mp hempty)
      · cases h

end

end MusicXml

open MusicXml in
/-- The fault of a document that is not read tells the truth about it. -/
theorem Score.blames_of_ofElement {ornament : Dynamic} {root : Element} {fault : ScoreFault}
    (h : ofElement ornament root = .error fault) : Blames root fault := by
  obtain h | ⟨parts, hparts, h⟩ := error_cases_of_bind h
  · obtain h | ⟨declared, hdeclared, h⟩ := error_cases_of_bind h
    · obtain ⟨rfl, d, hd, hid⟩ := eq_of_identified_eq_error h
      exact .declarationWithoutId hd hid
    obtain h | ⟨written, hwritten, h⟩ := error_cases_of_bind h
    · obtain ⟨rfl, e, he, hid⟩ := eq_of_identified_eq_error h
      exact .partWithoutId he hid
    split at h
    · next part hpart =>
      cases h
      have hkey := Keyed.contains_iff_mem_keys.mpr (List.mem_of_find?_eq_some hpart)
      obtain ⟨e, he, hid⟩ := (contains_of_identified_iff hwritten).mp hkey
      refine .partNotDeclared he hid fun d hd hsame => ?_
      have hcontains := (contains_of_identified_iff hdeclared).mpr ⟨d, hd, hsame⟩
      have hmissing := List.find?_some hpart
      rw [hcontains] at hmissing
      cases hmissing
    · cases h
  · obtain ⟨declared, written, hdeclared, hwritten, _, rfl⟩ := readParts_eq_ok_iff.mp hparts
    obtain ⟨_, hitem, hfault⟩ := exists_of_mapM_eq_error (eq_error_of_bind h)
    obtain ⟨⟨part, name⟩, hentry, rfl⟩ := List.mem_map.mp hitem
    have hname : declared.get? part = some name := (declared.get?_eq_some_iff part name).mpr hentry
    rw [get?_of_identified hdeclared] at hname
    obtain ⟨d, hd, rfl⟩ := Option.map_eq_some_iff.mp hname
    exact blames_of_readPart hwritten hd (eq_error_of_map hfault)

end Bellows
