import Bellows.Proofs.Event.Counting
import Bellows.Proofs.Score.Reading
import Bellows.Proofs.UpToOrder
import Bellows.Proofs.Xml.Splitting

/-! Reading a document with a measure split in two: it is accepted if it was accepted before, and
the score has the same notes. -/
namespace Bellows

open Xml (Element)
open Xml.Element (Rebarred Split)

namespace MusicXml

variable {ornament : Dynamic} {dynamic : Option Dynamic} {running last : Running}
  {place place' : Nat} {e e' m m' : Element} {es es' : List Element} {part : String}

section

variable (h : e.Rebarred e')
include h

theorem wholeChild_eq {tag : String} (htag : tag ≠ "measure") :
    wholeChild tag e = wholeChild tag e' := by
  rw [wholeChild, wholeChild, h.childText?_eq htag]

theorem readSignature_eq : readSignature e = readSignature e' := by
  have htime : Option.Rel Rebarred (e.child? "time") (e'.child? "time") := h.child? (by decide)
  unfold readSignature
  generalize e.child? "time" = time, e'.child? "time" = time' at htime ⊢
  cases htime with
  | none => rfl
  | some ht =>
    dsimp only
    rw [wholeChild_eq ht (by decide), ht.childText?_eq (by decide)]

theorem readAttributes_eq (running : Running) :
    readAttributes running e = readAttributes running e' := by
  rw [readAttributes, readAttributes, readSignature_eq h, wholeChild_eq h (by decide)]

/-- The marks below an element are the same. -/
theorem dynamicIn?_eq : dynamicIn? e = dynamicIn? e' := by
  have hdynamics : List.Forall₂ (fun d d' : Element => d.tag = "dynamics" ∧ d.Rebarred d')
      (e.withTag "dynamics") (e'.withTag "dynamics") :=
    (List.forall₂_and_left _ _).mpr
      ⟨fun _ hd => Element.tag_of_mem_withTag hd, h.withTag (by decide)⟩
  -- such an element is no part, so no child of it is added or lost
  have hmarks : List.Forall₂ Rebarred ((e.withTag "dynamics").flatMap Element.children)
      ((e'.withTag "dynamics").flatMap Element.children) :=
    List.rel_flatMap hdynamics fun d _ hd => hd.2.children (by rw [hd.1]; decide)
  have htags := map_eq_of_forall₂ hmarks fun _ _ hm => hm.tag_eq
  have hfind (marks : List Element) : (marks.findSome? fun mark => Dynamic.ofMark? mark.tag) =
      (marks.map Element.tag).findSome? Dynamic.ofMark? := by
    rw [List.findSome?_map]
    rfl
  rw [dynamicIn?, dynamicIn?, hfind, hfind, htags]

theorem dynamicAt_eq (dynamic : Option Dynamic) : dynamicAt dynamic e = dynamicAt dynamic e' := by
  have hnotations : Option.Rel Rebarred (e.child? "notations") (e'.child? "notations") :=
    h.child? (by decide)
  unfold dynamicAt
  generalize e.child? "notations" = notations, e'.child? "notations" = notations' at hnotations ⊢
  cases hnotations with
  | none => rfl
  | some hn => exact congrArg (Option.or · dynamic) (dynamicIn?_eq hn)

theorem readNote_eq (ornament : Dynamic) (dynamic : Option Dynamic) :
    readNote ornament dynamic e = readNote ornament dynamic e' := by
  have hduration : readDuration e = readDuration e' := by
    rw [readDuration, readDuration, wholeChild_eq h (by decide)]
  have hkind : readKind ornament dynamic e = readKind ornament dynamic e' := by
    unfold readKind
    rw [h.has_eq (by decide), h.childText?_eq (by decide), h.has_eq (by decide),
      h.has_eq (by decide)]
  rw [readNote, readNote, hduration, hkind]

/-- A child of a measure is read the same if a measure somewhere below it is split. -/
theorem readChild_eq (ornament : Dynamic) (running : Running) :
    readChild ornament running e = readChild ornament running e' := by
  have hskipped : isSkipped e = isSkipped e' := by
    rw [isSkipped, isSkipped, h.has_eq (by decide), h.has_eq (by decide)]
  unfold readChild dynamicAfter
  rw [h.tag_eq, readAttributes_eq h, dynamicIn?_eq h, hskipped, dynamicAt_eq h, readNote_eq h]

end

theorem readChildren_eq (h : List.Forall₂ Rebarred es es') (ornament : Dynamic)
    (running : Running) : readChildren ornament running es = readChildren ornament running es' := by
  induction h generalizing running with
  | nil => rfl
  | cons hc _ ih =>
    rw [readChildren_cons, readChildren_cons, readChild_eq hc]
    unfold readBehind
    simp only [ih]

/-- Measures are read the same wherever they stand, and if something below them is split. -/
theorem readMeasure_rebarred (h : m.Rebarred m') (htag : m.tag = "measure") (ornament : Dynamic)
    (running : Running) (place place' : Nat) :
    SucceedAlike (fun p p' => p.1 = p'.1 ∧ p.2.counted = p'.2.counted)
      (readMeasure ornament running place m) (readMeasure ornament running place' m') := by
  have hchildren := readChildren_eq (h.children (by rw [htag]; decide)) ornament running
  refine .of_ok ?_ ?_
  · rintro ⟨last, measure⟩ hread
    obtain ⟨notes, signature, divisions, hnotes, hknown, hcount, hpos, rfl⟩ :=
      readMeasure_eq_ok_iff.mp hread
    rw [hchildren] at hnotes
    exact ⟨(last, _), readMeasure_eq_ok_iff.mpr
      ⟨notes, signature, divisions, hnotes, hknown, hcount, hpos, rfl⟩, rfl, rfl⟩
  · rintro ⟨last, measure⟩ hread
    obtain ⟨notes, signature, divisions, hnotes, hknown, hcount, hpos, rfl⟩ :=
      readMeasure_eq_ok_iff.mp hread
    rw [← hchildren] at hnotes
    exact ⟨(last, _), readMeasure_eq_ok_iff.mpr
      ⟨notes, signature, divisions, hnotes, hknown, hcount, hpos, rfl⟩⟩

section

variable {first second : Element} {next : Running} {measure measure₁ measure₂ : Measure}
  {place₁ place₂ : Nat} (hchildren : m.children = first.children ++ second.children)
include hchildren

/-- The halves of a measure are read as the measure is. -/
theorem exists_readMeasure_split (hstates : ¬ second.States)
    (h : readMeasure ornament running place m = .ok (last, measure)) (place₁ place₂ : Nat) :
    ∃ next measure₁ measure₂,
      readMeasure ornament running place₁ first = .ok (next, measure₁) ∧
      readMeasure ornament next place₂ second = .ok (last, measure₂) ∧
      measure.counted = measure₁.counted ++ measure₂.counted := by
  obtain ⟨_, signature, divisions, hnotes, hknown, hcount, hpos, rfl⟩ :=
    readMeasure_eq_ok_iff.mp h
  rw [hchildren] at hnotes
  obtain ⟨next, notes, more, hfirst, hsecond, rfl⟩ := readChildren_append_eq_ok_iff.mp hnotes
  obtain ⟨hsignature, hdivisions⟩ :=
    kept_of_readChildren (fun c hc htag => hstates ⟨c, hc, htag⟩) hsecond
  exact ⟨next, _, _, readMeasure_eq_ok_iff.mpr ⟨notes, signature, divisions, hfirst,
      hsignature.symm.trans hknown, hdivisions.symm.trans hcount, hpos, rfl⟩,
    readMeasure_eq_ok_iff.mpr ⟨more, signature, divisions, hsecond, hknown, hcount, hpos, rfl⟩,
    List.map_append⟩

/-- And the measure is read as its halves are. -/
theorem exists_readMeasure_joined
    (h₁ : readMeasure ornament running place₁ first = .ok (next, measure₁))
    (h₂ : readMeasure ornament next place₂ second = .ok (last, measure₂)) (place : Nat) :
    ∃ measure, readMeasure ornament running place m = .ok (last, measure) := by
  obtain ⟨notes, _, _, hfirst, _, _, _, rfl⟩ := readMeasure_eq_ok_iff.mp h₁
  obtain ⟨more, signature, divisions, hsecond, hknown, hcount, hpos, rfl⟩ :=
    readMeasure_eq_ok_iff.mp h₂
  refine ⟨_, readMeasure_eq_ok_iff.mpr ⟨notes ++ more, signature, divisions, ?_, hknown, hcount,
    hpos, rfl⟩⟩
  rw [hchildren]
  exact readChildren_append_eq_ok_iff.mpr ⟨next, notes, more, hfirst, hsecond, rfl⟩

end

/-- Measures behind related measures, read from the same state on, keep them related. -/
theorem readMeasures_cons_related
    (hmeasure : SucceedAlike (fun p p' => p.1 = p'.1 ∧ p.2.counted = p'.2.counted)
      (readMeasure ornament running place m) (readMeasure ornament running place' m'))
    (hrest : ∀ next, SucceedAlike Measure.SameNotes
      (readMeasures ornament part next (place + 1) es)
      (readMeasures ornament part next (place' + 1) es')) :
    SucceedAlike Measure.SameNotes (readMeasures ornament part running place (m :: es))
      (readMeasures ornament part running place' (m' :: es')) := by
  refine .of_ok (fun measures h => ?_) fun measures' h => ?_
  · obtain ⟨next, measure, rest, hm, hms, rfl⟩ := readMeasures_cons_eq_ok_iff.mp h
    obtain ⟨⟨_, measure'⟩, hm', rfl, hcounted⟩ := hmeasure.exists_right hm
    obtain ⟨rest', hms', hsame⟩ := (hrest next).exists_right hms
    exact ⟨_, readMeasures_cons_eq_ok_iff.mpr ⟨next, measure', rest', hm', hms', rfl⟩,
      hsame.cons hcounted⟩
  · obtain ⟨next, measure', rest', hm', hms', rfl⟩ := readMeasures_cons_eq_ok_iff.mp h
    obtain ⟨⟨last, measure⟩, hm, rfl, _⟩ := hmeasure.exists_left hm'
    obtain ⟨rest, hms, _⟩ := (hrest last).exists_left hms'
    exact ⟨_, readMeasures_cons_eq_ok_iff.mpr ⟨last, measure, rest, hm, hms, rfl⟩⟩

theorem readMeasures_rebarred (h : List.Forall₂ Rebarred es es')
    (htags : ∀ m ∈ es, m.tag = "measure") (ornament : Dynamic) (part : String) (running : Running)
    (place place' : Nat) : SucceedAlike Measure.SameNotes
      (readMeasures ornament part running place es)
      (readMeasures ornament part running place' es') := by
  induction h generalizing running place place' with
  | nil => exact .ok ⟨rfl, rfl⟩
  | cons hm _ ih =>
    refine readMeasures_cons_related
      (readMeasure_rebarred hm (htags _ List.mem_cons_self) ornament running place place')
      fun next => ih (fun m hm => htags m (List.mem_cons_of_mem _ hm)) next _ _

/-- A measure of a part is read as its halves are, and the measures around it stay as they are. -/
theorem readMeasures_split {first second : Element} {before after : List Element}
    (hchildren : m.children = first.children ++ second.children) (hstates : ¬ second.States)
    (hbefore : ∀ m ∈ before, m.tag = "measure") (hafter : ∀ m ∈ after, m.tag = "measure")
    (ornament : Dynamic) (part : String) (running : Running) (place place' : Nat) :
    SucceedAlike Measure.SameNotes
      (readMeasures ornament part running place (before ++ m :: after))
      (readMeasures ornament part running place' (before ++ first :: second :: after)) := by
  -- behind the second half holds what holds behind the whole measure, so the rest is read alike,
  -- though every measure of it has moved on by one place
  induction before generalizing running place place' with
  | nil =>
    have hrest (next : Running) := readMeasures_rebarred (Rebarred.same after) hafter ornament part
      next (place + 1) (place' + 1 + 1)
    refine .of_ok (fun measures h => ?_) fun measures' h => ?_
    · obtain ⟨last, measure, rest, hm, hms, rfl⟩ := readMeasures_cons_eq_ok_iff.mp h
      obtain ⟨next, measure₁, measure₂, h₁, h₂, hcounted⟩ :=
        exists_readMeasure_split hchildren hstates hm place' (place' + 1)
      obtain ⟨rest', hms', hsame⟩ := (hrest last).exists_right hms
      refine ⟨measure₁ :: measure₂ :: rest', ?_, ?_, rfl⟩
      · exact readMeasures_cons_eq_ok_iff.mpr ⟨next, measure₁, measure₂ :: rest', h₁,
          readMeasures_cons_eq_ok_iff.mpr ⟨last, measure₂, rest', h₂, hms', rfl⟩, rfl⟩
      · rw [List.flatMap_cons, List.flatMap_cons, List.flatMap_cons, hcounted, hsame.counted,
          List.append_assoc]
    · obtain ⟨next, measure₁, _, h₁, hbehind, rfl⟩ := readMeasures_cons_eq_ok_iff.mp h
      obtain ⟨last, measure₂, rest', h₂, hms', rfl⟩ := readMeasures_cons_eq_ok_iff.mp hbehind
      obtain ⟨measure, hm⟩ := exists_readMeasure_joined hchildren h₁ h₂ place
      obtain ⟨rest, hms, _⟩ := (hrest last).exists_left hms'
      exact ⟨_, readMeasures_cons_eq_ok_iff.mpr ⟨last, measure, rest, hm, hms, rfl⟩⟩
  | cons b before ih =>
    exact readMeasures_cons_related
      (readMeasure_rebarred (.refl b) (hbefore b List.mem_cons_self) ornament running place place')
      fun next => ih (fun m hm => hbefore m (List.mem_cons_of_mem _ hm)) next _ _

/-- A part with at most one measure split has the same notes. -/
theorem readMeasures_childrenWith (h : e.Rebarred e') (ornament : Dynamic) (part : String) :
    SucceedAlike Measure.SameNotes
      (readMeasures ornament part .start 1 (e.childrenWith "measure"))
      (readMeasures ornament part .start 1 (e'.childrenWith "measure")) := by
  have htags {es : List Element} :
      ∀ m ∈ es.filter fun child => child.tag = "measure", m.tag = "measure" :=
    fun m hm => of_decide_eq_true (List.mem_filter.mp hm).2
  have hall {es es' : List Element} (hes : List.Forall₂ Rebarred es es') :
      SucceedAlike Measure.SameNotes
        (readMeasures ornament part .start 1 (es.filter fun child => child.tag = "measure"))
        (readMeasures ornament part .start 1 (es'.filter fun child => child.tag = "measure")) :=
    readMeasures_rebarred (List.rel_filter (fun _ _ hc => by simp only [hc.tag_eq]) hes) htags
      ornament part .start 1 1
  rcases h with rfl | h
  · exact hall (Rebarred.same _)
  · cases h with
    | here attributes text before after hm hfirst hsecond hchildren hstates =>
      have hkeep {m : Element} (hm : m.tag = "measure") (rest : List Element) :
          ((m :: rest).filter fun child => child.tag = "measure") =
            m :: rest.filter fun child => child.tag = "measure" :=
        List.filter_cons_of_pos (decide_eq_true hm)
      unfold Element.childrenWith Element.children
      rw [List.filter_append, List.filter_append, hkeep hm, hkeep hfirst, hkeep hsecond]
      exact readMeasures_split hchildren hstates htags htags ornament part .start 1 1
    | deeper _ _ _ before after h => exact hall (Rebarred.around (Or.inr h) before after)

/-- The same identifiers name related elements. -/
theorem identified_rebarred {α : Type} {S : α → α → Prop} {f : Element → α} (fault : ScoreFault)
    (h : List.Forall₂ Rebarred es es') (hf : ∀ e e', e.Rebarred e' → S (f e) (f e')) :
    SucceedAlike (fun named named' => List.Forall₂ (Keyed.SameKey S) named.entries named'.entries)
      (identified fault f es) (identified fault f es') := by
  refine SucceedAlike.bind (.mapM (h.imp fun e e' he => ?_))
    fun _ _ hes => .ok (Keyed.rel_ofList hes)
  rw [he.attribute?_eq "id"]
  cases e'.attribute? "id" with
  | some id => exact .ok ⟨rfl, hf e e' he⟩
  | none => exact .error trivial

theorem readPart_rebarred {written written' : Keyed String Element}
    (h : List.Forall₂ (Keyed.SameKey Rebarred) written.entries written'.entries)
    (ornament : Dynamic) (part name : String) :
    SucceedAlike Part.Rebarred (readPart ornament written part name)
      (readPart ornament written' part name) := by
  have hfound : Option.Rel Rebarred (written.get? part) (written'.get? part) :=
    Keyed.rel_find? h part
  unfold readPart
  generalize written.get? part = found, written'.get? part = found' at hfound ⊢
  cases hfound with
  | none => exact .error trivial
  | some he =>
    refine SucceedAlike.bind (readMeasures_childrenWith he ornament part) fun ms ms' hms => ?_
    dsimp only
    rw [hms.isEmpty]
    split
    · exact .error trivial
    · exact .ok ⟨rfl, hms⟩

/-- Each declared part is accepted if it was accepted before. -/
theorem readParts_split {root root' : Element} (h : root.Split root') (ornament : Dynamic) :
    SucceedAlike (List.Forall₂ (Keyed.SameKey (SucceedAlike Part.Rebarred)))
      (readParts ornament root) (readParts ornament root') := by
  have hdeclared : SucceedAlike
      (fun names names' : Keyed String String =>
        List.Forall₂ (Keyed.SameKey (· = ·)) names.entries names'.entries)
      (declaredParts root) (declaredParts root') := by
    refine identified_rebarred _ (h.withTag (by decide)) fun e e' he => ?_
    rw [partName, partName, he.childText?_eq (by decide)]
  have hwritten : SucceedAlike
      (fun written written' : Keyed String Element =>
        List.Forall₂ (Keyed.SameKey Rebarred) written.entries written'.entries)
      (writtenParts root) (writtenParts root') :=
    identified_rebarred _ (h.withTag (by decide)) fun _ _ he => he
  refine SucceedAlike.bind hdeclared fun names names' hnames => ?_
  refine SucceedAlike.bind hwritten fun written written' hparts => ?_
  have hkeys : written.keys = written'.keys := map_eq_of_forall₂ hparts fun _ _ he => he.1
  have hcontains : names.contains = names'.contains :=
    funext fun part => isSome_eq_of_rel (Keyed.rel_find? hnames part)
  dsimp only
  rw [hkeys, hcontains]
  cases written'.keys.find? fun part => !names'.contains part with
  | some part => exact .error trivial
  | none =>
    refine .ok (List.forall₂_map_left_iff.mpr (List.forall₂_map_right_iff.mpr
      (hnames.imp fun e e' he => ?_)))
    obtain ⟨part, name⟩ := e
    obtain ⟨_, _⟩ := e'
    obtain ⟨rfl, rfl⟩ := he
    exact ⟨rfl, readPart_rebarred hparts ornament part name⟩

end MusicXml

/-- A document with a measure split in two is accepted if it was accepted before, and its score has
the same notes. -/
theorem Score.rebarred_of_split {root root' : Element} (h : root.Split root')
    (ornament : Dynamic) :
    SucceedAlike Score.Rebarred (ofElement ornament root) (ofElement ornament root') := by
  refine SucceedAlike.bind (MusicXml.readParts_split h ornament) fun parts parts' hparts => ?_
  refine SucceedAlike.bind (.mapM (hparts.imp fun part part' hpart => ?_))
    fun _ _ hes => .ok (Keyed.rel_ofList hes)
  obtain ⟨name, result⟩ := part
  obtain ⟨_, result'⟩ := part'
  obtain ⟨rfl, hresult⟩ := hpart
  cases hresult with
  | ok hp => exact .ok ⟨rfl, hp⟩
  | error _ => exact .error trivial

end Bellows
