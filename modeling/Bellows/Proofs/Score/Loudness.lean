import Bellows.Proofs.Score.Parts

/-! The notes of a score are those of the document that count, each with the latest mark of loudness
in its part. -/
namespace Bellows

open Xml (Element)

namespace MusicXml

variable {ornament : Dynamic} {place : Nat} {es : List Element} {measures : List Measure}
  {part : String}

/-- The children of all measures of a part, in document order. -/
def barred (e : Element) : List Element := (e.childrenWith "measure").flatMap Element.children

/-- The notes of measures that are read one after another, with their places in the part. -/
theorem soundsAt_of_readMeasures
    (h : readMeasures ornament part .start place es = .ok measures) :
    List.Forall₂ (SoundsAt ornament)
      ((placesFrom [] (es.flatMap Element.children)).filter (counts ·.2))
      (measures.flatMap Measure.notes) := by
  have hreads : List.Forall₂ (ReadsAt ornament) (placesFrom [] es) measures :=
    readsAt_of_readMeasures h
  have hplaces := placesFrom_flatMap Element.children [] es
  rw [List.flatMap_nil] at hplaces
  rw [hplaces, List.filter_flatMap]
  exact List.rel_flatMap hreads fun p measure hread => hread.notes

end MusicXml

open MusicXml in
/-- The notes of a part, over all its measures, are those notes of its element that count, in the
same order. Each is classified by what is in it, and is as loud as the latest mark up to and
including itself says; an ornament in front of all marks has the loudness of ornaments. -/
theorem Score.sounds_of_ofElement {ornament : Dynamic} {root : Element} {score : Score}
    {part : String} {p : Part} (h : ofElement ornament root = .ok score)
    (hp : (part, p) ∈ score.entries) :
    ∃ e, lastNamed? part (root.withTag "part") = some e ∧
      List.Forall₂ (SoundsAt ornament) ((placesFrom [] (barred e)).filter (counts ·.2))
        (p.measures.flatMap Measure.notes) := by
  obtain ⟨e, he, hmeasures, _⟩ := readMeasures_of_ofElement h hp
  exact ⟨e, he, soundsAt_of_readMeasures hmeasures⟩

namespace Score.Sketch

open MusicXml

def leaf (tag text : String) : Element := .mk tag [] text []

def node (tag : String) (children : List Element) : Element := .mk tag [] "" children

def time : Element := node "time" [leaf "beats" "2", leaf "beat-type" "4"]

def attributes : Element := node "attributes" [leaf "divisions" "1", time]

theorem readAttributes_attributes (running : Running) : readAttributes running attributes =
    .ok ⟨running.dynamic, some ⟨2, 4⟩, some 1⟩ := by
  have hbeats : beats? "2" = some 2 := (beats?_of_not_mem (by decide)).trans (by decide +kernel)
  have hsignature : readSignature attributes = .ok (some ⟨2, 4⟩) := by
    have htime : attributes.child? "time" = some time := rfl
    have htype : wholeChild "beat-type" time = .ok (some 4) := rfl
    have htext : time.childText? "beats" = some "2" := rfl
    simp only [readSignature, htime, htype, htext, bind, Except.bind, hbeats]
  rw [readAttributes, hsignature]
  rfl

def marking (mark : String) : Element := node "dynamics" [leaf mark ""]

/-- A trill, with a mark in its notations if it has one. -/
def trill (marks : List Element) : Element := node "note"
  [leaf "duration" "1", node "notations" (node "ornaments" [leaf "trill-mark" ""] :: marks)]

/-- A further note of a chord. Its mark is not looked at. -/
def chord : Element := node "note"
  [leaf "chord" "", leaf "duration" "1", node "notations" [marking "fff"]]

def rest : Element := node "note" [leaf "rest" "", leaf "duration" "2"]

def part (id : String) (measures : List Element) : Element := .mk "part" [("id", id)] "" measures

def declaration (id : String) : Element :=
  .mk "score-part" [("id", id)] "" [leaf "part-name" id]

/-- An ornament in front of all marks, beside a part that is marked from its start. -/
def document : Element := node "score-partwise" [declaration "P1", declaration "P2",
  part "P1" [node "measure" [attributes, node "direction" [marking "ff"], rest]],
  part "P2" [node "measure" [attributes, trill [], chord, trill [marking "p"]],
    node "measure" [node "direction" [marking "sfz"], rest]]]

def loud : Part := ⟨"P1", [⟨1, ⟨2, 4⟩, 1, [⟨.rest .ff, 2⟩]⟩]⟩

def ornamented : Part := ⟨"P2", [⟨1, ⟨2, 4⟩, 1, [⟨.hardTrill .mf, 1⟩, ⟨.hardTrill .p, 1⟩]⟩,
  ⟨2, ⟨2, 4⟩, 1, [⟨.rest .p, 2⟩]⟩]⟩

def score : Score := ⟨[("P1", loud), ("P2", ornamented)], by decide⟩

theorem ofElement_document : ofElement .mf document = .ok score := by
  have hloud : readMeasures .mf "P1" .start 1
      [node "measure" [attributes, node "direction" [marking "ff"], rest]] = .ok loud.measures := by
    rw [readMeasures, node, readMeasure_attributes rfl (readAttributes_attributes _)]
    rfl
  have hornamented : readMeasures .mf "P2" .start 1
      [node "measure" [attributes, trill [], chord, trill [marking "p"]],
        node "measure" [node "direction" [marking "sfz"], rest]] = .ok ornamented.measures := by
    rw [readMeasures, node, readMeasure_attributes rfl (readAttributes_attributes _)]
    rfl
  refine ofElement_eq_ok_iff.mpr ⟨Keyed.ofList [("P1", "P1"), ("P2", "P2")], _, rfl, rfl,
    by decide, .cons ⟨rfl, readPart_eq_ok_iff.mpr ?_⟩ (.cons ⟨rfl, readPart_eq_ok_iff.mpr ?_⟩ .nil)⟩
  · exact ⟨_, rfl, hloud, List.cons_ne_nil _ _, rfl⟩
  · exact ⟨_, rfl, hornamented, List.cons_ne_nil _ _, rfl⟩

end Score.Sketch

open MusicXml Score in
/-- The first trill has the loudness of ornaments. The other one has a mark of its own, which holds
on over the barline, though an unknown one stands between. -/
theorem Score.sounds_sketch : ofElement .mf Sketch.document = .ok Sketch.score ∧
    ("P2", Sketch.ornamented) ∈ Sketch.score.entries ∧
    ∃ e, lastNamed? "P2" (Sketch.document.withTag "part") = some e ∧
      List.Forall₂ (SoundsAt .mf) ((placesFrom [] (barred e)).filter (counts ·.2))
        [⟨.hardTrill .mf, 1⟩, ⟨.hardTrill .p, 1⟩, ⟨.rest .p, 2⟩] :=
  have hp : ("P2", Sketch.ornamented) ∈ Sketch.score.entries :=
    List.mem_cons_of_mem _ List.mem_cons_self
  ⟨Sketch.ofElement_document, hp, sounds_of_ofElement Sketch.ofElement_document hp⟩

end Bellows
