import Bellows.Proofs.Places
import Bellows.Proofs.Score.Reading
import Bellows.Proofs.Text.Words

/-! What holds at a child of a measure, said without the reader: the latest statement so far. A
measure is read when each of its children is well formed, and its notes are then determined by the
statements that are the latest ones at their places. -/
namespace Bellows

open Xml (Element)

namespace MusicXml

variable {ornament : Dynamic} {mark : Option Dynamic} {running last : Running} {place : Nat}
  {before es bars : List Element} {child m : Element} {note : Note} {notes : List Note}
  {kind : NoteKind} {measure : Measure} {measures : List Measure} {part tag : String}

/-- The whole number in the first child with a tag. -/
def number? (tag : String) (e : Element) : Option Int := (e.childText? tag).bind whole?

/-- The first child with a tag, if there is one, holds a whole number. -/
def WholeIfThere (tag : String) (e : Element) : Prop :=
  ∀ text, e.childText? tag = some text → (whole? text).isSome

/-- A signature is well formed. Its beats only count where there is a beat type too. -/
structure SignedWell (time : Element) : Prop where
  beatType : WholeIfThere "beat-type" time
  beats : (time.childText? "beat-type").isSome → ∀ text, time.childText? "beats" = some text →
    ∀ group ∈ text.splitOn "+", ∃ n, readInteger group = .ok n

/-- What attributes state is well formed. -/
structure StatesWell (attributes : Element) : Prop where
  signature : ∀ time, attributes.child? "time" = some time → SignedWell time
  divisions : WholeIfThere "divisions" attributes

/-- A complete signature. -/
def signatureIn? (time : Element) : Option Signature := do
  let beats ← (time.childText? "beats").bind beats?
  let beatType ← number? "beat-type" time
  some ⟨beats, beatType⟩

/-- The complete signature that a child of a measure states. -/
def signatureOf? (child : Element) : Option Signature :=
  if child.tag = "attributes" then (child.child? "time").bind signatureIn? else none

/-- The divisions that a child of a measure states. -/
def divisionsOf? (child : Element) : Option Int :=
  if child.tag = "attributes" then number? "divisions" child else none

/-- A note that takes time of its own. -/
def counts (child : Element) : Bool := child.tag = "note" && !isSkipped child

/-- The mark of loudness in a direction, or in the notations of a note that counts. -/
def markOf? (child : Element) : Option Dynamic :=
  if child.tag = "direction" then dynamicIn? child
  else if counts child then (child.child? "notations").bind dynamicIn?
  else none

/-- What holds behind some children of the measures of a part. -/
def stateBehind (es : List Element) : Running :=
  ⟨latest? markOf? es, latest? signatureOf? es, latest? divisionsOf? es⟩

/-- Whether the head of a note is that of a note that is held. -/
def isHeld (note : Element) : Bool :=
  trimBlanks ((note.childText? "notehead").getD "") = holdHead

/-- What kind of note an element is where a mark is in force: a rest before all, then a note that is
held, then the two ornaments. -/
inductive Classified (ornament : Dynamic) (mark : Option Dynamic) (note : Element) : NoteKind → Prop
  | rest {d : Dynamic} (hrest : note.has ["rest"]) (hmark : mark = some d) :
    Classified ornament mark note (.rest d)
  | hold (hrest : ¬ note.has ["rest"]) (hheld : isHeld note) : Classified ornament mark note .hold
  | hardTrill (hrest : ¬ note.has ["rest"]) (hheld : ¬ isHeld note)
    (htrill : note.has ["notations", "ornaments", "trill-mark"]) :
    Classified ornament mark note (.hardTrill (mark.getD ornament))
  | trill (hrest : ¬ note.has ["rest"]) (hheld : ¬ isHeld note)
    (htrill : ¬ note.has ["notations", "ornaments", "trill-mark"])
    (htremolo : note.has ["notations", "ornaments", "tremolo"]) :
    Classified ornament mark note (.trill (mark.getD ornament))
  | actuate {d : Dynamic} (hrest : ¬ note.has ["rest"]) (hheld : ¬ isHeld note)
    (htrill : ¬ note.has ["notations", "ornaments", "trill-mark"])
    (htremolo : ¬ note.has ["notations", "ornaments", "tremolo"]) (hmark : mark = some d) :
    Classified ornament mark note (.actuate d)

/-- A note that cannot do without a mark: ornaments have a loudness of their own, and a note that is
held needs none. -/
def NeedsMark (note : Element) : Prop :=
  note.has ["rest"] ∨ ¬ isHeld note ∧ ¬ note.has ["notations", "ornaments", "trill-mark"] ∧
    ¬ note.has ["notations", "ornaments", "tremolo"]

/-- What a note of a document sounds like where a mark is in force. -/
structure Sounds (ornament : Dynamic) (mark : Option Dynamic) (e : Element) (note : Note) :
    Prop where
  duration : number? "duration" e = some note.duration
  nonneg : 0 ≤ note.duration
  kind : Classified ornament mark e note.kind

/-- A child of a measure with those in front of it in its part, and the note that it is: marked by
the latest mark, its own one included. -/
def SoundsAt (ornament : Dynamic) (p : List Element × Element) (note : Note) : Prop :=
  Sounds ornament (latest? markOf? (p.1 ++ [p.2])) p.2 note

/-- A measure of a part behind some children of earlier ones, as it is read. -/
structure Reads (ornament : Dynamic) (before : List Element) (m : Element) (measure : Measure) :
    Prop where
  stated : ∀ child ∈ m.children, child.tag = "attributes" → StatesWell child
  signature : latest? signatureOf? (before ++ m.children) = some measure.signature
  divisions : latest? divisionsOf? (before ++ m.children) = some measure.divisions
  positive : 0 < measure.divisions
  notes : List.Forall₂ (SoundsAt ornament) ((placesFrom before m.children).filter (counts ·.2))
    measure.notes

theorem wholeChild_eq_ok_iff {n : Option Int} :
    wholeChild tag child = .ok n ↔ WholeIfThere tag child ∧ n = number? tag child := by
  unfold wholeChild WholeIfThere number?
  cases child.childText? tag with
  | none => simp [@eq_comm _ n]
  | some text => cases hwhole : whole? text <;> simp [hwhole, @eq_comm _ n]

theorem beats?_eq_none_iff {text : String} : beats? text = none ↔
    ¬ ∀ group ∈ text.splitOn "+", ∃ n, readInteger group = .ok n := by
  have hgroup (group : String) :
      (readInteger group).toOption = none ↔ ¬ ∃ n, readInteger group = .ok n := by
    cases readInteger group <;> simp [Except.toOption]
  unfold beats?
  rw [Option.map_eq_none_iff, mapM_eq_none_iff]
  simp only [hgroup, not_forall, exists_prop]

/-- Beats without a plus sign are one number. -/
theorem beats?_of_not_mem {text : String} (h : '+' ∉ text.toList) :
    beats? text = (readInteger text).toOption := by
  have hgroups : text.splitOn "+" = [text] := splitOn_of_not_mem h
  rw [beats?, hgroups]
  cases hread : readInteger text <;> simp [Except.toOption, hread]

/-- Beats matter only beside a beat type, and a beat type that is read is a number. -/
theorem signedWell_iff {time : Element} (h : WholeIfThere "beat-type" time) : SignedWell time ↔
    ∀ text n, time.childText? "beats" = some text → number? "beat-type" time = some n →
      beats? text ≠ none := by
  constructor
  · intro hwell text n htext hn hbeats
    obtain ⟨written, hwritten, _⟩ := Option.bind_eq_some_iff.mp hn
    refine beats?_eq_none_iff.mp hbeats (hwell.beats ?_ text htext)
    rw [hwritten]
    rfl
  · intro hwell
    refine ⟨h, fun hthere text htext => ?_⟩
    obtain ⟨written, hwritten⟩ := Option.isSome_iff_exists.mp hthere
    obtain ⟨n, hn⟩ := Option.isSome_iff_exists.mp (h written hwritten)
    by_contra hgroups
    refine hwell text n htext ?_ (beats?_eq_none_iff.mpr hgroups)
    rw [number?, hwritten, Option.bind_some, hn]

theorem readSignature_eq_ok_iff {signature : Option Signature} :
    readSignature child = .ok signature ↔
      (∀ time, child.child? "time" = some time → SignedWell time) ∧
      signature = (child.child? "time").bind signatureIn? := by
  unfold readSignature
  cases child.child? "time" with
  | none => simp [@eq_comm _ signature]
  | some time =>
    rw [Option.bind_some]
    simp only [Option.some.injEq, forall_eq']
    cases hread : wholeChild "beat-type" time with
    | error fault =>
      refine iff_of_false (by rintro ⟨⟩) ?_
      rintro ⟨hwell, _⟩
      rw [wholeChild_eq_ok_iff.mpr ⟨hwell.beatType, rfl⟩] at hread
      cases hread
    | ok beatType =>
      obtain ⟨hthere, rfl⟩ := wholeChild_eq_ok_iff.mp hread
      rw [signedWell_iff hthere]
      unfold signatureIn?
      cases time.childText? "beats" with
      | none => simp [bind, Except.bind, @eq_comm _ signature]
      | some text =>
        cases number? "beat-type" time with
        | none => cases beats? text <;> simp [bind, Except.bind, @eq_comm _ signature]
        | some n =>
          cases hbeats : beats? text <;> simp [bind, Except.bind, hbeats, @eq_comm _ signature]

/-- Attributes are read when they are well formed, and what they state is the latest statement. -/
theorem readAttributes_eq_ok_iff {next : Running} (h : child.tag = "attributes") :
    readAttributes (stateBehind before) child = .ok next ↔
      StatesWell child ∧ next = stateBehind (before ++ [child]) := by
  have hmark : markOf? child = none := by
    unfold markOf? counts
    rw [h]
    rfl
  have hbehind : stateBehind (before ++ [child]) = { stateBehind before with
      signature := ((child.child? "time").bind signatureIn?).or (latest? signatureOf? before)
      divisions := (number? "divisions" child).or (latest? divisionsOf? before) } := by
    unfold stateBehind
    simp only [latest?_append_singleton]
    rw [hmark, signatureOf?, divisionsOf?, if_pos h, if_pos h]
    rfl
  rw [hbehind]
  constructor
  · intro hread
    obtain ⟨signature, hsignature, hread⟩ := exists_of_bind_eq_ok hread
    obtain ⟨divisions, hdivisions, hread⟩ := exists_of_bind_eq_ok hread
    cases hread
    obtain ⟨hsigned, rfl⟩ := readSignature_eq_ok_iff.mp hsignature
    obtain ⟨hdivided, rfl⟩ := wholeChild_eq_ok_iff.mp hdivisions
    exact ⟨⟨hsigned, hdivided⟩, rfl⟩
  · rintro ⟨hwell, rfl⟩
    unfold readAttributes
    rw [readSignature_eq_ok_iff.mpr ⟨hwell.signature, rfl⟩,
      wholeChild_eq_ok_iff.mpr ⟨hwell.divisions, rfl⟩]
    rfl

theorem readDuration_eq_ok_iff {n : Int} :
    readDuration child = .ok n ↔ number? "duration" child = some n ∧ 0 ≤ n := by
  constructor
  · intro h
    obtain ⟨written, hwritten, h⟩ := exists_of_bind_eq_ok h
    obtain ⟨_, rfl⟩ := wholeChild_eq_ok_iff.mp hwritten
    split at h
    · next m hm =>
      split at h
      · cases h
      · next hneg =>
        cases h
        exact ⟨hm, Int.not_lt.mp hneg⟩
    · cases h
  · rintro ⟨hn, hpos⟩
    have hthere : WholeIfThere "duration" child := by
      intro text htext
      rw [number?, htext, Option.bind_some] at hn
      rw [hn]
      rfl
    unfold readDuration
    rw [wholeChild_eq_ok_iff.mpr ⟨hthere, hn.symm⟩]
    exact if_neg (Int.not_lt.mpr hpos)

theorem readKind_eq_ok_iff :
    readKind ornament mark child = .ok kind ↔ Classified ornament mark child kind := by
  constructor
  · intro h
    unfold readKind at h
    split at h
    · next hrest =>
      cases mark with
      | none => cases h
      | some d =>
        cases h
        exact .rest hrest rfl
    next hrest =>
    split at h
    · next hheld =>
      cases h
      exact .hold hrest (decide_eq_true hheld)
    next hheld =>
    have hheld : ¬ isHeld child := fun h => hheld (of_decide_eq_true h)
    split at h
    · next htrill =>
      cases h
      exact .hardTrill hrest hheld htrill
    next htrill =>
    split at h
    · next htremolo =>
      cases h
      exact .trill hrest hheld htrill htremolo
    next htremolo =>
    cases mark with
    | none => cases h
    | some d =>
      cases h
      exact .actuate hrest hheld htrill htremolo rfl
  · intro h
    unfold readKind
    cases h with
    | rest hrest hmark => rw [if_pos hrest, hmark]
    | hold hrest hheld => rw [if_neg hrest, if_pos (of_decide_eq_true hheld)]
    | hardTrill hrest hheld htrill =>
      rw [if_neg hrest, if_neg fun h => hheld (decide_eq_true h), if_pos htrill]
    | trill hrest hheld htrill htremolo =>
      rw [if_neg hrest, if_neg fun h => hheld (decide_eq_true h), if_neg htrill, if_pos htremolo]
    | actuate hrest hheld htrill htremolo hmark =>
      rw [if_neg hrest, if_neg fun h => hheld (decide_eq_true h), if_neg htrill, if_neg htremolo,
        hmark]

theorem readNote_eq_ok_iff :
    readNote ornament mark child = .ok note ↔ Sounds ornament mark child note := by
  constructor
  · intro h
    obtain ⟨n, hn, h⟩ := exists_of_bind_eq_ok h
    obtain ⟨kind, hkind, h⟩ := exists_of_bind_eq_ok h
    cases h
    obtain ⟨hduration, hpos⟩ := readDuration_eq_ok_iff.mp hn
    exact ⟨hduration, hpos, readKind_eq_ok_iff.mp hkind⟩
  · rintro ⟨hduration, hpos, hkind⟩
    unfold readNote
    rw [readDuration_eq_ok_iff.mpr ⟨hduration, hpos⟩, readKind_eq_ok_iff.mpr hkind]
    rfl

/-- A child that states nothing changes nothing apart from the mark. -/
theorem stateBehind_append_singleton (h : child.tag ≠ "attributes") :
    stateBehind (before ++ [child]) =
      { stateBehind before with dynamic := latest? markOf? (before ++ [child]) } := by
  unfold stateBehind
  rw [latest?_append_singleton signatureOf?, latest?_append_singleton divisionsOf?, signatureOf?,
    divisionsOf?, if_neg h, if_neg h]
  rfl

theorem ne_attributes_of_counts (h : counts child) : child.tag ≠ "attributes" := by
  intro htag
  rw [counts, htag] at h
  cases h

theorem ne_direction_of_counts (h : counts child) : child.tag ≠ "direction" := by
  intro htag
  rw [counts, htag] at h
  cases h

theorem dynamicAt_latest? (h : counts child) :
    dynamicAt (latest? markOf? before) child = latest? markOf? (before ++ [child]) := by
  rw [latest?_append_singleton, markOf?, if_neg (ne_direction_of_counts h), if_pos h, dynamicAt]
  cases child.child? "notations" <;> rfl

/-- A child that is no note that counts is read when it is well formed. -/
theorem readChild_eq_ok_iff_of_not_counts (h : ¬ counts child) :
    readChild ornament (stateBehind before) child = .ok (last, notes) ↔
      (child.tag = "attributes" → StatesWell child) ∧ last = stateBehind (before ++ [child]) ∧
        notes = [] := by
  unfold readChild
  by_cases hstates : child.tag = "attributes"
  · rw [if_pos hstates]
    constructor
    · intro hread
      obtain ⟨next, hnext, hsame⟩ := exists_of_map_eq_ok hread
      cases hsame
      obtain ⟨hwell, hlast⟩ := (readAttributes_eq_ok_iff hstates).mp hnext
      exact ⟨fun _ => hwell, hlast, rfl⟩
    · rintro ⟨hwell, rfl, rfl⟩
      rw [(readAttributes_eq_ok_iff hstates).mpr ⟨hwell hstates, rfl⟩]
      rfl
  rw [if_neg hstates, stateBehind_append_singleton hstates, latest?_append_singleton, markOf?]
  have hread {next : Running} : Except.ok (ε := MeasureFault) (next, []) = .ok (last, notes) ↔
      (child.tag = "attributes" → StatesWell child) ∧ last = next ∧ notes = [] := by
    constructor
    · intro hread
      cases hread
      exact ⟨fun htag => absurd htag hstates, rfl, rfl⟩
    · rintro ⟨_, rfl, rfl⟩
      rfl
  by_cases hdirection : child.tag = "direction"
  · rw [if_pos hdirection, if_pos hdirection]
    exact hread
  · have hnote : ¬ (child.tag = "note" && !isSkipped child) := h
    rw [if_neg hdirection, if_neg hdirection, if_neg h, if_neg hnote]
    exact hread

/-- A note that counts is read when it sounds with the latest mark, its own one included. -/
theorem readChild_eq_ok_iff_of_counts (h : counts child) :
    readChild ornament (stateBehind before) child = .ok (last, notes) ↔
      last = stateBehind (before ++ [child]) ∧
        ∃ note, SoundsAt ornament (before, child) note ∧ notes = [note] := by
  have hstates := ne_attributes_of_counts h
  have hdirection := ne_direction_of_counts h
  unfold readChild
  rw [if_neg hstates, if_neg hdirection,
    if_pos (show (child.tag = "note" && !isSkipped child) = true from h),
    stateBehind_append_singleton hstates]
  dsimp only [stateBehind]
  rw [dynamicAt_latest? h]
  constructor
  · intro hread
    obtain ⟨note, hsounds, hsame⟩ := exists_of_map_eq_ok hread
    cases hsame
    exact ⟨rfl, note, readNote_eq_ok_iff.mp hsounds, rfl⟩
  · rintro ⟨rfl, note, hsounds, rfl⟩
    rw [readNote_eq_ok_iff.mpr hsounds]
    rfl

/-- One child of a measure: it is well formed, and it sounds if it is a note that counts. -/
theorem readChild_eq_ok_iff : readChild ornament (stateBehind before) child = .ok (last, notes) ↔
    (child.tag = "attributes" → StatesWell child) ∧ last = stateBehind (before ++ [child]) ∧
      List.Forall₂ (SoundsAt ornament) ((placesFrom before [child]).filter (counts ·.2)) notes := by
  by_cases h : counts child
  · have hplaces : (placesFrom before [child]).filter (counts ·.2) = [(before, child)] :=
      List.filter_cons_of_pos h
    rw [readChild_eq_ok_iff_of_counts h, hplaces]
    constructor
    · rintro ⟨hlast, note, hsounds, rfl⟩
      exact ⟨fun htag => absurd htag (ne_attributes_of_counts h), hlast, .cons hsounds .nil⟩
    · rintro ⟨_, hlast, hnotes⟩
      cases hnotes with
      | cons hsounds hrest =>
        cases hrest
        exact ⟨hlast, _, hsounds, rfl⟩
  · have hplaces : (placesFrom before [child]).filter (counts ·.2) = [] :=
      List.filter_cons_of_neg h
    rw [readChild_eq_ok_iff_of_not_counts h, hplaces, List.forall₂_nil_left_iff]

/-- What attributes at the front of a measure state holds for the rest of it. -/
theorem readMeasure_attributes {text : String} {attributes : List (String × String)}
    {running' : Running} (hchild : child.tag = "attributes")
    (h : readAttributes running child = .ok running') :
    readMeasure ornament running place (.mk tag attributes text (child :: es)) =
      readMeasure ornament running' place (.mk tag attributes text es) := by
  simp only [readMeasure, Element.children, readChildren, if_pos hchild, h]
  rfl

/-- The children of a measure: all of them are well formed, and those that are notes that count
sound with the latest marks at their places. -/
theorem readChildren_eq_ok_iff :
    readChildren ornament (stateBehind before) es = .ok (last, notes) ↔
      (∀ child ∈ es, child.tag = "attributes" → StatesWell child) ∧
      last = stateBehind (before ++ es) ∧
      List.Forall₂ (SoundsAt ornament) ((placesFrom before es).filter (counts ·.2)) notes := by
  -- the running state is that behind some children, so each step only makes these one more
  induction es generalizing before notes with
  | nil =>
    rw [List.append_nil]
    constructor
    · intro h
      cases h
      exact ⟨fun _ hchild => (by cases hchild), rfl, .nil⟩
    · rintro ⟨_, rfl, hnotes⟩
      cases hnotes
      rfl
  | cons child es ih =>
    have hplaces : placesFrom before (child :: es) =
        placesFrom before [child] ++ placesFrom (before ++ [child]) es :=
      placesFrom_append before [child] es
    rw [readChildren_cons_eq_ok_iff, List.forall_mem_cons, hplaces, List.filter_append,
      forall₂_append_left_iff, List.append_cons]
    constructor
    · rintro ⟨next, first, rest, hfirst, hrest, rfl⟩
      obtain ⟨hwell, rfl, hsounds⟩ := readChild_eq_ok_iff.mp hfirst
      obtain ⟨hwells, hlast, hbehind⟩ := ih.mp hrest
      exact ⟨⟨hwell, hwells⟩, hlast, first, rest, hsounds, hbehind, rfl⟩
    · rintro ⟨⟨hwell, hwells⟩, hlast, first, rest, hfirst, hrest, rfl⟩
      exact ⟨_, first, rest, readChild_eq_ok_iff.mpr ⟨hwell, rfl, hfirst⟩,
        ih.mpr ⟨hwells, hlast, hrest⟩, rfl⟩

theorem readMeasure_eq_ok_iff_reads :
    readMeasure ornament (stateBehind before) place m = .ok (last, measure) ↔
      last = stateBehind (before ++ m.children) ∧
      measure.number = (measureNumber? m).getD place ∧ Reads ornament before m measure := by
  rw [readMeasure_eq_ok_iff]
  constructor
  · rintro ⟨notes, signature, divisions, hchildren, hsignature, hdivisions, hpos, rfl⟩
    obtain ⟨hstated, rfl, hnotes⟩ := readChildren_eq_ok_iff.mp hchildren
    exact ⟨rfl, rfl, hstated, hsignature, hdivisions, hpos, hnotes⟩
  · rintro ⟨rfl, hnumber, hreads⟩
    obtain ⟨number, signature, divisions, notes⟩ := measure
    obtain rfl : number = (measureNumber? m).getD place := hnumber
    exact ⟨notes, signature, divisions,
      readChildren_eq_ok_iff.mpr ⟨hreads.stated, rfl, hreads.notes⟩, hreads.signature,
      hreads.divisions, hreads.positive, rfl⟩

/-- In a measure that was read time runs forwards. -/
theorem Reads.regular (h : Reads ornament before m measure) : measure.Regular := by
  refine ⟨h.positive, fun note hnote => ?_⟩
  obtain ⟨p, _, hsounds⟩ := exists_left_of_mem h.notes hnote
  exact hsounds.nonneg

/-- A measure that can be read can be read at every place; its number may be the place. -/
theorem exists_readMeasure_eq_ok (h : Reads ornament before m measure) (place : Nat) :
    ∃ measure', readMeasure ornament (stateBehind before) place m =
      .ok (stateBehind (before ++ m.children), measure') :=
  ⟨{ measure with number := (measureNumber? m).getD place },
    readMeasure_eq_ok_iff_reads.mpr
      ⟨rfl, rfl, h.stated, h.signature, h.divisions, h.positive, h.notes⟩⟩

/-- The measures of a part, each behind the children of those in front of it. -/
def ReadsAt (ornament : Dynamic) (p : List Element × Element) (measure : Measure) : Prop :=
  Reads ornament (p.1.flatMap Element.children) p.2 measure

theorem readsAt_of_readMeasures
    (h : readMeasures ornament part (stateBehind (bars.flatMap Element.children)) place es =
      .ok measures) : List.Forall₂ (ReadsAt ornament) (placesFrom bars es) measures := by
  induction es generalizing bars place measures with
  | nil =>
    cases h
    exact .nil
  | cons m es ih =>
    obtain ⟨next, measure, rest, hmeasure, hrest, rfl⟩ := readMeasures_cons_eq_ok_iff.mp h
    obtain ⟨rfl, _, hreads⟩ := readMeasure_eq_ok_iff_reads.mp hmeasure
    rw [← flatMap_append_singleton] at hrest
    exact .cons hreads (ih hrest)

theorem measures_eq_nil_iff
    (h : readMeasures ornament part running place es = .ok measures) :
    measures = [] ↔ es = [] := by
  cases es with
  | nil =>
    cases h
    exact iff_of_true rfl rfl
  | cons m es =>
    obtain ⟨_, _, _, _, _, rfl⟩ := readMeasures_cons_eq_ok_iff.mp h
    exact iff_of_false (List.cons_ne_nil _ _) (List.cons_ne_nil _ _)

/-- Measures that can be read one by one are read as a part. -/
theorem exists_readMeasures_eq_ok
    (h : ∀ p ∈ placesFrom bars es, ∃ measure, ReadsAt ornament p measure) :
    ∃ measures, readMeasures ornament part (stateBehind (bars.flatMap Element.children)) place es =
      .ok measures := by
  induction es generalizing bars place with
  | nil => exact ⟨[], rfl⟩
  | cons m es ih =>
    obtain ⟨measure, hreads⟩ := h _ List.mem_cons_self
    have hbehind : ∀ p ∈ placesFrom (bars ++ [m]) es, ∃ measure, ReadsAt ornament p measure :=
      fun p hp => h p (List.mem_cons_of_mem _ hp)
    obtain ⟨rest, hrest⟩ := @ih (place + 1) _ hbehind
    rw [flatMap_append_singleton] at hrest
    obtain ⟨next, hmeasure⟩ := exists_readMeasure_eq_ok hreads place
    exact ⟨_, readMeasures_cons_eq_ok_iff.mpr ⟨_, _, rest, hmeasure, hrest, rfl⟩⟩

end MusicXml
end Bellows
