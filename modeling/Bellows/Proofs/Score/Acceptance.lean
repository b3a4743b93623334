import Bellows.Proofs.Score.Faults
import Bellows.Proofs.Score.Loudness

/-! Which documents are read, said without the reader, and what is wrong with one that is not: the
fault names something that is missing or malformed in it. -/
namespace Bellows

open Xml (Element)

namespace MusicXml

variable {ornament : Dynamic} {root e child m : Element} {before es : List Element}
  {p : List Element × Element} {part : String}

/-- What the element of a part must be like. -/
structure Legible (e : Element) : Prop where
  measured : e.childrenWith "measure" ≠ []
  stated : ∀ child ∈ barred e, child.tag = "attributes" → StatesWell child
  opened : ∀ first, (e.childrenWith "measure").head? = some first →
    (∃ child ∈ first.children, (signatureOf? child).isSome) ∧
      ∃ child ∈ first.children, (divisionsOf? child).isSome
  divided : ∀ p ∈ placesFrom [] (e.childrenWith "measure"), ∀ n,
    latest? divisionsOf? ((p.1 ++ [p.2]).flatMap Element.children) = some n → 0 < n
  timed : ∀ note ∈ barred e, counts note → ∃ n, number? "duration" note = some n ∧ 0 ≤ n
  marked : ∀ p ∈ placesFrom [] (barred e), counts p.2 → NeedsMark p.2 →
    ∃ item ∈ p.1 ++ [p.2], (markOf? item).isSome

/-- What a document must be like. -/
structure Acceptable (root : Element) : Prop where
  declared : ∀ d ∈ root.withTag "score-part", (d.attribute? "id").isSome
  written : ∀ e ∈ root.withTag "part", (e.attribute? "id").isSome
  named : ∀ e ∈ root.withTag "part", ∃ d ∈ root.withTag "score-part",
    d.attribute? "id" = e.attribute? "id"
  legible : ∀ d ∈ root.withTag "score-part", ∀ part, d.attribute? "id" = some part →
    ∃ e, lastNamed? part (root.withTag "part") = some e ∧ Legible e

theorem exists_classified_iff {mark : Option Dynamic} :
    (∃ kind, Classified ornament mark child kind) ↔ (NeedsMark child → mark.isSome) := by
  constructor
  · rintro ⟨kind, h⟩ hneeds
    cases h with
    | rest hrest hmark => rw [hmark]; rfl
    | hold hrest hheld =>
      obtain hneeds | ⟨hneeds, _⟩ := hneeds
      · exact absurd hneeds hrest
      · exact absurd hheld hneeds
    | hardTrill hrest hheld htrill =>
      obtain hneeds | ⟨_, hneeds, _⟩ := hneeds
      · exact absurd hneeds hrest
      · exact absurd htrill hneeds
    | trill hrest hheld htrill htremolo =>
      obtain hneeds | ⟨_, _, hneeds⟩ := hneeds
      · exact absurd hneeds hrest
      · exact absurd htremolo hneeds
    | actuate hrest hheld htrill htremolo hmark => rw [hmark]; rfl
  · intro h
    by_cases hrest : child.has ["rest"]
    · obtain ⟨d, hmark⟩ := Option.isSome_iff_exists.mp (h (Or.inl hrest))
      exact ⟨_, .rest hrest hmark⟩
    by_cases hheld : isHeld child
    · exact ⟨_, .hold hrest hheld⟩
    by_cases htrill : child.has ["notations", "ornaments", "trill-mark"]
    · exact ⟨_, .hardTrill hrest hheld htrill⟩
    by_cases htremolo : child.has ["notations", "ornaments", "tremolo"]
    · exact ⟨_, .trill hrest hheld htrill htremolo⟩
    obtain ⟨d, hmark⟩ := Option.isSome_iff_exists.mp (h (Or.inr ⟨hheld, htrill, htremolo⟩))
    exact ⟨_, .actuate hrest hheld htrill htremolo hmark⟩

theorem exists_soundsAt_iff : (∃ note, SoundsAt ornament p note) ↔
    (∃ n, number? "duration" p.2 = some n ∧ 0 ≤ n) ∧
      (NeedsMark p.2 → ∃ item ∈ p.1 ++ [p.2], (markOf? item).isSome) := by
  rw [← isSome_latest?_iff, ← @exists_classified_iff ornament]
  constructor
  · rintro ⟨note, hduration, hpos, hkind⟩
    exact ⟨⟨_, hduration, hpos⟩, _, hkind⟩
  · rintro ⟨⟨n, hduration, hpos⟩, kind, hkind⟩
    exact ⟨⟨kind, n⟩, hduration, hpos, hkind⟩

theorem exists_reads_iff : (∃ measure, Reads ornament before m measure) ↔
    (∀ child ∈ m.children, child.tag = "attributes" → StatesWell child) ∧
      (latest? signatureOf? (before ++ m.children)).isSome ∧
      (∃ n, latest? divisionsOf? (before ++ m.children) = some n ∧ 0 < n) ∧
      ∀ p ∈ placesFrom before m.children, counts p.2 → ∃ note, SoundsAt ornament p note := by
  constructor
  · rintro ⟨measure, hreads⟩
    have hsigned := Option.isSome_iff_exists.mpr ⟨_, hreads.signature⟩
    refine ⟨hreads.stated, hsigned, ⟨_, hreads.divisions, hreads.positive⟩, ?_⟩
    intro p hp hcounts
    exact exists_forall₂_iff.mp ⟨_, hreads.notes⟩ p (List.mem_filter.mpr ⟨hp, hcounts⟩)
  · rintro ⟨hstated, hsignature, ⟨divisions, hdivisions, hpos⟩, hsounds⟩
    obtain ⟨signature, hsignature⟩ := Option.isSome_iff_exists.mp hsignature
    obtain ⟨notes, hnotes⟩ : ∃ notes, List.Forall₂ (SoundsAt ornament)
        ((placesFrom before m.children).filter (counts ·.2)) notes := by
      rw [exists_forall₂_iff]
      intro p hp
      obtain ⟨hp, hcounts⟩ := List.mem_filter.mp hp
      exact hsounds p hp hcounts
    exact ⟨⟨0, signature, divisions, notes⟩, hstated, hsignature, hdivisions, hpos, hnotes⟩

/-- The children of measures at their places are those of the whole part at theirs. -/
theorem forall_placesFrom_barred {motive : List Element × Element → Prop} :
    (∀ p ∈ placesFrom [] (barred e), motive p) ↔
      ∀ q ∈ placesFrom [] (e.childrenWith "measure"),
        ∀ p ∈ placesFrom (q.1.flatMap Element.children) q.2.children, motive p := by
  have hplaces := placesFrom_flatMap Element.children [] (e.childrenWith "measure")
  rw [List.flatMap_nil] at hplaces
  unfold barred
  rw [hplaces]
  simp only [List.mem_flatMap]
  constructor
  · intro h q hq p hp
    exact h p ⟨q, hq, hp⟩
  · rintro h p ⟨q, hq, hp⟩
    exact h q hq p hp

/-- What the first measure states is known in every measure. -/
theorem isSome_latest?_of_first {α : Type} {f : Element → Option α} {first : Element}
    (h : ∃ child ∈ first.children, (f child).isSome) (hp : p ∈ placesFrom [] (first :: es)) :
    (latest? f ((p.1 ++ [p.2]).flatMap Element.children)).isSome := by
  obtain ⟨child, hchild, hsome⟩ := h
  obtain ⟨front, after, hsplit, hbefore⟩ := mem_placesFrom_iff.mp hp
  have hfirst : first ∈ p.1 ++ [p.2] := by
    rw [hbefore, List.nil_append, List.mem_append, List.mem_singleton]
    cases front with
    | nil =>
      cases hsplit
      exact Or.inr rfl
    | cons a front =>
      cases hsplit
      exact Or.inl List.mem_cons_self
  exact isSome_latest?_iff.mpr ⟨child, List.mem_flatMap.mpr ⟨first, hfirst, hchild⟩, hsome⟩

theorem exists_readsAt_of_legible (h : Legible e)
    (hp : p ∈ placesFrom [] (e.childrenWith "measure")) :
    ∃ measure, ReadsAt ornament p measure := by
  obtain ⟨first, rest, hbars⟩ := List.exists_cons_of_ne_nil h.measured
  obtain ⟨hsignature, hdivisions⟩ := h.opened first (by rw [hbars]; rfl)
  have hfirst : p ∈ placesFrom [] (first :: rest) := hbars ▸ hp
  have hsigned := isSome_latest?_of_first hsignature hfirst
  obtain ⟨n, hn⟩ := Option.isSome_iff_exists.mp (isSome_latest?_of_first hdivisions hfirst)
  have hpos := h.divided p hp n hn
  rw [flatMap_append_singleton] at hsigned hn
  have hchildren : ∀ child ∈ p.2.children, child ∈ barred e := by
    intro child hchild
    exact List.mem_flatMap.mpr ⟨p.2, forall_mem_placesFrom.mpr (fun _ => id) p hp, hchild⟩
  refine exists_reads_iff.mpr ⟨fun child hchild => h.stated child (hchildren child hchild), hsigned,
    ⟨n, hn, hpos⟩, fun q hq hcounts => ?_⟩
  have hq₂ : q.2 ∈ p.2.children := forall_mem_placesFrom.mpr (fun _ => id) q hq
  exact exists_soundsAt_iff.mpr ⟨h.timed q.2 (hchildren q.2 hq₂) hcounts,
    forall_placesFrom_barred.mp h.marked p hp q hq hcounts⟩

theorem legible_of_readsAt (hmeasured : e.childrenWith "measure" ≠ [])
    (h : ∀ p ∈ placesFrom [] (e.childrenWith "measure"), ∃ measure, ReadsAt ornament p measure) :
    Legible e := by
  have hsounds : ∀ p ∈ placesFrom [] (barred e), counts p.2 → ∃ note, SoundsAt ornament p note := by
    rw [forall_placesFrom_barred]
    intro q hq
    exact (exists_reads_iff.mp (h q hq)).2.2.2
  refine ⟨hmeasured, ?_, ?_, ?_, ?_, ?_⟩
  · intro child hchild
    obtain ⟨m, hm, hchild⟩ := List.mem_flatMap.mp hchild
    have hstated : ∀ m ∈ e.childrenWith "measure", ∀ child ∈ m.children,
        child.tag = "attributes" → StatesWell child :=
      forall_mem_placesFrom.mp fun p hp => (exists_reads_iff.mp (h p hp)).1
    exact hstated m hm child hchild
  · intro first hfirst
    obtain ⟨rest, hbars⟩ := List.head?_eq_some_iff.mp hfirst
    have hread := h ([], first) (by rw [hbars]; exact List.mem_cons_self)
    obtain ⟨_, hsignature, ⟨n, hn, _⟩, _⟩ := exists_reads_iff.mp hread
    have hdivisions := Option.isSome_iff_exists.mpr ⟨n, hn⟩
    exact ⟨isSome_latest?_iff.mp hsignature, isSome_latest?_iff.mp hdivisions⟩
  · intro p hp n hn
    obtain ⟨_, _, ⟨n', hn', hpos⟩, _⟩ := exists_reads_iff.mp (h p hp)
    rw [flatMap_append_singleton, hn'] at hn
    cases hn
    exact hpos
  · have htimed : ∀ p ∈ placesFrom [] (barred e), counts p.2 →
        ∃ n, number? "duration" p.2 = some n ∧ 0 ≤ n := by
      intro p hp hcounts
      exact (exists_soundsAt_iff.mp (hsounds p hp hcounts)).1
    exact forall_mem_placesFrom.mp htimed
  · intro p hp hcounts
    exact (exists_soundsAt_iff.mp (hsounds p hp hcounts)).2

/-- The measures of a part are read when its element is legible. -/
theorem legible_iff : Legible e ↔ ∃ measures,
    readMeasures ornament part .start 1 (e.childrenWith "measure") = .ok measures ∧
      measures ≠ [] := by
  constructor
  · intro h
    obtain ⟨measures, hmeasures⟩ :
        ∃ measures, readMeasures ornament part .start 1 (e.childrenWith "measure") = .ok measures :=
      exists_readMeasures_eq_ok fun p hp => exists_readsAt_of_legible h hp
    exact ⟨measures, hmeasures, mt (measures_eq_nil_iff hmeasures).mp h.measured⟩
  · rintro ⟨measures, hmeasures, hne⟩
    have hreads : List.Forall₂ (ReadsAt ornament)
        (placesFrom [] (e.childrenWith "measure")) measures := readsAt_of_readMeasures hmeasures
    exact legible_of_readsAt (mt (measures_eq_nil_iff hmeasures).mpr hne)
      (exists_forall₂_iff.mp ⟨_, hreads⟩)

end MusicXml

namespace Score

open MusicXml

variable {ornament : Dynamic} {root : Element}

/-- A document is read exactly if it is acceptable. -/
theorem exists_ofElement_eq_ok_iff :
    (∃ score, ofElement ornament root = .ok score) ↔ Acceptable root := by
  constructor
  · rintro ⟨score, h⟩
    obtain ⟨declared, written, hdeclared, hwritten, hall, hsame⟩ := ofElement_eq_ok_iff.mp h
    have hid := exists_identified_eq_ok_iff.mp ⟨written, hwritten⟩
    refine ⟨exists_identified_eq_ok_iff.mp ⟨declared, hdeclared⟩, hid, fun e he => ?_,
      fun d hd part hpart => ?_⟩
    · obtain ⟨part, hpart⟩ := Option.isSome_iff_exists.mp (hid e he)
      have hkey := (contains_of_identified_iff hwritten).mpr ⟨e, he, hpart⟩
      have hcontains := hall part (Keyed.contains_iff_mem_keys.mp hkey)
      obtain ⟨d, hd, hd'⟩ := (contains_of_identified_iff hdeclared).mp hcontains
      exact ⟨d, hd, hd'.trans hpart.symm⟩
    · have hcontains := (contains_of_identified_iff hdeclared).mpr ⟨d, hd, hpart⟩
      obtain ⟨⟨_, name⟩, hentry, rfl⟩ := List.mem_map.mp (Keyed.contains_iff_mem_keys.mp hcontains)
      obtain ⟨s, _, _, hread⟩ := exists_right_of_mem hsame hentry
      obtain ⟨e, he, hmeasures, hmeasured, _⟩ := readPart_eq_ok_iff.mp hread
      rw [get?_of_identified hwritten, Option.map_id] at he
      exact ⟨e, he, legible_iff.mpr ⟨_, hmeasures, hmeasured⟩⟩
  · intro h
    obtain ⟨declared, hdeclared⟩ : ∃ declared, declaredParts root = .ok declared :=
      exists_identified_eq_ok_iff.mpr h.declared
    obtain ⟨written, hwritten⟩ : ∃ written, writtenParts root = .ok written :=
      exists_identified_eq_ok_iff.mpr h.written
    have hall : ∀ part ∈ written.keys, declared.contains part := by
      intro part hpart
      obtain ⟨e, he, hid⟩ :=
        (contains_of_identified_iff hwritten).mp (Keyed.contains_iff_mem_keys.mpr hpart)
      obtain ⟨d, hd, hsame⟩ := h.named e he
      exact (contains_of_identified_iff hdeclared).mpr ⟨d, hd, hsame.trans hid⟩
    have hread : ∀ d ∈ declared.entries, ∃ s : String × Part,
        s.1 = d.1 ∧ readPart ornament written d.1 d.2 = .ok s.2 := by
      intro entry hentry
      have hcontains := Keyed.contains_iff_mem_keys.mpr (List.mem_map_of_mem (f := Prod.fst) hentry)
      obtain ⟨d, hd, hid⟩ := (contains_of_identified_iff hdeclared).mp hcontains
      obtain ⟨e, he, hlegible⟩ := h.legible d hd entry.1 hid
      obtain ⟨measures, hmeasures, hmeasured⟩ := legible_iff.mp hlegible
      refine ⟨(entry.1, ⟨entry.2, measures⟩), rfl, readPart_eq_ok_iff.mpr
        ⟨e, ?_, hmeasures, hmeasured, rfl⟩⟩
      rw [get?_of_identified hwritten, he]
      rfl
    obtain ⟨entries, hsame⟩ := exists_forall₂_iff.mpr hread
    have hkeys : entries.map Prod.fst = declared.entries.map Prod.fst :=
      (map_eq_of_forall₂ hsame fun d s hs => hs.1.symm).symm
    exact ⟨⟨entries, by rw [hkeys]; exact declared.distinct⟩,
      ofElement_eq_ok_iff.mpr ⟨declared, written, hdeclared, hwritten, hall, hsame⟩⟩

/-- A document is read exactly if it is acceptable. Every other one is refused with a fault that
says what is wrong with it. -/
theorem ofElement_accepts (ornament : Dynamic) (root : Element) :
    ((∃ score, ofElement ornament root = .ok score) ↔ Acceptable root) ∧
      (¬ Acceptable root →
        ∃ fault, ofElement ornament root = .error fault ∧ Blames root fault) := by
  refine ⟨exists_ofElement_eq_ok_iff, fun hrefused => ?_⟩
  cases h : ofElement ornament root with
  | ok score => exact absurd (exists_ofElement_eq_ok_iff.mp ⟨score, h⟩) hrefused
  | error fault => exact ⟨fault, rfl, blames_of_ofElement h⟩

end Score
end Bellows
