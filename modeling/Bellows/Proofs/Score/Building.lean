import Bellows.Proofs.Conversion.Endless
import Bellows.Proofs.Event.Separation
import Bellows.Proofs.Role.Acceptance
import Bellows.Proofs.Score.Loudness

/-! The parts of a score that was read can be laid out at every accepted pace: nothing is divided by
zero, and the length of a part alone decides whether it fits into the finite numbers. -/
namespace Bellows

open Xml (Element)

namespace Value

variable {v : Value} {x : Binary64}

theorem exists_of_atMostZero (h : v.atMostZero = .ok false) :
    ∃ q, v.quantity? = some q ∧ q.le (.whole 0) = false := by
  unfold atMostZero at h
  split at h
  · next q hq => exact ⟨q, hq, Except.ok.inj h⟩
  · cases h

theorem eq_float_of_quantity? (h : v.quantity? = some (.real x)) : v = .float x := by
  cases v <;> cases h
  rfl

end Value

namespace Pace

variable {pace : Pace} {bpm step : Value} {n : Int} {x : Binary64} {measures : List Measure}

/-- The step of an accepted pace can be divided by. -/
theorem interval_pos_of_ofValues (h : ofValues bpm step = .ok pace) : 0 < pace.interval := by
  have hmade := madeOf_of_ofValues h
  obtain ⟨q, hq, hpos⟩ := Value.exists_of_atMostZero hmade.step_pos
  obtain ⟨_, r, hr, hfraction⟩ | ⟨_, fault, hfault⟩ := Value.fraction_cases hq hpos
  · cases hmade.interval.symm.trans hfraction
    exact hr
  · cases hmade.interval.symm.trans hfault

/-- An accepted tempo is a positive whole number, or of the kind with which nothing is laid out. -/
theorem tempo_cases_of_ofValues (h : ofValues bpm step = .ok pace) :
    (∃ n, bpm.quantity? = some (.whole n) ∧ 0 < n ∧ pace.tempo = .whole n) ∨
      ∃ x, bpm = .float x ∧ pace.tempo = .broken x := by
  have hmade := madeOf_of_ofValues h
  obtain ⟨q, hq, hpos⟩ := Value.exists_of_atMostZero hmade.tempo_pos
  cases q with
  | whole n => exact Or.inl ⟨n, hq, by simpa using hpos, hmade.whole n hq⟩
  | real x =>
    have hx : bpm = .float x := Value.eq_float_of_quantity? hq
    exact Or.inr ⟨x, hx, hmade.broken x hx⟩

/-- A part is laid out without a division by zero. Its length decides whether it is laid out at all,
and then it ends with a pin. -/
structure Serves (pace : Pace) (n : Int) (measures : List Measure) : Prop where
  interval : 0 < pace.interval
  divisions : ∀ m ∈ measures, n * m.divisions ≠ 0
  endless : (Binary64.overflow : Rat) ≤ Layout.partLength n measures →
    pace.events measures = .error .tooLong
  finite : Layout.partLength n measures < (Binary64.overflow : Rat) →
    ∃ events last, pace.events measures = .ok events ∧ events.getLast? = some last ∧
      last.action = .noChange

theorem serves_of_regular (htempo : pace.tempo = .whole n) (hn : 0 < n)
    (hinterval : 0 < pace.interval) (hmeasures : ∀ m ∈ measures, m.Regular) :
    pace.Serves n measures := by
  have hdivisions := mul_ne_zero_of_regular hn hmeasures
  have hends := exists_events_eq_error_iff htempo hn hmeasures
  refine ⟨hinterval, hdivisions, fun hlong => ?_, fun hshort => ?_⟩
  · obtain ⟨fault, hfault⟩ := hends.mpr hlong
    rw [hfault, eq_tooLong_of_events htempo hdivisions hfault]
  · cases h : pace.events measures with
    | error fault => exact absurd (hends.mp ⟨fault, h⟩) (not_le.mpr hshort)
    | ok events =>
      obtain ⟨last, hlast, haction⟩ :=
        (pinned_events htempo hn (fun m hm => (hmeasures m hm).forwards) h).last
      exact ⟨events, last, rfl, hlast, haction⟩

/-- At a tempo that is no whole number nothing with measures is laid out. -/
theorem events_broken (htempo : pace.tempo = .broken x) (hmeasures : measures ≠ []) :
    pace.events measures = .error .brokenTempo ∨ pace.events measures = .error .hugeDivisions := by
  obtain ⟨m, ms, rfl⟩ := List.exists_cons_of_ne_nil hmeasures
  unfold events layOut
  rw [htempo]
  dsimp only
  split
  · exact Or.inr rfl
  · exact Or.inl rfl

end Pace

namespace Score

/-- A part of a score that was read is laid out at every accepted tempo that is a whole number,
unless its end is beyond all finite numbers. At any other tempo it is not laid out. -/
theorem serves_of_ofElement {ornament : Dynamic} {root : Element} {score : Score} {part : String}
    {p : Part} {bpm step : Value} {pace : Pace} (h : ofElement ornament root = .ok score)
    (hp : (part, p) ∈ score.entries) (hpace : Pace.ofValues bpm step = .ok pace) :
    (∃ n, bpm.quantity? = some (.whole n) ∧ pace.Serves n p.measures) ∨
      ∃ x, bpm = .float x ∧ (pace.events p.measures = .error .brokenTempo ∨
        pace.events p.measures = .error .hugeDivisions) := by
  have hregular := regular_of_ofElement h (part, p) hp
  obtain ⟨_, _, _, hmeasured⟩ := readMeasures_of_ofElement h hp
  obtain ⟨n, hn, hpos, htempo⟩ | ⟨x, hx, htempo⟩ := Pace.tempo_cases_of_ofValues hpace
  · exact Or.inl ⟨n, hn,
      Pace.serves_of_regular htempo hpos (Pace.interval_pos_of_ofValues hpace) hregular⟩
  · exact Or.inr ⟨x, hx, Pace.events_broken htempo hmeasured⟩

open Conversion in
/-- The ornamented part of the sketch is laid out at 60 quarter notes a minute. -/
theorem serves_sketch : ofElement .mf Sketch.document = .ok Sketch.score ∧
    ("P2", Sketch.ornamented) ∈ Sketch.score.entries ∧
    Pace.ofValues (.int 60) (.int 500) = .ok ⟨.whole 60, 500⟩ ∧
    (⟨.whole 60, 500⟩ : Pace).Serves 60 Sketch.ornamented.measures := by
  have hp : ("P2", Sketch.ornamented) ∈ Sketch.score.entries :=
    List.mem_cons_of_mem _ List.mem_cons_self
  have hpace : Pace.ofValues (.int 60) (.int 500) = .ok ⟨.whole 60, 500⟩ := Duet.pace_eq
  refine ⟨Sketch.ofElement_document, hp, hpace, ?_⟩
  obtain ⟨n, hn, hserves⟩ | ⟨x, hx, _⟩ := serves_of_ofElement Sketch.ofElement_document hp hpace
  · cases hn
    exact hserves
  · cases hx

/-- The same tempo as a binary64 number is accepted too, and no part is laid out at it. -/
theorem events_sketch_broken : ofElement .mf Sketch.document = .ok Sketch.score ∧
    ("P1", Sketch.loud) ∈ Sketch.score.entries ∧
    (Pace.ofValues (.float (.ofNat 60)) (.float (.ofNat 20))).toOption =
      some ⟨.broken (.ofNat 60), 20⟩ ∧
    (⟨.broken (.ofNat 60), 20⟩ : Pace).events Sketch.loud.measures = .error .brokenTempo :=
  ⟨Sketch.ofElement_document, List.mem_cons_self, by decide +kernel, by decide +kernel⟩

end Score
end Bellows
