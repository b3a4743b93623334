import Bellows.Proofs.Conversion.Outcome
import Bellows.Proofs.Event.Subdivision
import Bellows.Proofs.Role.Matching

/-! The resolution of the notation does not matter. Measures that are counted in finer divisions,
each as fine as one likes, make the same events, and with them the same schedule or the same
reports. -/
namespace Bellows

variable {score score' : Score}

namespace Score.Subdivided

variable (h : score.Subdivided score')
include h

theorem contains_eq (part : String) : score'.contains part = score.contains part :=
  (isSome_eq_of_rel (Keyed.rel_find? h part)).symm

theorem measuresOf (part : String) :
    List.Forall₂ Measure.Subdivided (Role.measuresOf score part) (Role.measuresOf score' part) :=
  rel_getD (rel_map (Keyed.rel_find? h part) fun _ _ hp => hp.measures) .nil

end Score.Subdivided

section

variable {pace : Pace} (hcontains : ∀ part, score'.contains part = score.contains part)
  (hevents : ∀ part, pace.events (Role.measuresOf score' part) =
    pace.events (Role.measuresOf score part))
include hcontains hevents

/-- Of a score a role knows the names of the parts and their events. -/
theorem Role.timelines_congr (r : Role) : r.timelines pace score' = r.timelines pace score := by
  have hport : portTimeline pace score' = portTimeline pace score := by
    funext m
    rw [portTimeline, portTimeline, hevents]
  unfold timelines
  rw [r.fault?_eq_of_contains hcontains, hport]

theorem Conversion.survey_congr (roles : List Role) :
    survey pace score' roles = survey pace score roles := by
  induction roles with
  | nil => rfl
  | cons r rs ih =>
    unfold survey
    rw [r.timelines_congr hcontains hevents, ih]

/-- A conversion knows no more of a score than its roles do. -/
theorem Settings.convert_congr (settings : Settings) (tolerance : Binary64) :
    settings.convert pace tolerance score' = settings.convert pace tolerance score := by
  unfold convert
  rw [Conversion.survey_congr hcontains hevents]

end

namespace Settings

/-- The resolution of the notation does not matter. If each measure of each part is counted in
divisions some whole number of times as fine, each part has the same events at any tempo and with
any interval, and every conversion ends in the same schedule or with the same reports. -/
theorem convert_subdivided (h : score.Subdivided score') :
    (∀ (pace : Pace) (part : String), (pace.events (Role.measuresOf score' part)).toOption =
      (pace.events (Role.measuresOf score part)).toOption) ∧
    (∀ (pace : Pace) (bpm : Int) (part : String), pace.tempo = .whole bpm →
      pace.events (Role.measuresOf score' part) = pace.events (Role.measuresOf score part)) ∧
    ∀ (settings : Settings) (pace : Pace) (tolerance : Binary64), settings.pace = .ok pace →
      settings.convert pace tolerance score' = settings.convert pace tolerance score := by
  refine ⟨fun pace part => ?_, fun pace bpm part htempo => ?_,
    fun settings pace tolerance hpace => ?_⟩
  · exact Pace.toOption_events_subdivided (h.measuresOf part) pace
  · exact Pace.events_subdivided (h.measuresOf part) htempo
  · have htempo := tempo_of_pace hpace
    exact convert_congr h.contains_eq
      (fun part => Pace.events_subdivided (h.measuresOf part) htempo) settings tolerance

end Settings

namespace Conversion.Duet

/-- The duet with three divisions for each one of the low part and two for each one of the high
part. -/
def subdivided : Score := Keyed.ofList [
  ("P1", ⟨"Low", [⟨1, ⟨2, 4⟩, 3, [⟨.actuate .mf, 6⟩]⟩]⟩),
  ("P2", ⟨"High", [⟨1, ⟨2, 4⟩, 2, [⟨.hold, 2⟩, ⟨.hardTrill .p, 2⟩]⟩]⟩)]

theorem subdivided_of_score : Duet.score.Subdivided subdivided :=
  .cons ⟨rfl, rfl, .cons ⟨3, by decide, rfl⟩ .nil⟩
    (.cons ⟨rfl, rfl, .cons ⟨2, by decide, rfl⟩ .nil⟩ .nil)

end Conversion.Duet

open Conversion in
/-- Counted more finely, the duet has the same schedule. -/
theorem Settings.convert_subdivided_duet : Duet.score.Subdivided Duet.subdivided ∧
    Duet.settings.pace = .ok Duet.pace ∧ Duet.pace.tempo = .whole 60 ∧
    Duet.pace.events (Role.measuresOf Duet.subdivided "P2") = .ok Duet.high ∧
    Duet.settings.convert Duet.pace (.ofNat 1) Duet.subdivided = .ok Duet.schedule := by
  obtain ⟨_, hevents, hconvert⟩ := convert_subdivided Duet.subdivided_of_score
  have hhigh : Duet.pace.events (Role.measuresOf Duet.score "P2") = .ok Duet.high := by
    decide +kernel
  exact ⟨Duet.subdivided_of_score, Duet.pace_eq, rfl, (hevents _ 60 "P2" rfl).trans hhigh,
    (hconvert _ _ (.ofNat 1) Duet.pace_eq).trans Duet.convert_eq⟩

end Bellows
