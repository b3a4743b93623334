import Bellows.Proofs.Command.Safety
import Bellows.Proofs.Conversion.TimeAxis
import Bellows.Proofs.Schedule.Decoding

/-! Compiled schedules keep to the format of schedule documents: what a conversion returns can be
written and is read back unchanged. -/
namespace Bellows

/-- A safe command fits into the format. -/
theorem Resolution.Safe.wellFormed {curve : Curve} {requests : List Request} {c : Command}
    (h : Safe curve requests c) : c.WellFormed := by
  refine ⟨h.valves, ?_⟩
  rcases h.intensity_level with hzero | ⟨level, hlevel⟩
  · omega
  · have := (curve.intensity level).isLt
    omega

/-- The commands of a merged role fit into the format. -/
theorem RoleTimelines.wellFormed_of_merge {t : RoleTimelines} {ticks : List Binary64}
    {curve : Curve} {commands : List Command} (hticks : Axis.Ascending ticks)
    (h : t.merge curve ticks = .ok commands) {c : Command} (hc : c ∈ commands) :
    c.WellFormed := by
  have hlen := (t.resolve_of_merge hticks h).1
  obtain ⟨k, hk, rfl⟩ := List.mem_iff_getElem.mp hc
  exact (RoleTimelines.safe_of_merge hticks h (by omega) hk).wellFormed

namespace Conversion.Compiled

variable {settings : Settings} {pace : Pace} {tolerance : Binary64} {score : Score}
  {schedule : Schedule} {ts : List RoleTimelines} {e : String × List Command}
  (h : Compiled settings pace tolerance score ts schedule)
include h

theorem length_eq (he : e ∈ schedule.instructions.entries) : e.2.length = schedule.time.length := by
  obtain ⟨_, _, t, _, _, _, _, hm⟩ := h.exists_role he
  exact (t.resolve_of_merge h.ascending hm).1

theorem wellFormed_command (he : e ∈ schedule.instructions.entries) {c : Command}
    (hc : c ∈ e.2) : c.WellFormed := by
  obtain ⟨_, _, t, _, _, _, _, hm⟩ := h.exists_role he
  exact RoleTimelines.wellFormed_of_merge h.ascending hm hc

/-- With a tolerance of at least zero a compiled schedule keeps to its format. -/
theorem wellFormed (hscore : score.Regular) (hpace : settings.pace = .ok pace)
    (htolerance : Binary64.zero.le tolerance = true) : schedule.WellFormed where
  nonneg _ ht := (h.unsigned_of_mem_time hscore hpace ht).zero_le
  increasing := h.increasing_time hscore hpace htolerance
  lengths _ he := h.length_eq he
  commands _ he _ hc := h.wellFormed_command he hc

end Conversion.Compiled

namespace Settings

variable {settings : Settings} {pace : Pace} {tolerance : Binary64} {score : Score}

/-- What every conversion returns: times from zero on with more than the tolerance between them, the
roles of the settings, a command of five valves and eight bits for each role and tick. A schedule
with other lengths is never refused, because there is none; and every schedule can be decoded. -/
theorem convert_wellFormed (hscore : score.Regular) (hpace : settings.pace = .ok pace)
    (htolerance : Binary64.zero.le tolerance = true) :
    (∀ fault, settings.convert pace tolerance score ≠ .error (.length fault)) ∧
    ∀ schedule, settings.convert pace tolerance score = .ok schedule →
      (∀ t ∈ schedule.time, t.isFinite = true) ∧
      schedule.time.head? = some .zero ∧
      schedule.time.IsChain (Axis.Gap tolerance) ∧
      Axis.Increasing schedule.time ∧
      schedule.roles = settings.roles.map Role.name ∧
      (∀ e ∈ schedule.instructions.entries, e.2.length = schedule.time.length ∧
        ∀ c ∈ e.2, c.valves.length = portCount ∧ 0 ≤ c.intensity ∧ c.intensity ≤ 255) ∧
      Document.decode schedule.encode = .ok schedule := by
  refine ⟨convert_ne_length, fun schedule h => ?_⟩
  obtain ⟨ts, hc⟩ := exists_compiled h
  refine ⟨fun t ht => (hc.unsigned_of_mem_time hscore hpace ht).isFinite,
    hc.head?_time hscore hpace, hc.isChain_time hscore hpace,
    hc.increasing_time hscore hpace htolerance, hc.roles_eq, fun e he => ?_, ?_⟩
  · refine ⟨hc.length_eq he, fun c hcmem => ?_⟩
    have hcommand := hc.wellFormed_command he hcmem
    exact ⟨hcommand.valves, hcommand.intensity⟩
  · exact Schedule.decode_encode (hc.wellFormed hscore hpace htolerance)

open Conversion in
/-- The duet is decoded as it was compiled. -/
theorem convert_wellFormed_duet : Duet.score.Regular ∧ Duet.settings.pace = .ok Duet.pace ∧
    Binary64.zero.le (.ofNat 1) = true ∧
    Duet.settings.convert Duet.pace (.ofNat 1) Duet.score = .ok Duet.schedule ∧
    Document.decode Duet.schedule.encode = .ok Duet.schedule := by
  have htolerance : Binary64.zero.le (.ofNat 1) = true := by decide +kernel
  obtain ⟨_, _, _, _, _, _, hdecode⟩ :=
    (convert_wellFormed Duet.regular Duet.pace_eq htolerance).2 Duet.schedule Duet.convert_eq
  exact ⟨Duet.regular, Duet.pace_eq, htolerance, Duet.convert_eq, hdecode⟩

end Settings
end Bellows
