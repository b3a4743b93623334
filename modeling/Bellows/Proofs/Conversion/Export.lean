import Bellows.Proofs.Conversion.WellFormed
import Bellows.Proofs.Schedule.Rows

/-! Compiled schedules as rows: with at least a millisecond of tolerance every role of a schedule
has rows that a device accepts, one for each tick. -/
namespace Bellows

namespace Conversion.Compiled

variable {settings : Settings} {pace : Pace} {tolerance : Binary64} {score : Score}
  {schedule : Schedule} {ts : List RoleTimelines}

/-- A tolerance of a millisecond keeps the ticks more than a millisecond apart. -/
theorem spaced_time (h : Compiled settings pace tolerance score ts schedule)
    (hscore : score.Regular) (hpace : settings.pace = .ok pace)
    (htolerance : (Binary64.ofNat 1).le tolerance = true) : Schedule.Spaced schedule.time := by
  have hunsigned : ∀ t ∈ schedule.time, t.Unsigned :=
    fun _ ht => h.unsigned_of_mem_time hscore hpace ht
  have htrans : IsTrans Binary64 fun a b => a.rank + (Binary64.unit : Int) < b.rank :=
    ⟨fun a b c hab hbc => by omega⟩
  have hchain : schedule.time.IsChain fun a b => a.rank + (Binary64.unit : Int) < b.rank :=
    (h.isChain_time hscore hpace).imp_of_mem_imp fun a b ha hb hgap =>
      Binary64.unit_lt_of_gap htolerance (hunsigned a ha).isFinite (hunsigned b hb).isFinite hgap
  exact (List.isChain_iff_pairwise.mp hchain).imp_of_mem fun ha hb hlt =>
    ⟨hunsigned _ ha, hunsigned _ hb, hlt⟩

end Conversion.Compiled

namespace Settings

variable {settings : Settings} {pace : Pace} {tolerance : Binary64} {score : Score}
  {schedule : Schedule} {role : String}

/-- Every role of a compiled schedule has rows, and nothing is wrong with them: there is one for
each tick, it starts at the millisecond nearest to it, no two of them start together, and what they
ask of a device is within its limits. -/
theorem convert_exports (hscore : score.Regular) (hpace : settings.pace = .ok pace)
    (htolerance : (Binary64.ofNat 1).le tolerance = true)
    (h : settings.convert pace tolerance score = .ok schedule) (hrole : role ∈ schedule.roles) :
    ∃ rows, schedule.rows role = .ok rows ∧
      List.Forall₂ (fun tick row => (tick.add Row.half).floor = .ok row.start) schedule.time rows ∧
      (rows.map Row.start).Pairwise (· < ·) ∧ (∀ r ∈ rows, r.Valid) ∧
      Row.fault? (rows.map Row.entries) = none := by
  obtain ⟨ts, hc⟩ := exists_compiled h
  have hunsigned : ∀ t ∈ schedule.time, t.Unsigned :=
    fun _ ht => hc.unsigned_of_mem_time hscore hpace ht
  obtain ⟨commands, rows, hmem, hrows, hall⟩ := Schedule.exists_rows hunsigned hrole
  have hlen : commands.length = schedule.time.length := hc.length_eq hmem
  have hvalid := Schedule.valid_rows hall hunsigned fun _ hcmem => hc.wellFormed_command hmem hcmem
  have hsteps := Schedule.starts_increase hall (hc.spaced_time hscore hpace htolerance) hlen
  exact ⟨rows, hrows, Schedule.starts_eq hall hlen, hsteps, hvalid,
    Row.fault?_eq_none hvalid hsteps⟩

open Conversion in
/-- The second row of the duet begins with the ornament. -/
theorem convert_exports_duet : Duet.score.Regular ∧ Duet.settings.pace = .ok Duet.pace ∧
    (Binary64.ofNat 1).le (.ofNat 1) = true ∧
    Duet.settings.convert Duet.pace (.ofNat 1) Duet.score = .ok Duet.schedule ∧
    "Lungs" ∈ Duet.schedule.roles ∧
    ∃ rows, Duet.schedule.rows "Lungs" = .ok rows ∧ Row.fault? (rows.map Row.entries) = none ∧
      rows.map Row.start = [0, 1000, 1500, 2000] := by
  have htolerance : (Binary64.ofNat 1).le (.ofNat 1) = true := by decide +kernel
  have hrole : "Lungs" ∈ Duet.schedule.roles := by decide +kernel
  obtain ⟨rows, hrows, _, _, _, hfault⟩ :=
    convert_exports Duet.regular Duet.pace_eq htolerance Duet.convert_eq hrole
  refine ⟨Duet.regular, Duet.pace_eq, htolerance, Duet.convert_eq, hrole, rows, hrows, hfault, ?_⟩
  have hstarts : (Duet.schedule.rows "Lungs").map (List.map Row.start) =
      .ok [0, 1000, 1500, 2000] := by decide +kernel
  rw [hrows] at hstarts
  exact Except.ok.inj hstarts

end Settings
end Bellows
