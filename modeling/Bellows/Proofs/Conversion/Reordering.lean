import Bellows.Proofs.Axis.Ties
import Bellows.Proofs.Command.Voices
import Bellows.Proofs.Conversion.Correspondence
import Bellows.Proofs.Role.Reordering

/-! The order of the assignments and of the parts of a score does not matter, and parts that are
not mapped do not either: only the roles of a schedule, or of the faults, come in another order. -/
namespace Bellows

/-- The same conflict, at the same time up to the sign of a zero. -/
structure Conflict.SameReport (c c' : Conflict) : Prop where
  role : c.role = c'.role
  time : c.time.same c'.time = true
  sites : c.sites = c'.sites

/-- The same ticks, and the same commands of the same roles in another order. -/
structure Schedule.Reordered (s s' : Schedule) : Prop where
  time : Axis.SameTicks s.time s'.time
  instructions : s.instructions.entries.Perm s'.instructions.entries

namespace Resolution

variable {requests requests' : List Request} {curve : Curve} {role : String}
  {time time' : Binary64}

/-- The same requests at another time have the same command, or the same conflict at that time. -/
theorem resolve_sameReport (h : requests.map Request.voice = requests'.map Request.voice)
    (hsites : ∀ pair, sites requests pair = sites requests' pair)
    (htime : time.same time' = true) :
    EndRelated (· = ·) Conflict.SameReport (resolve curve role time requests)
      (resolve curve role time' requests') := by
  unfold resolve
  rw [← settle_eq_of_voices (.of_eq h)]
  cases settle requests with
  | ok settled => exact .ok (command_eq_of_voices curve settled h)
  | error pair => exact .error ⟨rfl, htime, hsites pair⟩

end Resolution

namespace RoleTimelines

variable {ticks ticks' : List Binary64}

/-- Merged onto the same ticks, a role has the same commands or the same first conflict. -/
theorem merge_of_sameTicks (t : RoleTimelines) (curve : Curve) (hticks : Axis.Ascending ticks)
    (hticks' : Axis.Ascending ticks') (h : Axis.SameTicks ticks ticks') :
    EndRelated (· = ·) Conflict.SameReport (t.merge curve ticks) (t.merge curve ticks') := by
  have hlist : EndRelated (List.Forall₂ (· = ·)) Conflict.SameReport (t.merge curve ticks)
      (t.merge curve ticks') := by
    refine merge_related hticks hticks' h.length_eq fun k hk hk' => ?_
    have hvoices : (t.requestsAt ticks k ticks[k]).map Request.voice =
        (t.requestsAt ticks' k ticks'[k]).map Request.voice := by
      unfold requestsAt heldBy
      simp only [List.map_map, Axis.held_eq_of_sameTicks h]
      rfl
    have hsites (pair : Action × Action) :
        Resolution.sites (t.requestsAt ticks k ticks[k]) pair =
          Resolution.sites (t.requestsAt ticks' k ticks'[k]) pair := by
      unfold Resolution.sites requestsAt heldBy
      simp only [List.filter_map, List.map_map, Axis.held_eq_of_sameTicks h]
      rfl
    exact Resolution.resolve_sameReport hvoices hsites (h.get hk hk')
  simpa only [List.forall₂_eq_eq_eq] using hlist

end RoleTimelines

/-- Roles that start the same events in another order have the same axis, up to the sign of a zero
where measures may last less than nothing. -/
theorem Conversion.Played.sameTicks_axis {settings : Settings} {pace : Pace} {score : Score}
    {ts ts' : List RoleTimelines} (h : Played pace score ts) (hpace : settings.pace = .ok pace)
    (tolerance : Binary64) (hstarts : (starts ts).Perm (starts ts')) :
    Axis.SameTicks (axis tolerance ts) (axis tolerance ts') ∧
      (score.Regular → axis tolerance ts = axis tolerance ts') := by
  have hsame := Axis.sameTicks_ofTimes tolerance hstarts (h.isFinite_starts hpace)
  refine ⟨hsame, fun hregular => Axis.eq_of_sameTicks hsame (fun x hx => ?_) fun x hx => ?_⟩
  · exact h.unsigned_of_mem_starts (runsForwards_of_regular hregular ts) hpace
      (Axis.mem_of_mem_ofTimes hx)
  · exact h.unsigned_of_mem_starts (runsForwards_of_regular hregular ts) hpace
      (hstarts.mem_iff.mpr (Axis.mem_of_mem_ofTimes hx))

namespace Settings

open Conversion

variable {settings settings' : Settings} {pace : Pace} {tolerance : Binary64} {score score' : Score}

/-- The order of the assignments does not matter, nor does the order of the parts of the score or
what other parts it has. A conversion then gives the same schedule with its roles in another order;
or the same roles fail, with the same faults and the same conflicts; or the layout ends both, and
with the same fault if every measure divides the quarter note. -/
theorem convert_reordered (h : settings.Reordered settings')
    (hscore : score.AgreesOn score' settings.assignments.keys) (hpace : settings.pace = .ok pace)
    (tolerance : Binary64) :
    OutcomesRelated (fun s s' => s.Reordered s' ∧ (score.Regular → s.time = s'.time))
      MappingFault.Reordered Conflict.SameReport
      (fun fault fault' => (∀ part ∈ settings.assignments.keys, ∀ m ∈ Role.measuresOf score part,
        m.divisions ≠ 0) → fault = fault')
      (settings.convert pace tolerance score) (settings'.convert pace tolerance score') := by
  have hroles : UpToOrder (fun r r' => TimelinesRelated (· = ·) MappingFault.Reordered
      (r.timelines pace score) (r'.timelines pace score')) settings.roles settings'.roles :=
    .of_keys h.perm_names fun r hr r' hr' hname => h.timelinesRelated hscore hr hr' hname pace
  have haxis : ∀ ts ts', Played pace score ts → UpToOrder (· = ·) ts ts' →
      Axis.SameTicks (axis tolerance ts) (axis tolerance ts') ∧
        (score.Regular → axis tolerance ts = axis tolerance ts') :=
    fun ts ts' hplayed hts => hplayed.sameTicks_axis hpace tolerance (perm_starts hts.perm)
  have hmerge : ∀ ticks ticks', Axis.Ascending ticks → Axis.Ascending ticks' →
      Axis.SameTicks ticks ticks' ∧ (score.Regular → ticks = ticks') →
      ∀ t t' : RoleTimelines, t = t' →
        EndRelated (fun commands commands' => (t.role, commands) = (t'.role, commands'))
          Conflict.SameReport (t.merge settings.curve ticks) (t'.merge settings'.curve ticks') := by
    rintro ticks ticks' hticks hticks' ⟨hsame, _⟩ t _ rfl
    rw [← h.curve]
    exact (t.merge_of_sameTicks settings.curve hticks hticks' hsame).imp
      (fun _ _ hcommands => congrArg (Prod.mk t.role) hcommands) fun _ _ _ hreport => hreport
  refine (outcomesRelated (C := (· = ·))
    (A := fun ticks ticks' => Axis.SameTicks ticks ticks' ∧ (score.Regular → ticks = ticks'))
    hroles haxis hmerge).imp (fun s s' _ _ hs => ⟨⟨hs.1.1, hs.2.perm⟩, hs.1.2⟩) ?_
  intro f f' hf hf' _ hdivisions
  have hpace' : settings'.pace = .ok pace := by
    rw [← hpace, Settings.pace, Settings.pace, h.bpm, h.step]
  have hkeys := h.assignments.map Prod.fst
  have hdivisions' : ∀ part ∈ settings'.assignments.keys, ∀ m ∈ Role.measuresOf score' part,
      m.divisions ≠ 0 := by
    intro part hpart m hm
    have hpart' := hkeys.mem_iff.mpr hpart
    rw [Role.measuresOf, ← hscore part hpart'] at hm
    exact hdivisions part hpart' m hm
  rw [layout_eq_tooLong hpace hdivisions hf, layout_eq_tooLong hpace' hdivisions' hf']

end Settings

namespace Conversion.Duet

open Sample

/-- The duet with its parts the other way round, and with a third part that nobody plays. -/
def swapped : Score := Keyed.ofList [
  ("P3", ⟨"Aside", [⟨1, ⟨2, 4⟩, 1, [⟨.rest .fff, 7⟩]⟩]⟩),
  ("P2", ⟨"High", [⟨1, ⟨2, 4⟩, 1, [⟨.hold, 1⟩, ⟨.hardTrill .p, 1⟩]⟩]⟩),
  ("P1", ⟨"Low", [⟨1, ⟨2, 4⟩, 1, [⟨.actuate .mf, 2⟩]⟩]⟩)]

/-- The same assignments the other way round. -/
def swappedSettings : Settings := ⟨60, Keyed.ofList [
  ("P2", ⟨"Lungs", 4, lungs_ne_empty, fourth_mem⟩),
  ("P1", ⟨"Lungs", 2, lungs_ne_empty, second_mem⟩)],
  default, .int 500, bpm_pos⟩

theorem reordered_swapped : Duet.settings.Reordered swappedSettings :=
  ⟨rfl, rfl, rfl, by decide⟩

theorem agreesOn_swapped : Duet.score.AgreesOn swapped Duet.settings.assignments.keys := by
  unfold Score.AgreesOn
  decide

end Conversion.Duet

open Conversion in
/-- The duet the other way round has the schedule of the duet. -/
theorem Settings.convert_reordered_duet : Duet.settings.Reordered Duet.swappedSettings ∧
    Duet.score.AgreesOn Duet.swapped Duet.settings.assignments.keys ∧
    Duet.settings.pace = .ok Duet.pace ∧
    ∃ schedule, Duet.swappedSettings.convert Duet.pace (.ofNat 1) Duet.swapped = .ok schedule ∧
      Duet.schedule.Reordered schedule ∧ Duet.schedule.time = schedule.time := by
  refine ⟨Duet.reordered_swapped, Duet.agreesOn_swapped, Duet.pace_eq, ?_⟩
  have hends :=
    convert_reordered Duet.reordered_swapped Duet.agreesOn_swapped Duet.pace_eq (.ofNat 1)
  rw [Duet.convert_eq] at hends
  generalize Duet.swappedSettings.convert Duet.pace (.ofNat 1) Duet.swapped = outcome at hends ⊢
  cases hends with
  | schedule h => exact ⟨_, rfl, h.1, h.2 Duet.regular⟩

end Bellows
