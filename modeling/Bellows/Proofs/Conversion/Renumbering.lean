import Bellows.Proofs.Command.Renumbering
import Bellows.Proofs.Conversion.HiddenConflict
import Bellows.Proofs.Conversion.Reordering

/-! The numbers of the ports of a role do not matter: with other numbers the role does the same at
the same times, with its valves under their new numbers, and other roles notice nothing. -/
namespace Bellows

variable {σ : Renumbering} {role : String}

/-- The timelines of the role at new ports, and those of other roles as they were. -/
inductive RoleTimelines.RenumberedIn (σ : Renumbering) (role : String) (t t' : RoleTimelines) : Prop
  | own (hrole : t.role = role) (h : t.Renumbered σ t')
  | other (hrole : t.role ≠ role) (h : t = t')

/-- The conflict of the role at new ports, or that of another role as it was. -/
inductive Conflict.RenumberedIn (σ : Renumbering) (role : String) (c c' : Conflict) : Prop
  | own (hrole : c.role = role) (h : c.Renumbered σ c')
  | other (hrole : c.role ≠ role) (h : c.SameReport c')

/-- The commands of the role with its valves at new ports, or those of another role as they were. -/
inductive Command.RenumberedIn (σ : Renumbering) (role : String) :
    String × List Command → String × List Command → Prop
  | own {commands commands' : List Command}
    (h : List.Forall₂ (Command.Renumbered σ) commands commands') :
    RenumberedIn σ role (role, commands) (role, commands')
  | other {name : String} (commands : List Command) (hname : name ≠ role) :
    RenumberedIn σ role (name, commands) (name, commands)

/-- The fault of the role, where another shared port may be named, or that of another role as it
was. -/
structure MappingFault.RenumberedIn (role : String) (f f' : MappingFault) : Prop where
  renumbered : f.Renumbered f'
  other : f.role? ≠ some role → f = f'

/-- The same ticks, and at each of them the same commands with the valves of a role at new ports. -/
structure Schedule.Renumbered (σ : Renumbering) (role : String) (s s' : Schedule) : Prop where
  time : Axis.SameTicks s.time s'.time
  instructions : UpToOrder (Command.RenumberedIn σ role) s.instructions.entries
    s'.instructions.entries

/-- On the same ticks the role has its commands at the new ports, and the others have theirs. -/
theorem RoleTimelines.RenumberedIn.merge {t t' : RoleTimelines} {ticks ticks' : List Binary64}
    (h : t.RenumberedIn σ role t') (curve : Curve) (hticks : Axis.Ascending ticks)
    (hticks' : Axis.Ascending ticks') (hsame : Axis.SameTicks ticks ticks') :
    EndRelated (fun commands commands' =>
        Command.RenumberedIn σ role (t.role, commands) (t'.role, commands'))
      (Conflict.RenumberedIn σ role) (t.merge curve ticks) (t'.merge curve ticks') := by
  cases h with
  | own hrole h =>
    refine (h.merge curve hticks hticks' hsame).imp (fun commands commands' hc => ?_)
      fun c c' hc hcc => .own ((Conversion.role_of_merge hticks hc).trans hrole) hcc
    rw [← h.role, hrole]
    exact .own hc
  | other hrole h =>
    subst h
    refine (t.merge_of_sameTicks curve hticks hticks' hsame).imp
      (fun commands commands' hc => ?_) fun c c' hc hcc => .other ?_ hcc
    · subst hc
      exact .other commands hrole
    · rw [Conversion.role_of_merge hticks hc]
      exact hrole

namespace Conversion

variable {ts ts' : List RoleTimelines}

/-- Renumbered roles start the same events. -/
theorem perm_starts_renumbered (h : UpToOrder (RoleTimelines.RenumberedIn σ role) ts ts') :
    (starts ts).Perm (starts ts') := by
  refine perm_starts_of_upToOrder h fun t t' ht => ?_
  cases ht with
  | other _ h => rw [h]
  | own _ h =>
    refine List.Perm.trans (.of_eq ?_) (h.ports.flatMap_right _)
    rw [List.flatMap_map]
    rfl

end Conversion

namespace Settings

open Conversion

variable {settings : Settings} {pace : Pace} {score : Score} {r r' : Role}

/-- The timelines of a role are those at its new ports, or what they were. -/
theorem timelinesRelated_renumber (hr : r ∈ settings.roles)
    (hr' : r' ∈ (settings.renumber σ role).roles) (hname : r.name = r'.name) (pace : Pace)
    (score : Score) :
    TimelinesRelated (RoleTimelines.RenumberedIn σ role) (MappingFault.RenumberedIn role)
      (r.timelines pace score) (r'.timelines pace score) := by
  have hmembers := members_renumber hr hr' hname
  by_cases hrole : r.name = role
  · rw [if_pos hrole] at hmembers
    have hdevice : ∀ m ∈ r.members, m.port ∈ RoleTimelines.devicePorts :=
      fun m hm => mem_devicePorts_of_member hr hm
    refine (Role.timelines_renumbered hname hmembers hdevice).imp
      (fun t t' ht h => .own ((Role.timelines_eq_ok ht).2.1.trans hrole) h)
      fun f f' hf h => ⟨h, fun hother => (hother ?_).elim⟩
    exact hrole ▸ Role.role?_of_fault? (Role.fault?_of_timelines hf)
  · rw [if_neg hrole] at hmembers
    obtain rfl : r' = r := by
      cases r
      cases r'
      cases hname
      cases hmembers
      rfl
    refine .self (fun t ht => .other ?_ rfl) fun f _ => ⟨.same f, fun _ => rfl⟩
    rw [(Role.timelines_eq_ok ht).2.1]
    exact hrole

/-- The numbers of the ports of a role do not matter. With new numbers the conversion gives a
schedule with the same times, in which the role has the same commands with its valves at the new
ports, and other roles have theirs; or the same roles fail, with the same faults and with conflicts
at the same times; or the layout ends both, and with the same fault if every measure divides the
quarter note. -/
theorem convert_renumber (σ : Renumbering) (role : String) (hpace : settings.pace = .ok pace)
    (tolerance : Binary64) (score : Score) :
    OutcomesRelated
      (fun s s' => s.Renumbered σ role s' ∧ (score.Regular → s.time = s'.time))
      (MappingFault.RenumberedIn role) (Conflict.RenumberedIn σ role)
      (fun fault fault' => (∀ part ∈ settings.assignments.keys, ∀ m ∈ Role.measuresOf score part,
        m.divisions ≠ 0) → fault = fault')
      (settings.convert pace tolerance score)
      ((settings.renumber σ role).convert pace tolerance score) := by
  have hroles : UpToOrder (fun r r' => TimelinesRelated (RoleTimelines.RenumberedIn σ role)
      (MappingFault.RenumberedIn role) (r.timelines pace score) (r'.timelines pace score))
      settings.roles (settings.renumber σ role).roles :=
    .of_keys (settings.perm_names_renumber σ role)
      fun r hr r' hr' hname => timelinesRelated_renumber hr hr' hname pace score
  have haxis : ∀ ts ts', Played pace score ts →
      UpToOrder (RoleTimelines.RenumberedIn σ role) ts ts' →
      Axis.SameTicks (axis tolerance ts) (axis tolerance ts') ∧
        (score.Regular → axis tolerance ts = axis tolerance ts') :=
    fun ts ts' hplayed hts =>
      hplayed.sameTicks_axis hpace tolerance (perm_starts_renumbered hts)
  have hmerge : ∀ ticks ticks', Axis.Ascending ticks → Axis.Ascending ticks' →
      Axis.SameTicks ticks ticks' ∧ (score.Regular → ticks = ticks') →
      ∀ t t' : RoleTimelines, t.RenumberedIn σ role t' →
        EndRelated (fun commands commands' =>
          Command.RenumberedIn σ role (t.role, commands) (t'.role, commands'))
          (Conflict.RenumberedIn σ role) (t.merge settings.curve ticks)
          (t'.merge settings.curve ticks') :=
    fun _ _ hticks hticks' hsame _ _ ht => ht.merge settings.curve hticks hticks' hsame.1
  refine (outcomesRelated (C := Command.RenumberedIn σ role)
    (A := fun ticks ticks' => Axis.SameTicks ticks ticks' ∧ (score.Regular → ticks = ticks'))
    hroles haxis hmerge).imp (fun s s' _ _ hs => ⟨⟨hs.1.1, hs.2⟩, hs.1.2⟩) ?_
  intro f f' hf hf' _ hdivisions
  have hkeys : (settings.renumber σ role).assignments.keys = settings.assignments.keys := by
    simp [Keyed.keys, renumber, Keyed.map, Function.comp_def]
  have hpace' : (settings.renumber σ role).pace = .ok pace := hpace
  rw [layout_eq_tooLong hpace hdivisions hf, layout_eq_tooLong hpace' (hkeys ▸ hdivisions) hf']

end Settings

/-- The ports in reverse. -/
def Renumbering.reversed : Renumbering := ⟨fun port => 6 - port, by decide⟩

open Conversion in
/-- With its ports in reverse the duet has the schedule of the duet, with valves in reverse. -/
theorem Settings.convert_renumber_duet : Duet.settings.pace = .ok Duet.pace ∧
    ∃ schedule, (Duet.settings.renumber .reversed "Lungs").convert Duet.pace (.ofNat 1) Duet.score =
      .ok schedule ∧
      Duet.schedule.Renumbered .reversed "Lungs" schedule ∧ Duet.schedule.time = schedule.time := by
  refine ⟨Duet.pace_eq, ?_⟩
  have hends := convert_renumber .reversed "Lungs" Duet.pace_eq (.ofNat 1) Duet.score
  rw [Duet.convert_eq] at hends
  generalize (Duet.settings.renumber .reversed "Lungs").convert Duet.pace (.ofNat 1) Duet.score =
    outcome at hends ⊢
  cases hends with
  | schedule h => exact ⟨_, rfl, h.1, h.2 Duet.regular⟩

theorem Role.byPort_pair (name : String) (a b : Member) :
    byPort ⟨name, [a, b]⟩ = if a.port ≤ b.port then [a, b] else [b, a] := by
  by_cases h : a.port ≤ b.port <;>
    simp [byPort, List.mergeSort, List.MergeSort.Internal.splitInTwo, h]

namespace Conversion.Bystander

/-- Neither of these two parts can be laid out, each for a reason of its own. -/
def hopeless : Score := Keyed.ofList [
  ("P1", ⟨"Low", [⟨1, ⟨4, 4⟩, 0, []⟩]⟩), ("P2", ⟨"High", endless⟩)]

theorem events_low : Bridge.pace.events (Role.measuresOf hopeless "P1") = .error .noDivisions := by
  decide +kernel

theorem events_high : Bridge.pace.events (Role.measuresOf hopeless "P2") = .error .tooLong := by
  decide +kernel

theorem portTimeline_hopeless {part : String} (port : Int) {fault : LayoutFault}
    (h : Bridge.pace.events (Role.measuresOf hopeless part) = .error fault) :
    Role.portTimeline Bridge.pace hopeless ⟨part, port⟩ = .error fault := by
  rw [Role.portTimeline, h]
  rfl

end Conversion.Bystander

open Conversion Bystander in
/-- Where no part of a role can be laid out, it depends on the numbers of its ports which one ends
the conversion, and how. -/
theorem Settings.convert_renumber_first_fault : alone.pace = .ok Bridge.pace ∧
    alone.convert Bridge.pace (.ofNat 1) hopeless = .error (.layout .noDivisions) ∧
    (alone.renumber .reversed "Lungs").convert Bridge.pace (.ofNat 1) hopeless =
      .error (.layout .tooLong) := by
  have hroles : (alone.renumber .reversed "Lungs").roles = [⟨"Lungs", [⟨"P1", 5⟩, ⟨"P2", 4⟩]⟩] := by
    decide
  have hsorted : Role.byPort ⟨"Lungs", [⟨"P1", 1⟩, ⟨"P2", 2⟩]⟩ = [⟨"P1", 1⟩, ⟨"P2", 2⟩] :=
    Role.byPort_pair ..
  have hsorted' : Role.byPort ⟨"Lungs", [⟨"P1", 5⟩, ⟨"P2", 4⟩]⟩ = [⟨"P2", 4⟩, ⟨"P1", 5⟩] :=
    Role.byPort_pair ..
  have hfault : Role.fault? ⟨"Lungs", [⟨"P1", 1⟩, ⟨"P2", 2⟩]⟩ hopeless = none := rfl
  have hfault' : Role.fault? ⟨"Lungs", [⟨"P1", 5⟩, ⟨"P2", 4⟩]⟩ hopeless = none := rfl
  refine ⟨pace_eq, ?_, ?_⟩
  · have hsurvey : survey Bridge.pace hopeless alone.roles = .error .noDivisions := by
      rw [roles_alone, survey, Role.timelines, hfault, hsorted,
        mapM_cons_of_error (portTimeline_hopeless 1 events_low)]
    rw [convert, hsurvey, roles_alone]
    rfl
  · have hsurvey : survey Bridge.pace hopeless (alone.renumber .reversed "Lungs").roles =
        .error .tooLong := by
      rw [hroles, survey, Role.timelines, hfault', hsorted',
        mapM_cons_of_error (portTimeline_hopeless 4 events_high)]
    rw [convert, hsurvey, hroles]
    rfl

end Bellows
