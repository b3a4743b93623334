import Bellows.Proofs.Command.Loudness
import Bellows.Proofs.Conversion.Outcome

/-! Loudness decides nothing but the intensity: scores that differ only in their dynamics, played
with different curves, fail in the same way or become schedules that differ in intensities. -/
namespace Bellows

variable {R : Dynamic → Dynamic → Prop} {Q : Int → Int → Prop} {score score' : Score}
  {curve curve' : Curve}

/-- Schedules with the same axis, the same roles in the same order, and alike commands at each
tick. -/
structure Schedule.Alike (Q : Int → Int → Prop) (s s' : Schedule) : Prop where
  time : s.time = s'.time
  instructions : List.Forall₂ (fun e e' => e.1 = e'.1 ∧ List.Forall₂ (Command.Alike Q) e.2 e'.2)
    s.instructions.entries s'.instructions.entries

namespace Conversion

structure Survey.Alike (R : Dynamic → Dynamic → Prop) (s s' : Survey) : Prop where
  playable : List.Forall₂ (RoleTimelines.Alike R) s.playable s'.playable
  unplayable : s.unplayable = s'.unplayable

theorem survey_alike (pace : Pace) (h : score.Alike R score') (roles : List Role) :
    EndAlike (Survey.Alike R) (survey pace score roles) (survey pace score' roles) := by
  induction roles with
  | nil => exact .ok ⟨.nil, rfl⟩
  | cons r rs ih =>
    unfold survey
    have hrole := h.timelines pace r
    generalize r.timelines pace score = found, r.timelines pace score' = found' at hrole ⊢
    cases hrole with
    | ok ht => exact ih.bind fun _ _ hs => .ok ⟨.cons ht hs.playable, hs.unplayable⟩
    | error fault =>
      cases fault with
      | mapping fault => exact ih.bind fun _ _ hs => .ok ⟨hs.playable, by rw [hs.unplayable]⟩
      | layout fault => exact .error fault

variable {ts ts' : List RoleTimelines} {ticks : List Binary64}

/-- No tick is placed by a dynamic. -/
theorem axis_eq_of_alike (h : List.Forall₂ (RoleTimelines.Alike R) ts ts')
    (tolerance : Binary64) : axis tolerance ts = axis tolerance ts' := by
  rw [axis_eq_ofTimes, axis_eq_ofTimes, starts_eq_flatMap, starts_eq_flatMap,
    flatMap_eq_of_forall₂ h fun _ _ ht => ht.matched.starts_eq (Event.kindred_alike R)]

/-- What the dynamics must be like for the intensities to be related. -/
def Carries (R : Dynamic → Dynamic → Prop) (Q : Int → Int → Prop) (curve curve' : Curve) : Prop :=
  ∀ rs rs', List.Forall₂ (Request.Alike R) rs rs' →
    Q (Resolution.intensity curve rs) (Resolution.intensity curve' rs')

variable (hQ : Carries R Q curve curve')
include hQ

theorem mergeAll_alike (h : List.Forall₂ (RoleTimelines.Alike R) ts ts')
    (hticks : Axis.Ascending ticks) :
    List.Forall₂ (fun m m' => m.1 = m'.1 ∧
        EndAlike (List.Forall₂ (Command.Alike Q)) m.2 m'.2)
      (mergeAll curve ticks ts) (mergeAll curve' ticks ts') :=
  List.forall₂_map_left_iff.mpr (List.forall₂_map_right_iff.mpr
    (h.imp fun _ _ ht => ⟨ht.role, ht.merge hticks hQ⟩))

/-- The same roles contradict themselves, in the same way. -/
theorem conflicts_eq_of_alike (h : List.Forall₂ (RoleTimelines.Alike R) ts ts')
    (hticks : Axis.Ascending ticks) :
    conflicts (mergeAll curve ticks ts) = conflicts (mergeAll curve' ticks ts') := by
  have hmerged := mergeAll_alike hQ h hticks
  generalize mergeAll curve ticks ts = merged, mergeAll curve' ticks ts' = merged' at hmerged ⊢
  unfold conflicts
  induction hmerged with
  | nil => rfl
  | @cons m m' _ _ hm _ ih =>
    obtain ⟨role, outcome⟩ := m
    obtain ⟨role', outcome'⟩ := m'
    obtain ⟨_, hend⟩ := hm
    cases hend with
    | ok _ => exact ih
    | error c => exact congrArg (c :: ·) ih

/-- Roles that are merged without a conflict have alike commands. -/
theorem entries_alike (h : List.Forall₂ (RoleTimelines.Alike R) ts ts')
    (hticks : Axis.Ascending ticks) {es es' : List (String × List Command)}
    (hes : List.Forall₂ (fun t e => e.1 = t.role ∧ t.merge curve ticks = .ok e.2) ts es)
    (hes' : List.Forall₂ (fun t e => e.1 = t.role ∧ t.merge curve' ticks = .ok e.2) ts' es') :
    List.Forall₂ (fun e e' => e.1 = e'.1 ∧ List.Forall₂ (Command.Alike Q) e.2 e'.2) es es' := by
  induction h generalizing es es' with
  | nil =>
    cases hes
    cases hes'
    exact .nil
  | cons ht _ ih =>
    cases hes with
    | cons he hes =>
      cases hes' with
      | cons he' hes' =>
        refine .cons ⟨?_, (ht.merge hticks hQ).related he.2 he'.2⟩ (ih hes hes')
        rw [he.1, he'.1, ht.role]

end Conversion

namespace Settings

open Conversion

/-- The same settings with another loudness curve. -/
def withCurve (settings : Settings) (curve : Curve) : Settings := { settings with curve }

variable (settings : Settings) (pace : Pace) (tolerance : Binary64)

section

variable (hQ : Carries R Q settings.curve curve')
include hQ

theorem ofSurvey_alike {s s' : Survey} (hne : settings.roles ≠ [])
    (hs : survey pace score settings.roles = .ok s)
    (hs' : survey pace score' settings.roles = .ok s') (h : s.Alike R s') :
    EndAlike (Schedule.Alike Q) (ofSurvey settings.curve tolerance s)
      (ofSurvey curve' tolerance s') := by
  have haxis := axis_eq_of_alike h.playable tolerance
  have hconflicts :=
    conflicts_eq_of_alike hQ h.playable (ascending_axis tolerance s.playable)
  by_cases hfree : s.unplayable = [] ∧
      conflicts (mergeAll settings.curve (axis tolerance s.playable) s.playable) = []
  · have hfree' : s'.unplayable = [] ∧
        conflicts (mergeAll curve' (axis tolerance s'.playable) s'.playable) = [] := by
      rwa [hconflicts, h.unplayable, haxis] at hfree
    have hne' : (settings.withCurve curve').roles ≠ [] := hne
    obtain ⟨schedule, hok, hc⟩ := ofSurvey_of_nil tolerance hne hs hfree.1 hfree.2
    obtain ⟨schedule', hok', hc'⟩ : ∃ schedule', ofSurvey curve' tolerance s' = .ok schedule' ∧
        Compiled (settings.withCurve curve') pace tolerance score' s'.playable schedule' :=
      ofSurvey_of_nil tolerance hne' hs' hfree'.1 hfree'.2
    have htime : schedule.time = schedule'.time := by rw [hc.time, hc'.time, haxis]
    have hmerged' := hc'.merged
    rw [← htime] at hmerged'
    rw [hok, hok']
    exact .ok ⟨htime, entries_alike hQ h.playable hc.ascending hc.merged hmerged'⟩
  · have hfree' : ¬ (s'.unplayable = [] ∧
        conflicts (mergeAll curve' (axis tolerance s'.playable) s'.playable) = []) := by
      rwa [hconflicts, h.unplayable, haxis] at hfree
    rw [ofSurvey_of_complaint hfree, ofSurvey_of_complaint hfree', hconflicts, h.unplayable, haxis]
    exact .error _

theorem convert_alike (h : score.Alike R score') :
    EndAlike (Schedule.Alike Q) (settings.convert pace tolerance score)
      ((settings.withCurve curve').convert pace tolerance score') := by
  by_cases hnil : settings.roles = []
  · have hnil' : (settings.withCurve curve').roles = [] := hnil
    rw [convert_of_nil hnil, convert_of_nil hnil']
    exact .error _
  · have hne : ¬ settings.roles.isEmpty = true := fun hempty => hnil (List.isEmpty_iff.mp hempty)
    have hne' : ¬ (settings.withCurve curve').roles.isEmpty = true := hne
    have hroles : (settings.withCurve curve').roles = settings.roles := rfl
    have hsurvey := survey_alike pace h settings.roles
    unfold convert
    rw [if_neg hne, if_neg hne', hroles]
    cases hs : survey pace score settings.roles with
    | error fault =>
      cases hs' : survey pace score' settings.roles with
      | error fault' =>
        rw [hs, hs'] at hsurvey
        cases hsurvey
        exact .error _
      | ok s' =>
        rw [hs, hs'] at hsurvey
        cases hsurvey
    | ok s =>
      cases hs' : survey pace score' settings.roles with
      | error fault' =>
        rw [hs, hs'] at hsurvey
        cases hsurvey
      | ok s' =>
        rw [hs, hs'] at hsurvey
        cases hsurvey with
        | ok halike => exact ofSurvey_alike settings pace tolerance hQ hnil hs hs' halike

end

/-- Dynamics and the curve decide the intensity and nothing else. Whatever the dynamics of the
notes and the curves are, two conversions fail with the same faults, or their schedules have the
same axis, roles, pump actions and valves. Where in addition no note is stronger in the first
score, no command is stronger in the first schedule. -/
theorem convert_loudness (louder : Curve) (h : score.Alike (fun _ _ => True) score') :
    EndAlike (Schedule.Alike fun _ _ => True) (settings.convert pace tolerance score)
      ((settings.withCurve louder).convert pace tolerance score') ∧
    (score.Alike (fun d e => settings.curve.intensity d ≤ louder.intensity e) score' →
      EndAlike (Schedule.Alike (· ≤ ·)) (settings.convert pace tolerance score)
        ((settings.withCurve louder).convert pace tolerance score')) := by
  refine ⟨convert_alike settings pace tolerance (fun _ _ _ => trivial) h, fun hle => ?_⟩
  refine convert_alike settings pace tolerance (fun _ _ hrs => ?_) hle
  exact Int.ofNat_le.mpr (Resolution.intensity_le_of_alike hrs)

end Settings

namespace Conversion.Duet

/-- The same two parts, each note one level louder. -/
def shouted : Score := Keyed.ofList [
  ("P1", ⟨"Low", [⟨1, ⟨2, 4⟩, 1, [⟨.actuate .f, 2⟩]⟩]⟩),
  ("P2", ⟨"High", [⟨1, ⟨2, 4⟩, 1, [⟨.hold, 1⟩, ⟨.hardTrill .mp, 1⟩]⟩]⟩)]

/-- A curve that is as strong at every level as the default one at the loudest. -/
def strong : Curve := ⟨fun _ => (default : Curve).intensity .fff⟩

theorem alike_shouted {R : Dynamic → Dynamic → Prop} (hlow : R .mf .f) (hhigh : R .p .mp) :
    Duet.score.Alike R shouted := by
  unfold Score.Alike Duet.score shouted
  rw [Keyed.entries_ofList (by decide), Keyed.entries_ofList (by decide)]
  refine .cons ⟨rfl, rfl, .cons ⟨rfl, rfl, rfl, .cons ⟨.actuate hlow, rfl⟩ .nil⟩ .nil⟩
    (.cons ⟨rfl, rfl, .cons ⟨rfl, rfl, rfl, ?_⟩ .nil⟩ .nil)
  exact .cons ⟨.hold, rfl⟩ (.cons ⟨.hardTrill hhigh, rfl⟩ .nil)

end Conversion.Duet

open Conversion in
/-- The shouted duet has the schedule of the duet but for its intensities, none of which is
lower. -/
theorem Settings.convert_loudness_duet : Duet.score.Alike (fun _ _ => True) Duet.shouted ∧
    Duet.score.Alike (fun d e => Duet.settings.curve.intensity d ≤ Duet.strong.intensity e)
      Duet.shouted ∧
    ∃ schedule, (Duet.settings.withCurve Duet.strong).convert Duet.pace (.ofNat 1) Duet.shouted =
      .ok schedule ∧ Duet.schedule.Alike (· ≤ ·) schedule := by
  have halike := Duet.alike_shouted (R := fun _ _ => True) trivial trivial
  have hle : Duet.score.Alike (fun d e => Duet.settings.curve.intensity d ≤ Duet.strong.intensity e)
      Duet.shouted := Duet.alike_shouted (by decide) (by decide)
  have hends := (convert_loudness Duet.settings Duet.pace (.ofNat 1) Duet.strong halike).2 hle
  rw [Duet.convert_eq] at hends
  refine ⟨halike, hle, ?_⟩
  generalize (Duet.settings.withCurve Duet.strong).convert Duet.pace (.ofNat 1) Duet.shouted =
    outcome at hends ⊢
  cases hends with
  | ok h => exact ⟨_, rfl, h⟩

end Bellows
