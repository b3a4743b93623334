import Bellows.Proofs.Conversion.TimeAxis
import Bellows.Proofs.Role.Reordering

/-! Two conversions whose roles correspond. If the timelines of corresponding roles end in related
ways, and related timelines are merged in related ways, the conversions end in related ways too. -/
namespace Bellows

/-- Two ends of a conversion: two related schedules, or failures of one kind with related lists of
faults and conflicts. -/
inductive OutcomesRelated (S : Schedule → Schedule → Prop) (F : MappingFault → MappingFault → Prop)
    (K : Conflict → Conflict → Prop) (L : LayoutFault → LayoutFault → Prop) :
    Except ConversionFault Schedule → Except ConversionFault Schedule → Prop
  | schedule {s s' : Schedule} (h : S s s') : OutcomesRelated S F K L (.ok s) (.ok s')
  | nothingMapped : OutcomesRelated S F K L (.error .nothingMapped) (.error .nothingMapped)
  | roles {unplayable unplayable' : List MappingFault} {conflicts conflicts' : List Conflict}
    (hun : UpToOrder F unplayable unplayable') (hcon : UpToOrder K conflicts conflicts') :
    OutcomesRelated S F K L (.error (.roles unplayable conflicts))
      (.error (.roles unplayable' conflicts'))
  | layout {fault fault' : LayoutFault} (h : L fault fault') :
    OutcomesRelated S F K L (.error (.layout fault)) (.error (.layout fault'))

namespace OutcomesRelated

variable {S : Schedule → Schedule → Prop} {F : MappingFault → MappingFault → Prop}
  {K : Conflict → Conflict → Prop} {L L' : LayoutFault → LayoutFault → Prop}
  {x y : Except ConversionFault Schedule}

/-- What related outcomes have in common may be said of the outcomes themselves. -/
theorem imp {S' : Schedule → Schedule → Prop} (h : OutcomesRelated S F K L x y)
    (hS : ∀ s s', x = .ok s → y = .ok s' → S s s' → S' s s')
    (hL : ∀ f f', x = .error (.layout f) → y = .error (.layout f') → L f f' → L' f f') :
    OutcomesRelated S' F K L' x y := by
  cases h with
  | schedule h => exact .schedule (hS _ _ rfl rfl h)
  | nothingMapped => exact .nothingMapped
  | roles hun hcon => exact .roles hun hcon
  | layout h => exact .layout (hL _ _ rfl rfl h)

end OutcomesRelated

namespace Conversion

variable {settings settings' : Settings} {pace : Pace} {tolerance : Binary64} {score score' : Score}
  {roles roles' : List Role} {curve : Curve} {ticks : List Binary64} {ts : List RoleTimelines}
  {s : Survey}

/-- The fault of a role that cannot be played. -/
def mappingFault? : Except TimelineFault RoleTimelines → Option MappingFault
  | .error (.mapping f) => some f
  | _ => none

/-- A survey that comes to its end finds the timelines of some roles, and faults of the others. -/
theorem survey_eq_filterMap
    (h : ∀ r ∈ roles, ∀ f, r.timelines pace score ≠ .error (.layout f)) :
    survey pace score roles = .ok ⟨roles.filterMap fun r => (r.timelines pace score).toOption,
      roles.filterMap fun r => mappingFault? (r.timelines pace score)⟩ := by
  induction roles with
  | nil => rfl
  | cons r rs ih =>
    have hrs := ih fun q hq => h q (List.mem_cons_of_mem _ hq)
    rw [survey, List.filterMap_cons, List.filterMap_cons]
    cases ht : r.timelines pace score with
    | ok t =>
      rw [hrs]
      rfl
    | error fault =>
      cases fault with
      | mapping f =>
        rw [hrs]
        rfl
      | layout f => exact (h r List.mem_cons_self f ht).elim

/-- A part of a role that cannot be laid out ends the survey. -/
theorem exists_survey_eq_error {r : Role} {f : LayoutFault} (hr : r ∈ roles)
    (h : r.timelines pace score = .error (.layout f)) :
    ∃ f', survey pace score roles = .error f' := by
  cases hs : survey pace score roles with
  | error f' => exact ⟨f', rfl⟩
  | ok s =>
    obtain ⟨hplayable, hunplayable⟩ := surveyed_of_survey hs
    by_cases hplay : r.Playable score
    · obtain ⟨t, _, ht⟩ := exists_right_of_mem hplayable
        (List.mem_filter.mpr ⟨hr, decide_eq_true hplay⟩)
      cases ht.symm.trans h
    · obtain ⟨fault, _, hfault⟩ := exists_right_of_mem hunplayable
        (List.mem_filter.mpr ⟨hr, decide_eq_true hplay⟩)
      rw [Role.timelines, hfault] at h
      cases h

/-- The conflict of a role that contradicts itself. -/
def conflict? : Except Conflict (List Command) → Option Conflict
  | .error c => some c
  | .ok _ => none

theorem conflicts_eq_filterMap (curve : Curve) (ticks : List Binary64) (ts : List RoleTimelines) :
    conflicts (mergeAll curve ticks ts) =
      ts.filterMap fun t => conflict? (t.merge curve ticks) := by
  unfold conflicts mergeAll
  rw [List.filterMap_map]
  refine List.filterMap_congr fun t _ => ?_
  rw [Function.comp_apply]
  cases t.merge curve ticks <;> rfl

/-- The commands of the roles that do not. -/
theorem entries_eq_filterMap {es : List (String × List Command)}
    (h : List.Forall₂ (fun t e => e.1 = t.role ∧ t.merge curve ticks = .ok e.2) ts es) :
    es = ts.filterMap fun t => (t.merge curve ticks).toOption.map (t.role, ·) := by
  induction h with
  | nil => rfl
  | cons he _ ih =>
    rw [List.filterMap_cons, he.2, ← ih, ← he.1]
    rfl

/-- Roles that start the same events one by one start the same events together. -/
theorem perm_starts_of_upToOrder {T : RoleTimelines → RoleTimelines → Prop}
    {ts' : List RoleTimelines} (h : UpToOrder T ts ts')
    (hT : ∀ t t', T t t' → (t.ports.flatMap fun p => p.events.map Event.start).Perm
      (t'.ports.flatMap fun p => p.events.map Event.start)) : (starts ts).Perm (starts ts') := by
  obtain ⟨us, hperm, hall⟩ := h
  refine (perm_starts hperm).trans ?_
  rw [starts_eq_flatMap, starts_eq_flatMap]
  exact perm_flatMap_of_forall₂ hall hT

end Conversion

namespace Settings

open Conversion

variable {settings settings' : Settings} {pace : Pace} {tolerance : Binary64} {score score' : Score}
  {T : RoleTimelines → RoleTimelines → Prop} {F : MappingFault → MappingFault → Prop}
  {K : Conflict → Conflict → Prop} {C : String × List Command → String × List Command → Prop}
  {A : List Binary64 → List Binary64 → Prop} {fault : LayoutFault} {ts : List RoleTimelines}

/-- A conversion that ends with a fault of the layout ends with that of a role. -/
theorem exists_of_convert_eq_layout
    (h : settings.convert pace tolerance score = .error (.layout fault)) :
    ∃ r ∈ settings.roles, r.timelines pace score = .error (.layout fault) := by
  by_cases hnil : settings.roles = []
  · cases (convert_of_nil hnil).symm.trans h
  obtain ⟨f, hs, hf⟩ | ⟨s, hs, hof⟩ := @convert_of_ne_nil settings pace tolerance score hnil
  · cases hf.symm.trans h
    exact exists_of_survey_eq_error hs
  · obtain ⟨_, hok, _⟩ | herr := ofSurvey_cases tolerance hnil hs
    · cases (hof.trans hok).symm.trans h
    · cases (hof.trans herr).symm.trans h

/-- A part of a role that cannot be laid out ends the conversion. -/
theorem exists_convert_eq_layout (tolerance : Binary64) {r : Role} (hr : r ∈ settings.roles)
    (h : r.timelines pace score = .error (.layout fault)) :
    ∃ fault', settings.convert pace tolerance score = .error (.layout fault') := by
  obtain ⟨f, hs⟩ := exists_survey_eq_error hr h
  obtain ⟨g, _, hg⟩ | ⟨_, hs', _⟩ :=
    @convert_of_ne_nil settings pace tolerance score (List.ne_nil_of_mem hr)
  · exact ⟨g, hg⟩
  · cases hs.symm.trans hs'

/-- Where every measure divides the quarter note, a layout fails only because it is too long. -/
theorem layout_eq_tooLong (hpace : settings.pace = .ok pace)
    (hdivisions : ∀ part ∈ settings.assignments.keys, ∀ m ∈ Role.measuresOf score part,
      m.divisions ≠ 0)
    (h : settings.convert pace tolerance score = .error (.layout fault)) : fault = .tooLong := by
  obtain ⟨r, hr, hrt⟩ := exists_of_convert_eq_layout h
  obtain ⟨m, hm, hevents⟩ := Role.exists_of_timelines_eq_layout hrt
  have hmul : ∀ measure ∈ Role.measuresOf score m.part, settings.bpm * measure.divisions ≠ 0 :=
    fun measure hmeasure => Int.mul_ne_zero (Int.ne_of_gt settings.bpm_pos)
      (hdivisions m.part (mem_keys hr hm) measure hmeasure)
  exact Pace.eq_tooLong_of_events (tempo_of_pace hpace) hmul hevents

section

variable {ts' : List RoleTimelines} {curve curve' : Curve} {ticks ticks' : List Binary64}
  {es es' : List (String × List Command)} (hplay : UpToOrder T ts ts')
  (hmerge : ∀ t t', T t t' →
    EndRelated (fun commands commands' => C (t.role, commands) (t'.role, commands')) K
      (t.merge curve ticks) (t'.merge curve' ticks'))
include hplay hmerge

/-- Corresponding timelines have related conflicts. -/
theorem upToOrder_conflicts : UpToOrder K (conflicts (mergeAll curve ticks ts))
    (conflicts (mergeAll curve' ticks' ts')) := by
  rw [conflicts_eq_filterMap, conflicts_eq_filterMap]
  refine hplay.filterMap fun t t' ht => ?_
  have hends := hmerge t t' ht
  generalize t.merge curve ticks = merged, t'.merge curve' ticks' = merged' at hends ⊢
  cases hends with
  | ok h => exact .none
  | error h => exact .some h

/-- And where there are none, they have related commands. -/
theorem upToOrder_entries
    (hes : List.Forall₂ (fun t e => e.1 = t.role ∧ t.merge curve ticks = .ok e.2) ts es)
    (hes' : List.Forall₂ (fun t e => e.1 = t.role ∧ t.merge curve' ticks' = .ok e.2) ts' es') :
    UpToOrder C es es' := by
  rw [entries_eq_filterMap hes, entries_eq_filterMap hes']
  refine hplay.filterMap fun t t' ht => ?_
  have hends := hmerge t t' ht
  generalize t.merge curve ticks = merged, t'.merge curve' ticks' = merged' at hends ⊢
  cases hends with
  | ok h => exact .some h
  | error h => exact .none

end

/-- Surveys with corresponding timelines and faults have related outcomes. -/
theorem ofSurvey_related {s s' : Survey} (hne : settings.roles ≠ []) (hne' : settings'.roles ≠ [])
    (hs : survey pace score settings.roles = .ok s)
    (hs' : survey pace score' settings'.roles = .ok s') (hplay : UpToOrder T s.playable s'.playable)
    (hun : UpToOrder F s.unplayable s'.unplayable)
    (haxis : A (axis tolerance s.playable) (axis tolerance s'.playable))
    (hmerge : ∀ t t', T t t' →
      EndRelated (fun commands commands' => C (t.role, commands) (t'.role, commands')) K
        (t.merge settings.curve (axis tolerance s.playable))
        (t'.merge settings'.curve (axis tolerance s'.playable))) :
    OutcomesRelated (fun s s' => A s.time s'.time ∧
        UpToOrder C s.instructions.entries s'.instructions.entries) F K (fun _ _ => True)
      (ofSurvey settings.curve tolerance s) (ofSurvey settings'.curve tolerance s') := by
  have hcon := upToOrder_conflicts hplay hmerge
  by_cases hfree : s.unplayable = [] ∧
      conflicts (mergeAll settings.curve (axis tolerance s.playable) s.playable) = []
  · obtain ⟨schedule, hok, hc⟩ := ofSurvey_of_nil tolerance hne hs hfree.1 hfree.2
    obtain ⟨schedule', hok', hc'⟩ := ofSurvey_of_nil tolerance hne' hs' (hun.nil_iff.mp hfree.1)
      (hcon.nil_iff.mp hfree.2)
    rw [← hc.time, ← hc'.time] at haxis hmerge
    rw [hok, hok']
    exact .schedule ⟨haxis, upToOrder_entries hplay hmerge hc.merged hc'.merged⟩
  · rw [ofSurvey_of_complaint hfree, ofSurvey_of_complaint
      fun h => hfree ⟨hun.nil_iff.mpr h.1, hcon.nil_iff.mpr h.2⟩]
    exact .roles hun hcon

section

variable (hroles : UpToOrder (fun r r' => TimelinesRelated T F (r.timelines pace score)
  (r'.timelines pace score')) settings.roles settings'.roles)
include hroles

/-- Corresponding roles are laid out together or not at all. -/
theorem exists_layout_iff :
    (∃ r ∈ settings.roles, ∃ f, r.timelines pace score = .error (.layout f)) ↔
      ∃ r ∈ settings'.roles, ∃ f, r.timelines pace score' = .error (.layout f) := by
  constructor
  · rintro ⟨r, hr, f, hf⟩
    obtain ⟨r', hr', hrr'⟩ := hroles.exists_right hr
    rw [hf] at hrr'
    generalize houtcome : r'.timelines pace score' = outcome at hrr'
    cases hrr' with
    | layout _ f' => exact ⟨r', hr', f', houtcome⟩
  · rintro ⟨r', hr', f', hf'⟩
    obtain ⟨r, hr, hrr'⟩ := hroles.exists_left hr'
    rw [hf'] at hrr'
    generalize houtcome : r.timelines pace score = outcome at hrr'
    cases hrr' with
    | layout f _ => exact ⟨r, hr, f, houtcome⟩

theorem upToOrder_playable : UpToOrder T
    (settings.roles.filterMap fun r => (r.timelines pace score).toOption)
    (settings'.roles.filterMap fun r => (r.timelines pace score').toOption) := by
  refine hroles.filterMap fun r r' hrr' => ?_
  generalize r.timelines pace score = outcome, r'.timelines pace score' = outcome' at hrr'
  cases hrr' with
  | ok h => exact .some h
  | mapping h => exact .none
  | layout f f' => exact .none

theorem upToOrder_unplayable : UpToOrder F
    (settings.roles.filterMap fun r => mappingFault? (r.timelines pace score))
    (settings'.roles.filterMap fun r => mappingFault? (r.timelines pace score')) := by
  refine hroles.filterMap fun r r' hrr' => ?_
  generalize r.timelines pace score = outcome, r'.timelines pace score' = outcome' at hrr'
  cases hrr' with
  | ok h => exact .none
  | mapping h => exact .some h
  | layout f f' => exact .none

/-- Conversions of corresponding roles end in related ways. -/
theorem outcomesRelated
    (haxis : ∀ ts ts', Played pace score ts → UpToOrder T ts ts' →
      A (axis tolerance ts) (axis tolerance ts'))
    (hmerge : ∀ ticks ticks', Axis.Ascending ticks → Axis.Ascending ticks' → A ticks ticks' →
      ∀ t t', T t t' →
        EndRelated (fun commands commands' => C (t.role, commands) (t'.role, commands')) K
          (t.merge settings.curve ticks) (t'.merge settings'.curve ticks')) :
    OutcomesRelated (fun s s' => A s.time s'.time ∧
        UpToOrder C s.instructions.entries s'.instructions.entries) F K (fun _ _ => True)
      (settings.convert pace tolerance score) (settings'.convert pace tolerance score') := by
  by_cases hnil : settings.roles = []
  · rw [convert_of_nil hnil, convert_of_nil (hroles.nil_iff.mp hnil)]
    exact .nothingMapped
  have hnil' : settings'.roles ≠ [] := mt hroles.nil_iff.mpr hnil
  by_cases hlayout : ∃ r ∈ settings.roles, ∃ f, r.timelines pace score = .error (.layout f)
  · obtain ⟨r', hr', f', hf'⟩ := (exists_layout_iff hroles).mp hlayout
    obtain ⟨r, hr, f, hf⟩ := hlayout
    obtain ⟨fault, hfault⟩ := exists_convert_eq_layout tolerance hr hf
    obtain ⟨fault', hfault'⟩ := exists_convert_eq_layout tolerance hr' hf'
    rw [hfault, hfault']
    exact .layout trivial
  have hs := survey_eq_filterMap fun r hr f hf => hlayout ⟨r, hr, f, hf⟩
  have hs' := survey_eq_filterMap
    fun r hr f hf => hlayout ((exists_layout_iff hroles).mpr ⟨r, hr, f, hf⟩)
  have hplay := upToOrder_playable hroles
  have haxis' := haxis _ _ (surveyed_of_survey hs).played hplay
  rw [convert_of_survey hnil hs, convert_of_survey hnil' hs']
  exact ofSurvey_related hnil hnil' hs hs' hplay (upToOrder_unplayable hroles) haxis'
    (hmerge _ _ (ascending_axis tolerance _) (ascending_axis tolerance _) haxis')

end

end Settings
end Bellows
