import Bellows.Proofs.Axis.Kept
import Bellows.Proofs.Conversion.AllOrNothing
import Bellows.Proofs.Conversion.SharedAxis
import Bellows.Proofs.Role.Restriction
import Bellows.Proofs.SideBySide

/-! Conflicts beside other roles. Further roles put ticks of a role together, and with them the
events that contradict each other may go under; a contradictory tick that is kept apart is
reported all the same. -/
namespace Bellows

namespace RoleTimelines

variable {t : RoleTimelines} {ticks own shared : List Binary64} {curve : Curve} {j k : Nat}

/-- A tick of an axis at which the five ports hold contradictory events. -/
def ContradictsAt (t : RoleTimelines) (ticks : List Binary64) (k : Nat) : Prop :=
  k < ticks.length ∧ Action.Contradict (devicePorts.map fun port => (t.heldBy ticks port k).action)

instance (t : RoleTimelines) (ticks : List Binary64) (k : Nat) :
    Decidable (t.ContradictsAt ticks k) := by
  unfold ContradictsAt
  infer_instance

theorem asked_requestsAt (t : RoleTimelines) (ticks : List Binary64) (k : Nat) (tick : Binary64) :
    Resolution.asked (t.requestsAt ticks k tick) =
      devicePorts.map fun port => (t.heldBy ticks port k).action := by
  rw [Resolution.asked, requestsAt, List.map_map]
  rfl

/-- A role is in conflict with itself exactly when it has a contradictory tick. -/
theorem conflicting_iff (h : Axis.Ascending ticks) :
    t.Conflicting curve ticks ↔ ∃ k, t.ContradictsAt ticks k := by
  constructor
  · rintro ⟨c, hc⟩
    by_contra hnone
    obtain ⟨commands, hok⟩ := t.exists_merge_eq_ok h curve fun k hk hbad =>
      hnone ⟨k, hk, t.asked_requestsAt ticks k ticks[k] ▸ hbad⟩
    cases hok.symm.trans hc
  · intro hex
    obtain ⟨hk, hbad⟩ := Nat.find_spec hex
    obtain ⟨c, hc, _⟩ := t.exists_merge_eq_error h curve hk
      (by rw [asked_requestsAt]; exact hbad) fun j hj hjk hbad' =>
        Nat.find_min hex hjk ⟨hj, t.asked_requestsAt ticks j ticks[j] ▸ hbad'⟩
    exact ⟨c, hc⟩

/-- Where all ports hold the same on two axes, both ticks are contradictory or none. -/
theorem contradictsAt_iff (hj : j < own.length) (hk : k < shared.length)
    (h : ∀ port, t.heldBy shared port k = t.heldBy own port j) :
    t.ContradictsAt shared k ↔ t.ContradictsAt own j := by
  unfold ContradictsAt
  simp only [h, hj, hk, true_and]

end RoleTimelines

namespace Conversion

variable {settings small large : Settings} {pace : Pace} {tolerance : Binary64} {score : Score}
  {role : String} {ts : List RoleTimelines} {t : RoleTimelines} {s : Survey} {j k : Nat}

/-- A contradictory tick stays contradictory where it and all ticks before it are kept apart. -/
theorem Played.exists_contradictsAt (h : Played pace score ts) (hpace : settings.pace = .ok pace)
    (ht : t ∈ ts) (hj : t.ContradictsAt (axis tolerance [t]) j)
    (hkept : ∀ i ≤ j, Axis.Kept (axis tolerance [t]) (axis tolerance ts) i) :
    ∃ k, t.ContradictsAt (axis tolerance ts) k := by
  have hfin := h.isFinite_starts hpace
  have hlen : j < (axis tolerance [t]).length := hj.1
  have hmem : (axis tolerance [t])[j] ∈ starts ts :=
    starts_subset ht _ (Axis.mem_of_mem_ofTimes (List.getElem_mem hlen))
  have hpos : 0 < Axis.reached (axis tolerance ts) (axis tolerance [t])[j] :=
    Axis.reached_pos hfin hmem
  have hle := Axis.reached_le_length (axis tolerance ts) (axis tolerance [t])[j]
  have hplace : Axis.placeOn (axis tolerance [t]) (axis tolerance ts) j <
      (axis tolerance ts).length := by
    rw [Axis.placeOn_eq hlen]
    omega
  refine ⟨_, (RoleTimelines.contradictsAt_iff hlen hplace fun port => ?_).mpr hj⟩
  have hevents : ∀ e ∈ (t.eventsFor? port).getD [], e.start ∈ starts [t] := by
    intro e he
    cases hfor : t.eventsFor? port with
    | none =>
      rw [hfor] at he
      cases he
    | some events =>
      rw [hfor] at he
      obtain ⟨p, hp, rfl⟩ := RoleTimelines.exists_of_eventsFor? hfor
      exact mem_starts.mpr ⟨t, List.mem_singleton_self t, p, hp, e, he, rfl⟩
  exact congrArg (Option.getD · Event.idle)
    (Axis.held_of_kept (starts_subset ht) hfin hevents hlen hkept)

/-- Where time runs forwards, the contradictory ticks of a shared axis are those of the role by
itself that are kept apart. -/
theorem Played.exists_contradictsAt_iff (h : Played pace score ts)
    (hforwards : RunsForwards score ts) (hpace : settings.pace = .ok pace)
    (htolerance : Binary64.zero.le tolerance = true)
    (ht : t ∈ ts) : (∃ k, t.ContradictsAt (axis tolerance ts) k) ↔
      ∃ j, t.ContradictsAt (axis tolerance [t]) j ∧
        Axis.Kept (axis tolerance [t]) (axis tolerance ts) j := by
  have hsolo : Played pace score [t] := fun u hu => List.mem_singleton.mp hu ▸ h t ht
  have hown := hsolo.increasing_axis (hforwards.singleton ht) hpace htolerance
  have hshared := h.increasing_axis hforwards hpace htolerance
  have hhead := h.head?_eq hforwards hpace tolerance ht
  have hne := hsolo.axis_ne_nil (hforwards.singleton ht) hpace tolerance (List.cons_ne_nil t [])
  obtain ⟨r, hrt⟩ := h t ht
  have hports := Role.nodup_ports hrt
  have hevents : ∀ p ∈ t.ports, Axis.InOrder p.events := fun p hp =>
    (h.pinned hforwards hpace ht hp).inOrder
  have hheld (port : Int) (k : Nat) : t.heldBy (axis tolerance ts) port k =
      t.heldBy (axis tolerance [t]) port
        (Axis.tickBefore (axis tolerance [t]) (axis tolerance ts)[k + 1]?) := by
    rw [t.heldBy_eq_stateAt hports hevents hshared, t.heldBy_eq_stateAt hports hevents hown,
      h.stateAt_axis hforwards hpace htolerance ht]
  constructor
  · rintro ⟨k, hk⟩
    refine ⟨Axis.tickBefore (axis tolerance [t]) (axis tolerance ts)[k + 1]?, ?_,
      Axis.kept_of_tickBefore_eq hown hshared hhead rfl⟩
    exact (RoleTimelines.contradictsAt_iff (Axis.tickBefore_lt_length hne _) hk.1
      fun port => hheld port k).mp hk
  · rintro ⟨j, hj, hkept⟩
    obtain ⟨k, hk, rfl⟩ := Axis.exists_tickBefore_eq hown hshared hhead hj.1 hkept
    exact ⟨k, (RoleTimelines.contradictsAt_iff hj.1 hk fun port => hheld port k).mpr hj⟩

/-- A survey finds the timelines of every role that has some. -/
theorem Surveyed.mem_playable {r : Role} (h : Surveyed pace score settings.roles s)
    (hr : r ∈ settings.roles) (hrt : r.timelines pace score = .ok t) : t ∈ s.playable := by
  have hfilter : r ∈ settings.roles.filter fun r => r.Playable score :=
    List.mem_filter.mpr ⟨hr, decide_eq_true (Role.playable_of_timelines hrt)⟩
  obtain ⟨u, hu, hru⟩ := exists_right_of_mem h.playable hfilter
  cases hrt.symm.trans hru
  exact hu

/-- No two roles of a survey share a name. -/
theorem nodup_playable (h : Surveyed pace score settings.roles s) :
    (s.playable.map RoleTimelines.role).Nodup := by
  rw [map_role h.playable]
  exact settings.nodup_roles.sublist (List.filter_sublist.map Role.name)

/-- Settings restricted to one role have at most that role to play. -/
theorem playable_eq_singleton (h : small.Restricts large role)
    (hs : Surveyed pace score small.roles s) (ht : t ∈ s.playable) :
    t.role = role ∧ s.playable = [t] := by
  have hrole : ∀ u ∈ s.playable, u.role = role := by
    intro u hu
    obtain ⟨r, hr, hru⟩ := exists_left_of_mem hs.playable hu
    rw [(Role.timelines_eq_ok hru).2.1]
    exact h.name_eq (List.mem_of_mem_filter hr) (Role.playable_of_timelines hru).members_ne_nil
  refine ⟨hrole t ht, ?_⟩
  have hnodup := nodup_playable hs
  have hall : ∀ u ∈ s.playable, u = t := fun u hu =>
    List.inj_on_of_nodup_map hnodup hu ht ((hrole u hu).trans (hrole t ht).symm)
  have hreplicate := List.eq_replicate_of_mem hall
  have hlen : s.playable.length ≤ 1 := by
    rw [← List.nodup_replicate (a := t), ← hreplicate]
    exact List.Nodup.of_map _ hnodup
  have hpos := List.length_pos_of_mem ht
  rw [hreplicate, Nat.le_antisymm hlen hpos]
  rfl

end Conversion

namespace Settings

variable {settings small large : Settings} {pace : Pace} {tolerance : Binary64} {score : Score}
  {role : String} {t : RoleTimelines} {s : Conversion.Survey}

/-- A conversion that fails with a conflict of a role, whatever else it reports. -/
def ReportsConflict (settings : Settings) (pace : Pace) (tolerance : Binary64) (score : Score)
    (role : String) : Prop :=
  ∃ unplayable conflicts, settings.convert pace tolerance score =
    .error (.roles unplayable conflicts) ∧ ∃ c ∈ conflicts, c.role = role

/-- A conflict is reported of each role that contradicts itself, and of no other. -/
theorem reportsConflict_iff (hne : settings.roles ≠ [])
    (hs : Conversion.survey pace score settings.roles = .ok s) (ht : t ∈ s.playable) :
    settings.ReportsConflict pace tolerance score t.role ↔
      t.Conflicting settings.curve (Conversion.axis tolerance s.playable) := by
  have hascending := Conversion.ascending_axis tolerance s.playable
  have hconvert := @convert_of_survey settings pace tolerance score s hne hs
  constructor
  · rintro ⟨unplayable, conflicts, herror, c, hc, hrole⟩
    obtain ⟨_, hok, _⟩ | hof := Conversion.ofSurvey_cases tolerance hne hs
    · cases hok.symm.trans (hconvert.symm.trans herror)
    · cases hof.symm.trans (hconvert.symm.trans herror)
      obtain ⟨u, hu, hm⟩ := Conversion.mem_conflicts.mp hc
      have hnodup := Conversion.nodup_playable (Conversion.surveyed_of_survey hs)
      have hut : u = t := List.inj_on_of_nodup_map hnodup hu ht
        ((Conversion.role_of_merge hascending hm).symm.trans hrole)
      exact ⟨c, hut ▸ hm⟩
  · rintro ⟨c, hm⟩
    have hc := Conversion.mem_conflicts.mpr ⟨t, ht, hm⟩
    refine ⟨_, _, hconvert.trans (Conversion.ofSurvey_of_complaint fun hnone => ?_), c, hc,
      Conversion.role_of_merge hascending hm⟩
    rw [hnone.2] at hc
    cases hc

/-- A conflict of the only role comes from a role that contradicts itself on its own axis. -/
theorem Restricts.exists_conflicting (h : small.Restricts large role)
    (hsmall : small.ReportsConflict pace tolerance score role) :
    ∃ r ∈ small.roles, ∃ t, r.timelines pace score = .ok t ∧ t.role = role ∧
      t.Conflicting large.curve (Conversion.axis tolerance [t]) := by
  obtain ⟨unplayable, conflicts, herror, c, hc, hrole⟩ := hsmall
  obtain ⟨s, hs, _, rfl⟩ := exists_survey_of_convert herror
  obtain ⟨t, ht, hm⟩ := Conversion.mem_conflicts.mp hc
  obtain ⟨hname, hsingle⟩ := Conversion.playable_eq_singleton h hs ht
  obtain ⟨r, hr, hrt⟩ := exists_left_of_mem hs.playable ht
  rw [hsingle, h.curve] at hm
  exact ⟨r, List.mem_of_mem_filter hr, t, hrt, hname, c, hm⟩

end Settings

namespace Conversion

/-- What becomes of the conflict of a role beside other roles. It is reported if the role by itself
has a contradictory tick that is kept apart with all ticks before it; where time runs forwards, it
is reported exactly if such a tick is kept apart. -/
structure ConflictBeside (large : Settings) (pace : Pace) (tolerance : Binary64) (score : Score)
    (role : String) (ts : List RoleTimelines) (t : RoleTimelines) : Prop where
  timelines : List.Forall₂ (fun r u => r.timelines pace score = .ok u)
    (large.roles.filter fun r => r.Playable score) ts
  mem : t ∈ ts
  role_eq : t.role = role
  alone : ∃ j, t.ContradictsAt (axis tolerance [t]) j
  reported : ∀ j, t.ContradictsAt (axis tolerance [t]) j →
    (∀ i ≤ j, Axis.Kept (axis tolerance [t]) (axis tolerance ts) i) →
      large.ReportsConflict pace tolerance score role
  reported_iff : score.Regular → (large.ReportsConflict pace tolerance score role ↔
    ∃ j, t.ContradictsAt (axis tolerance [t]) j ∧
      Axis.Kept (axis tolerance [t]) (axis tolerance ts) j)

namespace Bystander

theorem beside_ne_empty : "Beside" ≠ "" := by decide

/-- One part pumps air in for a moment in which another one lets it out. A third part has measures
of its own. -/
def score (aside : List Measure) : Score := Keyed.ofList [
  ("P1", ⟨"Low", [⟨1, ⟨4, 4⟩, 1000, [⟨.actuate .mf, 2⟩, ⟨.hold, 8⟩]⟩]⟩),
  ("P2", ⟨"High", [⟨1, ⟨4, 4⟩, 1000, [⟨.rest .mf, 2⟩, ⟨.hold, 8⟩]⟩]⟩),
  ("P3", ⟨"Aside", aside⟩)]

/-- Two holds, of which the first one lasts some time. -/
def holds (first : Int) : List Measure :=
  [⟨1, ⟨4, 4⟩, 1000, [⟨.hold, first⟩, ⟨.hold, 10 - first⟩]⟩]

/-- A hold that lasts longer than any number of milliseconds can say. -/
def endless : List Measure := [⟨1, ⟨4, 4⟩, 1000, [⟨.hold, 10 ^ 320⟩]⟩]

def first : Assignment := ⟨"Lungs", 1, Sample.lungs_ne_empty, Sample.first_mem⟩

def second : Assignment := ⟨"Lungs", 2, Sample.lungs_ne_empty, Sample.second_mem⟩

def third : Assignment := ⟨"Beside", 1, beside_ne_empty, Sample.first_mem⟩

def alone : Settings :=
  ⟨60, Keyed.ofList [("P1", first), ("P2", second)], default, .int 20, Sample.bpm_pos⟩

def together : Settings :=
  ⟨60, Keyed.ofList [("P1", first), ("P2", second), ("P3", third)], default, .int 20,
    Sample.bpm_pos⟩

def low : List Event := [⟨.ofNat 0, .inflate, .mf, 1, some 0⟩,
  ⟨.ofNat 2, .noChange, .ppp, 1, some 1⟩, ⟨.ofNat 10, .noChange, .ppp, 1, none⟩]

def high : List Event := [⟨.ofNat 0, .release, .mf, 1, some 0⟩,
  ⟨.ofNat 2, .noChange, .ppp, 1, some 1⟩, ⟨.ofNat 10, .noChange, .ppp, 1, none⟩]

def lungs : RoleTimelines := ⟨"Lungs", [⟨1, "P1", low⟩, ⟨2, "P2", high⟩]⟩

def beside (first : Nat) : RoleTimelines := ⟨"Beside", [⟨1, "P3", [
  ⟨.ofNat 0, .noChange, .ppp, 1, some 0⟩, ⟨.ofNat first, .noChange, .ppp, 1, some 1⟩,
  ⟨.ofNat 10, .noChange, .ppp, 1, none⟩]⟩]⟩

def conflict : Conflict :=
  ⟨"Lungs", .ofNat 0, [⟨1, "P1", 1, some 0, .inflate⟩, ⟨2, "P2", 1, some 0, .release⟩]⟩

def silence : List Command := [Bridge.resting, Bridge.resting]

def schedule : Schedule := ⟨[.ofNat 0, .ofNat 10],
  Keyed.ofList [("Lungs", silence), ("Beside", silence)]⟩

/-- Tempo and step are those of the bridge. -/
theorem pace_eq : together.pace = .ok Bridge.pace := Bridge.pace_eq

/-- The third part is the only one that is not in the role. -/
theorem restricts : alone.Restricts together "Lungs" := by
  have halone : alone.assignments.entries = [("P1", first), ("P2", second)] :=
    Keyed.entries_ofList (by decide)
  have htogether : together.assignments.entries =
      [("P1", first), ("P2", second), ("P3", third)] := Keyed.entries_ofList (by decide)
  refine ⟨rfl, rfl, rfl, fun part a => ?_⟩
  rw [Keyed.get?_eq_some_iff, Keyed.get?_eq_some_iff, halone, htogether]
  simp only [List.mem_cons, List.not_mem_nil, or_false, Prod.mk.injEq]
  constructor
  · rintro (⟨rfl, rfl⟩ | ⟨rfl, rfl⟩)
    · exact ⟨Or.inl ⟨rfl, rfl⟩, rfl⟩
    · exact ⟨Or.inr (Or.inl ⟨rfl, rfl⟩), rfl⟩
  · rintro ⟨⟨rfl, rfl⟩ | ⟨rfl, rfl⟩ | ⟨rfl, rfl⟩, hrole⟩
    · exact Or.inl ⟨rfl, rfl⟩
    · exact Or.inr ⟨rfl, rfl⟩
    · exact absurd hrole (by decide)

theorem roles_alone : alone.roles = [⟨"Lungs", [⟨"P1", 1⟩, ⟨"P2", 2⟩]⟩] := by decide

theorem roles_together : together.roles =
    [⟨"Lungs", [⟨"P1", 1⟩, ⟨"P2", 2⟩]⟩, ⟨"Beside", [⟨"P3", 1⟩]⟩] := by decide

theorem timelines_lungs (aside : List Measure) :
    Role.timelines ⟨"Lungs", [⟨"P1", 1⟩, ⟨"P2", 2⟩]⟩ Bridge.pace (score aside) = .ok lungs := by
  have hlow : Bridge.pace.events (Role.measuresOf (score aside) "P1") = .ok low := by
    have hmeasures : Role.measuresOf (score aside) "P1" =
        [⟨1, ⟨4, 4⟩, 1000, [⟨.actuate .mf, 2⟩, ⟨.hold, 8⟩]⟩] := rfl
    rw [hmeasures]
    decide +kernel
  have hhigh : Bridge.pace.events (Role.measuresOf (score aside) "P2") = .ok high := by
    have hmeasures : Role.measuresOf (score aside) "P2" =
        [⟨1, ⟨4, 4⟩, 1000, [⟨.rest .mf, 2⟩, ⟨.hold, 8⟩]⟩] := rfl
    rw [hmeasures]
    decide +kernel
  exact Role.timelines_of_sorted rfl (by decide)
    (.cons ⟨rfl, rfl, hlow⟩ (.cons ⟨rfl, rfl, hhigh⟩ .nil))

theorem axis_lungs : axis (.ofNat 1) [lungs] = [.ofNat 0, .ofNat 2, .ofNat 10] :=
  axis_of_perm [.ofNat 0, .ofNat 0, .ofNat 2, .ofNat 2, .ofNat 10, .ofNat 10]
    (by decide +kernel) (by decide +kernel) (by decide +kernel) (by decide +kernel)

/-- By itself the role contradicts itself at once. -/
theorem convert_alone (aside : List Measure) :
    alone.convert Bridge.pace (.ofNat 1) (score aside) = .error (.roles [] [conflict]) := by
  have hsurvey : survey Bridge.pace (score aside) alone.roles = .ok ⟨[lungs], []⟩ := by
    rw [roles_alone, survey, timelines_lungs]
    rfl
  have hmerge : lungs.merge alone.curve [.ofNat 0, .ofNat 2, .ofNat 10] = .error conflict := by
    decide +kernel
  have hmerged : mergeAll alone.curve [.ofNat 0, .ofNat 2, .ofNat 10] [lungs] =
      [("Lungs", .error conflict)] := congrArg (fun merged => [("Lungs", merged)]) hmerge
  rw [Settings.convert, hsurvey, roles_alone]
  simp only [ofSurvey, axis_lungs, hmerged]
  rfl

theorem reports_alone (aside : List Measure) :
    alone.ReportsConflict Bridge.pace (.ofNat 1) (score aside) "Lungs" :=
  ⟨_, _, convert_alone aside, conflict, List.mem_cons_self, rfl⟩

theorem survey_together {aside : List Measure} {events : List Event}
    (h : Bridge.pace.events aside = .ok events) :
    survey Bridge.pace (score aside) together.roles =
      .ok ⟨[lungs, ⟨"Beside", [⟨1, "P3", events⟩]⟩], []⟩ := by
  have hbeside : Role.timelines ⟨"Beside", [⟨"P3", 1⟩]⟩ Bridge.pace (score aside) =
      .ok ⟨"Beside", [⟨1, "P3", events⟩]⟩ := Role.timelines_singleton rfl h
  rw [roles_together, survey, timelines_lungs, survey, hbeside]
  rfl

/-- A hold that ends one moment after the beginning joins the first two ticks, and at the second one
both ports have come to rest. -/
theorem convert_joined :
    together.convert Bridge.pace (.ofNat 1) (score (holds 1)) = .ok schedule := by
  have haxis : axis (.ofNat 1) [lungs, beside 1] = [.ofNat 0, .ofNat 10] :=
    axis_of_perm [.ofNat 0, .ofNat 0, .ofNat 0, .ofNat 1, .ofNat 2, .ofNat 2, .ofNat 10, .ofNat 10,
      .ofNat 10] (by decide +kernel) (by decide +kernel) (by decide +kernel) (by decide +kernel)
  have hsurvey : survey Bridge.pace (score (holds 1)) together.roles =
      .ok ⟨[lungs, beside 1], []⟩ := survey_together (by decide +kernel)
  have hlungs : lungs.merge together.curve [.ofNat 0, .ofNat 10] = .ok silence := by
    decide +kernel
  have hbeside : (beside 1).merge together.curve [.ofNat 0, .ofNat 10] =
      .ok silence := by decide +kernel
  have hmerged : mergeAll together.curve [.ofNat 0, .ofNat 10] [lungs, beside 1] =
      [("Lungs", .ok silence), ("Beside", .ok silence)] := by
    rw [mergeAll, List.map_cons, List.map_cons, hlungs, hbeside]
    rfl
  rw [Settings.convert, hsurvey, roles_together]
  simp only [ofSurvey, haxis, hmerged]
  rfl

/-- A part that cannot be laid out ends the conversion before anything is merged. -/
theorem convert_endless :
    together.convert Bridge.pace (.ofNat 1) (score endless) = .error (.layout .tooLong) := by
  have hbeside : Role.timelines ⟨"Beside", [⟨"P3", 1⟩]⟩ Bridge.pace (score endless) =
      .error (.layout .tooLong) := by
    have hfault : Role.fault? ⟨"Beside", [⟨"P3", 1⟩]⟩ (score endless) = none := rfl
    have hsort : Role.byPort ⟨"Beside", [⟨"P3", 1⟩]⟩ = [⟨"P3", 1⟩] := List.mergeSort_singleton _
    have hevents : Bridge.pace.events (Role.measuresOf (score endless) "P3") = .error .tooLong := by
      decide +kernel
    have hport : Role.portTimeline Bridge.pace (score endless) ⟨"P3", 1⟩ = .error .tooLong := by
      rw [Role.portTimeline, hevents]
      rfl
    rw [Role.timelines, hfault, hsort, mapM_cons_of_error hport]
  have hsurvey : survey Bridge.pace (score endless) together.roles = .error .tooLong := by
    rw [roles_together, survey, timelines_lungs, survey, hbeside]
    rfl
  rw [Settings.convert, hsurvey, roles_together]
  rfl

end Bystander

end Conversion

namespace Settings

variable {small large : Settings} {pace : Pace} {tolerance : Binary64} {score : Score}
  {role : String}

/-- Beside other roles the conflict of a role is reported where they keep it apart, unless a part of
one of them cannot be laid out. -/
theorem convert_conflict_beside (h : small.Restricts large role) (hpace : large.pace = .ok pace)
    (htolerance : Binary64.zero.le tolerance = true)
    (hsmall : small.ReportsConflict pace tolerance score role) :
    (∃ q ∈ large.roles, q.name ≠ role ∧ ∃ fault,
      q.timelines pace score = .error (.layout fault) ∧
        large.convert pace tolerance score = .error (.layout fault)) ∨
      ∃ ts t, Conversion.ConflictBeside large pace tolerance score role ts t := by
  obtain ⟨r, hr, t, hrt, rfl, hconf⟩ := h.exists_conflicting hsmall
  have hplay := Role.playable_of_timelines hrt
  obtain ⟨q, hq, hname, hperm⟩ := h.exists_role hr hplay.members_ne_nil
  have hqt : q.timelines pace score = .ok t :=
    (Role.timelines_eq_of_perm hplay hname hperm).trans hrt
  have hne := List.ne_nil_of_mem hq
  obtain ⟨fault, hs, hlayout⟩ | ⟨s, hs, _⟩ := @convert_of_ne_nil large pace tolerance score hne
  · obtain ⟨p, hp, hfault⟩ := Conversion.exists_of_survey_eq_error hs
    refine Or.inl ⟨p, hp, fun hpname => ?_, fault, hfault, hlayout⟩
    have hpq : p = q := List.inj_on_of_nodup_map large.nodup_roles hp hq
      (hpname.trans ((Role.timelines_eq_ok hqt).2.1))
    rw [hpq, hqt] at hfault
    cases hfault
  have hsurveyed := Conversion.surveyed_of_survey hs
  have hplayed := hsurveyed.played
  have ht := hsurveyed.mem_playable hq hqt
  have hreports : large.ReportsConflict pace tolerance score t.role ↔
      ∃ k, t.ContradictsAt (Conversion.axis tolerance s.playable) k :=
    (reportsConflict_iff hne hs ht).trans
      (RoleTimelines.conflicting_iff (Conversion.ascending_axis tolerance s.playable))
  refine Or.inr ⟨s.playable, t, hsurveyed.playable, ht, rfl, ?_, ?_, ?_⟩
  · exact (RoleTimelines.conflicting_iff (Conversion.ascending_axis tolerance [t])).mp hconf
  · intro j hj hkept
    exact hreports.mpr (hplayed.exists_contradictsAt hpace ht hj hkept)
  · intro hscore
    exact hreports.trans (hplayed.exists_contradictsAt_iff
      (Conversion.runsForwards_of_regular hscore s.playable) hpace htolerance ht)

open Conversion in
/-- Where the hold ends later, the first tick is kept apart and the conflict is still reported. -/
theorem convert_conflict_beside_bystander :
    Bystander.alone.Restricts Bystander.together "Lungs" ∧
    Bystander.together.pace = .ok Bridge.pace ∧ Binary64.zero.le (.ofNat 1) = true ∧
    Bystander.alone.ReportsConflict Bridge.pace (.ofNat 1) (Bystander.score (Bystander.holds 5))
      "Lungs" ∧
    Bystander.together.ReportsConflict Bridge.pace (.ofNat 1)
      (Bystander.score (Bystander.holds 5)) "Lungs" := by
  have htolerance : Binary64.zero.le (.ofNat 1) = true := by decide +kernel
  have halone := Bystander.reports_alone (Bystander.holds 5)
  have hsurvey : survey Bridge.pace (Bystander.score (Bystander.holds 5))
      Bystander.together.roles = .ok ⟨[Bystander.lungs, Bystander.beside 5], []⟩ :=
    Bystander.survey_together (by decide +kernel)
  have hne : Bystander.together.roles ≠ [] := by
    rw [Bystander.roles_together]
    exact List.cons_ne_nil _ _
  refine ⟨Bystander.restricts, Bystander.pace_eq, htolerance, halone, ?_⟩
  obtain ⟨_, _, _, fault, _, hlayout⟩ | ⟨ts, t, hbeside⟩ :=
    convert_conflict_beside Bystander.restricts Bystander.pace_eq htolerance halone
  · rw [convert_of_survey hne hsurvey] at hlayout
    obtain ⟨_, hok, _⟩ | herror := ofSurvey_cases (.ofNat 1) hne hsurvey
    · cases hok.symm.trans hlayout
    · cases herror.symm.trans hlayout
  · have hts : ts = [Bystander.lungs, Bystander.beside 5] :=
      Except.ok.inj ((mapM_eq_ok_iff.mpr hbeside.timelines).symm.trans
        (mapM_eq_ok_iff.mpr (surveyed_of_survey hsurvey).playable))
    subst hts
    obtain rfl : t = Bystander.lungs := by
      rcases List.mem_cons.mp hbeside.mem with rfl | ht
      · rfl
      · obtain rfl := List.mem_singleton.mp ht
        exact absurd hbeside.role_eq (by decide)
    have haxis : axis (.ofNat 1) [Bystander.lungs, Bystander.beside 5] =
        [.ofNat 0, .ofNat 2, .ofNat 5, .ofNat 10] :=
      axis_of_perm [.ofNat 0, .ofNat 0, .ofNat 0, .ofNat 2, .ofNat 2, .ofNat 5, .ofNat 10,
        .ofNat 10, .ofNat 10] (by decide +kernel) (by decide +kernel) (by decide +kernel)
        (by decide +kernel)
    apply hbeside.reported 0
    · rw [Bystander.axis_lungs]
      decide +kernel
    · intro i hi
      rw [Bystander.axis_lungs, haxis, Nat.le_zero.mp hi]
      decide +kernel

open Conversion in
/-- Another role can hide a conflict: a hold beside it joins the tick of the contradiction with the
one at which both ports have come to rest. A part that cannot be laid out hides it too. -/
theorem convert_hides_conflict :
    Bystander.alone.Restricts Bystander.together "Lungs" ∧
    Bystander.together.pace = .ok Bridge.pace ∧ Binary64.zero.le (.ofNat 1) = true ∧
    (Bystander.score (Bystander.holds 1)).Regular ∧
    Bystander.alone.ReportsConflict Bridge.pace (.ofNat 1) (Bystander.score (Bystander.holds 1))
      "Lungs" ∧
    Bystander.together.convert Bridge.pace (.ofNat 1) (Bystander.score (Bystander.holds 1)) =
      .ok Bystander.schedule ∧
    ¬ Bystander.together.ReportsConflict Bridge.pace (.ofNat 1)
      (Bystander.score (Bystander.holds 1)) "Lungs" ∧
    Bystander.alone.ReportsConflict Bridge.pace (.ofNat 1) (Bystander.score Bystander.endless)
      "Lungs" ∧
    Bystander.together.convert Bridge.pace (.ofNat 1) (Bystander.score Bystander.endless) =
      .error (.layout .tooLong) := by
  have hregular : (Bystander.score (Bystander.holds 1)).Regular := by decide
  refine ⟨Bystander.restricts, Bystander.pace_eq, by decide +kernel, hregular,
    Bystander.reports_alone _, Bystander.convert_joined, ?_, Bystander.reports_alone _,
    Bystander.convert_endless⟩
  rintro ⟨unplayable, conflicts, herror, _⟩
  cases Bystander.convert_joined.symm.trans herror

end Settings
end Bellows
