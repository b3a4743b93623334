import Bellows.Proofs.Axis.Early
import Bellows.Proofs.Conversion.SharedAxis
import Bellows.Proofs.Role.Assignments
import Bellows.Proofs.Role.Matching

/-! Causality: scores that begin alike have schedules that begin alike. What a schedule holds before
the shared measures of the shortest part are over does not depend on what follows them. -/
namespace Bellows

/-- A score continues some measures: each mapped part begins with its own of them, and time never
runs backwards behind them. -/
def Score.Continues (score : Score) (settings : Settings) (shared : String → List Measure) : Prop :=
  ∀ part ∈ settings.assignments.keys, ∃ rest,
    Role.measuresOf score part = shared part ++ rest ∧ ∀ m ∈ rest, m.Forwards

/-- The first moment at which the measures of a mapped part are over. -/
def Settings.firstEnd? (settings : Settings) (shared : String → List Measure) : Option Binary64 :=
  ((settings.assignments.keys.map fun part =>
    Layout.partLength settings.bpm (shared part)).min?).bind Layout.emittedTime?

/-- Schedules that agree before a moment: they have the same ticks before it, the same roles, and
for each role the same command at every tick whose next tick comes before it. -/
structure Schedule.SameBefore (c : Binary64) (s s' : Schedule) : Prop where
  time : s.time.filter (·.lt c) = s'.time.filter (·.lt c)
  roles : s.roles = s'.roles
  commands : ∀ role commands commands', (role, commands) ∈ s.instructions.entries →
    (role, commands') ∈ s'.instructions.entries → ∀ k next, s.time[k + 1]? = some next →
      next.lt c = true → s'.time[k + 1]? = some next ∧ ∃ tick command, s.time[k]? = some tick ∧
        s'.time[k]? = some tick ∧ commands[k]? = some command ∧ commands'[k]? = some command

namespace RoleTimelines

variable {t t' : RoleTimelines} {c next : Binary64} {ticks ticks' : List Binary64} {curve : Curve}
  {commands commands' : List Command} {k : Nat}

/-- In front of a tick before the moment, both roles ask for the same. -/
theorem Matched.requestsAt_eq (h : t.Matched (Event.SameBefore c) t')
    (hticks : Axis.Ascending ticks) (hticks' : Axis.Ascending ticks')
    (hearly : ticks.filter (·.lt c) = ticks'.filter (·.lt c)) (hnext : ticks[k + 1]? = some next)
    (hc : next.lt c = true) (tick : Binary64) :
    t.requestsAt ticks k tick = t'.requestsAt ticks' k tick := by
  refine List.map_congr_left fun port _ => ?_
  have hheld := Axis.held_eq_of_sameBefore hticks hticks' hearly hnext hc (h.events (.nil c) port)
  rw [h.partFor?_eq port, heldBy, heldBy, hheld]

/-- There both roles have the same tick and the same command. -/
theorem Matched.exists_command_eq (h : t.Matched (Event.SameBefore c) t')
    (hticks : Axis.Ascending ticks) (hticks' : Axis.Ascending ticks')
    (hearly : ticks.filter (·.lt c) = ticks'.filter (·.lt c)) (hnext : ticks[k + 1]? = some next)
    (hc : next.lt c = true) (hm : t.merge curve ticks = .ok commands)
    (hm' : t'.merge curve ticks' = .ok commands') :
    ticks'[k + 1]? = some next ∧ ∃ tick command, ticks[k]? = some tick ∧ ticks'[k]? = some tick ∧
      commands[k]? = some command ∧ commands'[k]? = some command := by
  have hnext' := Axis.getElem?_eq_of_filter_eq hticks hticks' hearly hnext hc (Nat.le_refl _)
  have htick := Axis.getElem?_eq_of_filter_eq hticks hticks' hearly hnext hc (Nat.le_succ k)
  obtain ⟨hk, _⟩ := List.getElem?_eq_some_iff.mp hnext
  obtain ⟨hk', _⟩ := List.getElem?_eq_some_iff.mp (hnext'.symm.trans hnext)
  obtain ⟨hlen, hall⟩ := t.resolve_of_merge hticks hm
  obtain ⟨hlen', hall'⟩ := t'.resolve_of_merge hticks' hm'
  have hsame : ticks[k] = ticks'[k] := by
    rw [List.getElem?_eq_getElem (by omega), List.getElem?_eq_getElem (by omega)] at htick
    exact Option.some.inj htick
  have hcommand := hall k (by omega) (by omega)
  have hcommand' := hall' k (by omega) (by omega)
  rw [h.requestsAt_eq hticks hticks' hearly hnext hc, hsame, h.role, hcommand'] at hcommand
  refine ⟨hnext'.symm.trans hnext, ticks[k], commands[k], List.getElem?_eq_getElem _, ?_,
    List.getElem?_eq_getElem _, ?_⟩
  · rw [hsame]
    exact List.getElem?_eq_getElem _
  · rw [← Except.ok.inj hcommand]
    exact List.getElem?_eq_getElem _

end RoleTimelines

namespace Conversion

variable {c : Binary64} {ts ts' : List RoleTimelines} {settings : Settings} {pace : Pace}
  {tolerance : Binary64} {score score' : Score} {schedule schedule' : Schedule}
  {shared : String → List Measure}

/-- Roles that agree before a moment start the same events before it. -/
theorem filter_starts (h : List.Forall₂ (RoleTimelines.Matched (Event.SameBefore c)) ts ts') :
    (starts ts).filter (·.lt c) = (starts ts').filter (·.lt c) := by
  rw [starts_eq_flatMap, starts_eq_flatMap, List.filter_flatMap, List.filter_flatMap]
  refine flatMap_eq_of_forall₂ h fun t t' ht => ?_
  rw [List.filter_flatMap, List.filter_flatMap]
  exact flatMap_eq_of_forall₂ ht.ports fun p p' hp => hp.events.filter_starts

/-- They have schedules that agree before it. -/
theorem Compiled.sameBefore (h : Compiled settings pace tolerance score ts schedule)
    (h' : Compiled settings pace tolerance score' ts' schedule')
    (hts : List.Forall₂ (RoleTimelines.Matched (Event.SameBefore c)) ts ts') :
    Schedule.SameBefore c schedule schedule' := by
  have hearly : schedule.time.filter (·.lt c) = schedule'.time.filter (·.lt c) := by
    rw [h.time, h'.time, axis_eq_ofTimes, axis_eq_ofTimes, Axis.filter_ofTimes,
      Axis.filter_ofTimes, filter_starts hts]
  refine ⟨hearly, h.roles_eq.trans h'.roles_eq.symm, ?_⟩
  intro role commands commands' hmem hmem' k next hnext hc
  obtain ⟨_, _, t, ht, _, _, hrole, hm⟩ := h.exists_role hmem
  obtain ⟨_, _, t', ht', _, _, hrole', hm'⟩ := h'.exists_role hmem'
  obtain ⟨u, hu, htu⟩ := exists_right_of_mem hts ht
  have hnodup : (ts'.map RoleTimelines.role).Nodup := by
    rw [map_role h'.timelines]
    exact settings.nodup_roles
  have hut : u = t' :=
    List.inj_on_of_nodup_map hnodup hu ht' (htu.role.symm.trans (hrole.trans hrole'.symm))
  rw [hut] at htu
  exact htu.exists_command_eq h.ascending h'.ascending hearly hnext hc hm hm'

end Conversion

namespace Settings

variable {settings : Settings} {pace : Pace} {tolerance c : Binary64} {score score' : Score}
  {schedule schedule' : Schedule} {shared : String → List Measure}

/-- The first end is no later than that of any mapped part. -/
theorem exists_firstEnd (h : settings.firstEnd? shared = some c) {part : String}
    (hpart : part ∈ settings.assignments.keys) :
    ∃ q, q ≤ Layout.partLength settings.bpm (shared part) ∧ Layout.emittedTime? q = some c := by
  obtain ⟨q, hmin, hq⟩ := Option.bind_eq_some_iff.mp h
  exact ⟨q, (List.min?_eq_some_iff.mp hmin).2 _ (List.mem_map_of_mem hpart), hq⟩

/-- Every mapped part of a converted score was laid out. -/
theorem exists_events_of_convert (h : settings.convert pace tolerance score = .ok schedule)
    {part : String} (hpart : part ∈ settings.assignments.keys) :
    ∃ events, pace.events (Role.measuresOf score part) = .ok events := by
  obtain ⟨ts, hc⟩ := exists_compiled h
  obtain ⟨⟨_, a⟩, ha, rfl⟩ := List.mem_map.mp hpart
  have hget := (settings.assignments.get?_eq_some_iff _ a).mpr ha
  obtain ⟨r, hr, _, hm⟩ := exists_role ⟨a, hget, rfl, rfl⟩
  obtain ⟨t, _, hrt⟩ := exists_right_of_mem hc.timelines hr
  have hsorted : _ ∈ r.byPort := List.mem_mergeSort.mpr hm
  obtain ⟨p, _, hd⟩ := exists_right_of_mem (Role.timelines_eq_ok hrt).2.2 hsorted
  exact ⟨p.events, hd.events⟩

/-- Where there is a schedule, the first end is a time that can be emitted. -/
theorem exists_firstEnd?_eq_some (hpace : settings.pace = .ok pace)
    (hscore : score.Continues settings shared)
    (h : settings.convert pace tolerance score = .ok schedule) :
    ∃ c, settings.firstEnd? shared = some c := by
  have hkeys : (settings.assignments.keys.map fun part =>
      Layout.partLength settings.bpm (shared part)) ≠ [] := by
    obtain ⟨ts, hc⟩ := exists_compiled h
    obtain ⟨r, hr⟩ := List.exists_mem_of_ne_nil _ hc.roles_ne_nil
    obtain ⟨t, _, hrt⟩ := exists_right_of_mem hc.timelines hr
    obtain ⟨m, hm⟩ := List.exists_mem_of_ne_nil _ (Role.playable_of_timelines hrt).members_ne_nil
    exact List.ne_nil_of_mem (List.mem_map_of_mem (mem_keys hr hm))
  obtain ⟨q, hq⟩ := Option.isSome_iff_exists.mp (List.isSome_min?_of_ne_nil hkeys)
  obtain ⟨part, hpart, hlength⟩ := List.mem_map.mp (List.min?_mem hq)
  obtain ⟨events, hevents⟩ := exists_events_of_convert h hpart
  obtain ⟨rest, hrest, hforwards⟩ := hscore part hpart
  rw [hrest] at hevents
  obtain ⟨_, _, _, _, ⟨c, hc⟩, _⟩ :=
    Pace.exists_events_append (tempo_of_pace hpace) settings.bpm_pos hforwards hevents
  exact ⟨c, by rw [firstEnd?, hq, Option.bind_some, ← hlength, hc]⟩

/-- Causality. Two scores that continue the same measures, and are both converted, have schedules
that agree before the first moment at which the shared measures of a mapped part are over. -/
theorem convert_causal (hpace : settings.pace = .ok pace) (hscore : score.Continues settings shared)
    (hscore' : score'.Continues settings shared)
    (h : settings.convert pace tolerance score = .ok schedule)
    (h' : settings.convert pace tolerance score' = .ok schedule') :
    ∃ c, settings.firstEnd? shared = some c ∧ Schedule.SameBefore c schedule schedule' := by
  obtain ⟨c, hc⟩ := exists_firstEnd?_eq_some hpace hscore h
  obtain ⟨ts, hts⟩ := exists_compiled h
  obtain ⟨ts', hts'⟩ := exists_compiled h'
  refine ⟨c, hc, hts.sameBefore hts' ?_⟩
  refine forall₂_of_common hts.timelines hts'.timelines fun r hr t t' hrt hrt' => ?_
  refine Role.matched_of_timelines (fun m hm events events' hevents hevents' => ?_) hrt hrt'
  obtain ⟨rest, hrest, hforwards⟩ := hscore m.part (mem_keys hr hm)
  obtain ⟨rest', hrest', hforwards'⟩ := hscore' m.part (mem_keys hr hm)
  obtain ⟨q, hq, hqc⟩ := exists_firstEnd hc (mem_keys hr hm)
  rw [hrest] at hevents
  rw [hrest'] at hevents'
  exact Pace.sameBefore_of_shared (tempo_of_pace hpace) settings.bpm_pos hforwards hforwards'
    hevents hevents' hq hqc

end Settings

namespace Conversion.Encore

def opening : Measure := ⟨1, ⟨4, 4⟩, 1000, [⟨.actuate .mf, 4⟩, ⟨.hold, 6⟩]⟩

def pause : Measure := ⟨1, ⟨4, 4⟩, 1000, [⟨.hold, 10⟩]⟩

/-- Air is let out for a while. -/
def encore : Measure := ⟨2, ⟨4, 4⟩, 1000, [⟨.rest .p, 5⟩]⟩

/-- The same, but backwards in time, and then a hold. -/
def rewinding : Measure := ⟨2, ⟨4, 4⟩, 1000, [⟨.rest .p, -7⟩, ⟨.hold, 10⟩]⟩

def shared (part : String) : List Measure := if part = "P1" then [opening] else [pause]

/-- Two parts of which the first one goes on. -/
def score (rest : List Measure) : Score :=
  Keyed.ofList [("P1", ⟨"Low", opening :: rest⟩), ("P2", ⟨"High", [pause]⟩)]

def low (events : List Event) : RoleTimelines := ⟨"Low", [⟨1, "P1", events⟩]⟩

def high : RoleTimelines := ⟨"High", [⟨1, "P2", [⟨.ofNat 0, .noChange, .ppp, 1, some 0⟩,
  ⟨.ofNat 10, .noChange, .ppp, 1, none⟩]⟩]⟩

def opened : List Event :=
  [⟨.ofNat 0, .inflate, .mf, 1, some 0⟩, ⟨.ofNat 4, .noChange, .ppp, 1, some 1⟩]

def schedule (time : List Binary64) (commands : List Command) : Schedule := ⟨time, Keyed.ofList
  [("Low", commands), ("High", List.replicate time.length Bridge.resting)]⟩

def plain : Schedule := schedule [.ofNat 0, .ofNat 4, .ofNat 10]
  [Bridge.pumping, Bridge.resting, Bridge.resting]

def prolonged : Schedule := schedule [.ofNat 0, .ofNat 4, .ofNat 10, .ofNat 15]
  [Bridge.pumping, Bridge.resting, Bridge.venting, Bridge.resting]

def rewound : Schedule := schedule [.ofNat 0, .ofNat 3, .ofNat 10, .ofNat 13]
  [Bridge.pumping, Bridge.resting, Bridge.venting, Bridge.resting]

/-- The events of the first part decide the schedule. -/
theorem convert_eq {rest : List Measure} {time : List Binary64} {commands : List Command}
    (events : List Event) (hevents : Bridge.pace.events (opening :: rest) = .ok events)
    (htime : axis (.ofNat 1) [low events, high] = time)
    (hlow : (low events).merge Bridge.settings.curve time = .ok commands)
    (hhigh : high.merge Bridge.settings.curve time =
      .ok (List.replicate time.length Bridge.resting)) :
    Bridge.settings.convert Bridge.pace (.ofNat 1) (score rest) = .ok (schedule time commands) := by
  have hroles : Bridge.settings.roles = [⟨"Low", [⟨"P1", 1⟩]⟩, ⟨"High", [⟨"P2", 1⟩]⟩] := by decide
  have hpause : Bridge.pace.events (Role.measuresOf (score rest) "P2") =
      .ok [⟨.ofNat 0, .noChange, .ppp, 1, some 0⟩, ⟨.ofNat 10, .noChange, .ppp, 1, none⟩] := by
    have hmeasures : Role.measuresOf (score rest) "P2" = [pause] := rfl
    rw [hmeasures]
    decide +kernel
  have hcompiled : Compiled Bridge.settings Bridge.pace (.ofNat 1) (score rest) [low events, high]
      (schedule time commands) := by
    refine ⟨?_, ?_, htime.symm, .cons ⟨rfl, hlow⟩ (.cons ⟨rfl, hhigh⟩ .nil)⟩
    · rw [hroles]
      exact List.cons_ne_nil _ _
    · rw [hroles]
      exact .cons (Role.timelines_singleton rfl hevents)
        (.cons (Role.timelines_singleton rfl hpause) .nil)
  exact Settings.convert_eq_of_compiled hcompiled

theorem convert_plain :
    Bridge.settings.convert Bridge.pace (.ofNat 1) (score []) = .ok plain :=
  convert_eq (opened ++ [⟨.ofNat 10, .noChange, .ppp, 1, none⟩]) (by decide +kernel)
    (axis_of_perm [.ofNat 0, .ofNat 0, .ofNat 4, .ofNat 10, .ofNat 10] (by decide +kernel)
      (by decide +kernel) (by decide +kernel) (by decide +kernel))
    (by decide +kernel) (by decide +kernel)

theorem convert_prolonged :
    Bridge.settings.convert Bridge.pace (.ofNat 1) (score [encore]) = .ok prolonged :=
  convert_eq (opened ++ [⟨.ofNat 10, .release, .p, 2, some 0⟩,
      ⟨.ofNat 15, .noChange, .p, 2, none⟩]) (by decide +kernel)
    (axis_of_perm [.ofNat 0, .ofNat 0, .ofNat 4, .ofNat 10, .ofNat 10, .ofNat 15]
      (by decide +kernel) (by decide +kernel) (by decide +kernel) (by decide +kernel))
    (by decide +kernel) (by decide +kernel)

/-- The hold behind the reversed rest joins the tick of the first one. -/
theorem convert_rewound :
    Bridge.settings.convert Bridge.pace (.ofNat 1) (score [rewinding]) = .ok rewound :=
  convert_eq (opened ++ [⟨.ofNat 10, .release, .p, 2, some 0⟩,
      ⟨.ofNat 3, .noChange, .ppp, 2, some 1⟩, ⟨.ofNat 13, .noChange, .ppp, 2, none⟩])
    (by decide +kernel)
    (axis_of_perm [.ofNat 0, .ofNat 0, .ofNat 3, .ofNat 4, .ofNat 10, .ofNat 10, .ofNat 13]
      (by decide +kernel) (by decide +kernel) (by decide +kernel) (by decide +kernel))
    (by decide +kernel) (by decide +kernel)

/-- However the first part goes on, both parts begin with the shared measures. -/
theorem measuresOf_score (rest : List Measure) : ∀ part ∈ Bridge.settings.assignments.keys,
    Role.measuresOf (score rest) part = shared part ++ if part = "P1" then rest else [] := by
  have hkeys : Bridge.settings.assignments.keys = ["P1", "P2"] := by decide
  intro part hpart
  rw [hkeys] at hpart
  rcases List.mem_cons.mp hpart with rfl | hpart
  · rfl
  · obtain rfl := List.mem_singleton.mp hpart
    rfl

theorem firstEnd?_eq : Bridge.settings.firstEnd? shared = some (.ofNat 10) := by decide +kernel

theorem continues_score (rest : List Measure) (h : ∀ m ∈ rest, m.Forwards) :
    (score rest).Continues Bridge.settings shared := by
  intro part hpart
  refine ⟨_, measuresOf_score rest part hpart, fun m hm => ?_⟩
  split at hm
  · exact h m hm
  · cases hm

end Conversion.Encore

namespace Settings

open Conversion

/-- The encore changes nothing in front of it. -/
theorem convert_causal_encore : Bridge.settings.pace = .ok Bridge.pace ∧
    (Encore.score []).Continues Bridge.settings Encore.shared ∧
    (Encore.score [Encore.encore]).Continues Bridge.settings Encore.shared ∧
    Bridge.settings.convert Bridge.pace (.ofNat 1) (Encore.score []) = .ok Encore.plain ∧
    Bridge.settings.convert Bridge.pace (.ofNat 1) (Encore.score [Encore.encore]) =
      .ok Encore.prolonged ∧
    Schedule.SameBefore (.ofNat 10) Encore.plain Encore.prolonged := by
  have hplain := Encore.continues_score [] (by decide)
  have hencore := Encore.continues_score [Encore.encore] (by decide)
  obtain ⟨c, hc, hsame⟩ := convert_causal Bridge.pace_eq hplain hencore Encore.convert_plain
    Encore.convert_prolonged
  obtain rfl : .ofNat 10 = c := Option.some.inj (Encore.firstEnd?_eq.symm.trans hc)
  exact ⟨Bridge.pace_eq, hplain, hencore, Encore.convert_plain, Encore.convert_prolonged, hsame⟩

/-- A note of negative length reaches back behind its measure: with the same shared measures, the
schedules already differ before these are over. -/
theorem convert_not_causal_backwards : Bridge.settings.pace = .ok Bridge.pace ∧
    Binary64.zero.le (.ofNat 1) = true ∧
    (∀ part ∈ Bridge.settings.assignments.keys,
      Encore.shared part <+: Role.measuresOf (Encore.score []) part ∧
      Encore.shared part <+: Role.measuresOf (Encore.score [Encore.rewinding]) part) ∧
    Bridge.settings.convert Bridge.pace (.ofNat 1) (Encore.score []) = .ok Encore.plain ∧
    Bridge.settings.convert Bridge.pace (.ofNat 1) (Encore.score [Encore.rewinding]) =
      .ok Encore.rewound ∧
    Bridge.settings.firstEnd? Encore.shared = some (.ofNat 10) ∧
    ¬ Schedule.SameBefore (.ofNat 10) Encore.plain Encore.rewound := by
  refine ⟨Bridge.pace_eq, by decide +kernel, fun part hpart => ?_, Encore.convert_plain,
    Encore.convert_rewound, Encore.firstEnd?_eq, fun hsame => ?_⟩
  · rw [Encore.measuresOf_score [] part hpart, Encore.measuresOf_score _ part hpart]
    exact ⟨List.prefix_append _ _, List.prefix_append _ _⟩
  · exact absurd hsame.time (by decide +kernel)

end Settings
end Bellows
