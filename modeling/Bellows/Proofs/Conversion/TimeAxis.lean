import Bellows.Proofs.Conversion.Outcome

/-! The time axis of a schedule: it begins at zero, holds only finite times, and leaves more than
the tolerance between its ticks. -/
namespace Bellows

namespace Conversion

variable {x : Binary64}

theorem mem_starts {ts : List RoleTimelines} :
    x ∈ starts ts ↔ ∃ t ∈ ts, ∃ p ∈ t.ports, ∃ e ∈ p.events, e.start = x := by
  unfold starts
  rw [List.mem_map]
  constructor
  · rintro ⟨e, he, rfl⟩
    obtain ⟨events, hevents, he⟩ := List.mem_flatten.mp he
    obtain ⟨t, ht, hevents⟩ := List.mem_flatMap.mp hevents
    obtain ⟨p, hp, rfl⟩ := List.mem_map.mp hevents
    exact ⟨t, ht, p, hp, e, he, rfl⟩
  · rintro ⟨t, ht, p, hp, e, he, rfl⟩
    have hevents : p.events ∈ ts.flatMap fun t => t.ports.map PortTimeline.events :=
      List.mem_flatMap.mpr ⟨t, ht, List.mem_map_of_mem hp⟩
    exact ⟨e, List.mem_flatten.mpr ⟨p.events, hevents, he⟩, rfl⟩

/-- Timelines of roles that can be played on a score. -/
def Played (pace : Pace) (score : Score) (ts : List RoleTimelines) : Prop :=
  ∀ t ∈ ts, ∃ r : Role, r.timelines pace score = .ok t

theorem Surveyed.played {pace : Pace} {score : Score} {roles : List Role} {s : Survey}
    (h : Surveyed pace score roles s) : Played pace score s.playable := by
  intro t ht
  obtain ⟨r, _, hrt⟩ := exists_left_of_mem h.playable ht
  exact ⟨r, hrt⟩

/-- Time runs forwards in the parts of some roles. -/
def RunsForwards (score : Score) (ts : List RoleTimelines) : Prop :=
  ∀ t ∈ ts, ∀ p ∈ t.ports, ∀ m ∈ Role.measuresOf score p.part, m.Forwards

theorem runsForwards_of_regular {score : Score} (h : score.Regular) (ts : List RoleTimelines) :
    RunsForwards score ts :=
  fun _ _ p _ _ hm => (Role.regular_measuresOf h p.part hm).forwards

theorem RunsForwards.singleton {score : Score} {ts : List RoleTimelines} {t : RoleTimelines}
    (h : RunsForwards score ts) (ht : t ∈ ts) : RunsForwards score [t] :=
  fun _ hu => List.mem_singleton.mp hu ▸ h t ht

namespace Played

/-- Whatever the measures of a score are like, its events start at finite times. -/
theorem isFinite_starts {settings : Settings} {pace : Pace} {score : Score}
    {ts : List RoleTimelines} (h : Played pace score ts) (hpace : settings.pace = .ok pace) :
    ∀ x ∈ starts ts, x.isFinite = true := by
  intro x hx
  obtain ⟨t, ht, p, hp, e, he, rfl⟩ := mem_starts.mp hx
  obtain ⟨r, hrt⟩ := h t ht
  obtain ⟨m, _, hd⟩ := Role.exists_member hrt hp
  exact Pace.isFinite_of_mem_events (Settings.tempo_of_pace hpace) hd.events he

variable {settings : Settings} {pace : Pace} {tolerance : Binary64} {score : Score}
  {ts : List RoleTimelines} {t : RoleTimelines} {p : PortTimeline}
  (h : Played pace score ts) (hforwards : RunsForwards score ts)
  (hpace : settings.pace = .ok pace)
include h hforwards hpace

/-- Every event list of a role comes from a part, with its pin. -/
theorem pinned (ht : t ∈ ts) (hp : p ∈ t.ports) : Event.Pinned p.events := by
  obtain ⟨r, hrt⟩ := h t ht
  exact Role.pinned_of_timelines (Settings.tempo_of_pace hpace) settings.bpm_pos hrt hp
    (hforwards t ht p hp)

/-- Every role has at least one part, and with it a start at zero. -/
theorem zero_mem_starts (hts : ts ≠ []) : .zero ∈ starts ts := by
  obtain ⟨t, ht⟩ := List.exists_mem_of_ne_nil ts hts
  obtain ⟨r, hrt⟩ := h t ht
  obtain ⟨p, hp⟩ := List.exists_mem_of_ne_nil _ (Role.ports_ne_nil hrt)
  obtain ⟨e, hhead, hstart⟩ := (h.pinned hforwards hpace ht hp).head
  exact mem_starts.mpr ⟨t, ht, p, hp, e, List.mem_of_head? hhead, hstart⟩

theorem unsigned_of_mem_starts (hx : x ∈ starts ts) : x.Unsigned := by
  obtain ⟨t, ht, p, hp, e, he, rfl⟩ := mem_starts.mp hx
  exact (h.pinned hforwards hpace ht hp).unsigned e he

theorem isFinite_of_mem_starts (hx : x ∈ starts ts) : x.isFinite = true :=
  (h.unsigned_of_mem_starts hforwards hpace hx).isFinite

theorem head?_axis (tolerance : Binary64) (hts : ts ≠ []) :
    (axis tolerance ts).head? = some .zero := by
  rw [axis_eq_ofTimes]
  exact Axis.head?_ofTimes tolerance (h.zero_mem_starts hforwards hpace hts)
    fun _ => h.unsigned_of_mem_starts hforwards hpace

theorem axis_ne_nil (tolerance : Binary64) (hts : ts ≠ []) : axis tolerance ts ≠ [] := by
  intro hnil
  have hhead := h.head?_axis hforwards hpace tolerance hts
  rw [hnil] at hhead
  cases hhead

theorem increasing_axis (htolerance : Binary64.zero.le tolerance = true) :
    Axis.Increasing (axis tolerance ts) := by
  rw [axis_eq_ofTimes]
  exact Axis.increasing_ofTimes htolerance fun _ => h.isFinite_of_mem_starts hforwards hpace

end Played

end Conversion

namespace Conversion.Compiled

variable {settings : Settings} {pace : Pace} {tolerance : Binary64} {score : Score}
  {schedule : Schedule} {ts : List RoleTimelines} {t : RoleTimelines} {p : PortTimeline}
  {x : Binary64} (h : Compiled settings pace tolerance score ts schedule)
include h

theorem played : Played pace score ts := by
  intro t ht
  obtain ⟨r, _, hrt⟩ := exists_left_of_mem h.timelines ht
  exact ⟨r, hrt⟩

theorem ne_nil : ts ≠ [] := by
  rintro rfl
  exact h.roles_ne_nil (List.forall₂_nil_right_iff.mp h.timelines)

variable (hscore : score.Regular) (hpace : settings.pace = .ok pace)
include hscore hpace

theorem pinned (ht : t ∈ ts) (hp : p ∈ t.ports) : Event.Pinned p.events :=
  h.played.pinned (runsForwards_of_regular hscore ts) hpace ht hp

theorem unsigned_of_mem_time (hx : x ∈ schedule.time) : x.Unsigned := by
  rw [h.time, axis_eq_ofTimes] at hx
  exact h.played.unsigned_of_mem_starts (runsForwards_of_regular hscore ts) hpace
    (Axis.mem_of_mem_ofTimes hx)

theorem head?_time : schedule.time.head? = some .zero := by
  rw [h.time]
  exact h.played.head?_axis (runsForwards_of_regular hscore ts) hpace tolerance h.ne_nil

theorem time_ne_nil : schedule.time ≠ [] := by
  rw [h.time]
  exact h.played.axis_ne_nil (runsForwards_of_regular hscore ts) hpace tolerance h.ne_nil

/-- Consecutive ticks lie more than the tolerance apart. -/
theorem isChain_time : List.IsChain (Axis.Gap tolerance) schedule.time := by
  rw [h.time, axis_eq_ofTimes]
  exact Axis.isChain_ofTimes fun _ =>
    h.played.isFinite_of_mem_starts (runsForwards_of_regular hscore ts) hpace

theorem increasing_time (htolerance : Binary64.zero.le tolerance = true) :
    Axis.Increasing schedule.time := by
  rw [h.time]
  exact h.played.increasing_axis (runsForwards_of_regular hscore ts) hpace htolerance

end Conversion.Compiled
end Bellows
