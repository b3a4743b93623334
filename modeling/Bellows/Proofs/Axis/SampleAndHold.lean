import Bellows.Proofs.Axis.Landing

/-! Sample and hold: at each tick the event that landed last goes on. -/
namespace Bellows.Axis

variable {ticks : List Binary64} {events : List Event} {k : Nat}

/-- The events that land on a tick, in list order. -/
def landingOn (ticks : List Binary64) (events : List Event) (k : Nat) : List Event :=
  events.filter fun e => reached ticks e.start - 1 = k

/-- The last event on the last tick up to `k` on which any event lands. -/
def held (ticks : List Binary64) (events : List Event) (k : Nat) : Option Event :=
  ((List.range (k + 1)).filterMap fun j => (landingOn ticks events j).getLast?).getLast?

theorem held_zero (ticks : List Binary64) (events : List Event) :
    held ticks events 0 = (landingOn ticks events 0).getLast? := by
  rw [held, List.range_one, List.filterMap_cons]
  cases (landingOn ticks events 0).getLast? <;> rfl

theorem held_succ (ticks : List Binary64) (events : List Event) (k : Nat) :
    held ticks events (k + 1) =
      (landingOn ticks events (k + 1)).getLast?.or (held ticks events k) := by
  unfold held
  rw [List.range_succ, List.filterMap_append, List.getLast?_append, List.filterMap_cons]
  cases (landingOn ticks events (k + 1)).getLast? <;> rfl

/-- Writing values into slots leaves in each slot the last value for it. -/
theorem foldl_setIfInBounds {α : Type} (landed : List (Nat × α)) (slots : Array (Option α))
    (before : Option α) (h : slots[k]? = some before) :
    (landed.foldl (fun slots l => slots.setIfInBounds l.1 (some l.2)) slots)[k]? =
      some (((landed.filter fun l => l.1 = k).map Prod.snd).getLast?.or before) := by
  induction landed generalizing slots before with
  | nil => exact h
  | cons l rest ih =>
    have hk : k < slots.size := (Array.getElem?_eq_some_iff.mp h).1
    by_cases hl : l.1 = k
    · rw [List.foldl_cons, ih _ (some l.2) (by rw [hl, Array.getElem?_setIfInBounds_self_of_lt hk]),
        List.filter_cons_of_pos (by simpa using hl), List.map_cons, List.getLast?_cons]
      cases ((rest.filter fun l => l.1 = k).map Prod.snd).getLast? <;> rfl
    · rw [List.foldl_cons, ih _ before (by rw [Array.getElem?_setIfInBounds_ne hl, h]),
        List.filter_cons_of_neg (by simpa using hl)]

theorem size_foldl_setIfInBounds {α : Type} (landed : List (Nat × α)) (slots : Array (Option α)) :
    (landed.foldl (fun slots l => slots.setIfInBounds l.1 (some l.2)) slots).size = slots.size := by
  induction landed generalizing slots with
  | nil => rfl
  | cons l rest ih => rw [List.foldl_cons, ih, Array.size_setIfInBounds]

/-- The events of a list, each behind the place of the tick that it lands on. -/
def landed (ticks : List Binary64) (events : List Event) : List (Nat × Event) :=
  (landings ticks.toArray (events.map Event.start)).zip events

theorem landed_eq (h : Ascending ticks) (events : List Event) :
    landed ticks events = events.map fun e => (reached ticks e.start - 1, e) := by
  rw [landed, landings_eq h, List.map_map]
  induction events with
  | nil => rfl
  | cons e es ih => exact congrArg _ ih

/-- One event after another takes the slot of the tick that it lands on. -/
theorem slots_eq_foldl (ticks : List Binary64) (events : List Event) :
    slots ticks.toArray events =
      (landed ticks events).foldl (fun slots l => slots.setIfInBounds l.1 (some l.2))
        (Array.replicate ticks.length none) := rfl

theorem slots_eq (h : Ascending ticks) (events : List Event) :
    (slots ticks.toArray events).toList =
      (List.range ticks.length).map fun k => (landingOn ticks events k).getLast? := by
  apply List.ext_getElem?
  intro k
  rw [Array.getElem?_toList, slots_eq_foldl, landed_eq h]
  by_cases hk : k < ticks.length
  · rw [foldl_setIfInBounds _ _ none (by simp [hk])]
    simp [hk, landingOn, List.filter_map, Function.comp_def]
  · rw [Array.getElem?_eq_none (by rw [size_foldl_setIfInBounds]; simpa using hk),
      List.getElem?_eq_none (by simpa using hk)]

/-- What is carried to a tick is the last event up to it. -/
theorem carry_getElem? (current : Event) (l : List (Binary64 × Option Event)) (k : Nat) :
    (carry current l)[k]? = l[k]?.map fun p =>
      ((((l.map Prod.snd).take (k + 1)).filterMap id).getLast?.getD current).at p.1 := by
  induction l generalizing current k with
  | nil => simp [carry]
  | cons p rest ih =>
    obtain ⟨tick, slot⟩ := p
    cases k with
    | zero => cases slot <;> simp [carry]
    | succ k =>
      rw [carry, List.getElem?_cons_succ, ih, List.getElem?_cons_succ, List.map_cons,
        List.take_succ_cons, List.filterMap_cons]
      cases slot with
      | none => rfl
      | some e => simp only [id, Option.getD_some, List.getLast?_cons]

/-- Each tick takes over the event that is held there, or the idle one. -/
theorem resample_eq (h : Ascending ticks) (events : List Event) :
    resample events ticks =
      ticks.mapIdx fun k tick => ((held ticks events k).getD .idle).at tick := by
  apply List.ext_getElem?
  intro k
  rw [resample, carry_getElem?, slots_eq h]
  by_cases hk : k < ticks.length
  · rw [List.map_snd_zip (by simp), ← List.map_take, List.take_range,
      Nat.min_eq_left (Nat.succ_le_of_lt hk), List.filterMap_map]
    simp [hk, held]
  · simp [hk]

/-- In a list sorted by a key, the entries of the next key follow those of all smaller ones. -/
theorem filter_le_succ {α : Type} {key : α → Nat} {l : List α}
    (h : l.Pairwise fun a b => key a ≤ key b) (k : Nat) :
    l.filter (key · ≤ k + 1) = l.filter (key · ≤ k) ++ l.filter (key · = k + 1) := by
  induction l with
  | nil => rfl
  | cons a rest ih =>
    obtain ⟨hhead, hrest⟩ := List.pairwise_cons.mp h
    by_cases ha : key a ≤ k
    · rw [List.filter_cons_of_pos (by simp; omega), List.filter_cons_of_pos (by simpa using ha),
        List.filter_cons_of_neg (by simp; omega), ih hrest, List.cons_append]
    · have hbeyond : ∀ b ∈ a :: rest, k < key b := by
        intro b hb
        rcases List.mem_cons.mp hb with rfl | hb
        · omega
        · have := hhead b hb
          omega
      have hnone : (a :: rest).filter (key · ≤ k) = [] := by
        rw [List.filter_eq_nil_iff]
        intro b hb
        have := hbeyond b hb
        simp only [decide_eq_true_eq]
        omega
      rw [hnone, List.nil_append]
      refine List.filter_congr fun b hb => ?_
      have := hbeyond b hb
      simp only [decide_eq_decide]
      omega

/-- Events in the order of their starts. -/
def InOrder (events : List Event) : Prop :=
  events.Pairwise fun a b => a.start.sortsBefore b.start = true

instance (events : List Event) : Decidable (InOrder events) := by
  unfold InOrder
  infer_instance

/-- Where the events are in order, what is held is the last event that has landed so far. -/
theorem held_of_inOrder (hevents : InOrder events) (k : Nat) :
    held ticks events k = (events.filter fun e => reached ticks e.start - 1 ≤ k).getLast? := by
  have hsorted : events.Pairwise fun a b =>
      reached ticks a.start - 1 ≤ reached ticks b.start - 1 :=
    hevents.imp fun hab => Nat.sub_le_sub_right (reached_mono hab) 1
  induction k with
  | zero => simp only [held_zero, landingOn, Nat.le_zero]
  | succ k ih =>
    rw [held_succ, ih, filter_le_succ hsorted, List.getLast?_append]
    rfl

/-- The last event that starts strictly before a moment; without a moment, the last one of all. -/
def lastBefore (events : List Event) : Option Binary64 → Option Event
  | some t => (events.filter fun e => e.start.lt t).getLast?
  | none => events.getLast?

/-- Where the events are in order, a tick holds the last event that starts before the next tick. -/
theorem held_eq_lastBefore (h : Ascending ticks) (hevents : InOrder events)
    (hnext : ∀ t, ticks[k + 1]? = some t → t.isNan = false) :
    held ticks events k = lastBefore events ticks[k + 1]? := by
  rw [held_of_inOrder hevents]
  cases hk : ticks[k + 1]? with
  | some t =>
    obtain ⟨hlt, rfl⟩ := List.getElem?_eq_some_iff.mp hk
    refine congrArg _ (List.filter_congr fun e _ => ?_)
    rw [Binary64.lt_eq_not_sortsBefore (hnext _ hk), Bool.eq_iff_iff, Bool.not_eq_true',
      ← Bool.not_eq_true, sortsBefore_iff_lt_reached h hlt, decide_eq_true_eq]
    omega
  | none =>
    have hlen := List.getElem?_eq_none_iff.mp hk
    refine congrArg _ (List.filter_eq_self.mpr fun e _ => ?_)
    have := reached_le_length ticks e.start
    simp only [decide_eq_true_eq]
    omega

end Bellows.Axis
