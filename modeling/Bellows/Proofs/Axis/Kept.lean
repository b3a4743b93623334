import Bellows.Proofs.Axis.Sharing

/-! Ticks that are kept apart. Where further times put no tick of an axis together with the next
one, what is held at the ticks of the axis is held at ticks of the larger one too, also of events
that are not in order. -/
namespace Bellows.Axis

variable {tolerance t c : Binary64} {times more ticks own shared : List Binary64}
  {events : List Event} {e : Event} {i j k : Nat}

/-- A tick that is last on its axis, or has a tick of the other axis behind it that is not behind
its successor. -/
def Kept (own shared : List Binary64) (j : Nat) : Prop :=
  ∀ hj : j + 1 < own.length, ∃ c ∈ shared, own[j].lt c = true ∧ c.le own[j + 1] = true

instance (own shared : List Binary64) (j : Nat) : Decidable (Kept own shared j) := by
  unfold Kept
  infer_instance

/-- Nothing is held where nothing has landed. -/
theorem held_eq_none (h : ∀ i ≤ k, landingOn ticks events i = []) : held ticks events k = none := by
  induction k with
  | zero => rw [held_zero, h 0 (Nat.le_refl 0), List.getLast?_nil]
  | succ k ih =>
    rw [held_succ, h (k + 1) (Nat.le_refl _), ih fun i hi => h i (Nat.le_succ_of_le hi)]
    rfl

/-- What is held stays the same as long as nothing lands. -/
theorem held_eq_of_le (hjk : j ≤ k) (h : ∀ i, j < i → i ≤ k → landingOn ticks events i = []) :
    held ticks events k = held ticks events j := by
  induction k, hjk using Nat.le_induction with
  | base => rfl
  | succ k hjk ih =>
    rw [held_succ, h (k + 1) (Nat.lt_succ_of_le hjk) (Nat.le_refl _),
      ih fun i hji hik => h i hji (Nat.le_succ_of_le hik)]
    rfl

/-- Events that land in the same order on two axes: the ticks up to `j` have places of their own,
and what lands behind them on one axis lands behind their places on the other. -/
structure Placed (own shared : List Binary64) (events : List Event) (place : Nat → Nat) (j : Nat) :
    Prop where
  lands : ∀ e ∈ events, reached shared e.start - 1 = place (reached own e.start - 1)
  step : ∀ i < j, place i < place (i + 1)
  behind : ∀ e ∈ events, ∀ i ≤ j, i < reached own e.start - 1 → place i < reached shared e.start - 1

namespace Placed

variable {place : Nat → Nat}

theorem mono (h : Placed own shared events place j) (hij : i ≤ j) :
    Placed own shared events place i :=
  ⟨h.lands, fun k hk => h.step k (Nat.lt_of_lt_of_le hk hij),
    fun e he k hk => h.behind e he k (Nat.le_trans hk hij)⟩

theorem place_le (h : Placed own shared events place j) (hij : i ≤ j) : place i ≤ place j := by
  induction j, hij using Nat.le_induction with
  | base => exact Nat.le_refl _
  | succ j hij ih =>
    have hle := ih (h.mono (Nat.le_succ j))
    have hlt := h.step j (Nat.lt_succ_self j)
    omega

/-- An event that has landed before a tick lands before its place. -/
theorem before (h : Placed own shared events place j) (he : e ∈ events)
    (hlt : reached own e.start - 1 < j) : reached shared e.start - 1 < place j := by
  have hlands := h.lands e he
  have hstep := h.step _ hlt
  have hnext : place (reached own e.start - 1 + 1) ≤ place j := h.place_le hlt
  omega

/-- What lands on a place is what lands on its tick. -/
theorem landingOn_eq (h : Placed own shared events place j) :
    landingOn shared events (place j) = landingOn own events j := by
  refine List.filter_congr fun e he => ?_
  rw [decide_eq_decide]
  rcases Nat.lt_trichotomy (reached own e.start - 1) j with hlt | heq | hgt
  · have := h.before he hlt
    omega
  · rw [h.lands e he, heq]
    exact iff_of_true rfl rfl
  · have := h.behind e he j (Nat.le_refl j) hgt
    omega

/-- Nothing lands in front of the place of the first tick. -/
theorem landingOn_before (h : Placed own shared events place j) (hk : k < place 0) :
    landingOn shared events k = [] := by
  refine List.filter_eq_nil_iff.mpr fun e he => ?_
  have hlands := h.lands e he
  rw [decide_eq_true_eq]
  rcases Nat.eq_zero_or_pos (reached own e.start - 1) with heq | hpos
  · rw [heq] at hlands
    omega
  · have := h.behind e he 0 (Nat.zero_le j) hpos
    omega

/-- Nothing lands between the places of two successive ticks. -/
theorem landingOn_between (h : Placed own shared events place (j + 1)) (hj : place j < k)
    (hk : k < place (j + 1)) : landingOn shared events k = [] := by
  refine List.filter_eq_nil_iff.mpr fun e he => ?_
  have hlands := h.lands e he
  rw [decide_eq_true_eq]
  rcases Nat.lt_trichotomy (reached own e.start - 1) (j + 1) with hlt | heq | hgt
  · have := (h.mono (Nat.le_succ j)).place_le (Nat.le_of_lt_succ hlt)
    omega
  · rw [heq] at hlands
    omega
  · have := h.behind e he (j + 1) (Nat.le_refl _) hgt
    omega

/-- The place of a tick holds what the tick holds. -/
theorem held_eq (h : Placed own shared events place j) :
    held shared events (place j) = held own events j := by
  induction j with
  | zero =>
    rw [held_zero, ← h.landingOn_eq]
    cases hplace : place 0 with
    | zero => exact held_zero shared events
    | succ k =>
      have hnone : held shared events k = none :=
        held_eq_none fun i hi => h.landingOn_before (by omega)
      rw [held_succ, hnone, Option.or_none]
  | succ j ih =>
    have hstep := h.step j (Nat.lt_succ_self j)
    rw [held_succ, ← h.landingOn_eq, ← ih (h.mono (Nat.le_succ j))]
    cases hplace : place (j + 1) with
    | zero => omega
    | succ k =>
      have hsame : held shared events k = held shared events (place j) :=
        held_eq_of_le (by omega) fun i hji hik => h.landingOn_between hji (by omega)
      rw [held_succ, hsame]

end Placed

/-- A tick that is kept apart has reached fewer ticks than its successor. -/
theorem reached_lt_of_kept (hshared : Ascending shared) (hi : i + 1 < own.length)
    (h : Kept own shared i) : reached shared own[i] < reached shared own[i + 1] := by
  obtain ⟨c, hc, hic, hci⟩ := h hi
  obtain ⟨m, hm, rfl⟩ := List.mem_iff_getElem.mp hc
  obtain ⟨hinan, hcnan, hirank⟩ := Binary64.lt_iff.mp hic
  obtain ⟨_, _, hcrank⟩ := Binary64.le_iff.mp hci
  have hbehind : ¬ m < reached shared own[i] := by
    intro hlt
    rcases Binary64.sortsBefore_iff.mp ((sortsBefore_iff_lt_reached hshared hm).mpr hlt) with
      hnan | ⟨_, hrank⟩
    · rw [hinan] at hnan
      cases hnan
    · omega
  have hbefore : m < reached shared own[i + 1] :=
    (sortsBefore_iff_lt_reached hshared hm).mp
      (Binary64.sortsBefore_iff.mpr (Or.inr ⟨hcnan, hcrank⟩))
  omega

/-- Every time has reached the first tick. -/
theorem reached_pos (hfin : ∀ t ∈ times, t.isFinite = true) (ht : t ∈ times) :
    0 < reached (ofTimes tolerance times) t := by
  have hsorted := ascending_mergeSort times
  have hmem : ∀ u, u ∈ times.mergeSort Binary64.sortsBefore ↔ u ∈ times :=
    fun _ => List.mem_mergeSort
  unfold ofTimes
  cases hcases : times.mergeSort Binary64.sortsBefore with
  | nil =>
    rw [hcases] at hmem
    cases (hmem t).mpr ht
  | cons c cs =>
    rw [hcases] at hsorted hmem
    have hc := (hmem c).mp List.mem_cons_self
    have hrank := head_rank_le hsorted ((hmem t).mpr ht) (hfin t ht)
    exact List.countP_pos_iff.mpr
      ⟨c, List.mem_cons_self, (Binary64.sortsBefore_iff_rank (hfin c hc) (hfin t ht)).mpr hrank⟩

/-- The place of a tick: the last tick of the larger axis that it has reached. -/
def placeOn (own shared : List Binary64) (i : Nat) : Nat :=
  reached shared (own[i]?.getD .nan) - 1

theorem placeOn_eq (hi : i < own.length) : placeOn own shared i = reached shared own[i] - 1 := by
  rw [placeOn, List.getElem?_eq_getElem hi, Option.getD_some]

section

variable (hsub : ∀ t ∈ times, t ∈ more) (hfin : ∀ t ∈ more, t.isFinite = true)
include hsub hfin

/-- Times of one run stay together on the larger axis: no tick comes between the first of them and
the others. -/
theorem reached_eq_of_run (hi : i < (ofTimes tolerance times).length) (ht : t ∈ times)
    (hrun : reached (ofTimes tolerance times) t = i + 1) :
    reached (ofTimes tolerance more) t =
      reached (ofTimes tolerance more) (ofTimes tolerance times)[i] := by
  have hfin' : ∀ u ∈ times, u.isFinite = true := fun u hu => hfin u (hsub u hu)
  have hown := ascending_ofTimes tolerance times
  have hshared := ascending_ofTimes tolerance more
  have hifin := hfin' _ (mem_of_mem_ofTimes (List.getElem_mem hi))
  apply Nat.le_antisymm
  · by_contra hlt
    have hbeyond := Nat.lt_of_not_le hlt
    -- the first tick that the time has reached and the head of its run has not
    generalize hk : reached (ofTimes tolerance more) (ofTimes tolerance times)[i] = k at hbeyond
    have hklen := Nat.lt_of_lt_of_le hbeyond (reached_le_length _ _)
    have hc := List.getElem_mem hklen
    have hcfin := hfin _ (mem_of_mem_ofTimes hc)
    have hct := (rank_le_iff_lt_reached hshared hklen hcfin (hfin' t ht)).mpr hbeyond
    have hic : ¬ (ofTimes tolerance more)[k].rank ≤ (ofTimes tolerance times)[i].rank := by
      intro hle
      have := (rank_le_iff_lt_reached hshared hklen hcfin hifin).mp hle
      omega
    obtain ⟨b, hb, hcb, hbt⟩ := exists_tick_between hfin' hcfin
      (fun u hu hlt => gap_of_mem_ofTimes hfin hc (hsub u hu) hlt) ht hct
    obtain ⟨m, hm, rfl⟩ := List.mem_iff_getElem.mp hb
    have hbfin := hfin' _ (mem_of_mem_ofTimes hb)
    have hmi := (rank_le_iff_lt_reached hown hm hbfin (hfin' t ht)).mp hbt
    rcases Nat.lt_or_eq_of_le (Nat.le_of_lt_succ (hrun ▸ hmi)) with hlt | rfl
    · have hle := (Binary64.sortsBefore_iff_rank hbfin hifin).mp
        (List.pairwise_iff_getElem.mp hown m i hm hi hlt)
      omega
    · omega
  · exact reached_mono ((sortsBefore_iff_lt_reached hown hi).mpr (by omega))

/-- Where the ticks up to some tick are kept apart, their places are places of their own. -/
theorem placed_of_kept (hevents : ∀ e ∈ events, e.start ∈ times)
    (hj : j < (ofTimes tolerance times).length)
    (h : ∀ i ≤ j, Kept (ofTimes tolerance times) (ofTimes tolerance more) i) :
    Placed (ofTimes tolerance times) (ofTimes tolerance more) events
      (placeOn (ofTimes tolerance times) (ofTimes tolerance more)) j := by
  have hown := ascending_ofTimes tolerance times
  have hshared := ascending_ofTimes tolerance more
  have hlen := fun e : Event => reached_le_length (ofTimes tolerance times) e.start
  have hfirst : ∀ i (hi : i < (ofTimes tolerance times).length),
      0 < reached (ofTimes tolerance more) (ofTimes tolerance times)[i] := fun i hi =>
    reached_pos hfin (hsub _ (mem_of_mem_ofTimes (List.getElem_mem hi)))
  constructor
  · intro e he
    have hpos : 0 < reached (ofTimes tolerance times) e.start :=
      reached_pos (fun u hu => hfin u (hsub u hu)) (hevents e he)
    have hi : reached (ofTimes tolerance times) e.start - 1 < (ofTimes tolerance times).length := by
      have := hlen e
      omega
    rw [placeOn_eq hi, reached_eq_of_run hsub hfin hi (hevents e he) (by omega)]
  · intro i hij
    have hi : i + 1 < (ofTimes tolerance times).length := by omega
    have hstep := reached_lt_of_kept hshared hi (h i (Nat.le_of_lt hij))
    have hpos := hfirst i (by omega)
    rw [placeOn_eq (Nat.lt_of_succ_lt hi), placeOn_eq hi]
    omega
  · intro e he i hij hlt
    have hi : i + 1 < (ofTimes tolerance times).length := by
      have := hlen e
      omega
    have hstep := reached_lt_of_kept hshared hi (h i hij)
    have hpos := hfirst i (by omega)
    have hlate : reached (ofTimes tolerance more) (ofTimes tolerance times)[i + 1] ≤
        reached (ofTimes tolerance more) e.start :=
      reached_mono ((sortsBefore_iff_lt_reached hown hi).mpr (by omega))
    rw [placeOn_eq (Nat.lt_of_succ_lt hi)]
    omega

/-- A tick that is kept apart with all ticks before it has its events held at its place. -/
theorem held_of_kept (hevents : ∀ e ∈ events, e.start ∈ times)
    (hj : j < (ofTimes tolerance times).length)
    (h : ∀ i ≤ j, Kept (ofTimes tolerance times) (ofTimes tolerance more) i) :
    held (ofTimes tolerance more) events
        (placeOn (ofTimes tolerance times) (ofTimes tolerance more) j) =
      held (ofTimes tolerance times) events j :=
  (placed_of_kept hsub hfin hevents hj h).held_eq

end

section

variable (hown : Increasing own) (hshared : Increasing shared) (hhead : own.head? = shared.head?)
include hown hshared hhead

/-- The last tick before a tick of the other axis, or before its end, is kept apart. -/
theorem kept_of_tickBefore_eq (h : tickBefore own shared[k + 1]? = j) : Kept own shared j := by
  intro hj
  cases hnext : shared[k + 1]? with
  | none =>
    rw [hnext, tickBefore] at h
    omega
  | some c =>
    rw [hnext] at h
    have hfirst := exists_head_lt hshared hhead hnext
    have hbefore : own[j].lt c = true :=
      (lt_iff_le_tickBefore hown hfirst (Nat.lt_of_succ_lt hj)).mpr (Nat.le_of_eq h.symm)
    have hbehind : ¬ own[j + 1].lt c = true := by
      rw [lt_iff_le_tickBefore hown hfirst hj, h]
      exact Nat.not_succ_le_self j
    have hcnan := (Binary64.lt_iff.mp hbefore).2.1
    have hnan := hown.isNan_succ (List.getElem?_eq_getElem hj)
    rw [Binary64.lt_iff] at hbehind
    exact ⟨c, List.mem_of_getElem? hnext, hbefore,
      Binary64.le_iff.mpr ⟨hcnan, hnan, Int.not_lt.mp fun hlt => hbehind ⟨hnan, hcnan, hlt⟩⟩⟩

/-- A tick that is kept apart is the last one before a tick of the other axis, or before its end. -/
theorem exists_tickBefore_eq (hj : j < own.length) (h : Kept own shared j) :
    ∃ k < shared.length, tickBefore own shared[k + 1]? = j := by
  by_cases hlast : j + 1 < own.length
  · obtain ⟨c, hc, hjc, hcj⟩ := h hlast
    obtain ⟨m, hm, rfl⟩ := List.mem_iff_getElem.mp hc
    obtain ⟨_, _, hcrank⟩ := Binary64.le_iff.mp hcj
    cases m with
    | zero =>
      -- the first tick of the other axis is the first of this one, and no tick lies before it
      have hsame : own[0] = shared[0] := by
        rw [List.head?_eq_getElem?, List.head?_eq_getElem?, List.getElem?_eq_getElem (by omega),
          List.getElem?_eq_getElem hm] at hhead
        exact Option.some.inj hhead
      rw [← hsame] at hjc
      obtain ⟨_, _, hlt⟩ := Binary64.lt_iff.mp hjc
      have hle := hown.rank_le (Nat.zero_le j) hj
      omega
    | succ k =>
      have hnext : shared[k + 1]? = some shared[k + 1] := List.getElem?_eq_getElem hm
      have hfirst := exists_head_lt hshared hhead hnext
      have hle := (lt_iff_le_tickBefore hown hfirst hj).mp hjc
      have hnot : ¬ j + 1 ≤ tickBefore own (some shared[k + 1]) := by
        intro hle
        obtain ⟨_, _, hlt⟩ := Binary64.lt_iff.mp ((lt_iff_le_tickBefore hown hfirst hlast).mpr hle)
        omega
      refine ⟨k, by omega, ?_⟩
      rw [hnext]
      omega
  · have hpos : 0 < shared.length := by
      refine List.length_pos_iff.mpr fun hnil => ?_
      rw [hnil, List.head?_nil, List.head?_eq_none_iff] at hhead
      rw [hhead] at hj
      cases hj
    refine ⟨shared.length - 1, by omega, ?_⟩
    rw [List.getElem?_eq_none (by omega), tickBefore]
    omega

end

end Bellows.Axis
