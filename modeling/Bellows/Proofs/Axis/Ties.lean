import Bellows.Proofs.Axis.Gaps
import Bellows.Proofs.Axis.SampleAndHold

/-! Axes with the same ticks up to the sign of a zero. The axis of some times is such a one whatever
their order is, and the same events are held on it. -/
namespace Bellows

namespace Binary64

variable {x y : Binary64}

theorem same_iff : x.same y = true ↔ x.isNan = false ∧ y.isNan = false ∧ x.rank = y.rank := by
  simp [same, and_assoc]

theorem same_of_rank_eq (hx : x.isFinite = true) (hy : y.isFinite = true) (h : x.rank = y.rank) :
    x.same y = true := same_iff.mpr ⟨isNan_of_isFinite hx, isNan_of_isFinite hy, h⟩

/-- Sorting does not tell the two zeros apart. -/
theorem sortsBefore_eq_of_same (h : x.same y = true) (z : Binary64) :
    x.sortsBefore z = y.sortsBefore z := by
  obtain ⟨hx, hy, hrank⟩ := same_iff.mp h
  rw [sortsBefore, sortsBefore, hx, hy, hrank]

/-- Without signs there is only one zero. -/
theorem Unsigned.eq_of_same (hx : x.Unsigned) (hy : y.Unsigned) (h : x.same y = true) : x = y := by
  obtain ⟨m, hm, rfl⟩ := hx
  obtain ⟨n, hn, rfl⟩ := hy
  have hrank : (m : Int) = n := (same_iff.mp h).2.2
  obtain rfl : m = n := Int.ofNat.inj hrank
  rfl

/-- Nor does a tolerance tell them apart. -/
theorem lt_sub_eq {x' y' : Binary64} (tolerance : Binary64) (hx : x.isFinite = true)
    (hx' : x'.isFinite = true) (hy : y.isFinite = true) (hy' : y'.isFinite = true)
    (hxx : x.rank = x'.rank) (hyy : y.rank = y'.rank) :
    tolerance.lt (y.sub x) = tolerance.lt (y'.sub x') := by
  rw [lt, lt, rank_sub hy hx, rank_sub hy' hx', isNan_sub hy hx, isNan_sub hy' hx', hxx, hyy]

end Binary64

namespace Axis

/-- The same ticks, where a zero may have another sign. -/
def SameTicks (ticks ticks' : List Binary64) : Prop :=
  List.Forall₂ (fun a b => a.same b = true) ticks ticks'

variable {tolerance : Binary64} {ticks ticks' times times' : List Binary64} {events : List Event}

theorem reached_eq_of_sameTicks (h : SameTicks ticks ticks') (t : Binary64) :
    reached ticks t = reached ticks' t := by
  unfold reached
  induction h with
  | nil => rfl
  | cons hab _ ih =>
    rw [List.countP_cons, List.countP_cons, ih, Binary64.sortsBefore_eq_of_same hab]

/-- On the same ticks the same events are held. -/
theorem held_eq_of_sameTicks (h : SameTicks ticks ticks') (events : List Event) (k : Nat) :
    held ticks events k = held ticks' events k := by
  unfold held landingOn
  simp only [reached_eq_of_sameTicks h]

theorem eq_of_sameTicks (h : SameTicks ticks ticks') (hticks : ∀ t ∈ ticks, t.Unsigned)
    (hticks' : ∀ t ∈ ticks', t.Unsigned) : ticks = ticks' := by
  induction h with
  | nil => rfl
  | @cons a b _ _ hab _ ih =>
    rw [(hticks a List.mem_cons_self).eq_of_same (hticks' b List.mem_cons_self) hab,
      ih (fun t ht => hticks t (List.mem_cons_of_mem _ ht))
        fun t ht => hticks' t (List.mem_cons_of_mem _ ht)]

/-- Two finite times of one rank. -/
def Level (a b : Binary64) : Prop := a.isFinite = true ∧ b.isFinite = true ∧ a.rank = b.rank

theorem sameTicks_gapsFrom {previous previous' : Binary64} (hprevious : Level previous previous')
    (h : List.Forall₂ Level times times') :
    SameTicks (gapsFrom tolerance previous times) (gapsFrom tolerance previous' times') := by
  induction h generalizing previous previous' with
  | nil => exact .nil
  | @cons a b _ _ hab _ ih =>
    have hgap := Binary64.lt_sub_eq tolerance hprevious.1 hprevious.2.1 hab.1 hab.2.1
      hprevious.2.2 hab.2.2
    unfold gapsFrom
    rw [hgap]
    split
    · exact .cons (Binary64.same_of_rank_eq hab.1 hab.2.1 hab.2.2) (ih hab)
    · exact ih hab

theorem sameTicks_runHeads (h : List.Forall₂ Level times times') :
    SameTicks (runHeads tolerance times) (runHeads tolerance times') := by
  cases h with
  | nil => exact .nil
  | cons hab hrest =>
    exact .cons (Binary64.same_of_rank_eq hab.1 hab.2.1 hab.2.2) (sameTicks_gapsFrom hab hrest)

/-- Finite times with the same ranks one by one. -/
theorem level_of_map_rank_eq (hfin : ∀ t ∈ times, t.isFinite = true)
    (hfin' : ∀ t ∈ times', t.isFinite = true)
    (h : times.map Binary64.rank = times'.map Binary64.rank) : List.Forall₂ Level times times' := by
  rw [← List.forall₂_eq_eq_eq, List.forall₂_map_left_iff, List.forall₂_map_right_iff,
    List.forall₂_iff_zip] at h
  refine List.forall₂_iff_zip.mpr ⟨h.1, fun hzip => ?_⟩
  obtain ⟨ha, hb⟩ := List.of_mem_zip hzip
  exact ⟨hfin _ ha, hfin' _ hb, h.2 hzip⟩

theorem sameTicks_of_level (h : List.Forall₂ Level ticks ticks') : SameTicks ticks ticks' :=
  h.imp fun _ _ hab => Binary64.same_of_rank_eq hab.1 hab.2.1 hab.2.2

/-- Finite times in another order are sorted into times of the same ranks. -/
theorem level_mergeSort (hperm : times.Perm times') (hfin : ∀ t ∈ times, t.isFinite = true) :
    List.Forall₂ Level (times.mergeSort Binary64.sortsBefore)
      (times'.mergeSort Binary64.sortsBefore) := by
  have hfin' : ∀ t ∈ times', t.isFinite = true := fun t ht => hfin t (hperm.mem_iff.mpr ht)
  have hsorted {times : List Binary64} (hfin : ∀ t ∈ times, t.isFinite = true) :
      ((times.mergeSort Binary64.sortsBefore).map Binary64.rank).Pairwise (· ≤ ·) := by
    refine List.pairwise_map.mpr ((ascending_mergeSort times).imp_of_mem fun {a b} _ hb hab => ?_)
    rcases Binary64.sortsBefore_iff.mp hab with hnan | ⟨_, hle⟩
    · cases (Binary64.isNan_of_isFinite (hfin b (List.mem_mergeSort.mp hb))).symm.trans hnan
    · exact hle
  have hall := ((List.mergeSort_perm times Binary64.sortsBefore).trans hperm).trans
    (List.mergeSort_perm times' Binary64.sortsBefore).symm
  refine level_of_map_rank_eq (fun t ht => hfin t (List.mem_mergeSort.mp ht))
    (fun t ht => hfin' t (List.mem_mergeSort.mp ht)) ?_
  exact (hall.map Binary64.rank).eq_of_pairwise (fun _ _ _ _ => Int.le_antisymm) (hsorted hfin)
    (hsorted hfin')

/-- The axis of finite times does not depend on their order. -/
theorem sameTicks_ofTimes (tolerance : Binary64) (hperm : times.Perm times')
    (hfin : ∀ t ∈ times, t.isFinite = true) :
    SameTicks (ofTimes tolerance times) (ofTimes tolerance times') :=
  sameTicks_runHeads (level_mergeSort hperm hfin)

end Axis
end Bellows
