import Mathlib.Data.List.Sort
import Bellows.Proofs.Axis.Kept
import Bellows.Proofs.Axis.Ties

/-! What an axis is, told without sorting: its ticks are the times that no earlier time comes close
to. Main statement: the axis of some events consists of exactly these times, and depends on nothing
else (`ofEvents_isAxis`). -/
namespace Bellows.Axis

variable {tolerance s t : Binary64} {times times' ticks ticks' : List Binary64}
  {lists : List (List Event)}

/-- The second of two times comes no more than a tolerance behind the first, by subtraction. -/
def Close (tolerance s t : Binary64) : Prop := (t.sub s).le tolerance = true

instance (tolerance s t : Binary64) : Decidable (Close tolerance s t) := by
  unfold Close
  infer_instance

/-- No earlier one of some times comes close to a time. -/
def Leads (tolerance : Binary64) (times : List Binary64) (t : Binary64) : Prop :=
  ∀ s ∈ times, s.lt t = true → ¬ Close tolerance s t

instance (tolerance : Binary64) (times : List Binary64) (t : Binary64) :
    Decidable (Leads tolerance times t) := by
  unfold Leads
  infer_instance

/-- The ticks are those of some times that lead, in strict order. Zero and negative zero are one
time, and either of them may stand for it. -/
structure IsAxis (tolerance : Binary64) (times ticks : List Binary64) : Prop where
  increasing : Increasing ticks
  mem : ∀ t ∈ ticks, t ∈ times
  leads : ∀ t ∈ ticks, Leads tolerance times t
  complete : ∀ t ∈ times, Leads tolerance times t → ∃ u ∈ ticks, u.same t = true

/-- The same set of times, however often and in whatever order they come. -/
def SameTimes (times times' : List Binary64) : Prop :=
  (∀ t ∈ times, ∃ t' ∈ times', t.same t' = true) ∧ ∀ t' ∈ times', ∃ t ∈ times, t.same t' = true

instance (times times' : List Binary64) : Decidable (SameTimes times times') := by
  unfold SameTimes
  infer_instance

theorem SameTimes.symm (h : SameTimes times times') : SameTimes times' times := by
  have hswap {x y : Binary64} (hxy : x.same y = true) : y.same x = true := by
    obtain ⟨hx, hy, hrank⟩ := Binary64.same_iff.mp hxy
    exact Binary64.same_iff.mpr ⟨hy, hx, hrank.symm⟩
  constructor
  · intro t ht
    obtain ⟨u, hu, hsame⟩ := h.2 t ht
    exact ⟨u, hu, hswap hsame⟩
  · intro t ht
    obtain ⟨u, hu, hsame⟩ := h.1 t ht
    exact ⟨u, hu, hswap hsame⟩

/-- Between finite times only the ranks count. -/
theorem close_iff (htol : tolerance.isNan = false) (hs : s.isFinite = true)
    (ht : t.isFinite = true) :
    Close tolerance s t ↔ Binary64.roundGrains (t.rank - s.rank) ≤ tolerance.rank := by
  rw [Close, Binary64.le_iff, Binary64.isNan_sub ht hs, Binary64.rank_sub ht hs]
  simp [htol]

/-- What is not close lies behind a gap. -/
theorem not_close_iff (htol : tolerance.isNan = false) (hs : s.isFinite = true)
    (ht : t.isFinite = true) : ¬ Close tolerance s t ↔ Gap tolerance s t := by
  rw [close_iff htol hs ht, Gap, Binary64.lt_iff, Binary64.isNan_sub ht hs,
    Binary64.rank_sub ht hs]
  simp [htol]

theorem isNan_of_zero_le (htol : Binary64.zero.le tolerance = true) : tolerance.isNan = false :=
  (Binary64.le_iff.mp htol).2.1

/-- A time between two close ones is close to the later one. -/
theorem Close.of_le {u : Binary64} (htol : tolerance.isNan = false) (hs : s.isFinite = true)
    (hu : u.isFinite = true) (ht : t.isFinite = true) (hsu : s.rank ≤ u.rank)
    (h : Close tolerance s t) : Close tolerance u t := by
  rw [close_iff htol hs ht] at h
  rw [close_iff htol hu ht]
  have hmono : Binary64.roundGrains (t.rank - u.rank) ≤ Binary64.roundGrains (t.rank - s.rank) :=
    Binary64.roundGrains_mono (by omega)
  omega

/-- The axis of finite times has the ticks that lead. -/
theorem isAxis_ofTimes (htol : Binary64.zero.le tolerance = true)
    (hfin : ∀ t ∈ times, t.isFinite = true) : IsAxis tolerance times (ofTimes tolerance times) := by
  have hnan := isNan_of_zero_le htol
  refine ⟨increasing_ofTimes htol hfin, fun t ht => mem_of_mem_ofTimes ht, ?_, ?_⟩
  · intro t ht s hs hlt
    have htfin := hfin t (mem_of_mem_ofTimes ht)
    rw [not_close_iff hnan (hfin s hs) htfin]
    exact gap_of_mem_ofTimes hfin ht hs ((Binary64.lt_iff_rank (hfin s hs) htfin).mp hlt)
  · intro t ht hleads
    have hgap : ∀ s ∈ times, s.rank < t.rank → Gap tolerance s t := by
      intro s hs hlt
      exact (not_close_iff hnan (hfin s hs) (hfin t ht)).mp
        (hleads s hs ((Binary64.lt_iff_rank (hfin s hs) (hfin t ht)).mpr hlt))
    obtain ⟨u, hu, htu, hut⟩ := exists_tick_between hfin (hfin t ht) hgap ht (Int.le_refl _)
    exact ⟨u, hu, Binary64.same_of_rank_eq (hfin u (mem_of_mem_ofTimes hu)) (hfin t ht) (by omega)⟩

namespace IsAxis

/-- Every tick of one axis is a tick of any axis of the same times. -/
theorem exists_rank_eq (h : IsAxis tolerance times ticks) (h' : IsAxis tolerance times' ticks')
    (htol : tolerance.isNan = false) (hfin : ∀ t ∈ times, t.isFinite = true)
    (hfin' : ∀ t ∈ times', t.isFinite = true) (hset : SameTimes times times') (ht : t ∈ ticks) :
    ∃ u ∈ ticks', u.rank = t.rank := by
  have htimes := h.mem t ht
  obtain ⟨t', ht', hsame⟩ := hset.1 t htimes
  have hrank : t.rank = t'.rank := (Binary64.same_iff.mp hsame).2.2
  have hleads : Leads tolerance times' t' := by
    intro s' hs' hlt hclose
    obtain ⟨s, hs, hss⟩ := hset.2 s' hs'
    have hsrank : s.rank = s'.rank := (Binary64.same_iff.mp hss).2.2
    rw [Binary64.lt_iff_rank (hfin' s' hs') (hfin' t' ht')] at hlt
    rw [close_iff htol (hfin' s' hs') (hfin' t' ht'), ← hsrank, ← hrank,
      ← close_iff htol (hfin s hs) (hfin t htimes)] at hclose
    apply h.leads t ht s hs _ hclose
    rw [Binary64.lt_iff_rank (hfin s hs) (hfin t htimes)]
    omega
  obtain ⟨u, hu, hut⟩ := h'.complete t' ht' hleads
  have := (Binary64.same_iff.mp hut).2.2
  exact ⟨u, hu, by omega⟩

theorem pairwise_rank (h : IsAxis tolerance times ticks) :
    (ticks.map Binary64.rank).Pairwise (· < ·) := by
  apply List.pairwise_map.mpr
  apply h.increasing.imp
  intro a b hab
  exact (Binary64.lt_iff.mp hab).2.2

/-- Some times have only one axis, up to the sign of a zero. -/
theorem sameTicks (h : IsAxis tolerance times ticks) (h' : IsAxis tolerance times' ticks')
    (htol : tolerance.isNan = false) (hfin : ∀ t ∈ times, t.isFinite = true)
    (hfin' : ∀ t ∈ times', t.isFinite = true) (hset : SameTimes times times') :
    SameTicks ticks ticks' := by
  have hranks : ticks.map Binary64.rank = ticks'.map Binary64.rank := by
    apply h.pairwise_rank.eq_of_mem_iff h'.pairwise_rank
    intro r
    rw [List.mem_map, List.mem_map]
    constructor
    · rintro ⟨t, ht, rfl⟩
      exact h.exists_rank_eq h' htol hfin hfin' hset ht
    · rintro ⟨t, ht, rfl⟩
      exact h'.exists_rank_eq h htol hfin' hfin hset.symm ht
  exact sameTicks_of_level (level_of_map_rank_eq (fun t ht => hfin t (h.mem t ht))
    (fun t ht => hfin' t (h'.mem t ht)) hranks)

end IsAxis

/-- The axis of some times has a tick at or before each of them. -/
theorem exists_tick_le (hfin : ∀ t ∈ times, t.isFinite = true) (ht : t ∈ times) :
    ∃ tick ∈ ofTimes tolerance times, tick.le t = true := by
  have hpos : 0 < reached (ofTimes tolerance times) t := reached_pos hfin ht
  obtain ⟨tick, htick, hle⟩ := List.countP_pos_iff.mp hpos
  have hfin' := hfin tick (mem_of_mem_ofTimes htick)
  rw [Binary64.sortsBefore_iff_rank hfin' (hfin t ht)] at hle
  exact ⟨tick, htick, (Binary64.le_iff_rank hfin' (hfin t ht)).mpr hle⟩

theorem isFinite_of_mem_starts (hfin : ∀ events ∈ lists, ∀ e ∈ events, e.start.isFinite = true) :
    ∀ t ∈ lists.flatten.map Event.start, t.isFinite = true := by
  intro t ht
  obtain ⟨e, he, rfl⟩ := List.mem_map.mp ht
  obtain ⟨events, hevents, he⟩ := List.mem_flatten.mp he
  exact hfin events hevents e he

/-- The axis of some lists of events. Its ticks are, in strict order, the start times that no
earlier one comes close to; so they lie more than the tolerance apart, every event starts at or
behind one of them, and nothing but the set of start times decides which they are. -/
theorem ofEvents_isAxis (htol : Binary64.zero.le tolerance = true)
    (hfin : ∀ events ∈ lists, ∀ e ∈ events, e.start.isFinite = true) :
    IsAxis tolerance (lists.flatten.map Event.start) (ofEvents tolerance lists) ∧
    List.IsChain (fun a b => tolerance.lt (b.sub a) = true) (ofEvents tolerance lists) ∧
    (∀ events ∈ lists, ∀ e ∈ events, ∃ tick ∈ ofEvents tolerance lists, tick.le e.start = true) ∧
    ∀ lists' : List (List Event), (∀ events ∈ lists', ∀ e ∈ events, e.start.isFinite = true) →
      SameTimes (lists.flatten.map Event.start) (lists'.flatten.map Event.start) →
      SameTicks (ofEvents tolerance lists) (ofEvents tolerance lists') := by
  have hstarts := isFinite_of_mem_starts hfin
  have haxis := isAxis_ofTimes htol hstarts
  refine ⟨haxis, isChain_ofTimes hstarts, ?_, ?_⟩
  · intro events hevents e he
    apply exists_tick_le hstarts
    exact List.mem_map_of_mem (List.mem_flatten_of_mem hevents he)
  · intro lists' hfin' hset
    have hstarts' := isFinite_of_mem_starts hfin'
    exact haxis.sameTicks (isAxis_ofTimes htol hstarts') (isNan_of_zero_le htol) hstarts hstarts'
      hset

/-- Two starts that follow each other by more than the tolerance, and one behind a gap. -/
def densePort : List Event :=
  [⟨.zero, .inflate, .f, 1, some 0⟩, ⟨.ofRatio false 3 2, .release, .f, 1, some 1⟩,
    ⟨.ofNat 4, .noChange, .f, 1, none⟩]

/-- Another port has a start between the two, and one at the same time as the third. -/
def denseStarts : List (List Event) :=
  [densePort,
    [⟨.ofRatio false 3 4, .noChange, .f, 1, some 0⟩, ⟨.ofNat 4, .noChange, .f, 1, none⟩]]

/-- The same starts in one list, without repetition and in another order, with a negative zero. -/
def denseStartsShuffled : List (List Event) :=
  [[⟨.ofRatio false 3 2, .release, .f, 1, some 1⟩, ⟨.ofNat 4, .noChange, .f, 1, none⟩,
      ⟨.ofRatio false 3 4, .noChange, .f, 1, some 0⟩, ⟨.neg .zero, .inflate, .f, 1, some 0⟩]]

/-- The run of starts is one tick, though it is longer than the tolerance. -/
theorem ofEvents_denseStarts : ofEvents defaultTolerance denseStarts = [.zero, .ofNat 4] := by
  have hperm : (denseStarts.flatten.map Event.start).Perm
      [.zero, .ofRatio false 3 4, .ofRatio false 3 2, .ofNat 4, .ofNat 4] := by decide +kernel
  rw [ofEvents, ofTimes_eq_of_perm defaultTolerance hperm (by decide +kernel) (by decide +kernel)]
  decide +kernel

theorem ofEvents_isAxis_dense : Binary64.zero.le defaultTolerance = true ∧
    (∀ events ∈ denseStarts, ∀ e ∈ events, e.start.isFinite = true) ∧
    (∀ events ∈ denseStartsShuffled, ∀ e ∈ events, e.start.isFinite = true) ∧
    SameTimes (denseStarts.flatten.map Event.start)
      (denseStartsShuffled.flatten.map Event.start) ∧
    IsAxis defaultTolerance (denseStarts.flatten.map Event.start) [.zero, .ofNat 4] ∧
    SameTicks [.zero, .ofNat 4] (ofEvents defaultTolerance denseStartsShuffled) := by
  have htol : Binary64.zero.le defaultTolerance = true := by decide +kernel
  have hfin : ∀ events ∈ denseStarts, ∀ e ∈ events, e.start.isFinite = true := by decide +kernel
  have hfin' : ∀ events ∈ denseStartsShuffled, ∀ e ∈ events, e.start.isFinite = true := by
    decide +kernel
  have hset : SameTimes (denseStarts.flatten.map Event.start)
      (denseStartsShuffled.flatten.map Event.start) := by decide +kernel
  obtain ⟨his, _, _, hsame⟩ := ofEvents_isAxis htol hfin
  have hticks := hsame denseStartsShuffled hfin' hset
  rw [ofEvents_denseStarts] at his hticks
  exact ⟨htol, hfin, hfin', hset, his, hticks⟩

end Bellows.Axis
