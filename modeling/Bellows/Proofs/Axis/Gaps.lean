import Mathlib.Data.List.Chain
import Bellows.Proofs.Axis.Landing

/-! The axis of some times: it is sorted, takes its ticks from those times, and leaves a gap of more
than the tolerance in front of each tick but the first. -/
namespace Bellows.Axis

variable {tolerance tick previous t : Binary64} {times ts : List Binary64}

theorem gapsFrom_sublist (tolerance previous : Binary64) (ts : List Binary64) :
    (gapsFrom tolerance previous ts).Sublist ts := by
  induction ts generalizing previous with
  | nil => exact List.Sublist.refl _
  | cons t ts ih =>
    unfold gapsFrom
    split
    · exact (ih t).cons_cons t
    · exact (ih t).cons t

theorem runHeads_sublist (tolerance : Binary64) (ts : List Binary64) :
    (runHeads tolerance ts).Sublist ts := by
  cases ts with
  | nil => exact List.Sublist.refl _
  | cons t ts => exact (gapsFrom_sublist tolerance t ts).cons_cons t

theorem ascending_mergeSort (times : List Binary64) :
    Ascending (times.mergeSort Binary64.sortsBefore) :=
  List.pairwise_mergeSort Binary64.sortsBefore_trans Binary64.sortsBefore_total times

theorem ascending_ofTimes (tolerance : Binary64) (times : List Binary64) :
    Ascending (ofTimes tolerance times) :=
  (ascending_mergeSort times).sublist (runHeads_sublist tolerance _)

/-- The axis does not depend on the order in which the times come. -/
theorem ofTimes_eq_of_perm {sorted : List Binary64} (tolerance : Binary64)
    (hperm : times.Perm sorted) (hsorted : Ascending sorted)
    (hanti : ∀ a ∈ sorted, ∀ b ∈ sorted, a.sortsBefore b = true → b.sortsBefore a = true → a = b) :
    ofTimes tolerance times = runHeads tolerance sorted := by
  have hall := (List.mergeSort_perm times Binary64.sortsBefore).trans hperm
  refine congrArg _ (hall.eq_of_pairwise (fun a b ha hb => ?_) (ascending_mergeSort times) hsorted)
  exact hanti a (hall.mem_iff.mp ha) b hb

theorem mem_of_mem_ofTimes (h : t ∈ ofTimes tolerance times) : t ∈ times :=
  List.mem_mergeSort.mp ((runHeads_sublist tolerance _).subset h)

/-- Among times without a sign, zero comes first. -/
theorem head?_ofTimes (tolerance : Binary64) (hzero : .zero ∈ times)
    (htimes : ∀ t ∈ times, t.Unsigned) : (ofTimes tolerance times).head? = some .zero := by
  have hsorted := ascending_mergeSort times
  have hmem : .zero ∈ times.mergeSort Binary64.sortsBefore := List.mem_mergeSort.mpr hzero
  have hsub : ∀ t ∈ times.mergeSort Binary64.sortsBefore, t.Unsigned :=
    fun t ht => htimes t (List.mem_mergeSort.mp ht)
  unfold ofTimes
  cases hs : times.mergeSort Binary64.sortsBefore with
  | nil =>
    rw [hs] at hmem
    cases hmem
  | cons t ts =>
    rw [hs] at hsorted hmem hsub
    have ht : t.sortsBefore .zero = true := by
      rcases List.mem_cons.mp hmem with hz | hz
      · rw [← hz]
        exact Binary64.sortsBefore_refl _
      · exact (List.pairwise_cons.mp hsorted).1 _ hz
    rcases Binary64.sortsBefore_iff.mp ht with hnan | ⟨_, hrank⟩
    · cases hnan
    · exact congrArg some ((hsub t List.mem_cons_self).eq_zero hrank)

/-- A tick, and the time that follows it by more than a tolerance. -/
def Gap (tolerance a b : Binary64) : Prop := tolerance.lt (b.sub a) = true

/-- Between two kept times there may be others; the gap in front of the later one is a gap behind
the earlier one all the more. -/
theorem isChain_gapsFrom (h : Ascending (previous :: ts))
    (hfin : ∀ t ∈ tick :: previous :: ts, t.isFinite = true) (hle : tick.rank ≤ previous.rank) :
    List.IsChain (Gap tolerance) (tick :: gapsFrom tolerance previous ts) := by
  induction ts generalizing tick previous with
  | nil => exact List.isChain_singleton _
  | cons t ts ih =>
    obtain ⟨hhead, hrest⟩ := List.pairwise_cons.mp h
    have htick := hfin tick (by simp)
    have hprev := hfin previous (by simp)
    have ht := hfin t (by simp)
    unfold gapsFrom
    split
    · next hgap =>
      refine List.isChain_cons_cons.mpr ⟨Binary64.lt_sub_of_le htick hprev ht hle hgap, ?_⟩
      exact ih hrest (fun u hu => hfin u (by simp_all)) (Int.le_refl _)
    · have hstep : previous.rank ≤ t.rank := by
        rcases Binary64.sortsBefore_iff.mp (hhead t List.mem_cons_self) with hnan | ⟨_, hpt⟩
        · rw [Binary64.isNan_of_isFinite ht] at hnan
          cases hnan
        · exact hpt
      refine ih hrest (fun u hu => hfin u ?_) (Int.le_trans hle hstep)
      simp only [List.mem_cons] at hu ⊢
      tauto

theorem isChain_ofTimes (hfin : ∀ t ∈ times, t.isFinite = true) :
    List.IsChain (Gap tolerance) (ofTimes tolerance times) := by
  have hsorted := ascending_mergeSort times
  have hfin' : ∀ t ∈ times.mergeSort Binary64.sortsBefore, t.isFinite = true :=
    fun t ht => hfin t (List.mem_mergeSort.mp ht)
  unfold ofTimes
  cases hs : times.mergeSort Binary64.sortsBefore with
  | nil => exact List.isChain_nil
  | cons t ts =>
    rw [hs] at hsorted hfin'
    exact isChain_gapsFrom hsorted (fun u hu => hfin' u (by simp_all)) (Int.le_refl _)

/-- With a tolerance of at least zero the ticks strictly increase. -/
theorem increasing_ofTimes (htol : Binary64.zero.le tolerance = true)
    (hfin : ∀ t ∈ times, t.isFinite = true) : Increasing (ofTimes tolerance times) := by
  have : IsTrans Binary64 fun a b => a.lt b = true := ⟨fun _ _ _ => Binary64.lt_trans⟩
  have hchain : List.IsChain (Gap tolerance) (ofTimes tolerance times) := isChain_ofTimes hfin
  refine List.isChain_iff_pairwise.mp (hchain.imp_of_mem_imp fun a b ha hb hgap => ?_)
  exact Binary64.lt_of_lt_sub htol (hfin a (mem_of_mem_ofTimes ha))
    (hfin b (mem_of_mem_ofTimes hb)) hgap

end Bellows.Axis
