import Bellows.Proofs.Axis.Gaps

/-! Runs of times: a tick lies behind a gap to every earlier time, and a gap in front of some times
puts a tick between them. So the ticks of fewer times are found again among the runs of more. -/
namespace Bellows.Axis

variable {tolerance previous c e s : Binary64} {times ts : List Binary64}

/-- The first of some sorted times is at most any of them. -/
theorem head_rank_le (h : Ascending (c :: ts)) (hs : s ∈ c :: ts) (hfin : s.isFinite = true) :
    c.rank ≤ s.rank := by
  rcases List.mem_cons.mp hs with rfl | hs
  · exact Int.le_refl _
  · rcases Binary64.sortsBefore_iff.mp ((List.pairwise_cons.mp h).1 s hs) with hnan | ⟨_, hrank⟩
    · rw [Binary64.isNan_of_isFinite hfin] at hnan
      cases hnan
    · exact hrank

/-- A kept time lies behind a gap to the time in front of the whole list. -/
theorem gap_of_mem_gapsFrom (h : Ascending (previous :: ts))
    (hfin : ∀ t ∈ previous :: ts, t.isFinite = true) (hc : c ∈ gapsFrom tolerance previous ts) :
    Gap tolerance previous c := by
  induction ts generalizing previous with
  | nil => cases hc
  | cons t ts ih =>
    have hstep := head_rank_le h (List.mem_cons_of_mem _ List.mem_cons_self) (hfin t (by simp))
    have hlater : c ∈ gapsFrom tolerance t ts → Gap tolerance previous c := by
      intro hmem
      have hgap := ih (List.pairwise_cons.mp h).2 (fun u hu => hfin u (List.mem_cons_of_mem _ hu))
        hmem
      refine Binary64.lt_sub_of_le (hfin previous (by simp)) (hfin t (by simp)) ?_ hstep hgap
      exact hfin c (by simp [(gapsFrom_sublist tolerance t ts).subset hmem])
    unfold gapsFrom at hc
    split at hc
    · next hgap =>
      rcases List.mem_cons.mp hc with rfl | hmem
      · exact hgap
      · exact hlater hmem
    · exact hlater hc

/-- A kept time lies behind a gap to every time before it. -/
theorem gap_of_rank_lt (h : Ascending (previous :: ts))
    (hfin : ∀ t ∈ previous :: ts, t.isFinite = true) (hc : c ∈ gapsFrom tolerance previous ts)
    (hs : s ∈ previous :: ts) (hlt : s.rank < c.rank) : Gap tolerance s c := by
  induction ts generalizing previous with
  | nil => cases hc
  | cons t ts ih =>
    rcases List.mem_cons.mp hs with rfl | hs
    · exact gap_of_mem_gapsFrom h hfin hc
    · have hrest := (List.pairwise_cons.mp h).2
      have hlater : c ∈ gapsFrom tolerance t ts → Gap tolerance s c :=
        fun hmem => ih hrest (fun u hu => hfin u (List.mem_cons_of_mem _ hu)) hmem hs
      unfold gapsFrom at hc
      split at hc
      · rcases List.mem_cons.mp hc with rfl | hmem
        · have := head_rank_le hrest hs (hfin s (List.mem_cons_of_mem _ hs))
          omega
        · exact hlater hmem
      · exact hlater hc

/-- Where a moment lies behind a gap to all earlier times, the first time from it on is kept. -/
theorem exists_mem_gapsFrom (h : Ascending (previous :: ts))
    (hfin : ∀ t ∈ previous :: ts, t.isFinite = true) (hcfin : c.isFinite = true)
    (hgap : ∀ t ∈ previous :: ts, t.rank < c.rank → Gap tolerance t c)
    (hprevious : previous.rank < c.rank) (he : e ∈ ts) (hce : c.rank ≤ e.rank) :
    ∃ b ∈ gapsFrom tolerance previous ts, c.rank ≤ b.rank ∧ b.rank ≤ e.rank := by
  induction ts generalizing previous with
  | nil => cases he
  | cons t ts ih =>
    have hrest := (List.pairwise_cons.mp h).2
    by_cases hct : c.rank ≤ t.rank
    · have hkept : tolerance.lt (t.sub previous) = true :=
        Binary64.lt_sub_of_ge (hfin previous (by simp)) hcfin (hfin t (by simp)) hct
          (hgap previous (by simp) hprevious)
      refine ⟨t, ?_, hct, head_rank_le hrest he (hfin e (List.mem_cons_of_mem _ he))⟩
      rw [gapsFrom, if_pos hkept]
      exact List.mem_cons_self
    · have he' : e ∈ ts := (List.mem_cons.mp he).resolve_left fun het => hct (het ▸ hce)
      obtain ⟨b, hb, hcb, hbe⟩ := ih hrest (fun u hu => hfin u (List.mem_cons_of_mem _ hu))
        (fun u hu => hgap u (List.mem_cons_of_mem _ hu)) (Int.lt_of_not_ge hct) he'
      refine ⟨b, ?_, hcb, hbe⟩
      unfold gapsFrom
      split
      · exact List.mem_cons_of_mem _ hb
      · exact hb

variable (hfin : ∀ t ∈ times, t.isFinite = true)
include hfin

/-- A tick lies behind a gap to every time before it. -/
theorem gap_of_mem_ofTimes (hc : c ∈ ofTimes tolerance times) (hs : s ∈ times)
    (hlt : s.rank < c.rank) : Gap tolerance s c := by
  have hsorted := ascending_mergeSort times
  have hmem : ∀ t, t ∈ times.mergeSort Binary64.sortsBefore ↔ t ∈ times :=
    fun _ => List.mem_mergeSort
  unfold ofTimes at hc
  cases hcases : times.mergeSort Binary64.sortsBefore with
  | nil =>
    rw [hcases] at hc
    cases hc
  | cons t ts =>
    rw [hcases] at hc hsorted hmem
    have hs' := (hmem s).mpr hs
    rcases List.mem_cons.mp hc with rfl | hc
    · have := head_rank_le hsorted hs' (hfin s hs)
      omega
    · exact gap_of_rank_lt hsorted (fun u hu => hfin u ((hmem u).mp hu)) hc hs' hlt

/-- Behind a gap there is a tick, no later than any time there. -/
theorem exists_tick_between (hcfin : c.isFinite = true)
    (hgap : ∀ t ∈ times, t.rank < c.rank → Gap tolerance t c) (he : e ∈ times)
    (hce : c.rank ≤ e.rank) :
    ∃ b ∈ ofTimes tolerance times, c.rank ≤ b.rank ∧ b.rank ≤ e.rank := by
  have hsorted := ascending_mergeSort times
  have hmem : ∀ t, t ∈ times.mergeSort Binary64.sortsBefore ↔ t ∈ times :=
    fun _ => List.mem_mergeSort
  unfold ofTimes
  cases hcases : times.mergeSort Binary64.sortsBefore with
  | nil =>
    rw [hcases] at hmem
    cases (hmem e).mpr he
  | cons t ts =>
    rw [hcases] at hsorted hmem
    have he' := (hmem e).mpr he
    by_cases hct : c.rank ≤ t.rank
    · exact ⟨t, List.mem_cons_self, hct, head_rank_le hsorted he' (hfin e he)⟩
    · have htail : e ∈ ts := (List.mem_cons.mp he').resolve_left fun het => hct (het ▸ hce)
      obtain ⟨b, hb, hcb, hbe⟩ := exists_mem_gapsFrom hsorted (fun u hu => hfin u ((hmem u).mp hu))
        hcfin (fun u hu => hgap u ((hmem u).mp hu)) (Int.lt_of_not_ge hct) htail hce
      exact ⟨b, List.mem_cons_of_mem _ hb, hcb, hbe⟩

end Bellows.Axis
