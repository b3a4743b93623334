import Bellows.Proofs.Axis.Gaps
import Bellows.Proofs.Axis.SampleAndHold
import Bellows.Proofs.Event.Beginning

/-! What an axis holds before a moment. The ticks before a moment come from the times before it, and
what is held in front of such a tick comes from the events before it, whatever follows later. -/
namespace Bellows.Axis

section

variable {α : Type} {p : α → Bool} {le : α → α → Bool} {l : List α} {a : α} {k : Nat}

/-- A sorted list is cut in two by any entry, and takes that entry in at the cut. -/
theorem mergeSort_cut (htrans : ∀ a b c, le a b → le b c → le a c)
    (htotal : ∀ a b, le a b || le b a) (a : α) (l : List α) :
    (l.mergeSort le).filter (fun b => !le a b) ++ (l.mergeSort le).filter (le a) =
      l.mergeSort le ∧
    (a :: l).mergeSort le =
      (l.mergeSort le).filter (fun b => !le a b) ++ a :: (l.mergeSort le).filter (le a) := by
  obtain ⟨front, back, hall, hrest, hfront⟩ := List.mergeSort_cons htrans htotal a l
  have hsorted := List.pairwise_mergeSort htrans htotal (a :: l)
  rw [hall] at hsorted
  have hback : ∀ b ∈ back, le a b = true :=
    (List.pairwise_cons.mp (List.pairwise_append.mp hsorted).2.1).1
  have hnone : back.filter (fun b => !le a b) = [] :=
    List.filter_eq_nil_iff.mpr fun b hb => by simp [hback b hb]
  have hnone' : front.filter (le a) = [] :=
    List.filter_eq_nil_iff.mpr fun b hb => by simpa using hfront b hb
  rw [hall, hrest, List.filter_append, List.filter_append, List.filter_eq_self.mpr hfront, hnone,
    hnone', List.filter_eq_self.mpr hback, List.append_nil, List.nil_append]
  exact ⟨rfl, rfl⟩

/-- Sorting keeps the order of equals, so entries may be picked out before or after it. -/
theorem filter_mergeSort (htrans : ∀ a b c, le a b → le b c → le a c)
    (htotal : ∀ a b, le a b || le b a) (p : α → Bool) (l : List α) :
    (l.mergeSort le).filter p = (l.filter p).mergeSort le := by
  have hswap (q : α → Bool) (l : List α) : (l.filter q).filter p = (l.filter p).filter q := by
    rw [List.filter_filter, List.filter_filter]
    simp only [Bool.and_comm]
  induction l with
  | nil => simp
  | cons a l ih =>
    obtain ⟨hcut, hcons⟩ := mergeSort_cut htrans htotal a (l.filter p)
    rw [(mergeSort_cut htrans htotal a l).2, List.filter_append, hswap, ih]
    by_cases ha : p a = true
    · rw [List.filter_cons_of_pos ha, List.filter_cons_of_pos ha, hcons, hswap, ih]
    · rw [List.filter_cons_of_neg ha, List.filter_cons_of_neg ha, hswap, ih, hcut]

/-- Where a predicate holds of all entries in front of one that it holds of, it fails from its first
failure on. -/
theorem not_of_not_head (h : (a :: l).Pairwise fun a b => p b = true → p a = true)
    (ha : ¬ p a = true) : ∀ b ∈ a :: l, ¬ p b = true := by
  intro b hb
  rcases List.mem_cons.mp hb with rfl | hb
  · exact ha
  · exact fun hpb => ha ((List.pairwise_cons.mp h).1 b hb hpb)

/-- Such a predicate picks out the first entries. -/
theorem isPrefix_filter (h : l.Pairwise fun a b => p b = true → p a = true) : l.filter p <+: l := by
  induction l with
  | nil => exact List.prefix_rfl
  | cons a l ih =>
    by_cases ha : p a = true
    · rw [List.filter_cons_of_pos ha]
      exact (List.prefix_cons_inj a).mpr (ih (List.pairwise_cons.mp h).2)
    · rw [List.filter_eq_nil_iff.mpr (not_of_not_head h ha)]
      exact List.nil_prefix

theorem getElem?_filter (h : l.Pairwise fun a b => p b = true → p a = true) (hk : l[k]? = some a)
    (ha : p a = true) : (l.filter p)[k]? = some a := by
  obtain ⟨hlt, rfl⟩ := List.getElem?_eq_some_iff.mp hk
  have hcount : k < (l.filter p).length := by
    rw [← List.countP_eq_length_filter]
    exact (getElem_iff_lt_countP h hlt).mp ha
  rw [List.getElem?_eq_getElem hcount, (isPrefix_filter h).getElem hcount]

end

variable {tolerance c t u next : Binary64} {times times' ticks ticks' ts : List Binary64}
  {events events' : List Event} {k : Nat}

/-- What comes before a time from before a moment comes from before that moment as well. -/
theorem lt_of_sortsBefore (h : t.sortsBefore u = true) (hu : u.lt c = true) : t.lt c = true := by
  obtain ⟨hnan, hc, hlt⟩ := Binary64.lt_iff.mp hu
  rcases Binary64.sortsBefore_iff.mp h with hun | ⟨ht, hle⟩
  · cases hnan.symm.trans hun
  · exact Binary64.lt_iff.mpr ⟨ht, hc, Int.lt_of_le_of_lt hle hlt⟩

theorem Ascending.lt (h : Ascending ts) (c : Binary64) :
    ts.Pairwise fun t u => u.lt c = true → t.lt c = true :=
  h.imp fun htu => lt_of_sortsBefore htu

section

variable {p : Binary64 → Bool} (h : ts.Pairwise fun t u => p u = true → p t = true)
include h

/-- Whether a time becomes a tick depends on the times in front of it only. -/
theorem filter_gapsFrom (previous : Binary64) :
    (gapsFrom tolerance previous ts).filter p = gapsFrom tolerance previous (ts.filter p) := by
  induction ts generalizing previous with
  | nil => rfl
  | cons t ts ih =>
    by_cases ht : p t = true
    · rw [List.filter_cons_of_pos ht]
      unfold gapsFrom
      split
      · rw [List.filter_cons_of_pos ht, ih (List.pairwise_cons.mp h).2]
      · exact ih (List.pairwise_cons.mp h).2 t
    · have hnone := not_of_not_head h ht
      rw [List.filter_eq_nil_iff.mpr hnone, List.filter_eq_nil_iff.mpr fun u hu =>
        hnone u ((gapsFrom_sublist tolerance previous _).subset hu)]
      rfl

theorem filter_runHeads (tolerance : Binary64) :
    (runHeads tolerance ts).filter p = runHeads tolerance (ts.filter p) := by
  cases ts with
  | nil => rfl
  | cons t ts =>
    by_cases ht : p t = true
    · rw [List.filter_cons_of_pos ht, runHeads, runHeads, List.filter_cons_of_pos ht,
        filter_gapsFrom (List.pairwise_cons.mp h).2]
    · have hnone := not_of_not_head h ht
      rw [List.filter_eq_nil_iff.mpr hnone, List.filter_eq_nil_iff.mpr fun u hu =>
        hnone u ((runHeads_sublist tolerance _).subset hu)]
      rfl

end

/-- The ticks before a moment are the axis of the times before it. -/
theorem filter_ofTimes (tolerance : Binary64) (times : List Binary64) (c : Binary64) :
    (ofTimes tolerance times).filter (·.lt c) = ofTimes tolerance (times.filter (·.lt c)) := by
  unfold ofTimes
  rw [filter_runHeads ((ascending_mergeSort times).lt c),
    filter_mergeSort Binary64.sortsBefore_trans Binary64.sortsBefore_total]

/-- Axes that agree before a moment agree up to any tick before it. -/
theorem getElem?_eq_of_filter_eq (h : Ascending ticks) (h' : Ascending ticks')
    (hearly : ticks.filter (·.lt c) = ticks'.filter (·.lt c)) (hnext : ticks[k]? = some next)
    (hc : next.lt c = true) {j : Nat} (hj : j ≤ k) : ticks[j]? = ticks'[j]? := by
  obtain ⟨hk, rfl⟩ := List.getElem?_eq_some_iff.mp hnext
  have hlt : ticks[j].lt c = true := by
    rcases Nat.lt_or_eq_of_le hj with hjk | rfl
    · exact lt_of_sortsBefore (List.pairwise_iff_getElem.mp h j k (by omega) hk hjk) hc
    · exact hc
  have hget : ticks[j]? = some ticks[j] := List.getElem?_eq_getElem (by omega)
  have hfilter := getElem?_filter (h.lt c) hget hlt
  rw [hearly] at hfilter
  obtain ⟨hlen, hentry⟩ := List.getElem?_eq_some_iff.mp hfilter
  rw [hget, ← hentry, (isPrefix_filter (h'.lt c)).getElem hlen]
  exact (List.getElem?_eq_getElem _).symm

/-- In front of a tick before the moment, a time lands on the same tick of both axes. -/
theorem reached_iff_of_filter_eq (h : Ascending ticks) (h' : Ascending ticks')
    (hearly : ticks.filter (·.lt c) = ticks'.filter (·.lt c)) (hnext : ticks[k + 1]? = some next)
    (hc : next.lt c = true) (t : Binary64) {j : Nat} (hj : j ≤ k) :
    reached ticks t - 1 = j ↔ reached ticks' t - 1 = j := by
  have hstep {i : Nat} (hi : i ≤ k + 1) : i < reached ticks t ↔ i < reached ticks' t := by
    have hik : i < ticks.length := by
      have := (List.getElem?_eq_some_iff.mp hnext).1
      omega
    have hsame := getElem?_eq_of_filter_eq h h' hearly hnext hc hi
    rw [List.getElem?_eq_getElem hik] at hsame
    obtain ⟨hik', heq⟩ := List.getElem?_eq_some_iff.mp hsame.symm
    rw [← sortsBefore_iff_lt_reached h hik, ← sortsBefore_iff_lt_reached h' hik', heq]
  have hnow := hstep (i := j) (by omega)
  have hthen := hstep (i := j + 1) (by omega)
  omega

/-- What starts at the moment or later lands behind the tick in front of it. -/
theorem landingOn_append (h : Ascending ticks) (hnext : ticks[k + 1]? = some next)
    (hc : next.lt c = true) {early late : List Event} (hlate : ∀ e ∈ late, ¬ e.start.lt c = true)
    {j : Nat} (hj : j ≤ k) : landingOn ticks (early ++ late) j = landingOn ticks early j := by
  have hnone : landingOn ticks late j = [] := by
    refine List.filter_eq_nil_iff.mpr fun e he => ?_
    obtain ⟨hk, rfl⟩ := List.getElem?_eq_some_iff.mp hnext
    obtain ⟨_, hcnan, _⟩ := Binary64.lt_iff.mp hc
    have hce : c.sortsBefore e.start = true := by
      simpa [Binary64.lt_eq_not_sortsBefore hcnan] using hlate e he
    have hbefore := Binary64.sortsBefore_trans _ _ _ (Binary64.sortsBefore_of_lt hc) hce
    have := (sortsBefore_iff_lt_reached h hk).mp hbefore
    simp only [decide_eq_true_eq]
    omega
  rw [landingOn, List.filter_append, ← landingOn, ← landingOn, hnone, List.append_nil]

/-- In front of a tick before the moment, the same event is held on both axes. -/
theorem held_eq_of_sameBefore (h : Ascending ticks) (h' : Ascending ticks')
    (hearly : ticks.filter (·.lt c) = ticks'.filter (·.lt c)) (hnext : ticks[k + 1]? = some next)
    (hc : next.lt c = true) (hevents : Event.SameBefore c events events') :
    held ticks events k = held ticks' events' k := by
  obtain ⟨early, late, late', rfl, rfl, hlate, hlate'⟩ := hevents
  have hnext' : ticks'[k + 1]? = some next :=
    (getElem?_eq_of_filter_eq h h' hearly hnext hc (Nat.le_refl _)).symm.trans hnext
  refine congrArg List.getLast? (List.filterMap_congr fun j hj => ?_)
  have hjk : j ≤ k := Nat.le_of_lt_succ (List.mem_range.mp hj)
  rw [landingOn_append h hnext hc hlate hjk, landingOn_append h' hnext' hc hlate' hjk]
  refine congrArg List.getLast? (List.filter_congr fun e _ => decide_eq_decide.mpr ?_)
  exact reached_iff_of_filter_eq h h' hearly hnext hc e.start hjk

end Bellows.Axis
