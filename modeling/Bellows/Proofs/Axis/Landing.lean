import Bellows.Axis.Resampling
import Bellows.Proofs.Binary64.Difference

/-! Landing on a sorted axis. Whatever the order of the searches, each one finds how many ticks are
at or before its key. -/
namespace Bellows.Axis

variable {ticks : List Binary64} {t u : Binary64} {lo hi n k : Nat}

/-- No tick comes before the one in front of it. -/
def Ascending (ticks : List Binary64) : Prop := ticks.Pairwise fun a b => a.sortsBefore b = true

/-- Each tick strictly before the next ones. -/
def Increasing (ticks : List Binary64) : Prop := ticks.Pairwise fun a b => a.lt b = true

instance (ticks : List Binary64) : Decidable (Ascending ticks) := by
  unfold Ascending
  infer_instance

instance (ticks : List Binary64) : Decidable (Increasing ticks) := by
  unfold Increasing
  infer_instance

theorem Increasing.ascending (h : Increasing ticks) : Ascending ticks :=
  h.imp Binary64.sortsBefore_of_lt

/-- A tick behind another one is a number. -/
theorem Increasing.isNan_succ (h : Increasing ticks) (ht : ticks[k + 1]? = some t) :
    t.isNan = false := by
  obtain ⟨hk, rfl⟩ := List.getElem?_eq_some_iff.mp ht
  have hlt := List.pairwise_iff_getElem.mp h k (k + 1) (by omega) hk (by omega)
  exact (Binary64.lt_iff.mp hlt).2.1

theorem Increasing.rank_le {i j : Nat} (h : Increasing ticks) (hij : i ≤ j)
    (hj : j < ticks.length) : ticks[i].rank ≤ ticks[j].rank := by
  rcases Nat.lt_or_eq_of_le hij with hlt | rfl
  · have hstep := List.pairwise_iff_getElem.mp h i j (by omega) hj hlt
    exact Int.le_of_lt (Binary64.lt_iff.mp hstep).2.2
  · exact Int.le_refl _

/-- How many ticks are at or before a time. -/
def reached (ticks : List Binary64) (t : Binary64) : Nat := ticks.countP (·.sortsBefore t)

theorem reached_le_length (ticks : List Binary64) (t : Binary64) : reached ticks t ≤ ticks.length :=
  List.countP_le_length

/-- Where a predicate holds of all entries before one that it holds of, it holds of the first
ones. -/
theorem getElem_iff_lt_countP {α : Type} {p : α → Bool} {l : List α}
    (h : l.Pairwise fun a b => p b = true → p a = true) (hk : k < l.length) :
    p l[k] = true ↔ k < l.countP p := by
  induction l generalizing k with
  | nil => exact absurd hk (Nat.not_lt_zero k)
  | cons a l ih =>
    obtain ⟨hhead, hrest⟩ := List.pairwise_cons.mp h
    rw [List.countP_cons]
    by_cases ha : p a = true
    · rw [if_pos ha]
      cases k with
      | zero => simp [ha]
      | succ k =>
        rw [List.getElem_cons_succ, ih hrest (Nat.lt_of_succ_lt_succ hk)]
        omega
    · have hnone : l.countP p = 0 := List.countP_eq_zero.mpr fun b hb hpb => ha (hhead b hb hpb)
      rw [if_neg ha, hnone]
      refine ⟨fun hpk => (ha ?_).elim, fun hk0 => absurd hk0 (Nat.not_lt_zero k)⟩
      cases k with
      | zero => exact hpk
      | succ k => exact hhead _ (List.getElem_mem (Nat.lt_of_succ_lt_succ hk)) hpk

/-- On a sorted axis the ticks at or before a time are the first ones. -/
theorem sortsBefore_iff_lt_reached (h : Ascending ticks) (hk : k < ticks.length) :
    ticks[k].sortsBefore t = true ↔ k < reached ticks t :=
  getElem_iff_lt_countP (h.imp fun hab hbt => Binary64.sortsBefore_trans _ _ _ hab hbt) hk

/-- Among finite times, the ticks at or before a time are those that rank no higher. -/
theorem rank_le_iff_lt_reached (h : Ascending ticks) (hk : k < ticks.length)
    (htick : ticks[k].isFinite = true) (ht : t.isFinite = true) :
    ticks[k].rank ≤ t.rank ↔ k < reached ticks t := by
  rw [← sortsBefore_iff_lt_reached h hk, Binary64.sortsBefore_iff_rank htick ht]

/-- Later times reach at least as many ticks. -/
theorem reached_mono (h : t.sortsBefore u = true) : reached ticks t ≤ reached ticks u :=
  List.countP_mono_left fun _ _ htick => Binary64.sortsBefore_trans _ _ _ htick h

/-- Bisection finds the place at which a predicate changes. -/
theorem bisect_eq {holds : Nat → Bool} (hlo : lo ≤ n) (hhi : n ≤ hi)
    (h : ∀ k, k < hi → (holds k = true ↔ k < n)) : bisect holds lo hi = n := by
  fun_induction bisect holds lo hi with
  | case1 lo hi hlt mid hmid ih =>
    have := (h mid (by omega)).mp hmid
    exact ih (by omega) hhi h
  | case2 lo hi hlt mid hmid ih =>
    have := mt (h mid (by omega)).mpr hmid
    exact ih hlo (by omega) fun k hk => h k (by omega)
  | case3 lo hi hge => omega

/-- A search within bounds that hold the answer finds it. -/
theorem bisect_ticks (h : Ascending ticks) (hlo : lo ≤ reached ticks t) (hhi : reached ticks t ≤ hi)
    (hsize : hi ≤ ticks.length) :
    bisect (fun k => (ticks.toArray[k]?.getD .nan).sortsBefore t) lo hi = reached ticks t := by
  refine bisect_eq hlo hhi fun k hk => ?_
  have hk' : k < ticks.length := by omega
  rw [← sortsBefore_iff_lt_reached h hk']
  simp [hk']

/-- The bounds left by the search for one key hold the answer for any other key. -/
theorem range_spec (b : Bounds) (h : b.place = reached ticks b.key) (key : Binary64) :
    (b.range ticks.length key).1 ≤ reached ticks key ∧
      reached ticks key ≤ (b.range ticks.length key).2 ∧
      (b.range ticks.length key).2 ≤ ticks.length := by
  have hlen := reached_le_length ticks key
  unfold Bounds.range
  split
  · next hle => exact ⟨h ▸ reached_mono hle, hlen, Nat.le_refl _⟩
  · next hle =>
    have hback : key.sortsBefore b.key = true := by
      simpa [hle] using Binary64.sortsBefore_total b.key key
    have : reached ticks key ≤ reached ticks b.key := reached_mono hback
    exact ⟨Nat.zero_le _, by simp only; omega, by simp only; omega⟩

theorem countsFrom_cons (b : Bounds) (times : List Binary64) :
    countsFrom ticks.toArray b (t :: times) =
      let place := bisect (fun k => (ticks.toArray[k]?.getD .nan).sortsBefore t)
        (b.range ticks.length t).1 (b.range ticks.length t).2
      place :: countsFrom ticks.toArray ⟨t, place⟩ times := rfl

theorem countsFrom_eq (h : Ascending ticks) (times : List Binary64) (b : Bounds)
    (hb : b.place = reached ticks b.key) :
    countsFrom ticks.toArray b times = times.map (reached ticks) := by
  induction times generalizing b with
  | nil => rfl
  | cons t ts ih =>
    obtain ⟨hlo, hhi, hsize⟩ := range_spec b hb t
    rw [countsFrom_cons, bisect_ticks h hlo hhi hsize, List.map_cons]
    exact congrArg _ (ih _ rfl)

/-- Each time lands in front of the ticks it has not reached, on the first tick if it has reached
none. -/
theorem landings_eq (h : Ascending ticks) (times : List Binary64) :
    landings ticks.toArray times = times.map fun t => reached ticks t - 1 := by
  cases times with
  | nil => rfl
  | cons t ts =>
    have hfirst : (Bounds.mk t 0).range ticks.length t = (0, ticks.length) := by
      simp [Bounds.range, Binary64.sortsBefore_refl]
    rw [landings, countsFrom_cons, hfirst,
      bisect_ticks h (Nat.zero_le _) (reached_le_length _ _) (Nat.le_refl _)]
    simp [countsFrom_eq h ts ⟨t, reached ticks t⟩ rfl]

end Bellows.Axis
