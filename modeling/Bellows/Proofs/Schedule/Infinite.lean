import Bellows.Proofs.Schedule.Rows

/-! Rows of times that are no finite numbers: a finite time always has a whole millisecond, so the
first time that is not finite decides why there are no rows. -/
namespace Bellows

namespace Row

variable {x : Binary64} {n : Nat}

/-- A sum with a half stays among the finite numbers, whatever the sign. -/
theorem nearest_sum_lt_ceiling (s : Bool) (hn : Binary64.Representable n) :
    Binary64.nearest (Binary64.signed s n + Binary64.signed false Binary64.halfUnit).natAbs 1 <
      Binary64.ceiling := by
  cases s with
  | false => exact Binary64.nearest_add_half_lt_ceiling hn
  | true =>
    -- the difference is at most the larger one of the two, which is a number itself
    have hle : (Binary64.signed true n + Binary64.signed false Binary64.halfUnit).natAbs ≤
        max n Binary64.halfUnit := by
      simp only [Binary64.signed, if_true, Bool.false_eq_true, if_false]
      omega
    rcases le_total n Binary64.halfUnit with hsmall | hlarge
    · rw [max_eq_right hsmall] at hle
      exact (Binary64.nearest_le_of_le Binary64.representable_halfUnit hle).trans_lt
        Binary64.representable_halfUnit.1
    · rw [max_eq_left hlarge] at hle
      exact (Binary64.nearest_le_of_le hn hle).trans_lt hn.1

/-- A finite time has a row. -/
theorem exists_ofCommand (h : x.isFinite = true) (c : Command) : ∃ r, ofCommand x c = .ok r := by
  obtain ⟨s, n, hn, rfl⟩ := Binary64.exists_finite h
  have hlt := nearest_sum_lt_ceiling s hn
  obtain ⟨start, hstart⟩ : ∃ start, (Binary64.add (.finite s n hn) half).floor = .ok start := by
    rw [half_eq, Binary64.add]
    split
    · exact ⟨_, rfl⟩
    · rw [Binary64.ofGrains, dif_pos hlt]
      exact ⟨_, rfl⟩
  exact ⟨_, by rw [ofCommand, hstart]; rfl⟩

theorem ofCommand_nan (c : Command) : ofCommand .nan c = .error .nan := by
  rw [ofCommand, half_eq]
  rfl

theorem ofCommand_infinite (s : Bool) (c : Command) :
    ofCommand (.infinite s) c = .error .infinite := by
  rw [ofCommand, half_eq]
  rfl

/-- Rows fail for an infinite time exactly if that is the first time that is not finite. -/
theorem mapM_eq_infinite_iff {f : Binary64 × Command → Except NotFinite Row}
    (hf : ∀ p, f p = ofCommand p.1 p.2) {ps : List (Binary64 × Command)} :
    ps.mapM f = .error .infinite ↔
      ∃ s, (ps.map Prod.fst).find? (fun t => !t.isFinite) = some (.infinite s) := by
  induction ps with
  | nil => exact iff_of_false nofun nofun
  | cons p ps ih =>
    obtain ⟨t, c⟩ := p
    cases t with
    | nan =>
      rw [mapM_cons_of_error ((hf (.nan, c)).trans (ofCommand_nan c))]
      exact iff_of_false nofun nofun
    | infinite s =>
      rw [mapM_cons_of_error ((hf (.infinite s, c)).trans (ofCommand_infinite s c))]
      exact iff_of_true rfl ⟨s, rfl⟩
    | finite s n hn =>
      obtain ⟨r, hr⟩ := exists_ofCommand (x := .finite s n hn) rfl c
      rw [mapM_cons_of_ok ((hf (.finite s n hn, c)).trans hr), List.map_cons,
        List.find?_cons_of_neg Bool.false_ne_true, ← ih]
      cases ps.mapM f with
      | ok rows => exact iff_of_false nofun nofun
      | error fault => exact Iff.rfl

end Row

/-- The rows of a role that is in a schedule. -/
theorem Schedule.rows_eq_infinite_iff {s : Schedule} {role : String} {commands : List Command}
    (hget : s.instructions.get? role = some commands) (hlen : commands.length = s.time.length) :
    s.rows role = .error (.notFinite .infinite) ↔
      ∃ negative, s.time.find? (fun t => !t.isFinite) = some (.infinite negative) := by
  have hfst := List.map_fst_zip (Nat.le_of_eq hlen.symm)
  rw [← hfst, ← Row.mapM_eq_infinite_iff fun _ => rfl, Schedule.rows, hget]
  simp only
  cases (s.time.zip commands).mapM fun p => Row.ofCommand p.1 p.2 with
  | ok rows => simp
  | error fault => cases fault <;> simp

end Bellows
