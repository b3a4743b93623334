import Bellows.Proofs.Binary64.HalfUp
import Bellows.Proofs.Command.Mask
import Bellows.Proofs.Schedule.Decoding
import Bellows.Schedule.Rows

/-! Rows of a schedule. Times more than a millisecond apart are rounded to different milliseconds,
so the rows of a role pass the check that they are handed to. -/
namespace Bellows

theorem Command.WellFormed.portsByte_le {c : Command} (h : c.WellFormed) : c.portsByte ≤ 0x1f := by
  have hlt := valveMask_lt c.valves
  rw [h.valves] at hlt
  exact Nat.le_of_lt_succ hlt

namespace Row

variable {r : Row} {rows : List Row} {time : Binary64} {c : Command} {number : Nat}

/-- A row that the table of a device accepts. -/
structure Valid (r : Row) : Prop where
  start : 0 ≤ r.start
  ports : r.ports ≤ 0x1f
  intensity : 0 ≤ r.intensity ∧ r.intensity ≤ 255

theorem isValid_entries (h : r.Valid) : isValid r.entries = true := by
  obtain ⟨hstart, hports, hintensity⟩ := h
  simp [isValid, hasBounded, hasSome, wholeField?, entries, Value.field, Value.field?]
  omega

theorem firstInvalid?_entries (h : ∀ r ∈ rows, r.Valid) :
    firstInvalid? number (rows.map entries) = none := by
  induction rows generalizing number with
  | nil => rfl
  | cons r rows ih =>
    rw [List.map_cons, firstInvalid?, if_pos (isValid_entries (h r List.mem_cons_self))]
    exact ih fun q hq => h q (List.mem_cons_of_mem _ hq)

theorem starts_entries (rows : List Row) :
    (rows.map entries).filterMap (wholeField? "startTime") = rows.map Row.start := by
  rw [List.filterMap_map, ← List.filterMap_eq_map]
  rfl

/-- Nothing is wrong with valid rows whose starts increase. -/
theorem fault?_eq_none (h : ∀ r ∈ rows, r.Valid)
    (hsteps : (rows.map Row.start).Pairwise (· < ·)) : fault? (rows.map entries) = none := by
  have hneighbours : Document.anyNeighbours (fun earlier later : Int => decide (later ≤ earlier))
      (rows.map Row.start) = false := by
    rw [Document.anyNeighbours_eq_false_iff]
    exact hsteps.isChain.imp fun a b hlt => decide_eq_false (Int.not_le.mpr hlt)
  rw [fault?, firstInvalid?_entries h, starts_entries]
  simp only [hneighbours]
  rfl

theorem half_eq : half = .finite false Binary64.halfUnit Binary64.representable_halfUnit := by
  decide +kernel

/-- A time without a sign is rounded to a whole number that is not negative. -/
theorem floor_add_half (h : time.Unsigned) :
    (time.add half).floor = .ok (Binary64.halfUp time.rank.toNat : Nat) := by
  obtain ⟨n, hn, rfl⟩ := h
  have hunit := Binary64.unit_pos
  have hhalf := Binary64.two_mul_halfUnit
  have hpos : (0 : Int) < Binary64.signed false n + Binary64.signed false Binary64.halfUnit := by
    simp only [Binary64.signed, Bool.false_eq_true, if_false]
    omega
  have hsum : (Binary64.signed false n + Binary64.signed false Binary64.halfUnit).natAbs =
      n + Binary64.halfUnit := by
    simp only [Binary64.signed, Bool.false_eq_true, if_false]
    omega
  have hlt := Binary64.nearest_add_half_lt_ceiling hn
  have hadd : Binary64.add (.finite false n hn) half =
      .finite false (Binary64.nearest (n + Binary64.halfUnit) 1)
        (Binary64.representable_nearest hlt) := by
    rw [half_eq, Binary64.add]
    simp only [if_neg (Int.ne_of_gt hpos), decide_eq_false (Int.not_lt.mpr (Int.le_of_lt hpos)),
      hsum]
    exact dif_pos hlt
  rw [hadd]
  exact congrArg Except.ok (Int.ofNat_fdiv _ _).symm

theorem ofCommand_eq (h : time.Unsigned) (c : Command) : ofCommand time c =
    .ok ⟨(Binary64.halfUp time.rank.toNat : Nat), c.portsByte, c.action.opcode, c.intensity⟩ := by
  rw [ofCommand, floor_add_half h]
  rfl

/-- The row of a command of a schedule is valid. -/
theorem valid_of_ofCommand (h : time.Unsigned) (hc : c.WellFormed) (hr : ofCommand time c = .ok r) :
    r.Valid := by
  rw [ofCommand_eq h] at hr
  cases hr
  exact ⟨Int.natCast_nonneg _, hc.portsByte_le, hc.intensity⟩

theorem start_of_ofCommand (hr : ofCommand time c = .ok r) :
    (time.add half).floor = .ok r.start := by
  obtain ⟨start, hstart, hrest⟩ := exists_of_bind_eq_ok hr
  cases hrest
  exact hstart

/-- Rows of times that are more than a millisecond apart start at different milliseconds. -/
theorem start_lt_start {later : Binary64} {d : Command} {q : Row} (h : time.Unsigned)
    (hlater : later.Unsigned) (hgap : time.rank + Binary64.unit < later.rank)
    (hr : ofCommand time c = .ok r) (hq : ofCommand later d = .ok q) : r.start < q.start := by
  rw [ofCommand_eq h] at hr
  rw [ofCommand_eq hlater] at hq
  cases hr
  cases hq
  obtain ⟨m, hm, rfl⟩ := h
  obtain ⟨n, hn, rfl⟩ := hlater
  exact Int.ofNat_lt.mpr (Binary64.halfUp_lt hm hn (Int.ofNat_lt.mp hgap))

end Row

namespace Schedule

variable {s : Schedule} {role : String} {rows : List Row}

/-- Times without a sign that come more than a millisecond after each other. -/
def Spaced (time : List Binary64) : Prop :=
  time.Pairwise fun a b => a.Unsigned ∧ b.Unsigned ∧ a.rank + (Binary64.unit : Int) < b.rank

/-- Every role of a schedule has rows, one for each command. -/
theorem exists_rows (htime : ∀ t ∈ s.time, t.Unsigned) (hrole : role ∈ s.roles) :
    ∃ commands rows, (role, commands) ∈ s.instructions.entries ∧ s.rows role = .ok rows ∧
      List.Forall₂ (fun p row => Row.ofCommand p.1 p.2 = .ok row) (s.time.zip commands) rows := by
  obtain ⟨⟨_, commands⟩, hmem, rfl⟩ := List.mem_map.mp hrole
  have hget := (s.instructions.get?_eq_some_iff _ _).mpr hmem
  obtain ⟨rows, hrows⟩ : ∃ rows, (s.time.zip commands).mapM
      (fun p => Row.ofCommand p.1 p.2) = .ok rows :=
    exists_mapM_eq_ok fun p hp => ⟨_, Row.ofCommand_eq (htime _ (List.of_mem_zip hp).1) p.2⟩
  refine ⟨commands, rows, hmem, ?_, mapM_eq_ok_iff.mp hrows⟩
  rw [Schedule.rows, hget]
  simp only [hrows]

section

variable {time : List Binary64} {commands : List Command}
  (hrows : List.Forall₂ (fun p row => Row.ofCommand p.1 p.2 = .ok row) (time.zip commands) rows)
include hrows

theorem valid_rows (htime : ∀ t ∈ time, t.Unsigned) (hcommands : ∀ c ∈ commands, c.WellFormed) :
    ∀ r ∈ rows, r.Valid := by
  intro r hr
  obtain ⟨⟨t, c⟩, hp, hrow⟩ := exists_left_of_mem hrows hr
  obtain ⟨ht, hc⟩ := List.of_mem_zip hp
  exact Row.valid_of_ofCommand (htime t ht) (hcommands c hc) hrow

/-- There is a row for each time, and it starts at the millisecond nearest to it. -/
theorem starts_eq (hlen : commands.length = time.length) :
    List.Forall₂ (fun t row => (t.add Row.half).floor = .ok row.start) time rows := by
  have hfst := List.map_fst_zip (Nat.le_of_eq hlen.symm)
  rw [← hfst, List.forall₂_map_left_iff]
  exact hrows.imp fun _ _ => Row.start_of_ofCommand

/-- The rows of spaced times start one after another. -/
theorem starts_increase (htime : Spaced time) (hlen : commands.length = time.length) :
    (rows.map Row.start).Pairwise (· < ·) := by
  have hpairs : (time.zip commands).Pairwise fun p q =>
      p.1.Unsigned ∧ q.1.Unsigned ∧ p.1.rank + (Binary64.unit : Int) < q.1.rank := by
    rw [← List.pairwise_map (f := Prod.fst)
      (R := fun a b : Binary64 =>
        a.Unsigned ∧ b.Unsigned ∧ a.rank + (Binary64.unit : Int) < b.rank),
      List.map_fst_zip (Nat.le_of_eq hlen.symm)]
    exact htime
  rw [List.pairwise_map]
  refine pairwise_of_forall₂ hrows hpairs fun p q r r' _ hr hr' ⟨hp, hq, hgap⟩ => ?_
  exact Row.start_lt_start hp hq hgap hr hr'

end

end Schedule
end Bellows
