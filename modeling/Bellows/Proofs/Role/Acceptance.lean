import Mathlib.Algebra.Order.Ring.Unbundled.Rat
import Mathlib.Data.List.GetD
import Bellows.Proofs.Binary64.Difference
import Bellows.Proofs.Binary64.Numeral
import Bellows.Proofs.Role.Listing

/-! What accepted parameters are worth: tempo, curve, roles and ports are in their ranges and the
step is not at most zero, but a pace comes only of a step that names a fraction. -/
namespace Bellows

theorem Dynamic.level_lt (d : Dynamic) : d.level < 8 := by cases d <;> decide

namespace Curve

variable {c : Curve} {d : Dynamic} {v : Value} {i : Fin 256} {vs keys : List Value}
  {entries : List (Value × Value)}

theorem readIntensity_eq_ok (h : readIntensity d v = .ok i) : v = .int i.val := by
  unfold readIntensity at h
  split at h
  · split at h
    · next hrange =>
      cases h
      exact congrArg Value.int (Int.toNat_of_nonneg hrange.1).symm
    · cases h
  · cases h

/-- A curve through values has each of them at its level. -/
theorem ofValues_eq_ok (h : ofValues vs = .ok c) (d : Dynamic) :
    vs[d.level]? = some (.int (c.intensity d).val) := by
  unfold ofValues at h
  split at h
  · next hlength =>
    obtain ⟨levels, hlevels, hc⟩ := exists_of_bind_eq_ok h
    cases hc
    have hall := mapM_eq_ok_iff.mp hlevels
    have hvs : d.level < vs.length := hlength ▸ d.level_lt
    have hzip : d.level < (Dynamic.all.zip vs).length := by
      rw [List.length_zip, hlength]
      exact d.level_lt
    have hlt : d.level < levels.length := hall.length_eq ▸ hzip
    have hread : vs[d.level] = .int (levels[d.level] : Fin 256).val := by
      simpa using readIntensity_eq_ok (hall.get hzip hlt)
    rw [List.getElem?_eq_getElem hvs, hread]
    exact congrArg (fun i : Fin 256 => some (Value.int i.val))
      (List.getD_eq_getElem levels 0 hlt).symm
  · cases h

/-- Where nothing is wrong with the keys that name no level there are none. -/
theorem unknownFault_eq_none (h : unknownFault keys = none) : keys = [] := by
  unfold unknownFault at h
  split at h
  · rfl
  · cases h
  · dsimp only at h
    split at h
    · cases h
    · cases h

/-- The curve of a map has its strengths, or their defaults, and the map has no other keys. -/
theorem ofMap_eq_ok (h : ofMap entries = .ok c) : (∀ e ∈ entries, isLevel e.1 = true) ∧
    ∀ d : Dynamic, (Value.field? d.mark entries).getD (.int ((default : Curve).intensity d).val) =
      .int (c.intensity d).val := by
  unfold ofMap at h
  split at h
  · cases h
  · next hnone =>
    have hkeys := List.filter_eq_nil_iff.mp (unknownFault_eq_none hnone)
    refine ⟨fun e he => ?_, fun d => ?_⟩
    · simpa using hkeys e.1 (List.mem_map_of_mem he)
    · have hvalue := ofValues_eq_ok h d
      cases d <;> exact Option.some.inj hvalue

end Curve

/-- The value of a numeral that is not zero is positive. -/
theorem Decimal.toRat_pos {d : Decimal} (h : 0 < d.coefficient) : 0 < d.toRat := by
  have hup : 0 < Nat.pow 10 d.exponent.toNat := Nat.pow_pos (by decide)
  have hdown : 0 < Nat.pow 10 (-d.exponent).toNat := Nat.pow_pos (by decide)
  exact Rat.mkRat_pos (Int.natCast_pos.mpr (Nat.mul_pos h hup)) (Nat.ne_of_gt hdown)

namespace Quantity

variable {x : Binary64}

/-- A number that is not at most zero is positive, or no number at all. -/
theorem real_le_zero (h : (real x).le (whole 0) = false) :
    x = .nan ∨ x = .infinite false ∨ ∃ n hn, 0 < n ∧ x = .finite false n hn := by
  cases x with
  | nan => exact Or.inl rfl
  | infinite s =>
    cases s with
    | false => exact Or.inr (Or.inl rfl)
    | true => cases h
  | finite s n hn =>
    have hpos : 0 < Binary64.signed s n := by simpa using h
    cases s with
    | false => exact Or.inr (Or.inr ⟨n, hn, Int.natCast_pos.mp hpos, rfl⟩)
    | true =>
      change 0 < -(n : Int) at hpos
      omega

end Quantity

/-- A step that can be written as a number, and so names a fraction. -/
inductive Value.Measured : Value → Prop
  | whole {n : Int} (h : (Value.int n).isTooLong = false) : Measured (.int n)
  | real {x : Binary64} (h : x.isFinite = true) : Measured (.float x)

/-- A step that is not at most zero and names no fraction all the same. -/
inductive Value.Unmeasured : Value → Prop
  | logical : Unmeasured (.bool true)
  | nan : Unmeasured (.float .nan)
  | infinite : Unmeasured (.float (.infinite false))
  | long {n : Int} (hpos : 0 < n) (h : (Value.int n).isTooLong = true) : Unmeasured (.int n)

namespace Value

variable {v : Value} {q : Quantity} {r : Rat}

theorem Unmeasured.not_measured (h : v.Unmeasured) : ¬v.Measured := by
  rintro (hshort | hfinite)
  · cases h with
    | long _ hlong => cases hshort.symm.trans hlong
  · cases h with
    | nan => cases hfinite
    | infinite => cases hfinite

/-- Which steps that are not at most zero name a fraction. -/
theorem fraction_cases (hq : v.quantity? = some q) (hpos : q.le (.whole 0) = false) :
    (v.Measured ∧ ∃ r, 0 < r ∧ v.fraction = .ok r) ∨
      (v.Unmeasured ∧ ∃ fault, v.fraction = .error fault) := by
  cases v with
  | bool b =>
    cases hq
    cases b with
    | false => cases hpos
    | true => exact Or.inr ⟨.logical, _, rfl⟩
  | int n =>
    cases hq
    have hn : 0 < n := by simpa using hpos
    cases hlong : (Value.int n).isTooLong with
    | false =>
      refine Or.inl ⟨.whole hlong, n, Int.cast_pos.mpr hn, ?_⟩
      rw [fraction, hlong]
      rfl
    | true =>
      refine Or.inr ⟨.long hn hlong, .stepTooLong, ?_⟩
      rw [fraction, hlong]
      rfl
  | float x =>
    cases hq
    obtain rfl | rfl | ⟨n, hn, hlt, rfl⟩ := Quantity.real_le_zero hpos
    · exact Or.inr ⟨.nan, _, rfl⟩
    · exact Or.inr ⟨.infinite, _, rfl⟩
    · have hcoefficient := Binary64.coefficient_shortest_pos hn hlt
      refine Or.inl ⟨.real rfl, _, Decimal.toRat_pos hcoefficient, ?_⟩
      rw [fraction, if_neg (Nat.ne_of_gt hlt), if_neg Bool.false_ne_true]
  | _ => cases hq

end Value

namespace Settings

open Parameters

variable {s : Settings} {q : Quantity} {entries : List (Value × Value)} {bpm step : Option Value}

/-- Settings that hold what a document says. -/
structure ReadFrom (s : Settings) (entries : List (Value × Value)) (bpm step : Option Value) :
    Prop where
  tempo : tempoOf entries bpm = .int s.bpm ∧ 0 < s.bpm
  curve : ∃ dynamics, subEntries? "dynamics" entries = some dynamics ∧
    (∀ e ∈ dynamics, Curve.isLevel e.1 = true) ∧
    ∀ d : Dynamic, (Value.field? d.mark dynamics).getD (.int ((default : Curve).intensity d).val) =
      .int (s.curve.intensity d).val ∧ (s.curve.intensity d).val ≤ 255
  assignments : ∃ roles, subEntries? "roles" entries = some roles ∧
    List.Forall₂ Listed.Takes (listed roles) s.assignments.entries ∧
    ∀ e ∈ s.assignments.entries, e.2.role ≠ "" ∧ 1 ≤ e.2.port ∧ e.2.port ≤ portCount
  step : stepOf entries step = s.step ∧
    ∃ q, s.step.quantity? = some q ∧ q.le (.whole 0) = false

theorem readFrom_of_ofDocument (h : ofDocument entries bpm step = .ok s) :
    s.ReadFrom entries bpm step := by
  obtain ⟨dynamics, hdynamics, hassigned, hcurve, htempo, hstep, hpositive⟩ := ofDocument_eq_ok h
  obtain ⟨roles, hroles, hall⟩ := assignments_eq_ok hassigned
  obtain ⟨hkeys, hlevels⟩ := Curve.ofMap_eq_ok hcurve
  exact {
    tempo := ⟨htempo, s.bpm_pos⟩
    curve := ⟨dynamics, hdynamics, hkeys, fun d =>
      ⟨hlevels d, Nat.le_of_lt_succ (s.curve.intensity d).isLt⟩⟩
    assignments := ⟨roles, hroles, hall, fun e _ => ⟨e.2.role_ne_empty, e.2.port_mem⟩⟩
    step := ⟨hstep, hpositive⟩ }

/-- A document is refused, or its settings hold what it says; they give a pace exactly if their step
is a number that can be written, which the check for positive steps does not see to. -/
theorem ofDocument_cases (entries : List (Value × Value)) (bpm step : Option Value) :
    (∃ fault, ofDocument entries bpm step = .error fault) ∨
      ∃ s, ofDocument entries bpm step = .ok s ∧ s.ReadFrom entries bpm step ∧
        ((∃ interval, 0 < interval ∧ s.pace = .ok ⟨.whole s.bpm, interval⟩) ↔ s.step.Measured) ∧
        (s.step.Measured ∨ s.step.Unmeasured) := by
  cases h : ofDocument entries bpm step with
  | error fault => exact Or.inl ⟨fault, rfl⟩
  | ok s =>
    have hread := readFrom_of_ofDocument h
    obtain ⟨_, q, hq, hpos⟩ := hread.step
    refine Or.inr ⟨s, rfl, hread, ?_⟩
    rw [pace_eq_map_fraction hq hpos]
    rcases Value.fraction_cases hq hpos with ⟨hmeasured, r, hr, hfraction⟩ | ⟨hun, fault, hfault⟩
    · rw [hfraction]
      exact ⟨iff_of_true ⟨r, hr, rfl⟩ hmeasured, Or.inl hmeasured⟩
    · rw [hfault]
      refine ⟨iff_of_false ?_ hun.not_measured, Or.inr hun⟩
      rintro ⟨_, _, hok⟩
      cases hok

/-- A step that is not a number passes the check, and no pace comes of it. -/
theorem ofDocument_accepts_nan : ∃ s,
    ofDocument [(.text "trill_interval_ms", .float .nan)] none none = .ok s ∧
      s.pace = .error (.stepNoFraction (.float .nan)) :=
  ⟨_, rfl, rfl⟩

end Settings
end Bellows
