import Bellows.Proofs.Binary64.Overflow
import Bellows.Proofs.Json.Faults
import Bellows.Proofs.Schedule.Soundness

/-! How reading a schedule goes wrong: every check has a fault of the format of its own, and two
faults are none of the format: a number of too many digits, and a time beyond all finite numbers.

Two things are left out. Nothing is said about a text that spells half of a surrogate pair without
the other half, since no character stands for it. And brackets may be nested to any depth here; an
interpreter with a limit of recursion gives up on a text that is nested too deep for it. -/
namespace Bellows

theorem Quantity.toBinary64?_eq_none_iff {q : Quantity} :
    q.toBinary64? = none ↔ ∃ n : Int, q = .whole n ∧ Binary64.overflow ≤ n.natAbs := by
  cases q with
  | whole n =>
    rw [toBinary64?, Binary64.ofInt?_eq_none_iff]
    exact ⟨fun h => ⟨n, rfl, h⟩, fun ⟨_, hn, h⟩ => Quantity.whole.inj hn ▸ h⟩
  | real x => exact iff_of_false nofun nofun

namespace Document

variable {v : Value} {times : List Quantity} {instructions : Keyed String (List Command)}

theorem not_lt_of_decodeParts (h : decodeParts v = .ok (times, instructions)) :
    ∀ q ∈ times, q.lt (.whole 0) = false := by
  obtain ⟨_, -, htimes, -⟩ := decodeParts_eq_ok h
  exact (decodeTime_eq_ok htimes).2.1

/-- A document that passes every check is refused exactly for a whole number as a time from the
overflow on. -/
theorem decode_eq_hugeTime_iff : decode v = .error .hugeTime ↔
    ∃ times instructions, decodeParts v = .ok (times, instructions) ∧
      ∃ n : Int, Quantity.whole n ∈ times ∧ Binary64.overflow ≤ n := by
  unfold decode
  split
  · next hparts =>
    refine iff_of_false nofun ?_
    rintro ⟨times, instructions, hok, _⟩
    cases hparts.symm.trans hok
  · next times instructions hparts =>
    have hnone : times.mapM Quantity.toBinary64? = none ↔
        ∃ n : Int, Quantity.whole n ∈ times ∧ Binary64.overflow ≤ n := by
      rw [mapM_eq_none_iff]
      constructor
      · rintro ⟨q, hq, hround⟩
        obtain ⟨n, rfl, hn⟩ := Quantity.toBinary64?_eq_none_iff.mp hround
        have hpos : 0 ≤ n := by simpa using not_lt_of_decodeParts hparts _ hq
        exact ⟨n, hq, by omega⟩
      · rintro ⟨n, hq, hn⟩
        exact ⟨_, hq, Quantity.toBinary64?_eq_none_iff.mpr ⟨n, rfl, by omega⟩⟩
    cases hround : times.mapM Quantity.toBinary64? with
    | some rounded =>
      refine iff_of_false nofun ?_
      rintro ⟨times', instructions', hok, hn⟩
      cases hparts.symm.trans hok
      cases hround.symm.trans (hnone.mpr hn)
    | none => exact iff_of_true rfl ⟨times, instructions, hparts, hnone.mp hround⟩

/-- What is wrong with the text of a document is no fault of its value. -/
theorem decode_eq_error {fault : DocumentFault} (h : decode v = .error fault) :
    (∃ format, fault = .format format) ∨ fault = .hugeTime := by
  unfold decode at h
  split at h
  · cases h
    exact Or.inl ⟨_, rfl⟩
  · split at h
    · cases h
    · cases h
      exact Or.inr rfl

/-- Nothing is escaped in the text of a document without roles and with one whole time. -/
theorem not_hasHalf_bare (n : Int) : ¬ Json.HasHalf (Json.render none (bare [.int n])).toList := by
  have hdigits : '\\' ∉ n.repr.toList := by
    rw [← Int.toString_eq_repr, Json.toList_toString_int]
    intro h
    split at h
    · obtain hsign | hdigit := List.mem_cons.mp h
      · exact absurd hsign (by decide)
      · cases isDigit_of_mem_decimalDigits hdigit
    · cases isDigit_of_mem_decimalDigits h
  have htime : '\\' ∉ Json.textChars "time" := by decide +kernel
  have hroles : '\\' ∉ Json.textChars "instructions" := by decide +kernel
  refine mt Json.HasHalf.backslash_mem ?_
  rw [Json.render, String.toList_ofList]
  simp [bare, Json.chars, Json.entryChars, Json.itemChars, Value.name, Json.Layout.enclose,
    Json.Layout.comma, Json.Layout.newline, Json.Layout.ofIndent, hdigits, htime, hroles]

end Document

namespace Schedule

variable {text : String} {fault : DocumentFault}

/-- What keeps a text from being read although no check finds fault with it. -/
inductive Escapes (text : String) : DocumentFault → Prop
  /-- The reader came upon a whole number that has more digits than the limit. -/
  | digits {n : Nat} (h : Json.read text = .error (.hugeInteger n)) (hlimit : digitLimit < n)
    (hdigits : Json.HasDigits text.toList n) : Escapes text (.hugeInteger n)
  /-- A document in order has a time that rounds to no finite number. -/
  | time {v : Value} {times : List Quantity} {instructions : Keyed String (List Command)} {n : Int}
    (h : Json.read text = .ok v) (hparts : Document.decodeParts v = .ok (times, instructions))
    (hmem : Quantity.whole n ∈ times) (hn : Binary64.overflow ≤ n) : Escapes text .hugeTime

theorem Escapes.read_eq (h : Escapes text fault) : read text = .error fault := by
  cases h with
  | digits h _ _ => rw [read, h]
  | time h hparts hmem hn =>
    rw [read, h]
    exact Document.decode_eq_hugeTime_iff.mpr ⟨_, _, hparts, _, hmem, hn⟩

/-- A text is read, or refused with a fault of the format, or for what escapes the checks, or for
half of a pair. -/
theorem escapes_of_read (h : read text = .error fault) :
    (∃ format, fault = .format format) ∨ Escapes text fault ∨ fault = .unpaired := by
  cases hjson : Json.read text with
  | error jsonFault =>
    rw [read, hjson] at h
    cases jsonFault with
    | malformed =>
      cases h
      exact Or.inl ⟨_, rfl⟩
    | hugeInteger n =>
      cases h
      obtain ⟨hlimit, hdigits⟩ := Json.answers_of_read hjson
      exact Or.inr (Or.inl (.digits hjson hlimit hdigits))
    | unpaired =>
      cases h
      exact Or.inr (Or.inr rfl)
  | ok v =>
    rw [read, hjson] at h
    change Document.decode v = .error fault at h
    obtain ⟨format, rfl⟩ | rfl := Document.decode_eq_error h
    · exact Or.inl ⟨format, rfl⟩
    · obtain ⟨times, instructions, hparts, n, hmem, hn⟩ := Document.decode_eq_hugeTime_iff.mp h
      exact Or.inr (Or.inl (.time hjson hparts hmem hn))

theorem read_eq_unpaired_iff : read text = .error .unpaired ↔ ¬ Json.Paired text := by
  unfold read Json.Paired
  cases hjson : Json.read text with
  | error jsonFault => cases jsonFault <;> simp
  | ok v =>
    refine iff_of_false (fun h => ?_) fun h => h nofun
    obtain ⟨_, hformat⟩ | hhuge := Document.decode_eq_error h
    · cases hformat
    · cases hhuge

/-- Every text without half of a pair is read as a schedule or refused with a fault of the format,
unless a number in it is too long to be read or a time too large to be rounded; and then that is the
answer. -/
theorem read_fails_in_one_way (text : String) (hpaired : ¬ Json.HasHalf text.toList) :
    (((∃ s, read text = .ok s) ∨ ∃ format, read text = .error (.format format)) ↔
      ¬∃ fault, Escapes text fault) ∧
    ∀ fault, Escapes text fault → read text = .error fault := by
  refine ⟨⟨?_, fun hnone => ?_⟩, fun _ => Escapes.read_eq⟩
  · rintro hannounced ⟨fault, hescapes⟩
    have hread := hescapes.read_eq
    obtain ⟨s, hs⟩ | ⟨format, hformat⟩ := hannounced
    · cases hs.symm.trans hread
    · cases hformat.symm.trans hread
      cases hescapes
  · cases h : read text with
    | ok s => exact Or.inl ⟨s, rfl⟩
    | error fault =>
      obtain ⟨format, rfl⟩ | hescapes | rfl := escapes_of_read h
      · exact Or.inr ⟨format, rfl⟩
      · exact (hnone ⟨fault, hescapes⟩).elim
      · exact (read_eq_unpaired_iff.mp h (Json.paired_of_not_hasHalf hpaired)).elim

/-- The text of a document without roles and with one time that is too large to be rounded. -/
def hugeTime : String := Json.render none (Document.bare [.int (Nat.pow 10 400)])

theorem json_read_hugeTime : Json.read hugeTime = .ok (Document.bare [.int (Nat.pow 10 400)]) := by
  have hshort : (decimalDigits (Int.natAbs (Nat.pow 10 400))).length ≤ digitLimit :=
    (Nat.length_toDigits_le_iff (by decide) (by decide)).mpr (by decide +kernel)
  have htimes : Json.Plain (.list [.int (Nat.pow 10 400)]) :=
    .list _ (List.forall_mem_singleton.mpr (.int _ hshort))
  have hroles : Json.Plain (.map []) := .map [] List.nodup_nil nofun
  have hplain : Json.Plain (Document.bare [.int (Nat.pow 10 400)]) :=
    .map [("time", _), ("instructions", _)] (by decide)
      (List.forall_mem_cons.mpr ⟨htimes, List.forall_mem_singleton.mpr hroles⟩)
  exact Json.read_render hplain none

theorem read_fails_in_one_way_hugeTime : ¬ Json.HasHalf hugeTime.toList ∧
    (((∃ s, read hugeTime = .ok s) ∨ ∃ format, read hugeTime = .error (.format format)) ↔
      ¬∃ fault, Escapes hugeTime fault) ∧
    ∀ fault, Escapes hugeTime fault → read hugeTime = .error fault :=
  have hpaired : ¬ Json.HasHalf hugeTime.toList := Document.not_hasHalf_bare _
  ⟨hpaired, read_fails_in_one_way hugeTime hpaired⟩

theorem read_huge_time : read hugeTime = .error .hugeTime := by
  have hparts : Document.decodeParts (Document.bare [.int (Nat.pow 10 400)]) =
      .ok ([.whole (Nat.pow 10 400)], Keyed.empty) :=
    Document.eq_ok_of_toOption (by decide +kernel)
  exact Escapes.read_eq (.time json_read_hugeTime hparts List.mem_cons_self (by decide +kernel))

end Schedule
end Bellows
