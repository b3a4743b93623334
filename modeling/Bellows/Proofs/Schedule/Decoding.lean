import Mathlib.Data.List.Chain
import Bellows.Proofs.Attempts
import Bellows.Proofs.Axis.Landing
import Bellows.Role.Settings
import Bellows.Schedule.Document

/-! Decoding of encoded schedules: whatever keeps to the announced format is read back unchanged. -/
namespace Bellows

/-- A command for five ports with an intensity that fits into eight bits. -/
structure Command.WellFormed (c : Command) : Prop where
  valves : c.valves.length = portCount
  intensity : 0 ≤ c.intensity ∧ c.intensity ≤ 255

instance (c : Command) : Decidable c.WellFormed :=
  decidable_of_iff (c.valves.length = portCount ∧ 0 ≤ c.intensity ∧ c.intensity ≤ 255)
    ⟨fun h => ⟨h.1, h.2⟩, fun h => ⟨h.valves, h.intensity⟩⟩

/-- A schedule that keeps to its format. -/
structure Schedule.WellFormed (s : Schedule) : Prop where
  nonneg : ∀ t ∈ s.time, Binary64.zero.le t = true
  increasing : Axis.Increasing s.time
  lengths : ∀ e ∈ s.instructions.entries, e.2.length = s.time.length
  commands : ∀ e ∈ s.instructions.entries, ∀ c ∈ e.2, c.WellFormed

namespace Quantity

variable {x y : Binary64}

/-- A time of at least zero does not count as negative. -/
theorem real_lt_zero (h : Binary64.zero.le x = true) : (real x).lt (whole 0) = false := by
  obtain ⟨_, hnan, hrank⟩ := Binary64.le_iff.mp h
  cases x with
  | nan => cases hnan
  | infinite s =>
    cases s with
    | false => rfl
    | true =>
      have hpos := Binary64.representable_zero.1
      change 0 ≤ -(Binary64.ceiling : Int) at hrank
      omega
  | finite s n hn =>
    change 0 ≤ Binary64.signed s n at hrank
    have hcompare : compare 0 (Binary64.signed s n) ≠ .gt := by
      rw [Ne, Int.compare_eq_gt]
      omega
    rw [lt, order?, order?.wholeToReal, Int.zero_mul]
    cases hc : compare 0 (Binary64.signed s n) with
    | lt => rfl
    | eq => rfl
    | gt => exact (hcompare hc).elim

theorem real_le_of_lt (h : x.lt y = true) : (real y).le (real x) = false := by
  obtain ⟨hx, hy, hrank⟩ := Binary64.lt_iff.mp h
  have hgt : compare y.rank x.rank = .gt := Int.compare_eq_gt.mpr hrank
  simp [le, order?, hx, hy, hgt]

end Quantity

namespace Document

variable {c : Command} {commands : List Command} {role : String} {α : Type}

theorem anyNeighbours_eq_false_iff {related : α → α → Bool} {l : List α} :
    anyNeighbours related l = false ↔ l.IsChain fun a b => related a b = false := by
  induction l with
  | nil => simp [anyNeighbours]
  | cons a l ih =>
    cases l with
    | nil => simp [anyNeighbours]
    | cons b l => rw [anyNeighbours, Bool.or_eq_false_iff, ih, List.isChain_cons_cons]

theorem decodeAction_word (a : PumpAction) : decodeAction (.text a.word) = .ok a := by
  rw [decodeAction, PumpAction.ofWord?_word]

theorem decodeValve_word (v : Valve) : decodeValve (.text v.word) = .ok v := by
  rw [decodeValve, Valve.ofWord?_word]

/-- The valves of five ports are found under their names. -/
theorem decodeValves_zip {valves : List Valve} (h : valves.length = portCount) :
    decodeValves (.map ((portKeys.zip valves).map fun (key, v) => (.text key, .text v.word))) =
      .ok valves := by
  match valves, h with
  | [v₁, v₂, v₃, v₄, v₅], _ =>
    simp [decodeValves, hasPortKeys, portKeys, Value.field, Value.field?, decodeValve_word]
    rfl

theorem decodeCommand_encodeCommand (h : c.WellFormed) :
    decodeCommand (encodeCommand c) = .ok c := by
  simp [decodeCommand, encodeCommand, Value.field, Value.field?, decodeAction_word, decodeIntensity,
    h.intensity, decodeValves_zip h.valves]
  rfl

theorem decodeRole_encode (hcommands : ∀ c ∈ commands, c.WellFormed) (role : String) :
    decodeRole commands.length (.text role) (.list (commands.map encodeCommand)) =
      .ok (role, commands) := by
  have hall : (commands.map encodeCommand).mapM decodeCommand = .ok commands := by
    rw [List.mapM_map]
    exact (mapM_eq_pure fun c hc => decodeCommand_encodeCommand (hcommands c hc)).trans
      (congrArg _ commands.map_id)
  rw [decodeRole, if_pos (List.length_map _), hall]
  rfl

/-- The roles are read back in their order, each under its name. -/
theorem decodeInstructions_encode {ticks : Nat} {instructions : Keyed String (List Command)}
    (hlengths : ∀ e ∈ instructions.entries, e.2.length = ticks)
    (hcommands : ∀ e ∈ instructions.entries, ∀ c ∈ e.2, c.WellFormed) :
    decodeInstructions ticks (.map (instructions.entries.map fun e =>
      (.text e.1, .list (e.2.map encodeCommand)))) = .ok instructions := by
  have hall : (instructions.entries.map fun e =>
      (Value.text e.1, Value.list (e.2.map encodeCommand))).mapM
        (fun e => decodeRole ticks e.1 e.2) = .ok instructions.entries := by
    rw [List.mapM_map]
    refine (mapM_eq_pure fun e he => ?_).trans (congrArg _ instructions.entries.map_id)
    have hrole := decodeRole_encode (hcommands e he) e.1
    rw [hlengths e he] at hrole
    exact hrole
  have hentries : Keyed.ofList instructions.entries = instructions :=
    Keyed.ext (Keyed.entries_ofList instructions.distinct)
  exact (congrArg (Except.map Keyed.ofList) hall).trans (congrArg Except.ok hentries)

/-- Times that are written as binary64 numbers are checked as they are. -/
theorem decodeTime_float (time : List Binary64) : decodeTime (.list (time.map .float)) =
    if (time.map Quantity.real).any fun t => t.lt (.whole 0) then .error .timeNegative
    else if anyNeighbours (fun earlier later => later.le earlier) (time.map Quantity.real) then
      .error .timeNotIncreasing
    else .ok (time.map .real) := by
  have hnumbers : (time.map Value.float).mapM number? = some (time.map .real) := by
    rw [List.mapM_map]
    exact mapM_eq_pure fun _ _ => rfl
  simp only [decodeTime, hnumbers]

theorem decodeTime_encode {time : List Binary64}
    (hnonneg : ∀ t ∈ time, Binary64.zero.le t = true) (hincreasing : Axis.Increasing time) :
    decodeTime (.list (time.map .float)) = .ok (time.map .real) := by
  have hpositive : ((time.map Quantity.real).any fun t => t.lt (.whole 0)) = false := by
    rw [List.any_map, List.any_eq_false]
    intro t ht
    simp [Quantity.real_lt_zero (hnonneg t ht)]
  have hsteps : anyNeighbours (fun earlier later => later.le earlier)
      (time.map Quantity.real) = false := by
    rw [anyNeighbours_eq_false_iff, List.isChain_map]
    exact hincreasing.isChain.imp fun _ _ hlt => Quantity.real_le_of_lt hlt
  rw [decodeTime_float, hpositive, hsteps]
  rfl

theorem decodeParts_map (time instructions : Value) :
    decodeParts (.map [(.text "time", time), (.text "instructions", instructions)]) = (do
      let times ← decodeTime time
      (decodeInstructions times.length instructions).map fun roles => (times, roles)) := by
  simp only [decodeParts, Value.field, Value.field?]
  rfl

end Document

namespace Schedule

variable {s : Schedule}

/-- A schedule is read back as it was written if its times are. -/
theorem decode_encode_of_times
    (htime : Document.decodeTime (.list (s.time.map .float)) = .ok (s.time.map .real))
    (hlengths : ∀ e ∈ s.instructions.entries, e.2.length = s.time.length)
    (hcommands : ∀ e ∈ s.instructions.entries, ∀ c ∈ e.2, c.WellFormed) :
    Document.decode s.encode = .ok s := by
  have hinstructions : Document.decodeInstructions (s.time.map Quantity.real).length _ =
      .ok s.instructions := Document.decodeInstructions_encode
    (fun e he => (hlengths e he).trans (List.length_map _).symm) hcommands
  have hfloats : (s.time.map Quantity.real).mapM Quantity.toBinary64? = some s.time := by
    rw [List.mapM_map]
    exact (mapM_eq_pure fun _ _ => rfl).trans (congrArg _ s.time.map_id)
  have hparts : Document.decodeParts s.encode =
      .ok (s.time.map Quantity.real, s.instructions) := by
    rw [encode, Document.encode, Document.decodeParts_map, htime]
    exact congrArg (Except.map _) hinstructions
  rw [Document.decode, hparts]
  simp only [hfloats]

/-- Every schedule that keeps to its format is read back as it was written. -/
theorem decode_encode (h : s.WellFormed) : Document.decode s.encode = .ok s :=
  decode_encode_of_times (Document.decodeTime_encode h.nonneg h.increasing) h.lengths h.commands

end Schedule
end Bellows
