import Bellows.Proofs.Json.RoundTrip
import Bellows.Proofs.Schedule.Decoding

/-! Schedules as documents: whatever keeps to the format is read back unchanged from its text, on
one line or on many. -/
namespace Bellows

namespace Document

variable {c : Command}

theorem plain_ports (h : c.valves.length = portCount) :
    Json.Plain (.map ((portKeys.zip c.valves).map fun (key, v) =>
      (.text key, .text v.word))) := by
  have hnamed : (portKeys.zip c.valves).map (fun (key, v) => (Value.text key, Value.text v.word)) =
      Value.named ((portKeys.zip c.valves).map fun (key, v) => (key, .text v.word)) := by
    rw [Value.named, List.map_map]
    rfl
  have hkeys : ((portKeys.zip c.valves).map fun (key, v) => (key, Value.text v.word)).map
      Prod.fst = portKeys := by
    rw [List.map_map]
    exact List.map_fst_zip (Nat.le_of_eq h.symm)
  rw [hnamed]
  refine .map _ ?_ fun e he => ?_
  · rw [hkeys]
    decide
  obtain ⟨⟨key, v⟩, _, rfl⟩ := List.mem_map.mp he
  exact .text v.word

theorem plain_encodeCommand (h : c.WellFormed) : Json.Plain (encodeCommand c) := by
  have hshort : (decimalDigits c.intensity.natAbs).length ≤ digitLimit := by
    have hdigits : (decimalDigits c.intensity.natAbs).length ≤ 3 :=
      (Nat.length_toDigits_le_iff (by decide) (by decide)).mpr (by
        have := h.intensity
        omega)
    exact hdigits.trans (by decide)
  have hkeys : ["action", "pumpPwm", "ports"].Nodup := by decide
  refine .map [("action", .text c.action.word), ("pumpPwm", .int c.intensity), ("ports", _)]
    hkeys ?_
  intro e he
  simp only [List.mem_cons, List.not_mem_nil, or_false] at he
  rcases he with rfl | rfl | rfl
  · exact .text _
  · exact .int _ hshort
  · exact plain_ports h.valves

end Document

namespace Schedule

variable {s : Schedule}

/-- The document of a schedule is one that JSON has a form for, whatever its times are. -/
theorem plain_encode_of_commands
    (h : ∀ e ∈ s.instructions.entries, ∀ c ∈ e.2, c.WellFormed) : Json.Plain s.encode := by
  have hroles : Json.Plain (.map (s.instructions.entries.map fun e =>
      (.text e.1, .list (e.2.map Document.encodeCommand)))) := by
    have hnamed : s.instructions.entries.map (fun e =>
        (Value.text e.1, Value.list (e.2.map Document.encodeCommand))) =
          Value.named (s.instructions.entries.map fun e =>
            (e.1, .list (e.2.map Document.encodeCommand))) := by
      rw [Value.named, List.map_map]
      rfl
    have hkeys : (s.instructions.entries.map fun e =>
        (e.1, Value.list (e.2.map Document.encodeCommand))).map Prod.fst =
          s.instructions.entries.map Prod.fst := by
      rw [List.map_map]
      rfl
    rw [hnamed]
    refine .map _ (hkeys ▸ s.instructions.distinct) fun e he => ?_
    obtain ⟨⟨role, commands⟩, hmem, rfl⟩ := List.mem_map.mp he
    refine .list _ fun v hv => ?_
    obtain ⟨c, hc, rfl⟩ := List.mem_map.mp hv
    exact Document.plain_encodeCommand (h _ hmem c hc)
  have htime : Json.Plain (.list (s.time.map .float)) := by
    refine .list _ fun v hv => ?_
    obtain ⟨t, _, rfl⟩ := List.mem_map.mp hv
    exact .float t
  have hkeys : ["time", "instructions"].Nodup := by decide
  refine .map [("time", .list (s.time.map .float)), ("instructions", _)] hkeys ?_
  intro e he
  simp only [List.mem_cons, List.not_mem_nil, or_false] at he
  rcases he with rfl | rfl
  · exact htime
  · exact hroles

theorem plain_encode (h : s.WellFormed) : Json.Plain s.encode := plain_encode_of_commands h.commands

/-- Every schedule that keeps to its format is read back from its text, with its roles in the same
order. -/
theorem read_render_of_wellFormed (h : s.WellFormed) (indent : Option Int) :
    read (s.render indent) = .ok s := by
  rw [read, render, Json.read_render (plain_encode h)]
  exact decode_encode h

/-- Two roles with names that need every kind of escape, over times that have no short fraction. -/
def marked : Schedule := ⟨[.zero, .ofRatio false 1 10, .ofRatio false 1000000 3], Keyed.ofList [
  ("a \"b\" \\ c\n",
    List.replicate 3 ⟨.actuate, 255, [.opened, .closed, .closed, .closed, .closed]⟩),
  ("é𝄞", List.replicate 3 ⟨.stop, 0, List.replicate 5 .closed⟩)]⟩

theorem read_render_marked : marked.WellFormed ∧ read (marked.render none) = .ok marked ∧
    read (marked.render (some 2)) = .ok marked := by
  have h : marked.WellFormed := by
    refine ⟨?_, ?_, ?_, ?_⟩ <;> decide +kernel
  exact ⟨h, read_render_of_wellFormed h none, read_render_of_wellFormed h (some 2)⟩

end Schedule
end Bellows
