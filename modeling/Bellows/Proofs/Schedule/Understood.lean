import Bellows.Proofs.Schedule.Soundness

/-! What is understood of a document: a schedule that is read from a value and written again is that
value without its entries under other keys, and with every time as a binary64 number. -/
namespace Bellows

namespace Json

/-- Values of JSON, with whole numbers of any size: the keys of a map are different texts. -/
inductive Shaped : Value → Prop
  | null : Shaped .null
  | bool (b : Bool) : Shaped (.bool b)
  | int (n : Int) : Shaped (.int n)
  | float (x : Binary64) : Shaped (.float x)
  | text (s : String) : Shaped (.text s)
  | list (items : List Value) (shaped : ∀ v ∈ items, Shaped v) : Shaped (.list items)
  | map (entries : List (String × Value)) (distinct : (entries.map Prod.fst).Nodup)
    (shaped : ∀ e ∈ entries, Shaped e.2) : Shaped (.map (Value.named entries))

end Json

/-- Values that are equal: numbers by what they are worth, and maps in whatever order. -/
inductive Value.Equals : Value → Value → Prop
  | same (v : Value) : Equals v v
  | number {v w : Value} {p q : Quantity} (hv : Document.number? v = some p)
    (hw : Document.number? w = some q) (h : p.same q = true) : Equals v w
  | list {l l' : List Value} (h : List.Forall₂ Equals l l') : Equals (.list l) (.list l')
  | map {es between es' : List (Value × Value)} (hperm : es.Perm between)
    (hkeys : between.map Prod.fst = es'.map Prod.fst)
    (hvalues : List.Forall₂ Equals (between.map Prod.snd) (es'.map Prod.snd)) :
    Equals (.map es) (.map es')

/-- Schedules that are equal: their times by what they are worth, and their roles in whatever
order. -/
structure Schedule.Equals (s s' : Schedule) : Prop where
  time : List.Forall₂ (fun t t' => Value.Equals (.float t) (.float t')) s.time s'.time
  instructions : s.instructions.entries.Perm s'.instructions.entries

namespace Document

/-- The entries under some names, in the order of the names. -/
def pick (names : List String) (entries : List (Value × Value)) : List (Value × Value) :=
  names.map fun name => (.text name, Value.field name entries)

/-- A value with each item of a list changed. -/
def eachItem (f : Value → Value) : Value → Value
  | .list items => .list (items.map f)
  | v => v

/-- A number as a time. -/
def asTime (v : Value) : Value :=
  match (number? v).bind Quantity.toBinary64? with
  | some x => .float x
  | none => v

/-- The states of the five ports, the first port first. -/
def understoodPorts : Value → Value
  | .map entries => .map (pick portKeys entries)
  | v => v

/-- A command with its action, its strength and its ports. -/
def understoodCommand : Value → Value
  | .map entries => .map (pick ["action", "pumpPwm"] entries ++
      [(.text "ports", understoodPorts (Value.field "ports" entries))])
  | v => v

/-- The commands of each role, in the order of the document. -/
def understoodInstructions : Value → Value
  | .map roles => .map (roles.map fun e => (e.1, eachItem understoodCommand e.2))
  | v => v

/-- A document with its times and its instructions. -/
def understood : Value → Value
  | .map entries => .map [
      (.text "time", eachItem asTime (Value.field "time" entries)),
      (.text "instructions", understoodInstructions (Value.field "instructions" entries))]
  | v => v

variable {v role commands : Value} {c : Command} {times : List Quantity} {ticks : Nat}
  {entry : String × List Command} {instructions : Keyed String (List Command)} {s s' : Schedule}

theorem eachItem_asTime {time : List Binary64} (h : decodeTime v = .ok times)
    (hrounded : List.Forall₂ (fun q t => q.toBinary64? = some t) times time) :
    eachItem asTime v = .list (time.map .float) := by
  obtain ⟨⟨items, rfl, hnumbers⟩, -⟩ := decodeTime_eq_ok h
  have hall : List.Forall₂ (fun item t => asTime item = .float t) items time := by
    refine forall₂_of_common hnumbers.flip hrounded fun q _ item t hitem ht => ?_
    have hnumber : number? item = some q := hitem
    rw [asTime, hnumber, Option.bind_some, ht]
  exact congrArg Value.list (map_eq_of_forall₂ hall fun _ _ h => h)

/-- Valves that stand under their names are picked under them. -/
theorem pick_eq_zip {names : List String} {valves : List Valve} {entries : List (Value × Value)}
    (h : List.Forall₂ (fun name valve => Value.field name entries = .text valve.word)
      names valves) :
    pick names entries = (names.zip valves).map fun (key, v) => (.text key, .text v.word) := by
  induction h with
  | nil => rfl
  | cons hvalve _ ih =>
    unfold pick at ih ⊢
    rw [List.map_cons, ih, hvalve]
    rfl

theorem understoodCommand_eq (h : decodeCommand v = .ok c) :
    understoodCommand v = encodeCommand c := by
  obtain ⟨entries, rfl, haction, hintensity, hvalves⟩ := decodeCommand_eq_ok h
  obtain ⟨ports, hports, hall⟩ := decodeValves_eq_ok hvalves
  rw [understoodCommand, hports, understoodPorts, pick_eq_zip hall, pick, List.map_cons,
    List.map_singleton, decodeAction_eq_ok haction, (decodeIntensity_eq_ok hintensity).1]
  rfl

/-- Roles under different names are read in their order, none in the place of another. -/
theorem understoodInstructions_eq (hv : Json.Shaped v)
    (h : decodeInstructions ticks v = .ok instructions) :
    understoodInstructions v = .map (instructions.entries.map fun (role, commands) =>
      (.text role, .list (commands.map encodeCommand))) := by
  obtain ⟨_, roles, hmap, rfl, hroles⟩ := decodeInstructions_eq_ok h
  subst hmap
  cases hv with
  | map named hdistinct _ =>
    have hall : List.Forall₂ (fun e entry => e.1 = entry.1 ∧
        eachItem understoodCommand e.2 = .list (entry.2.map encodeCommand)) named roles := by
      refine (List.forall₂_map_left_iff.mp hroles).imp fun e entry hrole => ?_
      obtain ⟨items, hitems, -, hname, hcommands⟩ := decodeRole_eq_ok hrole
      have heach : eachItem understoodCommand (.list items) = .list (entry.2.map encodeCommand) :=
        congrArg Value.list (map_eq_of_forall₂ hcommands fun _ _ h => understoodCommand_eq h)
      exact ⟨hname.symm, hitems ▸ heach⟩
    have hnames : named.map Prod.fst = roles.map Prod.fst :=
      map_eq_of_forall₂ hall fun _ _ h => h.1
    rw [Keyed.entries_ofList (hnames ▸ hdistinct), understoodInstructions, Value.named,
      List.map_map]
    refine congrArg Value.map (map_eq_of_forall₂ hall fun e entry h => ?_)
    exact Prod.ext (congrArg Value.text h.1) h.2

theorem shaped_field? {entries : List (String × Value)} (h : ∀ e ∈ entries, Json.Shaped e.2)
    {name : String} (hv : Value.field? name (Value.named entries) = some v) : Json.Shaped v := by
  induction entries with
  | nil => cases hv
  | cons e rest ih =>
    obtain ⟨hfirst, hrest⟩ := List.forall_mem_cons.mp h
    have hstep : Value.field? name (Value.named (e :: rest)) =
      if e.1 = name then some e.2 else Value.field? name (Value.named rest) := rfl
    rw [hstep] at hv
    split at hv
    · cases hv
      exact hfirst
    · exact ih hrest hv

theorem shaped_field {entries : List (Value × Value)} (h : Json.Shaped (.map entries))
    (name : String) : Json.Shaped (Value.field name entries) := by
  cases h with
  | map named _ hshaped =>
    unfold Value.field
    cases hfield : Value.field? name (Value.named named) with
    | none => exact .null
    | some v => exact shaped_field? hshaped hfield

/-- Written again, a schedule is what was understood of its document. -/
theorem encode_eq (hv : Json.Shaped v) (h : decode v = .ok s) : s.encode = understood v := by
  obtain ⟨times, hparts, haccepted⟩ := exists_accepted h
  obtain ⟨entries, rfl, htimes, hinstructions⟩ := decodeParts_eq_ok hparts
  rw [understood, eachItem_asTime htimes haccepted.rounded,
    understoodInstructions_eq (shaped_field hv "instructions") hinstructions]
  rfl

/-- Schedules that were accepted are written in different ways. -/
theorem eq_of_encode_eq {v' : Value} (h : decode v = .ok s) (h' : decode v' = .ok s')
    (heq : s.encode = s'.encode) : s = s' := by
  obtain ⟨_, _, ha⟩ := exists_accepted h
  obtain ⟨_, _, ha'⟩ := exists_accepted h'
  simp only [Schedule.encode, encode, Value.map.injEq, List.cons.injEq, Prod.mk.injEq, true_and,
    Value.list.injEq, and_true] at heq
  obtain ⟨htime, hroles⟩ := heq
  have htime : s.time = s'.time := List.map_injective_iff.mpr (fun _ _ h => Value.float.inj h) htime
  have hread := decodeInstructions_encode ha.lengths ha.commands
  rw [hroles, htime, decodeInstructions_encode ha'.lengths ha'.commands] at hread
  have hinstructions : s.instructions = s'.instructions := (Except.ok.inj hread).symm
  cases s
  cases s'
  congr

end Document

/-- Equal schedules are written as equal values. -/
theorem Schedule.Equals.encode {s s' : Schedule} (h : s.Equals s') : s.encode.Equals s'.encode := by
  refine .map (.refl _) rfl (.cons (.list ?_) (.cons ?_ .nil))
  · rw [List.forall₂_map_left_iff, List.forall₂_map_right_iff]
    exact h.time
  · exact .map (h.instructions.map _) rfl (List.forall₂_same.mpr fun v _ => .same v)

namespace Document

variable {v : Value} {s : Schedule}

/-- Whatever is accepted is written again as what was understood of it: its times as binary64
numbers, and each role in its order with the action, the strength and the five ports of each
command. What is understood of two accepted documents is the same exactly if their schedules are,
and it is equal if these are equal. -/
theorem encode_eq_understood (hv : Json.Shaped v) (h : decode v = .ok s) :
    s.encode = understood v ∧ ∀ v' s', Json.Shaped v' → decode v' = .ok s' →
      (s = s' ↔ understood v = understood v') ∧
        (s.Equals s' → Value.Equals (understood v) (understood v')) := by
  have hencode := encode_eq hv h
  refine ⟨hencode, fun v' s' hv' h' => ?_⟩
  have hencode' := encode_eq hv' h'
  rw [← hencode, ← hencode']
  exact ⟨⟨congrArg Schedule.encode, eq_of_encode_eq h h'⟩, Schedule.Equals.encode⟩

/-- The ports of a command, the last port first. -/
def reversedPorts (states : List String) : Value :=
  .map (Value.named ((portKeys.zip (states.map Value.text)).reverse))

theorem shaped_reversedPorts {states : List String} (h : states.length = portKeys.length) :
    Json.Shaped (reversedPorts states) := by
  refine .map _ ?_ fun e he => ?_
  · rw [List.map_reverse, List.nodup_reverse, List.map_fst_zip (by rw [List.length_map, h])]
    decide
  · obtain ⟨s, -, hs⟩ := List.mem_map.mp (List.of_mem_zip (List.mem_reverse.mp he)).2
    exact hs ▸ .text s

/-- A document with one time, entries under other keys at every level, and nothing in its usual
place. -/
def annotated (time : Value) : Value := .map (Value.named [
  ("title", .text "Étude"),
  ("instructions", .map (Value.named [
    ("Legs", .list [.map (Value.named [("note", .null),
      ("ports", reversedPorts ["closed", "open", "closed", "closed", "open"]),
      ("pumpPwm", .int 160), ("action", .text "actuate")])]),
    ("Arms", .list [.map (Value.named [("pumpPwm", .int 0), ("action", .text "stop"),
      ("ports", reversedPorts (List.replicate 5 "closed"))])])])),
  ("time", .list [time])])

def annotatedSchedule : Schedule := ⟨[.ofNat 3], Keyed.ofList [
  ("Legs", [⟨.actuate, 160, [.closed, .opened, .closed, .closed, .opened]⟩]),
  ("Arms", [⟨.stop, 0, List.replicate 5 .closed⟩])]⟩

theorem shaped_annotated {time : Value} (h : Json.Shaped time) : Json.Shaped (annotated time) := by
  have hkeys : ["title", "instructions", "time"].Nodup := by decide
  refine .map _ hkeys (List.forall_mem_cons.mpr ⟨.text _, List.forall_mem_cons.mpr ⟨?_,
    List.forall_mem_singleton.mpr (.list _ (List.forall_mem_singleton.mpr h))⟩⟩)
  refine .map _ (by decide) (List.forall_mem_cons.mpr ⟨?_, List.forall_mem_singleton.mpr ?_⟩)
  all_goals refine .list _ (List.forall_mem_singleton.mpr (.map _ (by decide) ?_))
  · simp only [List.forall_mem_cons]
    exact ⟨.null, shaped_reversedPorts rfl, .int _, .text _, by simp⟩
  · simp only [List.forall_mem_cons]
    exact ⟨.int _, .text _, shaped_reversedPorts rfl, by simp⟩

/-- A whole number as a time is understood as the binary64 number. -/
theorem encode_eq_understood_annotated : Json.Shaped (annotated (.int 3)) ∧
    decode (annotated (.int 3)) = .ok annotatedSchedule ∧
    annotatedSchedule.encode = understood (annotated (.int 3)) ∧
    understood (annotated (.int 3)) = understood (annotated (.float (.ofNat 3))) := by
  have hshaped : Json.Shaped (annotated (.int 3)) := shaped_annotated (.int 3)
  have hdecode : decode (annotated (.int 3)) = .ok annotatedSchedule :=
    eq_ok_of_toOption (by decide +kernel)
  have hdecode' : decode (annotated (.float (.ofNat 3))) = .ok annotatedSchedule :=
    eq_ok_of_toOption (by decide +kernel)
  obtain ⟨hencode, hsame⟩ := encode_eq_understood hshaped hdecode
  have hunderstood := (hsame _ _ (shaped_annotated (.float _)) hdecode').1
  exact ⟨hshaped, hdecode, hencode, hunderstood.mp rfl⟩

end Document
end Bellows
