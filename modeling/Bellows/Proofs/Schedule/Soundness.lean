import Bellows.Proofs.Keyed
import Bellows.Proofs.Schedule.RoundTrip
import Bellows.Proofs.Value.Quantity

/-! What decoding guarantees: the commands of a decoded schedule keep to the format in every case,
and its times do unless one of them is not a number or two neighbours are rounded to the same
one. -/
namespace Bellows

namespace Quantity

variable {x y : Binary64}

/-- Of numbers in order, the later one is at most the earlier one only where they are the same. -/
theorem real_le_eq_same (h : x.isNan = false → y.isNan = false → x.rank ≤ y.rank) :
    (real y).le (real x) = x.same y := by
  unfold le order? Binary64.same
  cases hx : x.isNan with
  | true => simp [hx]
  | false =>
    cases hy : y.isNan with
    | true => simp [hy]
    | false =>
      have hle := h hx hy
      rcases Int.lt_or_eq_of_le hle with hlt | heq
      · simp [Int.compare_eq_gt.mpr hlt, Int.ne_of_lt hlt]
      · simp [hx, hy, heq]

theorem real_nan_lt (h : x.isNan = true) : (real x).lt (whole 0) = false := by
  cases x with
  | nan => rfl
  | infinite s => cases h
  | finite s n hn => cases h

end Quantity

namespace Schedule

/-- No two neighbouring times are the same number. -/
def Apart (s : Schedule) : Prop := s.time.IsChain fun a b => a.same b = false

instance (s : Schedule) : Decidable s.Apart := by
  unfold Apart
  infer_instance

/-- Neighbouring times that are numbers do not decrease. -/
def Ordered (s : Schedule) : Prop :=
  s.time.IsChain fun a b => a.isNan = false → b.isNan = false → a.rank ≤ b.rank

end Schedule

namespace Document

variable {v role commands : Value} {c : Command} {times : List Quantity} {ticks : Nat}
  {entry : String × List Command} {instructions : Keyed String (List Command)}

/-- Times that are accepted are listed numbers, not below zero and each behind the one before it. -/
theorem decodeTime_eq_ok (h : decodeTime v = .ok times) :
    (∃ items, v = .list items ∧ List.Forall₂ (fun item q => number? item = some q) items times) ∧
      (∀ q ∈ times, q.lt (.whole 0) = false) ∧ times.IsChain fun a b => b.le a = false := by
  unfold decodeTime at h
  split at h
  · next items =>
    split at h
    · cases h
    · next numbers hnumbers =>
      split at h
      · cases h
      · next hneg =>
        split at h
        · cases h
        · next hsteps =>
          cases h
          rw [Bool.not_eq_true] at hneg hsteps
          exact ⟨⟨items, rfl, forall₂_of_mapM_eq_some hnumbers⟩,
            fun q hq => by simpa using List.any_eq_false.mp hneg q hq,
            anyNeighbours_eq_false_iff.mp hsteps⟩
  · cases h

theorem decodeAction_eq_ok {a : PumpAction} (h : decodeAction v = .ok a) : v = .text a.word := by
  unfold decodeAction at h
  split at h
  · split at h
    · next ha =>
      cases h
      have hword := List.find?_some ha
      exact congrArg Value.text (of_decide_eq_true hword).symm
    · cases h
  · cases h

theorem decodeIntensity_eq_ok {n : Int} (h : decodeIntensity v = .ok n) :
    v = .int n ∧ 0 ≤ n ∧ n ≤ 255 := by
  unfold decodeIntensity at h
  split at h
  · split at h
    · next hn =>
      cases h
      exact ⟨rfl, hn⟩
    · cases h
  · cases h

theorem decodeValve_eq_ok {valve : Valve} (h : decodeValve v = .ok valve) :
    v = .text valve.word := by
  unfold decodeValve at h
  split at h
  · split at h
    · next hvalve =>
      cases h
      have hword := List.find?_some hvalve
      exact congrArg Value.text (of_decide_eq_true hword).symm
    · cases h
  · cases h

/-- The valves that are accepted stand under the names of the ports. -/
theorem decodeValves_eq_ok {valves : List Valve} (h : decodeValves v = .ok valves) :
    ∃ entries, v = .map entries ∧
      List.Forall₂ (fun name valve => Value.field name entries = .text valve.word)
        portKeys valves := by
  unfold decodeValves at h
  split at h
  · next entries =>
    split at h
    · exact ⟨entries, rfl, (mapM_eq_ok_iff.mp h).imp fun _ _ h => decodeValve_eq_ok h⟩
    · cases h
  · cases h

theorem decodeCommand_eq_ok (h : decodeCommand v = .ok c) : ∃ entries, v = .map entries ∧
    decodeAction (Value.field "action" entries) = .ok c.action ∧
    decodeIntensity (Value.field "pumpPwm" entries) = .ok c.intensity ∧
    decodeValves (Value.field "ports" entries) = .ok c.valves := by
  unfold decodeCommand at h
  split at h
  · next entries =>
    obtain ⟨action, haction, h⟩ := exists_of_bind_eq_ok h
    obtain ⟨intensity, hintensity, h⟩ := exists_of_bind_eq_ok h
    obtain ⟨valves, hvalves, h⟩ := exists_of_bind_eq_ok h
    cases h
    exact ⟨entries, rfl, haction, hintensity, hvalves⟩
  · cases h

theorem wellFormed_of_decodeCommand (h : decodeCommand v = .ok c) : c.WellFormed := by
  obtain ⟨entries, -, -, hintensity, hvalves⟩ := decodeCommand_eq_ok h
  obtain ⟨ports, -, hall⟩ := decodeValves_eq_ok hvalves
  exact ⟨hall.length_eq.symm, (decodeIntensity_eq_ok hintensity).2⟩

/-- The commands of a role are accepted one by one, and there is one for each tick. -/
theorem decodeRole_eq_ok (h : decodeRole ticks role commands = .ok entry) :
    ∃ items, commands = .list items ∧ items.length = ticks ∧ entry.1 = role.name ∧
      List.Forall₂ (fun item c => decodeCommand item = .ok c) items entry.2 := by
  unfold decodeRole at h
  split at h
  · next items =>
    split at h
    · next hlength =>
      obtain ⟨decoded, hdecoded, h⟩ := exists_of_bind_eq_ok h
      cases h
      exact ⟨items, rfl, hlength, rfl, mapM_eq_ok_iff.mp hdecoded⟩
    · cases h
  · cases h

theorem decodeInstructions_eq_ok (h : decodeInstructions ticks v = .ok instructions) :
    ∃ entries roles, v = .map entries ∧ instructions = Keyed.ofList roles ∧
      List.Forall₂ (fun e entry => decodeRole ticks e.1 e.2 = .ok entry) entries roles := by
  unfold decodeInstructions at h
  split at h
  · next entries =>
    obtain ⟨roles, hroles, h⟩ := exists_of_bind_eq_ok h
    cases h
    exact ⟨entries, roles, rfl, rfl, mapM_eq_ok_iff.mp hroles⟩
  · cases h

theorem decodeParts_eq_ok (h : decodeParts v = .ok (times, instructions)) :
    ∃ entries, v = .map entries ∧ decodeTime (Value.field "time" entries) = .ok times ∧
      decodeInstructions times.length (Value.field "instructions" entries) = .ok instructions := by
  unfold decodeParts at h
  split at h
  · next entries =>
    obtain ⟨times', htimes, h⟩ := exists_of_bind_eq_ok h
    obtain ⟨instructions', hinstructions, h⟩ := exists_of_bind_eq_ok h
    cases h
    exact ⟨entries, rfl, htimes, hinstructions⟩
  · cases h

/-- Each role that is accepted has a command for each tick, and these keep to the format. -/
theorem wellFormed_of_decodeInstructions (h : decodeInstructions ticks v = .ok instructions)
    {e : String × List Command} (he : e ∈ instructions.entries) :
    e.2.length = ticks ∧ ∀ c ∈ e.2, c.WellFormed := by
  obtain ⟨entries, roles, -, rfl, hroles⟩ := decodeInstructions_eq_ok h
  obtain ⟨entry, -, hrole⟩ := exists_left_of_mem hroles (Keyed.mem_of_mem_ofList he)
  obtain ⟨items, -, hlength, -, hall⟩ := decodeRole_eq_ok hrole
  refine ⟨hall.length_eq.symm.trans hlength, fun c hc => ?_⟩
  obtain ⟨item, -, hitem⟩ := exists_left_of_mem hall hc
  exact wellFormed_of_decodeCommand hitem

/-- What was checked before a schedule was accepted, and how its times came about. -/
structure Accepted (times : List Quantity) (s : Schedule) : Prop where
  nonneg : ∀ q ∈ times, q.lt (.whole 0) = false
  increasing : times.IsChain fun a b => b.le a = false
  rounded : List.Forall₂ (fun q t => q.toBinary64? = some t) times s.time
  lengths : ∀ e ∈ s.instructions.entries, e.2.length = s.time.length
  commands : ∀ e ∈ s.instructions.entries, ∀ c ∈ e.2, c.WellFormed

theorem exists_accepted {s : Schedule} (h : decode v = .ok s) :
    ∃ times, decodeParts v = .ok (times, s.instructions) ∧ Accepted times s := by
  unfold decode at h
  split at h
  · cases h
  · next times instructions hparts =>
    split at h
    · next rounded hrounded =>
      cases h
      obtain ⟨entries, -, htimes, hinstructions⟩ := decodeParts_eq_ok hparts
      obtain ⟨-, hnonneg, hincreasing⟩ := decodeTime_eq_ok htimes
      have hall := forall₂_of_mapM_eq_some hrounded
      have hroles := fun e he => wellFormed_of_decodeInstructions hinstructions (e := e) he
      exact ⟨times, hparts, hnonneg, hincreasing, hall,
        fun e he => (hroles e he).1.trans hall.length_eq, fun e he => (hroles e he).2⟩
    · cases h

namespace Accepted

variable {s : Schedule} (h : Accepted times s)
include h

theorem zero_le {t : Binary64} (ht : t ∈ s.time) (hnan : t.isNan = false) :
    Binary64.zero.le t = true := by
  obtain ⟨q, hq, hround⟩ := exists_left_of_mem h.rounded ht
  exact Quantity.zero_le_of_not_lt hround hnan (h.nonneg q hq)

theorem ordered : s.Ordered :=
  isChain_of_forall₂ h.rounded h.increasing fun _ _ _ _ hp hq hle hx hy =>
    Quantity.rank_le_of_not_le hp hq hx hy hle

/-- The times keep to the format unless they are no numbers or run together. -/
theorem wellFormed_iff : s.WellFormed ↔ (∀ t ∈ s.time, t.isNan = false) ∧ s.Apart := by
  constructor
  · intro hs
    refine ⟨fun t ht => (Binary64.le_iff.mp (hs.nonneg t ht)).2.1, ?_⟩
    refine hs.increasing.isChain.imp fun a b hlt => ?_
    obtain ⟨ha, hb, hrank⟩ := Binary64.lt_iff.mp hlt
    simp [Binary64.same, ha, hb, Int.ne_of_lt hrank]
  · rintro ⟨hnumbers, hapart⟩
    refine ⟨fun t ht => h.zero_le ht (hnumbers t ht), ?_, h.lengths, h.commands⟩
    have hsteps : s.time.IsChain fun a b => a.lt b = true := by
      refine (isChain_and h.ordered hapart).imp_of_mem_imp fun a b ha hb hab => ?_
      have hna := hnumbers a ha
      have hnb := hnumbers b hb
      have hne : a.rank ≠ b.rank := by simpa [Binary64.same, hna, hnb] using hab.2
      exact Binary64.lt_iff.mpr ⟨hna, hnb, lt_of_le_of_ne (hab.1 hna hnb) hne⟩
    have : Trans (fun a b : Binary64 => a.lt b = true) (fun a b => a.lt b = true)
        (fun a b => a.lt b = true) := ⟨Binary64.lt_trans⟩
    exact List.isChain_iff_pairwise.mp hsteps

/-- Numbers that rounding does not change are as far apart as they were written. -/
theorem wellFormed_of_exact (hexact : ∀ q ∈ times, q.Exact) : s.WellFormed := by
  refine h.wellFormed_iff.mpr ⟨fun t ht => ?_, ?_⟩
  · obtain ⟨q, hq, hround⟩ := exists_left_of_mem h.rounded ht
    exact (Quantity.rank_of_exact hround (hexact q hq)).1
  · have hsteps : times.IsChain fun p q => (p.Exact ∧ q.Exact) ∧ q.le p = false :=
      h.increasing.imp_of_mem_imp fun p q hp hq hle => ⟨⟨hexact p hp, hexact q hq⟩, hle⟩
    refine isChain_of_forall₂ h.rounded hsteps fun p q x y hp hq hpq => ?_
    obtain ⟨hx, hxrank⟩ := Quantity.rank_of_exact hp hpq.1.1
    obtain ⟨hy, hyrank⟩ := Quantity.rank_of_exact hq hpq.1.2
    have hlt := Quantity.grains_lt_of_not_le hp hq hx hy hpq.2
    rw [← hxrank, ← hyrank] at hlt
    simp [Binary64.same, hx, hy, Int.ne_of_lt hlt]

/-- The document that such a schedule is written as is refused only where two neighbouring times
have run together. -/
theorem decodeTime_eq : decodeTime (.list (s.time.map .float)) =
    if s.Apart then .ok (s.time.map .real) else .error .timeNotIncreasing := by
  have hneg : ((s.time.map Quantity.real).any fun t => t.lt (.whole 0)) = false := by
    rw [List.any_map, List.any_eq_false]
    intro t ht
    cases hnan : t.isNan with
    | true => simp [Quantity.real_nan_lt hnan]
    | false => simp [Quantity.real_lt_zero (h.zero_le ht hnan)]
  have hsteps : anyNeighbours (fun earlier later => later.le earlier)
      (s.time.map Quantity.real) = false ↔ s.Apart := by
    rw [anyNeighbours_eq_false_iff, List.isChain_map]
    constructor
    · intro hle
      exact (isChain_and h.ordered hle).imp fun a b hab => by
        rw [← Quantity.real_le_eq_same hab.1, hab.2]
    · intro hapart
      exact (isChain_and h.ordered hapart).imp fun a b hab => by
        rw [Quantity.real_le_eq_same hab.1, hab.2]
  rw [decodeTime_float, hneg, if_neg Bool.false_ne_true]
  by_cases hapart : s.Apart
  · rw [hsteps.mpr hapart, if_neg Bool.false_ne_true, if_pos hapart]
  · rw [Bool.eq_true_of_not_eq_false (mt hsteps.mp hapart), if_pos rfl, if_neg hapart]

/-- Written and read once more, such a schedule comes back, or its times are refused. -/
theorem read_render_eq (indent : Option Int) : Schedule.read (s.render indent) =
    if s.Apart then .ok s else .error (.format .timeNotIncreasing) := by
  have htime := h.decodeTime_eq
  rw [Schedule.read, Schedule.render,
    Json.read_render (Schedule.plain_encode_of_commands h.commands)]
  by_cases hapart : s.Apart
  · rw [if_pos hapart] at htime ⊢
    exact Schedule.decode_encode_of_times htime h.lengths h.commands
  · rw [if_neg hapart] at htime ⊢
    show decode s.encode = .error (.format .timeNotIncreasing)
    rw [decode, Schedule.encode, encode, decodeParts_map, htime]
    rfl

end Accepted

/-- What is certain of a schedule that was decoded from times: its commands keep to the format, its
times are not below zero and do not decrease. All of it keeps to the format unless a time is not a
number or two neighbours were rounded to the same one, which whole numbers up to `2 ^ 53` never
are; and only for such neighbours its own document is refused. -/
structure Sound (times : List Quantity) (s : Schedule) : Prop where
  lengths : ∀ e ∈ s.instructions.entries, e.2.length = s.time.length
  commands : ∀ e ∈ s.instructions.entries, ∀ c ∈ e.2, c.WellFormed
  nonneg : ∀ t ∈ s.time, t.isNan = false → Binary64.zero.le t = true
  ordered : s.Ordered
  wellFormed_iff : s.WellFormed ↔ (∀ t ∈ s.time, t.isNan = false) ∧ s.Apart
  wellFormed_of_exact : (∀ q ∈ times, q.Exact) → s.WellFormed
  readBack : ∀ indent, Schedule.read (s.render indent) =
    if s.Apart then .ok s else .error (.format .timeNotIncreasing)

/-- Every value that is accepted as a schedule is decoded into a sound one. -/
theorem decode_sound {s : Schedule} (h : decode v = .ok s) :
    ∃ times, decodeParts v = .ok (times, s.instructions) ∧ Sound times s := by
  obtain ⟨times, hparts, ha⟩ := exists_accepted h
  exact ⟨times, hparts, ha.lengths, ha.commands, fun _ ht hnan => ha.zero_le ht hnan, ha.ordered,
    ha.wellFormed_iff, ha.wellFormed_of_exact, ha.read_render_eq⟩

theorem eq_ok_of_toOption {α ε : Type} {x : Except ε α} {a : α} (h : x.toOption = some a) :
    x = .ok a := by
  cases x with
  | error e => cases h
  | ok b => exact congrArg Except.ok (Option.some.inj h)

/-- Times of both kinds, and one role. -/
def mixed : Value := .map [
  (.text "time", .list [.int 0, .float (.ofRatio false 5 2), .int 1000]),
  (.text "instructions", .map [(.text "Lungs", .list (List.replicate 3
    (encodeCommand ⟨.actuate, 160, [.closed, .opened, .closed, .closed, .closed]⟩)))])]

def mixedSchedule : Schedule := ⟨[.zero, .ofRatio false 5 2, .ofNat 1000],
  Keyed.ofList [("Lungs", List.replicate 3
    ⟨.actuate, 160, [.closed, .opened, .closed, .closed, .closed]⟩)]⟩

theorem decode_sound_mixed : decode mixed = .ok mixedSchedule ∧ mixedSchedule.WellFormed ∧
    Schedule.read (mixedSchedule.render none) = .ok mixedSchedule := by
  have hdecode : decode mixed = .ok mixedSchedule := eq_ok_of_toOption (by decide +kernel)
  have htimes : decodeParts mixed = .ok
      ([.whole 0, .real (.ofRatio false 5 2), .whole 1000], mixedSchedule.instructions) :=
    eq_ok_of_toOption (by decide +kernel)
  obtain ⟨times, hparts, hsound⟩ := decode_sound hdecode
  cases htimes.symm.trans hparts
  have hwell : mixedSchedule.WellFormed := by
    refine hsound.wellFormed_of_exact fun q hq => ?_
    simp only [List.mem_cons, List.not_mem_nil, or_false] at hq
    rcases hq with rfl | rfl | rfl
    · exact Nat.zero_le _
    · show (Binary64.ofRatio false 5 2).isNan = false
      decide +kernel
    · show 1000 ≤ Nat.pow 2 53
      decide
  refine ⟨hdecode, hwell, ?_⟩
  rw [hsound.readBack, if_pos (hsound.wellFormed_iff.mp hwell).2]

/-- A document without roles. -/
def bare (time : List Value) : Value :=
  .map [(.text "time", .list time), (.text "instructions", .map [])]

/-- Two whole numbers that are told apart when they are checked become one number when they are
stored, and a time that is not a number passes both checks. -/
theorem decode_not_wellFormed :
    (∃ s, decode (bare [.int 9007199254740992, .int 9007199254740993]) = .ok s ∧
      ¬ Axis.Increasing s.time ∧
      Schedule.read (s.render none) = .error (.format .timeNotIncreasing)) ∧
    ∃ s, decode (bare [.float .nan]) = .ok s ∧ ∃ t ∈ s.time, t.isNan = true := by
  constructor
  · have hdecode : decode (bare [.int 9007199254740992, .int 9007199254740993]) =
        .ok ⟨[.ofNat 9007199254740992, .ofNat 9007199254740992], Keyed.empty⟩ :=
      eq_ok_of_toOption (by decide +kernel)
    obtain ⟨_, _, ha⟩ := exists_accepted hdecode
    refine ⟨_, hdecode, by decide +kernel, ?_⟩
    rw [ha.read_render_eq, if_neg (by decide +kernel)]
  · have hdecode : decode (bare [.float .nan]) = .ok ⟨[.nan], Keyed.empty⟩ :=
      eq_ok_of_toOption (by decide +kernel)
    exact ⟨_, hdecode, .nan, List.mem_singleton_self _, rfl⟩

end Document
end Bellows
