import Mathlib.Algebra.Group.Nat.Defs
import Bellows.Role.Settings
import Bellows.Schedule.Packet

/-! Masks of valves. The bit behind a port tells whether its valve is open, for any number of
valves, so that a mask and a number of valves determine them. A packet has one octet for the mask
and one for the strength, so there is none where one of them does not fit. -/
namespace Bellows

/-- The mask in which the bits of some ports are set one after another. -/
def maskOfPorts (ports : List Nat) : Nat :=
  ports.foldl (fun mask port => mask ||| 1 <<< (port - 1)) 0

section

variable {v : Valve} {vs ws : List Valve} {mask i n : Nat}

theorem Valve.bit_mod_two : v.bit % 2 = 1 ↔ v = .opened := by cases v <;> decide

theorem Valve.bit_le_one (v : Valve) : v.bit ≤ 1 := by cases v <;> decide

theorem Valve.ofBool_bit (v : Valve) : Valve.ofBool (decide (v.bit % 2 = 1)) = v := by
  cases v <;> rfl

theorem Valve.bit_ofBool (mask : Nat) :
    (Valve.ofBool (decide (mask % 2 = 1))).bit = mask % 2 := by
  rcases Nat.mod_two_eq_zero_or_one mask with h | h
  · rw [h]
    rfl
  · rw [h]
    rfl

/-- The valve in front is the lowest bit of a mask. -/
theorem valveMask_cons_mod (v : Valve) (vs : List Valve) :
    valveMask (v :: vs) % 2 = v.bit % 2 := by
  rw [valveMask, Nat.add_mul_mod_self_left]

/-- The valves behind it are the rest. -/
theorem valveMask_cons_div (v : Valve) (vs : List Valve) :
    valveMask (v :: vs) / 2 = valveMask vs := by
  have hbit := v.bit_le_one
  rw [valveMask]
  omega

/-- Some valves have one bit each. -/
theorem valveMask_lt (vs : List Valve) : valveMask vs < 2 ^ vs.length := by
  induction vs with
  | nil => exact Nat.one_pos
  | cons v vs ih =>
    have hbit := v.bit_le_one
    rw [valveMask, List.length_cons, Nat.pow_succ]
    omega

/-- A bit is set where the valve is open. -/
theorem testBit_valveMask : (valveMask vs).testBit i = true ↔ vs[i]? = some .opened := by
  induction vs generalizing i with
  | nil => simp [valveMask]
  | cons v vs ih =>
    cases i with
    | zero =>
      rw [Nat.testBit_zero, valveMask_cons_mod, decide_eq_true_iff, Valve.bit_mod_two,
        List.getElem?_cons_zero, Option.some.injEq]
    | succ i => rw [Nat.testBit_add_one, valveMask_cons_div, ih, List.getElem?_cons_succ]

/-- The valves are read back from their mask. -/
theorem valvesOfMask_valveMask (vs : List Valve) : valvesOfMask (valveMask vs) vs.length = vs := by
  induction vs with
  | nil => rfl
  | cons v vs ih =>
    rw [List.length_cons, valvesOfMask, valveMask_cons_mod, valveMask_cons_div, ih,
      Valve.ofBool_bit]

theorem length_valvesOfMask (mask n : Nat) : (valvesOfMask mask n).length = n := by
  induction n generalizing mask with
  | zero => rfl
  | succ n ih => rw [valvesOfMask, List.length_cons, ih]

/-- A mask is put together again from the valves that it is read as. -/
theorem valveMask_valvesOfMask (h : mask < 2 ^ n) : valveMask (valvesOfMask mask n) = mask := by
  induction n generalizing mask with
  | zero => exact (Nat.lt_one_iff.mp h).symm
  | succ n ih =>
    rw [Nat.pow_succ] at h
    rw [valvesOfMask, valveMask, ih (by omega), Valve.bit_ofBool]
    omega

/-- As many valves with the same mask are the same. -/
theorem eq_of_valveMask_eq (hlength : vs.length = ws.length) (h : valveMask vs = valveMask ws) :
    vs = ws := by
  rw [← valvesOfMask_valveMask vs, ← valvesOfMask_valveMask ws, h, hlength]

/-- Setting bits one after another sets those of all the ports. -/
theorem testBit_foldl_or (ports : List Nat) :
    (ports.foldl (fun mask port => mask ||| 1 <<< (port - 1)) mask).testBit i = true ↔
      mask.testBit i = true ∨ ∃ port ∈ ports, port - 1 = i := by
  induction ports generalizing mask with
  | nil => simp
  | cons port ports ih =>
    have hstep : (mask ||| 1 <<< (port - 1)).testBit i = true ↔
        mask.testBit i = true ∨ port - 1 = i := by
      rw [Nat.testBit_or, Bool.or_eq_true, Nat.one_shiftLeft, Nat.testBit_two_pow,
        decide_eq_true_iff]
    rw [List.foldl_cons, ih, hstep, or_assoc]
    simp only [List.mem_cons, exists_eq_or_imp]

theorem testBit_maskOfPorts (ports : List Nat) :
    (maskOfPorts ports).testBit i = true ↔ ∃ port ∈ ports, port - 1 = i := by
  rw [maskOfPorts, testBit_foldl_or, Nat.zero_testBit]
  simp

theorem fitsOctet_iff {n : Int} : fitsOctet n = true ↔ 0 ≤ n ∧ n ≤ 255 := by
  simp [fitsOctet]

theorem PumpAction.opcode_lt (a : PumpAction) : a.opcode.toNat < 256 := by cases a <;> decide

end

namespace Command

variable {c : Command} {mask : Int} {valves : List Valve} {octets : List UInt8} {port i : Nat}

/-- The open ports are counted from one. -/
theorem mem_openPorts : port ∈ c.openPorts ↔ ∃ i, port = i + 1 ∧ c.valves[i]? = some .opened := by
  constructor
  · intro hport
    obtain ⟨⟨v, n⟩, hn, hv⟩ := List.mem_filterMap.mp hport
    obtain ⟨hle, hget⟩ := List.mk_mem_zipIdx_iff_le_and_getElem?_sub.mp hn
    obtain ⟨rfl, rfl⟩ : v = .opened ∧ n = port := by simpa using hv
    exact ⟨n - 1, by omega, hget⟩
  · rintro ⟨i, rfl, hi⟩
    refine List.mem_filterMap.mpr ⟨(.opened, i + 1), ?_, if_pos rfl⟩
    exact List.mk_mem_zipIdx_iff_le_and_getElem?_sub.mpr ⟨by omega, by simpa using hi⟩

theorem testBit_portsByte : c.portsByte.testBit i = true ↔ i + 1 ∈ c.openPorts := by
  rw [portsByte, testBit_valveMask, mem_openPorts]
  simp

/-- The mask of a command is put together from its open ports. -/
theorem portsByte_eq_maskOfPorts (c : Command) : c.portsByte = maskOfPorts c.openPorts := by
  apply Nat.eq_of_testBit_eq
  intro i
  rw [Bool.eq_iff_iff, testBit_portsByte, testBit_maskOfPorts]
  constructor
  · intro hi
    exact ⟨i + 1, hi, rfl⟩
  · rintro ⟨port, hport, rfl⟩
    obtain ⟨i, rfl, _⟩ := mem_openPorts.mp hport
    exact hport

theorem packet?_eq_none_iff :
    c.packet? = none ↔ 255 < c.portsByte ∨ c.intensity < 0 ∨ 255 < c.intensity := by
  have hfits : (fitsOctet c.portsByte && fitsOctet c.intensity) = true ↔
      c.portsByte ≤ 255 ∧ 0 ≤ c.intensity ∧ c.intensity ≤ 255 := by
    rw [Bool.and_eq_true, fitsOctet_iff, fitsOctet_iff]
    omega
  rw [packet?]
  split
  · next h =>
    have := hfits.mp h
    simp only [reduceCtorEq, false_iff]
    omega
  · next h =>
    rw [hfits] at h
    simp only [true_iff]
    omega

/-- The octets of a packet are the sign of the action, the mask and the strength. -/
theorem octets_of_packet? (h : c.packet? = some octets) :
    octets.map (fun octet => (octet.toNat : Int)) =
      [(c.action.opcode.toNat : Int), (c.portsByte : Int), c.intensity] := by
  have hsome : c.packet? ≠ none := by
    rw [h]
    exact Option.some_ne_none octets
  rw [Ne, packet?_eq_none_iff] at hsome
  have hopcode := c.action.opcode_lt
  rw [packet?] at h
  split at h
  · cases h
    simp
    omega
  · cases h

/-- A mask is read as the valves of a device if it has no bits for other ports, and only then. -/
theorem valvesOfByte_eq_ok_iff : valvesOfByte mask = .ok valves ↔
    valves.length = portCount ∧ (valveMask valves : Int) = mask := by
  rw [valvesOfByte]
  split
  · next h =>
    obtain ⟨n, rfl⟩ := Int.eq_ofNat_of_zero_le h.1
    have hlt : n < 2 ^ portCount := Nat.lt_succ_of_le (Int.ofNat_le.mp h.2)
    rw [Except.ok.injEq, Int.toNat_natCast]
    constructor
    · rintro rfl
      exact ⟨length_valvesOfMask n 5, congrArg Nat.cast (valveMask_valvesOfMask hlt)⟩
    · rintro ⟨hlength, hmask⟩
      rw [← Int.ofNat_inj.mp hmask, ← show valves.length = 5 from hlength]
      exact valvesOfMask_valveMask valves
  · next h =>
    simp only [reduceCtorEq, false_iff, not_and]
    rintro hlength rfl
    have hlt := valveMask_lt valves
    rw [hlength] at hlt
    exact h ⟨Int.natCast_nonneg _, Int.ofNat_le.mpr (Nat.le_of_lt_succ hlt)⟩

theorem exists_valvesOfByte_iff :
    (∃ valves, valvesOfByte mask = .ok valves) ↔ 0 ≤ mask ∧ mask ≤ 0x1f := by
  rw [valvesOfByte]
  split
  · next h => simp [h]
  · next h => simp [h]

/-- What the mask of a command tells, however many valves there are, and what it is sent as. -/
structure Faithful (c : Command) : Prop where
  /-- The bits of the open ports are set one after another. -/
  assembled : c.portsByte = maskOfPorts c.openPorts
  bit_iff : ∀ port, 0 < port →
    (c.portsByte.testBit (port - 1) = true ↔ c.valves[port - 1]? = some .opened)
  open_iff : ∀ port, port ∈ c.openPorts ↔ 0 < port ∧ c.valves[port - 1]? = some .opened
  below : c.portsByte < 2 ^ c.valves.length
  determined : ∀ d : Command, d.valves.length = c.valves.length → d.portsByte = c.portsByte →
    d.valves = c.valves
  readBack : c.valves.length = portCount → valvesOfByte c.portsByte = .ok c.valves
  /-- Exactly the masks of five bits are accepted, and each is the mask of what it is read as. -/
  accepted : ∀ mask, (∃ valves, valvesOfByte mask = .ok valves) ↔ 0 ≤ mask ∧ mask ≤ 0x1f
  masked : ∀ mask valves, valvesOfByte mask = .ok valves →
    valves.length = portCount ∧ (({ c with valves } : Command).portsByte : Int) = mask
  unsent : c.packet? = none ↔ 255 < c.portsByte ∨ c.intensity < 0 ∨ 255 < c.intensity
  sent : ∀ octets, c.packet? = some octets → octets.map (fun octet => (octet.toNat : Int)) =
    [(c.action.opcode.toNat : Int), (c.portsByte : Int), c.intensity]

/-- The mask of a command with any number of valves is faithful to them. -/
theorem portsByte_faithful (c : Command) : c.Faithful where
  assembled := portsByte_eq_maskOfPorts c
  bit_iff _ _ := testBit_valveMask
  open_iff := by
    intro port
    rw [mem_openPorts]
    constructor
    · rintro ⟨i, rfl, hi⟩
      exact ⟨Nat.succ_pos i, hi⟩
    · rintro ⟨hpos, hport⟩
      exact ⟨port - 1, by omega, hport⟩
  below := valveMask_lt c.valves
  determined _ hlength hmask := eq_of_valveMask_eq hlength hmask
  readBack hlength := valvesOfByte_eq_ok_iff.mpr ⟨hlength, rfl⟩
  accepted _ := exists_valvesOfByte_iff
  masked _ _ h := valvesOfByte_eq_ok_iff.mp h
  unsent := packet?_eq_none_iff
  sent _ h := octets_of_packet? h

/-- The mask of nine open valves does not fit into an octet. -/
example : (⟨.stop, 0, List.replicate 9 .opened⟩ : Command).packet? = none := by decide

end Command
end Bellows
