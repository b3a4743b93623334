import Bellows.Encoding.Unicode
import Mathlib.Tactic

/-! Encoding a text in UTF-8 or UTF-16, which decoding inverts. -/
namespace Bellows.Encoding

/-- The loop that lists an array has all octets from its place on still to come. -/
theorem toList_loop_eq (octets : ByteArray) (i : Nat) (behind : List UInt8) :
    ByteArray.toList.loop octets i behind = behind.reverse ++ octets.data.toList.drop i := by
  fun_induction ByteArray.toList.loop octets i behind with
  | case1 i behind hi ih =>
    have hlength : i < octets.data.toList.length := by simpa using hi
    have hget : octets.get! i = octets.data.toList[i] := by
      cases octets with
      | mk data => exact getElem!_pos data i hi
    rw [ih, List.drop_eq_getElem_cons hlength, List.reverse_cons, List.append_assoc, hget]
    rfl
  | case2 i behind hi =>
    rw [List.drop_eq_nil_of_le (by simpa using Nat.le_of_not_lt hi), List.append_nil]

theorem toList_eq_toList_data (octets : ByteArray) : octets.toList = octets.data.toList := by
  rw [ByteArray.toList, toList_loop_eq]
  rfl

/-- The octets of a text in UTF-8. -/
def encodeUtf8 (text : String) : List UInt8 := text.toUTF8.toList

theorem decodeUtf8_encodeUtf8 (text : String) : decodeUtf8 (encodeUtf8 text) = some text := by
  have hoctets : ByteArray.mk (encodeUtf8 text).toArray = text.toUTF8 := by
    rw [encodeUtf8, toList_eq_toList_data]
  rw [decodeUtf8, hoctets, String.toUTF8_eq_toByteArray, String.fromUTF8?,
    dif_pos text.isValidUTF8]
  rfl

/-- Character by character. -/
theorem encodeUtf8_eq (text : String) :
    encodeUtf8 text = text.toList.flatMap String.utf8EncodeChar := by
  rw [encodeUtf8, toList_eq_toList_data, String.toUTF8_eq_toByteArray, ← String.utf8Encode_toList]
  exact List.toList_data_toByteArray

/-- The units of a character in UTF-16: one, or a high and a low half. -/
def unitsOf (c : Char) : List Nat :=
  if c.toNat < 0x10000 then [c.toNat]
  else [0xd800 + (c.toNat - 0x10000) / 0x400, 0xdc00 + (c.toNat - 0x10000) % 0x400]

/-- The octets of a unit, the more significant one first or second. -/
def unitOctets (bigEndian : Bool) (u : Nat) : List UInt8 :=
  if bigEndian then [(u / 256).toUInt8, (u % 256).toUInt8]
  else [(u % 256).toUInt8, (u / 256).toUInt8]

/-- The octets of a text in UTF-16 in an order. -/
def encodeUtf16 (bigEndian : Bool) (text : String) : List UInt8 :=
  (text.toList.flatMap unitsOf).flatMap (unitOctets bigEndian)

/-- No character has the number of a half. -/
theorem toNat_lt_or_lt (c : Char) : c.toNat < 0xd800 ∨ 0xdfff < c.toNat ∧ c.toNat < 0x110000 :=
  c.valid

theorem isHigh_eq_false {u : Nat} (h : u < 0xd800 ∨ 0xdfff < u) : isHigh u = false := by
  simp only [isHigh, Bool.and_eq_false_iff, decide_eq_false_iff_not]
  omega

theorem isLow_eq_false {u : Nat} (h : u < 0xd800 ∨ 0xdfff < u) : isLow u = false := by
  simp only [isLow, Bool.and_eq_false_iff, decide_eq_false_iff_not]
  omega

theorem decodeUnits_single {u : Nat} (h : u < 0xd800 ∨ 0xdfff < u) (rest : List Nat) :
    decodeUnits (u :: rest) = (decodeUnits rest).map (Char.ofNat u :: ·) := by
  cases rest <;> simp [decodeUnits, isHigh_eq_false h, isLow_eq_false h]

theorem decodeUnits_pair {u v : Nat} (hu : isHigh u) (hv : isLow v) (rest : List Nat) :
    decodeUnits (u :: v :: rest) = (decodeUnits rest).map (joined u v :: ·) := by
  rw [decodeUnits, if_pos hu, if_pos hv]

/-- The units of a character are read as this character. -/
theorem decodeUnits_unitsOf_append (c : Char) (rest : List Nat) :
    decodeUnits (unitsOf c ++ rest) = (decodeUnits rest).map (c :: ·) := by
  have hc := toNat_lt_or_lt c
  rw [unitsOf]
  split
  next h =>
    rw [List.singleton_append, decodeUnits_single (by omega), Char.ofNat_toNat]
  next h =>
    have hhigh : isHigh (0xd800 + (c.toNat - 0x10000) / 0x400) := by
      simp only [isHigh, Bool.and_eq_true, decide_eq_true_eq]
      omega
    have hlow : isLow (0xdc00 + (c.toNat - 0x10000) % 0x400) := by
      simp only [isLow, Bool.and_eq_true, decide_eq_true_eq]
      omega
    have hjoined : joined (0xd800 + (c.toNat - 0x10000) / 0x400)
        (0xdc00 + (c.toNat - 0x10000) % 0x400) = c := by
      rw [joined]
      convert Char.ofNat_toNat c using 2
      omega
    rw [List.cons_append, List.singleton_append, decodeUnits_pair hhigh hlow, hjoined]

theorem decodeUnits_flatMap_unitsOf (cs : List Char) :
    decodeUnits (cs.flatMap unitsOf) = some cs := by
  induction cs with
  | nil => rfl
  | cons c cs ih => rw [List.flatMap_cons, decodeUnits_unitsOf_append, ih, Option.map_some]

/-- Two octets are enough for a unit. -/
theorem unitsOf_lt {c : Char} {u : Nat} (h : u ∈ unitsOf c) : u < 0x10000 := by
  have hc := toNat_lt_or_lt c
  rw [unitsOf] at h
  split at h
  next hsmall => rwa [List.mem_singleton.mp h]
  next hlarge =>
    simp only [List.mem_cons, List.not_mem_nil, or_false] at h
    omega

/-- The octets of a unit are read as this unit. -/
theorem pairs_unitOctets_append (bigEndian : Bool) {u : Nat} (hu : u < 0x10000)
    (rest : List UInt8) :
    pairs bigEndian (unitOctets bigEndian u ++ rest) = (pairs bigEndian rest).map (u :: ·) := by
  have hhigh : (u / 256).toUInt8.toNat = u / 256 :=
    UInt8.toNat_ofNat_of_lt' (Nat.div_lt_of_lt_mul hu)
  have hlow : (u % 256).toUInt8.toNat = u % 256 :=
    UInt8.toNat_ofNat_of_lt' (Nat.mod_lt u (Nat.succ_pos 255))
  cases bigEndian <;>
    simp only [unitOctets, Bool.false_eq_true, if_true, if_false, List.cons_append,
      List.nil_append, pairs, hhigh, hlow, Nat.div_add_mod']

theorem pairs_flatMap_unitOctets (bigEndian : Bool) {units : List Nat}
    (h : ∀ u ∈ units, u < 0x10000) :
    pairs bigEndian (units.flatMap (unitOctets bigEndian)) = some units := by
  induction units with
  | nil => rfl
  | cons u units ih =>
    obtain ⟨hu, hunits⟩ := List.forall_mem_cons.mp h
    rw [List.flatMap_cons, pairs_unitOctets_append bigEndian hu, ih hunits, Option.map_some]

theorem decodeUtf16_encodeUtf16 (bigEndian : Bool) (text : String) :
    decodeUtf16 bigEndian (encodeUtf16 bigEndian text) = some text := by
  have hunits : ∀ u ∈ text.toList.flatMap unitsOf, u < 0x10000 := fun u hu =>
    have ⟨_, _, hmem⟩ := List.mem_flatMap.mp hu
    unitsOf_lt hmem
  rw [decodeUtf16, encodeUtf16, pairs_flatMap_unitOctets bigEndian hunits]
  change (decodeUnits (text.toList.flatMap unitsOf) >>= _) = _
  rw [decodeUnits_flatMap_unitsOf]
  exact congrArg some String.ofList_toList

end Bellows.Encoding
