import Bellows.Encoding.Detection
import Bellows.Proofs.Encoding.Unicode
import Bellows.Proofs.Text.Words

/-! The encoding of a document is found from its octets, and they are decoded to the text that was
encoded. -/
namespace Bellows.Encoding

section Names

open String

variable {others : Codecs} {name : String} {octets : List UInt8}

/-- A name that cannot be right is a name of a transformation format of Unicode. -/
theorem prefix_plainName_of_isStale (h : isStale name) :
    "utf".toList <+: (plainName name).toList := by
  have hlower : ['u', 't', 'f', '-'] <+: name.toLower.toList := by
    simp only [isStale, Bool.or_eq_true, startsWith_string_iff] at h
    obtain h | h := h
    · exact List.IsPrefix.trans (by decide) h
    · exact List.IsPrefix.trans (by decide) h
  obtain ⟨rest, hlower⟩ := hlower
  -- the sign behind the first three letters ends the first word
  have hwords : ∃ words, plainName name = intercalate "_" ("utf" :: words) := by
    rw [plainName, splitOn_blank, toList_map, ← hlower]
    exact ⟨_, rfl⟩
  obtain ⟨words, hwords⟩ := hwords
  rw [hwords]
  exact prefix_intercalate "_" "utf" words

theorem isStale_eq_false_of_latin (h : plainName name ∈ latinNames) : isStale name = false := by
  have hother : ∀ other ∈ latinNames, ¬ "utf".toList <+: other.toList := by decide
  exact Bool.eq_false_iff.mpr fun hstale => hother _ h (prefix_plainName_of_isStale hstale)

/-- A name of an encoding: its own, in capital or small letters, or another one that it has. -/
def Names (own : String) (aliases : List String) (name : String) : Prop :=
  name.toLower = own ∨ plainName name ∈ aliases

theorem Names.mem {own : String} {aliases : List String} (h : Names own aliases name)
    (hlower : own.toLower = own) (hown : plainName own ∈ aliases) : plainName name ∈ aliases := by
  obtain hname | hname := h
  · rwa [plainName, hname, ← hlower, ← plainName]
  · exact hname

theorem plainName_utf8 : plainName "utf-8" ∈ utf8Names := by
  rw [plainName, splitOn_blank]
  decide +kernel

theorem plainName_latin : plainName "iso-8859-1" ∈ latinNames := by
  rw [plainName, splitOn_blank]
  decide +kernel

theorem decodeAs_utf8 (h : plainName name ∈ utf8Names) :
    decodeAs others name octets = orUndecodable (decodeUtf8 octets) := by
  rw [decodeAs, if_pos (List.contains_iff_mem.mpr h)]

theorem decodeAs_utf8Sig : decodeAs others "utf-8-sig" octets =
    orUndecodable (decodeUtf8 (dropUtf8Mark octets)) := by
  have hname : plainName "utf-8-sig" = "utf_8_sig" := by
    rw [plainName, splitOn_blank]
    decide +kernel
  rw [decodeAs, hname]
  rfl

theorem decodeAs_utf16 :
    decodeAs others "utf-16" octets = orUndecodable (decodeMarked octets) := by
  have hname : plainName "utf-16" = "utf_16" := by
    rw [plainName, splitOn_blank]
    decide +kernel
  rw [decodeAs, hname]
  rfl

theorem decodeAs_utf16Little :
    decodeAs others "utf-16-le" octets = orUndecodable (decodeUtf16 false octets) := by
  have hname : plainName "utf-16-le" = "utf_16_le" := by
    rw [plainName, splitOn_blank]
    decide +kernel
  rw [decodeAs, hname]
  rfl

theorem decodeAs_utf16Big :
    decodeAs others "utf-16-be" octets = orUndecodable (decodeUtf16 true octets) := by
  have hname : plainName "utf-16-be" = "utf_16_be" := by
    rw [plainName, splitOn_blank]
    decide +kernel
  rw [decodeAs, hname]
  rfl

theorem decodeAs_latin (h : plainName name ∈ latinNames) :
    decodeAs others name octets = orUndecodable (decodeEach latinChar? octets) := by
  have hother : ∀ other ∈ latinNames, utf8Names.contains other = false ∧ other ≠ "utf_8_sig" ∧
      (other = "utf_16" || other = "u16" || other = "utf16") = false ∧
      (other = "utf_16_le" || other = "utf_16le") = false ∧
      (other = "utf_16_be" || other = "utf_16be") = false := by decide
  obtain ⟨hutf8, hsig, hutf16, hlittle, hbig⟩ := hother _ h
  simp only [decodeAs, hutf8, hsig, hutf16, hlittle, hbig, Bool.false_eq_true, if_false]
  rw [if_pos (List.contains_iff_mem.mpr h)]

end Names

/-- The octets of a text in Latin 1. -/
def encodeLatin (text : String) : List UInt8 := text.toList.map fun c => c.toNat.toUInt8

/-- The mark of byte order of UTF-16. -/
def orderMark (bigEndian : Bool) : List UInt8 := if bigEndian then [0xfe, 0xff] else [0xff, 0xfe]

/-- The forms of a document that tell how it is encoded. With a mark of byte order, or in units of
two octets, any encoding may be declared; otherwise it must be the right one, or stale. -/
inductive Encodes (text : String) : List UInt8 → Prop
  | markedUtf16 (bigEndian : Bool) :
    Encodes text (orderMark bigEndian ++ encodeUtf16 bigEndian text)
  | utf16 (bigEndian : Bool) : Encodes text (encodeUtf16 bigEndian text)
  | markedUtf8 : Encodes text (0xef :: 0xbb :: 0xbf :: encodeUtf8 text)
  | utf8 (hname : ∀ name, declared? (encodeUtf8 text) = some name →
      Names "utf-8" utf8Names name ∨ isStale name) : Encodes text (encodeUtf8 text)
  | latin {name : String} (hdeclared : declared? (encodeLatin text) = some name)
      (hname : Names "iso-8859-1" latinNames name) (hchars : ∀ c ∈ text.toList, c.toNat ≤ 0xff) :
      Encodes text (encodeLatin text)

theorem latinChar?_of_le {c : Char} (hc : c.toNat ≤ 0xff) :
    latinChar? c.toNat.toUInt8 = some c := by
  have hnumber : c.toNat.toUInt8.toNat = c.toNat :=
    UInt8.toNat_ofNat_of_lt' (Nat.lt_succ_of_le hc)
  rw [latinChar?, hnumber, Char.ofNat_toNat]

theorem decodeEach_encodeLatin {text : String} (h : ∀ c ∈ text.toList, c.toNat ≤ 0xff) :
    decodeEach latinChar? (encodeLatin text) = some text := by
  have hall : ∀ cs : List Char, (∀ c ∈ cs, c.toNat ≤ 0xff) →
      (cs.map fun c => c.toNat.toUInt8).mapM latinChar? = some cs := by
    intro cs hcs
    induction cs with
    | nil => rfl
    | cons c cs ih =>
      obtain ⟨hc, hcs⟩ := List.forall_mem_cons.mp hcs
      rw [List.map_cons, List.mapM_cons, latinChar?_of_le hc, ih hcs]
      rfl
  rw [decodeEach, encodeLatin, hall text.toList h, Option.map_some, String.ofList_toList]

section Beginning

variable {others : Codecs} {text : String} {c : Char} {cs : List Char}

/-- Only zero has an encoding that begins with a zero. -/
theorem utf8EncodeChar_eq_cons (hc : c ≠ '\x00') :
    ∃ b rest, String.utf8EncodeChar c = b :: rest ∧ b ≠ 0 := by
  have hzero : c.val.toNat ≠ 0 := fun h => hc (Char.toNat_inj.mp h)
  have hoctet : ∀ n : Nat, 0 < n → n < 256 → UInt8.ofNat n ≠ 0 := by
    intro n hpos hlt h
    have hn := congrArg UInt8.toNat h
    rw [UInt8.toNat_ofNat_of_lt' hlt] at hn
    exact hpos.ne' hn
  rw [String.utf8EncodeChar]
  split_ifs
  case pos => exact ⟨_, _, rfl, hoctet _ (by omega) (by omega)⟩
  case pos => exact ⟨_, _, rfl, hoctet _ (by omega) (by omega)⟩
  case pos => exact ⟨_, _, rfl, hoctet _ (by omega) (by omega)⟩
  case neg => exact ⟨_, _, rfl, hoctet _ (by omega) (by omega)⟩

theorem encodeUtf8_eq_cons (h : text.toList = '<' :: c :: cs) (hc : c ≠ '\x00') :
    ∃ b rest, encodeUtf8 text = 0x3c :: b :: rest ∧ b ≠ 0 := by
  obtain ⟨b, behind, hfirst, hb⟩ := utf8EncodeChar_eq_cons hc
  refine ⟨b, behind ++ cs.flatMap String.utf8EncodeChar, ?_, hb⟩
  rw [encodeUtf8_eq, h, List.flatMap_cons, List.flatMap_cons, hfirst]
  rfl

theorem encodeLatin_eq_cons (h : text.toList = '<' :: c :: cs) (hc : c ≠ '\x00')
    (hchars : ∀ c ∈ text.toList, c.toNat ≤ 0xff) :
    ∃ b rest, encodeLatin text = 0x3c :: b :: rest ∧ b ≠ 0 := by
  refine ⟨c.toNat.toUInt8, cs.map fun c => c.toNat.toUInt8, ?_, fun hb => hc ?_⟩
  · rw [encodeLatin, h, List.map_cons, List.map_cons]
    rfl
  · have hread := latinChar?_of_le (hchars c (by simp [h]))
    rw [hb] at hread
    exact (Option.some.inj hread).symm

theorem encodeUtf16_eq_cons (h : text.toList = '<' :: c :: cs) :
    (∃ rest, encodeUtf16 false text = 0x3c :: 0x00 :: rest) ∧
      ∃ rest, encodeUtf16 true text = 0x00 :: 0x3c :: rest := by
  simp only [encodeUtf16, h, List.flatMap_cons]
  exact ⟨⟨_, rfl⟩, _, rfl⟩

/-- What begins like ASCII is in the encoding that is declared, and in UTF-8 by default. -/
theorem detect_eq {octets : List UInt8} (h : ∃ b rest, octets = 0x3c :: b :: rest ∧ b ≠ 0) :
    detect octets = match declared? octets with
      | some name => if isStale name then "utf-8" else name
      | none => "utf-8" := by
  obtain ⟨b, rest, rfl, hb⟩ := h
  -- neither a mark nor a zero is there
  rw [detect]
  all_goals first | rfl | simp [hb]

theorem decode_markedUtf16 (others : Codecs) (bigEndian : Bool) (text : String) :
    decode others (orderMark bigEndian ++ encodeUtf16 bigEndian text) = .ok text := by
  have hdetect : detect (orderMark bigEndian ++ encodeUtf16 bigEndian text) = "utf-16" := by
    cases bigEndian <;> rfl
  have hdecode : decodeMarked (orderMark bigEndian ++ encodeUtf16 bigEndian text) = some text := by
    cases bigEndian <;> exact decodeUtf16_encodeUtf16 _ text
  rw [decode, hdetect, decodeAs_utf16, hdecode]
  rfl

theorem decode_markedUtf8 (others : Codecs) (text : String) :
    decode others (0xef :: 0xbb :: 0xbf :: encodeUtf8 text) = .ok text := by
  have hdetect : detect (0xef :: 0xbb :: 0xbf :: encodeUtf8 text) = "utf-8-sig" := rfl
  rw [decode, hdetect, decodeAs_utf8Sig, dropUtf8Mark, decodeUtf8_encodeUtf8]
  rfl

/-- The zeros of the first two units tell their order. -/
theorem decode_utf16 (h : text.toList = '<' :: c :: cs) (bigEndian : Bool) :
    decode others (encodeUtf16 bigEndian text) = .ok text := by
  obtain ⟨⟨little, hlittle⟩, big, hbig⟩ := encodeUtf16_eq_cons h
  cases bigEndian with
  | false =>
    have hdetect : detect (encodeUtf16 false text) = "utf-16-le" := by
      rw [hlittle]
      rfl
    rw [decode, hdetect, decodeAs_utf16Little, decodeUtf16_encodeUtf16]
    rfl
  | true =>
    have hdetect : detect (encodeUtf16 true text) = "utf-16-be" := by
      rw [hbig]
      rfl
    rw [decode, hdetect, decodeAs_utf16Big, decodeUtf16_encodeUtf16]
    rfl

/-- A name that is stale gives way to UTF-8. -/
theorem decode_utf8 (h : text.toList = '<' :: c :: cs) (hc : c ≠ '\x00')
    (hname : ∀ name, declared? (encodeUtf8 text) = some name →
      plainName name ∈ utf8Names ∨ isStale name) :
    decode others (encodeUtf8 text) = .ok text := by
  have hdetect : plainName (detect (encodeUtf8 text)) ∈ utf8Names := by
    rw [detect_eq (encodeUtf8_eq_cons h hc)]
    split
    next name hdeclared =>
      split
      next => exact plainName_utf8
      next hstale => exact (hname name hdeclared).resolve_right hstale
    next => exact plainName_utf8
  rw [decode, decodeAs_utf8 hdetect, decodeUtf8_encodeUtf8]
  rfl

theorem decode_latin {name : String} (h : text.toList = '<' :: c :: cs) (hc : c ≠ '\x00')
    (hdeclared : declared? (encodeLatin text) = some name) (hname : plainName name ∈ latinNames)
    (hchars : ∀ c ∈ text.toList, c.toNat ≤ 0xff) :
    decode others (encodeLatin text) = .ok text := by
  have hdetect : detect (encodeLatin text) = name := by
    rw [detect_eq (encodeLatin_eq_cons h hc hchars), hdeclared]
    exact if_neg (Bool.eq_false_iff.mp (isStale_eq_false_of_latin hname))
  rw [decode, hdetect, decodeAs_latin hname, decodeEach_encodeLatin hchars]
  rfl

/-- Detection inverts encoding. A text that begins like markup is found again from each of the
forms that tell how it is encoded, whatever other encodings there are. -/
theorem decode_of_encodes (others : Codecs) (h : text.toList = '<' :: c :: cs) (hc : c ≠ '\x00')
    {octets : List UInt8} (hencodes : Encodes text octets) : decode others octets = .ok text := by
  cases hencodes with
  | markedUtf16 bigEndian => exact decode_markedUtf16 others bigEndian text
  | utf16 bigEndian => exact decode_utf16 h bigEndian
  | markedUtf8 => exact decode_markedUtf8 others text
  | utf8 hname =>
    exact decode_utf8 h hc fun name hdeclared =>
      (hname name hdeclared).imp_left (·.mem (by decide +kernel) plainName_utf8)
  | latin hdeclared hname hchars =>
    exact decode_latin h hc hdeclared (hname.mem (by decide +kernel) plainName_latin) hchars

/-- A document that names an encoding it is no longer in. -/
def staleText : String := "<?xml version='1.0' encoding='UTF-16'?><a>𝄐</a>"

/-- Written again in UTF-8 with its first line unchanged, it is still read. -/
theorem decode_staleText :
    staleText.toList = '<' :: '?' :: staleText.toList.drop 2 ∧ '?' ≠ '\x00' ∧
      Encodes staleText (encodeUtf8 staleText) ∧
      ∀ others, decode others (encodeUtf8 staleText) = .ok staleText := by
  have hbegin : staleText.toList = '<' :: '?' :: staleText.toList.drop 2 := by decide +kernel
  have hdeclared : declared? (encodeUtf8 staleText) = some "UTF-16" := by
    rw [encodeUtf8_eq]
    decide +kernel
  have hstale : isStale "UTF-16" := by decide +kernel
  have hencodes : Encodes staleText (encodeUtf8 staleText) := by
    refine .utf8 fun name hname => Or.inr ?_
    cases hdeclared.symm.trans hname
    exact hstale
  exact ⟨hbegin, by decide, hencodes, fun others =>
    decode_of_encodes others hbegin (by decide) hencodes⟩

end Beginning

end Bellows.Encoding
