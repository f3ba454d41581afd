import Mathlib.Data.String.Basic

/-!
# Bytes of a text

A text is encoded in bytes, and offsets into it count bytes. An ASCII character is one byte, and all
bytes of the other characters lie above ASCII. A byte in ASCII is therefore a character of its own,
and classes of ASCII characters can be told from the last byte of each character. A part of a text
can be taken out between two offsets if both stand between characters.
-/

namespace DiceNotation.Text

open String (utf8Len utf8EncodeChar)

private theorem getElem?_toByteArray (source : String) (offset : Nat) :
    source.toByteArray[offset]? = (source.toList.flatMap utf8EncodeChar)[offset]? := by
  have hbytes : source.toByteArray = (source.toList.flatMap utf8EncodeChar).toByteArray := by
    change _ = source.toList.utf8Encode
    rw [← String.toByteArray_ofList, String.ofList_toList]
  rw [hbytes]
  simp [getElem?_def]

private theorem length_flatMap_utf8EncodeChar (text : List Char) :
    (text.flatMap utf8EncodeChar).length = utf8Len text := by
  induction text with
  | nil => rfl
  | cons c text ih =>
    rw [List.flatMap_cons, List.length_append, ih, String.length_utf8EncodeChar,
      String.utf8Len_cons, Nat.add_comm]

/-- An ASCII character is a byte of its own. -/
theorem utf8EncodeChar_of_lt {c : Char} (h : c.toNat < 128) : utf8EncodeChar c = [c.toUInt8] := by
  have hsize : c.utf8Size = 1 := by
    rw [Char.utf8Size_eq_one_iff, UInt32.le_iff_toNat_le]
    exact Nat.le_of_lt_succ h
  exact String.utf8EncodeChar_eq_singleton hsize

/-- All bytes of a character outside of ASCII are outside of it too. -/
theorem le_of_mem_utf8EncodeChar {c : Char} (h : 128 ≤ c.toNat) {byte : UInt8}
    (hbyte : byte ∈ utf8EncodeChar c) : 128 ≤ byte.toNat := by
  have hval : c.val.toNat = c.toNat := rfl
  unfold utf8EncodeChar at hbyte
  simp only [hval] at hbyte
  split at hbyte
  · omega
  · split at hbyte
    · simp only [List.mem_cons, List.not_mem_nil, or_false] at hbyte
      rcases hbyte with rfl | rfl <;> simp only [UInt8.toNat_ofNat'] <;> omega
    · split at hbyte
      · simp only [List.mem_cons, List.not_mem_nil, or_false] at hbyte
        rcases hbyte with rfl | rfl | rfl <;> simp only [UInt8.toNat_ofNat'] <;> omega
      · simp only [List.mem_cons, List.not_mem_nil, or_false] at hbyte
        rcases hbyte with rfl | rfl | rfl | rfl <;> simp only [UInt8.toNat_ofNat'] <;> omega

/-- The character of a byte has the code of the byte. -/
theorem toNat_ofUInt8 (byte : UInt8) : (Char.ofUInt8 byte).toNat = byte.toNat :=
  UInt8.toNat_toUInt32 byte

/-- The byte of an ASCII character is that of the character. -/
theorem ofUInt8_toUInt8 {c : Char} (h : c.toNat < 128) : Char.ofUInt8 c.toUInt8 = c := by
  apply Char.ext
  apply UInt32.toNat_inj.mp
  have hbyte : c.toUInt8.toNat = c.toNat % 256 := UInt32.toNat_toUInt8 c.val
  have hchar : (Char.ofUInt8 c.toUInt8).toNat = c.toUInt8.toNat := toNat_ofUInt8 _
  change (Char.ofUInt8 c.toUInt8).toNat = c.toNat
  omega

/-- Only ASCII characters belong to the class. -/
def IsAscii (holds : Char → Bool) : Prop :=
  ∀ c, holds c = true → c.toNat < 128

section

variable {source : String} {before after : List Char} {c : Char}
variable (hsource : source.toList = before ++ c :: after)

include hsource

private theorem getElem?_of_eq_append {index : Nat} (h : index < c.utf8Size) :
    source.toByteArray[utf8Len before + index]? = (utf8EncodeChar c)[index]? := by
  have hlength := length_flatMap_utf8EncodeChar before
  have hindex : index < (utf8EncodeChar c).length := by rwa [String.length_utf8EncodeChar]
  rw [getElem?_toByteArray, hsource, List.flatMap_append, List.flatMap_cons,
    List.getElem?_append_right (by omega), hlength, Nat.add_sub_cancel_left,
    List.getElem?_append_left hindex]

/-- The byte of an ASCII character. -/
theorem getElem?_of_ascii (hc : c.toNat < 128) :
    source.toByteArray[utf8Len before]? = some c.toUInt8 := by
  have hbyte := getElem?_of_eq_append hsource (Char.utf8Size_pos c)
  rwa [Nat.add_zero, utf8EncodeChar_of_lt hc] at hbyte

/-- The last byte of a character is enough to tell whether it belongs to a class of ASCII
characters. -/
theorem exists_lastByte : ∃ byte,
    source.toByteArray[utf8Len (before ++ [c]) - 1]? = some byte ∧
      ∀ holds, IsAscii holds → holds (Char.ofUInt8 byte) = holds c := by
  have hpos := Char.utf8Size_pos c
  have hlength := String.length_utf8EncodeChar c
  have hlast : c.utf8Size - 1 < (utf8EncodeChar c).length := by omega
  have hoffset : utf8Len (before ++ [c]) - 1 = utf8Len before + (c.utf8Size - 1) := by
    rw [String.utf8Len_append, String.utf8Len_cons, String.utf8Len_nil]
    omega
  refine ⟨(utf8EncodeChar c)[c.utf8Size - 1], ?_, fun holds hascii => ?_⟩
  · rw [hoffset, getElem?_of_eq_append hsource (by omega), List.getElem?_eq_getElem hlast]
  · by_cases hc : c.toNat < 128
    · simp only [utf8EncodeChar_of_lt hc, List.getElem_singleton, ofUInt8_toUInt8 hc]
    · have hbyte := le_of_mem_utf8EncodeChar (Nat.le_of_not_lt hc) (List.getElem_mem hlast)
      have hfirst : holds c = false := Bool.eq_false_iff.mpr fun h => hc (hascii c h)
      rw [hfirst]
      refine Bool.eq_false_iff.mpr fun h => ?_
      have hlt := hascii _ h
      rw [toNat_ofUInt8] at hlt
      omega

end

/-- A byte in ASCII is a character of its own. -/
theorem exists_of_getElem? {source : String} {offset : Nat} {c : Char} (hc : c.toNat < 128)
    (h : source.toByteArray[offset]? = some c.toUInt8) :
    ∃ before after, source.toList = before ++ c :: after ∧ offset = utf8Len before := by
  rw [getElem?_toByteArray] at h
  generalize source.toList = text at h ⊢
  induction text generalizing offset with
  | nil => simp at h
  | cons d text ih =>
    have hlength := String.length_utf8EncodeChar d
    rw [List.flatMap_cons] at h
    by_cases hoffset : offset < d.utf8Size
    · rw [List.getElem?_append_left (by omega)] at h
      have hmem := List.mem_of_getElem? h
      by_cases hd : d.toNat < 128
      · rw [utf8EncodeChar_of_lt hd] at h hmem hlength
        have hzero : offset = 0 := by
          simp only [List.length_singleton] at hlength
          omega
        have heq : c.toUInt8 = d.toUInt8 := List.mem_singleton.mp hmem
        have hcd : c = d := by rw [← ofUInt8_toUInt8 hc, heq, ofUInt8_toUInt8 hd]
        exact ⟨[], text, by rw [hcd, List.nil_append], hzero⟩
      · have hbyte := le_of_mem_utf8EncodeChar (Nat.le_of_not_lt hd) hmem
        have hnat : c.toUInt8.toNat = c.toNat % 256 := UInt32.toNat_toUInt8 c.val
        omega
    · rw [List.getElem?_append_right (by omega), hlength] at h
      obtain ⟨before, after, rfl, hbefore⟩ := ih h
      refine ⟨d :: before, after, rfl, ?_⟩
      rw [String.utf8Len_cons]
      omega

/-- The size of a start of a text tells which one it is. -/
theorem append_inj_of_utf8Len {before before' after after' : List Char}
    (h : before ++ after = before' ++ after') (hsize : utf8Len before = utf8Len before') :
    before = before' ∧ after = after' := by
  rcases List.append_eq_append_iff.mp h with ⟨middle, rfl, rfl⟩ | ⟨middle, rfl, rfl⟩
  all_goals
    rw [String.utf8Len_append] at hsize
    have hnil : middle = [] := String.utf8Len_eq_zero.mp (by omega)
    simp [hnil]

/-- The part of a text between two offsets, if both stand between characters. -/
def slice? (source : String) (start stop : Nat) : Option (List Char) :=
  if start ≤ stop ∧ String.Pos.Raw.IsValid source ⟨start⟩ ∧
      String.Pos.Raw.IsValid source ⟨stop⟩ then
    some (String.Pos.Raw.extract source ⟨start⟩ ⟨stop⟩).toList
  else none

/-- An offset stands between characters if it is the size of a start of the text. -/
theorem isValid_iff {source : String} {offset : Nat} :
    String.Pos.Raw.IsValid source ⟨offset⟩ ↔
      ∃ before after, source.toList = before ++ after ∧ offset = utf8Len before := by
  rw [String.Pos.Raw.isValid_iff_exists_append]
  constructor
  · rintro ⟨first, second, rfl, hoffset⟩
    refine ⟨first.toList, second.toList, String.toList_append, ?_⟩
    rw [String.utf8Len_toList]
    exact congrArg String.Pos.Raw.byteIdx hoffset
  · rintro ⟨before, after, hsource, rfl⟩
    refine ⟨String.ofList before, String.ofList after, ?_, ?_⟩
    · rw [← String.ofList_append, ← hsource, String.ofList_toList]
    · apply String.Pos.Raw.ext
      exact (String.utf8ByteSize_ofList before).symm

/-- A part of a text has as many bytes as there are between its offsets. -/
theorem slice?_eq_some_iff {source : String} {start stop : Nat} {part : List Char} :
    slice? source start stop = some part ↔
      ∃ before after, source.toList = before ++ part ++ after ∧ start = utf8Len before ∧
        stop = utf8Len before + utf8Len part := by
  have hextract {before part after : List Char} (h : source.toList = before ++ part ++ after) :
      slice? source (utf8Len before) (utf8Len before + utf8Len part) = some part := by
    have hstart : String.Pos.Raw.IsValid source ⟨utf8Len before⟩ :=
      isValid_iff.mpr ⟨before, part ++ after, by rw [h, List.append_assoc], rfl⟩
    have hstop : String.Pos.Raw.IsValid source ⟨utf8Len before + utf8Len part⟩ :=
      isValid_iff.mpr ⟨before ++ part, after, h, (String.utf8Len_append before part).symm⟩
    have hpart := String.extract_of_valid before part after
    rw [← h, String.ofList_toList] at hpart
    rw [slice?, if_pos ⟨Nat.le_add_right _ _, hstart, hstop⟩, hpart, String.toList_ofList]
  constructor
  · intro h
    have hvalid := h
    unfold slice? at hvalid
    split at hvalid
    · next hoffsets =>
      obtain ⟨hle, hstart, hstop⟩ := hoffsets
      obtain ⟨before, rest, hbefore, rfl⟩ := isValid_iff.mp hstart
      obtain ⟨first, after, hfirst, rfl⟩ := isValid_iff.mp hstop
      obtain ⟨middle, rfl⟩ : ∃ middle, first = before ++ middle := by
        rw [hbefore] at hfirst
        rcases List.append_eq_append_iff.mp hfirst with ⟨middle, hmiddle, -⟩ | ⟨middle, rfl, -⟩
        · exact ⟨middle, hmiddle⟩
        · rw [String.utf8Len_append] at hle
          have hnil : middle = [] := String.utf8Len_eq_zero.mp (by omega)
          exact ⟨[], by rw [hnil, List.append_nil, List.append_nil]⟩
      rw [String.utf8Len_append] at h ⊢
      obtain rfl := Option.some.inj ((hextract hfirst).symm.trans h)
      exact ⟨before, after, hfirst, rfl, rfl⟩
    · cases hvalid
  · rintro ⟨before, after, hsource, rfl, rfl⟩
    exact hextract hsource

/-- What is left of a text behind a start of it. -/
theorem slice?_to_end {source : String} {before part : List Char}
    (hsource : source.toList = before ++ part) :
    slice? source (utf8Len before) source.utf8ByteSize = some part := by
  refine slice?_eq_some_iff.mpr ⟨before, [], ?_, rfl, ?_⟩
  · rw [List.append_nil, hsource]
  · rw [← String.utf8Len_append, ← hsource, String.utf8Len_toList]

end DiceNotation.Text
