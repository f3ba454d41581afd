import DiceNotation.Proofs.Bytes
import DiceNotation.Proofs.Filling.Filled
import DiceNotation.Proofs.Notation.Arguments
import DiceNotation.Proofs.Notation.Leftmost

/-!
# Calls by their offsets

A call can be found without taking a text apart: by offsets in bytes, with a scan of the bytes
before a parenthesis for the name, and a count of the parentheses behind it. Here every byte that is
read, every part that is taken out of the text and every step of the count is checked. Nothing of
this ever fails, for any text, and what is found is the leftmost call.
-/

namespace DiceNotation.Notation

open String (utf8Len)
open Text (isNameChar slice?)

/-- The offsets of a call: of its name, of the parenthesis behind the name, and of the one that
closes the call. -/
structure CallSpan where
  start : Nat
  opening : Nat
  closing : Nat
  deriving DecidableEq

/-- The offsets of a call in its text. -/
def CallSite.span (site : CallSite) : CallSpan where
  start := utf8Len site.before
  opening := utf8Len site.before + utf8Len site.name
  closing := utf8Len site.before + utf8Len site.name + 1 + utf8Len site.arguments

/-- Whether a byte can be a part of a name. -/
def isNameByte (byte : UInt8) : Bool :=
  isNameChar (Char.ofUInt8 byte)

/-- The offset of the name that ends at an offset: behind the last byte before it that is no part of
a name. There is none if a byte is missing. -/
def nameStart? (bytes : ByteArray) : Nat → Option Nat
  | 0 => some 0
  | offset + 1 =>
    match bytes[offset]? with
    | some byte => if isNameByte byte then nameStart? bytes offset else some (offset + 1)
    | none => none

/-- Whether there is a dollar sign before an offset. -/
def followsDollar? (bytes : ByteArray) : Nat → Option Bool
  | 0 => some false
  | offset + 1 => bytes[offset]?.map (· == '$'.toUInt8)

/-- The characters of a text with their offsets. -/
def offsetsFrom (offset : Nat) : List Char → List (Nat × Char)
  | [] => []
  | c :: text => (offset, c) :: offsetsFrom (offset + c.utf8Size) text

/-- The offset of the parenthesis that closes `depth` others, if the text has it. The outer option
is empty if the depth would fall below zero. -/
def closingOffset? (depth : Nat) : List (Nat × Char) → Option (Option Nat)
  | [] => some none
  | (offset, c) :: rest =>
    if c = '(' then closingOffset? (depth + 1) rest
    else if c = ')' then
      if depth = 0 then none
      else if depth = 1 then some (some offset)
      else closingOffset? (depth - 1) rest
    else closingOffset? depth rest

/-- The offsets of the first call that is opened at one of some characters. -/
def spanFrom? (source : String) :
    List (Nat × Char) → Option (Except NotationError (Option CallSpan))
  | [] => some (.ok none)
  | (opening, c) :: rest =>
    if c ≠ '(' then spanFrom? source rest
    else do
      let start ← nameStart? source.toByteArray opening
      let refers ← followsDollar? source.toByteArray start
      if start = opening ∨ refers then spanFrom? source rest
      else
        let text ← slice? source opening source.utf8ByteSize
        match ← closingOffset? 0 (offsetsFrom 0 text) with
        | none => some (.error (.unbalanced (String.ofList (Text.trim source.toList))))
        | some distance => some (.ok (some ⟨start, opening, opening + distance⟩))

/-- The offsets of the leftmost call of a text. -/
def span? (source : String) : Option (Except NotationError (Option CallSpan)) :=
  spanFrom? source (offsetsFrom 0 source.toList)

/-- The pieces of an argument text, cut by offsets: the piece at hand starts at `start`. There are
none if a piece is no part of the text, or if the depth would fall below zero. -/
def piecesFrom? (source : String) (depth start : Nat) :
    List (Nat × Char) → Option (List (List Char))
  | [] => (slice? source start source.utf8ByteSize).map fun last => [last]
  | (offset, c) :: rest =>
    if c = '(' then piecesFrom? source (depth + 1) start rest
    else if c = ')' then
      if depth = 0 then none else piecesFrom? source (depth - 1) start rest
    else if c = ',' ∧ depth = 0 then do
      let piece ← slice? source start offset
      let others ← piecesFrom? source depth (offset + 1) rest
      some (piece :: others)
    else piecesFrom? source depth start rest

/-- The arguments in an argument text, cut out by offsets. -/
def argumentTexts? (source : String) : Option (List (List Char)) :=
  (piecesFrom? source 0 0 (offsetsFrom 0 source.toList)).map fun pieces =>
    (pieces.map Text.trim).filter (· ≠ [])

private theorem isAscii_isNameChar : Text.IsAscii isNameChar :=
  fun _ h => Nat.lt_of_le_of_lt (Reference.toNat_of_isNameChar h).2 (by decide)

private theorem isAscii_eq {c : Char} (hc : c.toNat < 128) : Text.IsAscii (· == c) := by
  intro d hd
  rwa [eq_of_beq hd]

private theorem toUInt8_beq {byte : UInt8} {c : Char} (hc : c.toNat < 128) :
    (byte == c.toUInt8) = (Char.ofUInt8 byte == c) := by
  rw [Bool.eq_iff_iff, beq_iff_eq, beq_iff_eq]
  constructor
  · rintro rfl
    exact Text.ofUInt8_toUInt8 hc
  · rintro rfl
    apply UInt8.toNat_inj.mp
    have hbyte : (Char.ofUInt8 byte).toUInt8.toNat = (Char.ofUInt8 byte).toNat % 256 :=
      UInt32.toNat_toUInt8 _
    rw [Text.toNat_ofUInt8] at hc hbyte
    omega

section

variable {source : String} {reversed text : List Char}
variable (hsource : source.toList = reversed.reverse ++ text)

include hsource

/-- The byte before an offset belongs to the character before it. -/
theorem exists_byteBefore {c : Char} {earlier : List Char} (hreversed : reversed = c :: earlier) :
    ∃ offset byte, utf8Len reversed = offset + 1 ∧ source.toByteArray[offset]? = some byte ∧
      ∀ holds, Text.IsAscii holds → holds (Char.ofUInt8 byte) = holds c := by
  subst hreversed
  have hsource' : source.toList = earlier.reverse ++ c :: text := by simpa using hsource
  obtain ⟨byte, hbyte, hholds⟩ := Text.exists_lastByte hsource'
  have hpos := Char.utf8Size_pos c
  refine ⟨_, byte, ?_, hbyte, hholds⟩
  rw [String.utf8Len_append, String.utf8Len_reverse, String.utf8Len_cons, String.utf8Len_cons,
    String.utf8Len_nil]
  omega

/-- The name that ends at an offset is found byte by byte. -/
theorem nameStart?_eq : nameStart? source.toByteArray (utf8Len reversed) =
    some (utf8Len (beforeName reversed)) := by
  induction reversed generalizing text with
  | nil => rfl
  | cons c earlier ih =>
    obtain ⟨offset, byte, hoffset, hbyte, hholds⟩ := exists_byteBefore hsource rfl
    have hname : isNameByte byte = isNameChar c := hholds _ isAscii_isNameChar
    rw [hoffset, nameStart?, hbyte, beforeName, List.dropWhile_cons]
    simp only [hname]
    split
    · next hc =>
      have hsize : c.utf8Size = 1 := by
        rw [← String.length_utf8EncodeChar, Text.utf8EncodeChar_of_lt (isAscii_isNameChar c hc)]
        rfl
      rw [String.utf8Len_cons, hsize, Nat.add_right_cancel_iff] at hoffset
      rw [← hoffset]
      exact ih (by simpa using hsource)
    · rw [hoffset]

/-- The byte before a name is a dollar sign exactly if the character there is one. -/
theorem followsDollar?_eq : followsDollar? source.toByteArray (utf8Len reversed) =
    some (reversed.head? == some '$') := by
  cases hreversed : reversed with
  | nil => rfl
  | cons c earlier =>
    obtain ⟨offset, byte, hoffset, hbyte, hholds⟩ := exists_byteBefore hsource hreversed
    have hdollar : (byte == '$'.toUInt8) = (c == '$') := by
      rw [toUInt8_beq (by decide)]
      exact hholds (· == '$') (isAscii_eq (by decide))
    rw [← hreversed, hoffset, followsDollar?, hbyte, Option.map_some, hdollar, hreversed]
    rfl

end

/-- The count of the parentheses finds the end of a call, and does not fall below zero. -/
theorem closingOffset?_eq (depth offset : Nat) (text : List Char) :
    closingOffset? (depth + 1) (offsetsFrom offset text) =
      some ((closing? depth text).map fun parts => offset + utf8Len parts.1) := by
  induction text generalizing depth offset with
  | nil => rfl
  | cons c text ih =>
    have hshift (depth : Nat) : (closing? depth text).map
          (fun parts => offset + c.utf8Size + utf8Len parts.1) =
        ((closing? depth text).map fun parts => (c :: parts.1, parts.2)).map
          fun parts => offset + utf8Len parts.1 := by
      rw [Option.map_map]
      congr 1
      funext parts
      simp only [Function.comp_apply, String.utf8Len_cons]
      omega
    rw [offsetsFrom, closingOffset?]
    by_cases hopen : c = '('
    · subst hopen
      rw [if_pos rfl, ih, closing?_cons_open, hshift]
    · by_cases hclose : c = ')'
      · subst hclose
        rw [if_neg hopen, if_pos rfl, if_neg (Nat.succ_ne_zero depth)]
        cases depth with
        | zero => rfl
        | succ depth =>
          rw [if_neg (by omega), Nat.add_sub_cancel, ih, closing?_cons_close, hshift]
      · rw [if_neg hopen, if_neg hclose, ih, closing?_cons_of_ne hopen hclose, hshift]

/-- The call that is opened in a text, once it is known where. -/
def callOpened (text : List Char) :
    Option (List Char × List Char × List Char) → Except NotationError (Option CallSite)
  | none => .ok none
  | some (before, name, rest) =>
    match closing? 0 rest with
    | some (arguments, after) => .ok (some ⟨before, name, arguments, after⟩)
    | none => .error (.unbalanced (String.ofList (Text.trim text)))

private theorem leftmostCall_eq (text : List Char) :
    leftmostCall text = callOpened text (opening? [] text) :=
  rfl

/-- The bytes before a name and those of the name add up. -/
theorem utf8Len_nameBefore (reversed : List Char) :
    utf8Len (beforeName reversed) + utf8Len (nameBefore reversed) = utf8Len reversed := by
  have hparts : nameBefore reversed ++ beforeName reversed = reversed :=
    List.takeWhile_append_dropWhile
  conv_rhs => rw [← hparts, String.utf8Len_append]
  exact Nat.add_comm _ _

/-- No call is opened exactly if there is no name or a dollar sign stands before it. -/
theorem opensCall_eq_false_iff (reversed : List Char) :
    opensCall reversed = false ↔
      utf8Len (beforeName reversed) = utf8Len reversed ∨
        ((beforeName reversed).head? == some '$') = true := by
  have hsize := utf8Len_nameBefore reversed
  have hname : nameBefore reversed = [] ↔ utf8Len (beforeName reversed) = utf8Len reversed := by
    rw [← String.utf8Len_eq_zero]
    omega
  rw [← hname, opensCall]
  simp [Classical.or_iff_not_imp_left]

/-- A text around the name at the end of its start. -/
theorem toList_eq_around {source : String} {reversed rest : List Char}
    (hsource : source.toList = reversed.reverse ++ rest) :
    source.toList = (beforeName reversed).reverse ++ ((nameBefore reversed).reverse ++ rest) := by
  rw [← List.append_assoc, ← List.reverse_append, nameBefore, beforeName,
    List.takeWhile_append_dropWhile, hsource]

/-- A part of the checked search agrees with the same part of the search for a call. -/
theorem spanFrom?_eq {source : String} {reversed text : List Char}
    (hsource : source.toList = reversed.reverse ++ text) :
    spanFrom? source (offsetsFrom (utf8Len reversed) text) =
      some ((callOpened source.toList (opening? reversed text)).map
        (Option.map CallSite.span)) := by
  induction text generalizing reversed with
  | nil => rfl
  | cons c text ih =>
    have hsource' : source.toList = (c :: reversed).reverse ++ text := by simpa using hsource
    have hrest := ih hsource'
    rw [String.utf8Len_cons] at hrest
    rw [offsetsFrom, spanFrom?, opening?]
    by_cases hc : c = '('
    · subst hc
      have hskip := opensCall_eq_false_iff reversed
      rw [if_neg (not_not.mpr rfl), nameStart?_eq hsource]
      simp only [Option.bind_eq_bind, Option.bind_some,
        followsDollar?_eq (toList_eq_around hsource)]
      cases hopens : opensCall reversed with
      | false =>
        rw [if_pos (hskip.mp hopens), if_neg (by simp)]
        exact hrest
      | true =>
        have hnot := mt hskip.mpr (by simp [hopens])
        have hslice : slice? source (utf8Len reversed) source.utf8ByteSize =
            some ('(' :: text) := by
          rw [← String.utf8Len_reverse, Text.slice?_to_end hsource]
        have hclosing : closingOffset? 0 (offsetsFrom 0 ('(' :: text)) =
            some ((closing? 0 text).map fun parts => 1 + utf8Len parts.1) :=
          closingOffset?_eq 0 1 text
        have hsize := utf8Len_nameBefore reversed
        rw [if_neg hnot, if_pos (by simp), hslice]
        simp only [Option.bind_some, hclosing, callOpened]
        cases closing? 0 text with
        | none => rfl
        | some parts =>
          simp only [Option.map_some, CallSite.span, Except.map, String.utf8Len_reverse, hsize,
            Nat.add_assoc]
    · rw [if_pos hc, if_neg (fun h => hc h.1)]
      exact hrest

/-- The checked search does not fail, and finds the leftmost call. -/
theorem span?_eq (source : String) :
    span? source = some ((leftmostCall source.toList).map (Option.map CallSite.span)) := by
  rw [leftmostCall_eq]
  have hsource : source.toList = [].reverse ++ source.toList := rfl
  exact spanFrom?_eq hsource

/-- The name of a variable opens no call, and letters of more than one byte are no part of a
name. -/
example : span? "ü $a(max(é, (2)))" = some (.ok (some ⟨6, 9, 17⟩)) := by
  rw [span?_eq]
  rfl

/-- The pieces between the offsets of commas are the arguments that are cut at the commas. -/
theorem piecesFrom?_eq {source : String} {depth : Nat} {before piece text : List Char}
    (hsource : source.toList = before ++ piece ++ text) (hpaired : PairedWithin depth text) :
    piecesFrom? source depth (utf8Len before)
        (offsetsFrom (utf8Len before + utf8Len piece) text) =
      some (piece.foldr Text.extendFirst (cutArguments depth text)) := by
  induction text generalizing depth before piece with
  | nil =>
    rw [List.append_nil] at hsource
    have hlast := Text.slice?_to_end hsource
    rw [offsetsFrom, piecesFrom?, hlast, cutArguments, Text.foldr_extendFirst, List.append_nil]
    rfl
  | cons c text ih =>
    obtain ⟨hc, htail⟩ := pairedWithin_cons.mp hpaired
    -- The piece at hand grows by the character, unless that is a comma at which the text is cut.
    have hgrown : piecesFrom? source (depthAfter depth c) (utf8Len before)
          (offsetsFrom (utf8Len before + utf8Len piece + c.utf8Size) text) =
        some (piece.foldr Text.extendFirst
          (Text.extendFirst c (cutArguments (depthAfter depth c) text))) := by
      have hrest : piecesFrom? source (depthAfter depth c) (utf8Len before)
            (offsetsFrom (utf8Len before + utf8Len (piece ++ [c])) text) =
          some ((piece ++ [c]).foldr Text.extendFirst (cutArguments (depthAfter depth c) text)) :=
        ih (by simp [hsource]) htail
      rw [String.utf8Len_append, String.utf8Len_cons, String.utf8Len_nil, Nat.zero_add,
        ← Nat.add_assoc, List.foldr_append] at hrest
      exact hrest
    rw [offsetsFrom, piecesFrom?, cutArguments]
    by_cases hopen : c = '('
    · subst hopen
      rw [if_pos rfl, if_neg (fun h => absurd h.1 (by decide))]
      exact hgrown
    · by_cases hclose : c = ')'
      · subst hclose
        rw [if_neg hopen, if_pos rfl, if_neg (Nat.ne_of_gt (hc rfl)),
          if_neg (fun h => absurd h.1 (by decide))]
        exact hgrown
      · rw [if_neg hopen, if_neg hclose]
        by_cases hcomma : c = ',' ∧ depth = 0
        · obtain ⟨rfl, rfl⟩ := hcomma
          have hpiece : slice? source (utf8Len before) (utf8Len before + utf8Len piece) =
              some piece := Text.slice?_eq_some_iff.mpr ⟨before, _, hsource, rfl, rfl⟩
          have hothers : piecesFrom? source 0 (utf8Len (before ++ piece ++ [',']))
                (offsetsFrom (utf8Len (before ++ piece ++ [',']) + utf8Len []) text) =
              some (cutArguments 0 text) := ih (by simp [hsource]) htail
          have hsize : utf8Len (before ++ piece ++ [',']) = utf8Len before + utf8Len piece + 1 := by
            rw [String.utf8Len_append, String.utf8Len_append]
            rfl
          have hcomma : (',').utf8Size = 1 := rfl
          rw [hsize, String.utf8Len_nil, Nat.add_zero] at hothers
          rw [if_pos ⟨rfl, rfl⟩, if_pos ⟨rfl, rfl⟩, hpiece, hcomma]
          simp only [Option.bind_eq_bind, Option.bind_some, hothers, Text.foldr_extendFirst,
            List.append_nil]
        · rw [if_neg hcomma, if_neg hcomma]
          simpa only [depthAfter, if_neg hopen, if_neg hclose] using hgrown

/-- The arguments in a text with paired parentheses are found by the checked cut. -/
theorem argumentTexts?_eq {source : String} (h : Paired source.toList) :
    argumentTexts? source = some (argumentTexts source.toList) := by
  have hsource : source.toList = [] ++ [] ++ source.toList := rfl
  have hpieces : piecesFrom? source 0 0 (offsetsFrom 0 source.toList) =
      some (cutArguments 0 source.toList) := piecesFrom?_eq hsource h
  rw [argumentTexts?, hpieces]
  rfl

end DiceNotation.Notation
