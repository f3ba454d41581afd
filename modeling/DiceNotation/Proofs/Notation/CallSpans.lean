import DiceNotation.Proofs.Notation.Offsets

/-!
# Well-formed offsets

What the offsets of a call have to be can be said of the bytes of a text alone: a name that cannot
be made longer stands before a parenthesis, another parenthesis closes that one, and no call is
opened earlier. The checked search gives offsets if and only if they are of this kind, and refuses a
text if and only if the first parenthesis that opens a call is not closed.
-/

namespace DiceNotation.Notation

open String (utf8Len)
open Text (slice?)

/-- A name stands between two offsets. It cannot be made longer at its start, and there is no dollar
sign before it. -/
structure NameBetween (source : String) (start stop : Nat) : Prop where
  start_lt : start < stop
  name : ∀ offset, start ≤ offset → offset < stop →
    ∃ byte, source.toByteArray[offset]? = some byte ∧ isNameByte byte = true
  before : ∀ offset, offset + 1 = start →
    ∃ byte, source.toByteArray[offset]? = some byte ∧ isNameByte byte = false ∧
      byte ≠ '$'.toUInt8

/-- The parenthesis at an offset opens a call, whose name starts at another offset. -/
structure OpensAt (source : String) (start opening : Nat) : Prop where
  name : NameBetween source start opening
  parenthesis : source.toByteArray[opening]? = some '('.toUInt8

/-- The parenthesis at one offset is closed by the one at another offset. -/
structure ClosesAt (source : String) (opening closing : Nat) : Prop where
  parenthesis : source.toByteArray[closing]? = some ')'.toUInt8
  paired : ∃ arguments, slice? source (opening + 1) closing = some arguments ∧ Paired arguments

/-- The parenthesis at an offset opens a call, and no parenthesis before it does. -/
structure OpensFirst (source : String) (start opening : Nat) : Prop where
  opens : OpensAt source start opening
  first : ∀ start' opening', OpensAt source start' opening' → opening ≤ opening'

/-- The offsets are those of the leftmost call. They all stand between characters, and the checked
cut gives the arguments of the call. -/
structure CallSpan.WellFormed (source : String) (span : CallSpan) : Prop where
  opens : OpensFirst source span.start span.opening
  closes : ClosesAt source span.opening span.closing
  valid : ∀ offset ∈ [span.start, span.opening, span.opening + 1, span.closing, span.closing + 1],
    String.Pos.Raw.IsValid source ⟨offset⟩
  arguments : ∃ arguments, slice? source (span.opening + 1) span.closing = some arguments ∧
    argumentTexts? (String.ofList arguments) = some (argumentTexts arguments)

/-- The first parenthesis that opens a call is not closed. -/
def LeftOpen (source : String) : Prop :=
  ∃ start opening, OpensFirst source start opening ∧ ∀ closing, ¬ClosesAt source opening closing

/-- The name that ends at a byte starts after the last byte before it that is not of a name. -/
theorem nameStart?_eq_some_iff {bytes : ByteArray} {start stop : Nat} :
    nameStart? bytes stop = some start ↔
      start ≤ stop ∧
        (∀ offset, start ≤ offset → offset < stop →
          ∃ byte, bytes[offset]? = some byte ∧ isNameByte byte = true) ∧
        ∀ offset, offset + 1 = start →
          ∃ byte, bytes[offset]? = some byte ∧ isNameByte byte = false := by
  induction stop with
  | zero =>
    rw [nameStart?, Option.some.injEq]
    constructor
    · rintro rfl
      exact ⟨Nat.le_refl 0, fun offset _ h => absurd h (Nat.not_lt_zero _),
        fun offset h => absurd h (Nat.succ_ne_zero _)⟩
    · rintro ⟨hle, -, -⟩
      exact (Nat.le_zero.mp hle).symm
  | succ stop ih =>
    rw [nameStart?]
    cases hbyte : bytes[stop]? with
    | none =>
      simp only [reduceCtorEq, false_iff]
      rintro ⟨hle, hname, hbefore⟩
      rcases Nat.eq_or_lt_of_le hle with heq | hlt
      · obtain ⟨byte, hsome, -⟩ := hbefore stop heq.symm
        rw [hbyte] at hsome
        cases hsome
      · obtain ⟨byte, hsome, -⟩ := hname stop (Nat.le_of_lt_succ hlt) (Nat.lt_succ_self stop)
        rw [hbyte] at hsome
        cases hsome
    | some byte =>
      dsimp only
      split
      · next hisName =>
        rw [ih]
        constructor
        · rintro ⟨hle, hname, hbefore⟩
          refine ⟨Nat.le_succ_of_le hle, fun offset hfrom hto => ?_, hbefore⟩
          rcases Nat.eq_or_lt_of_le (Nat.le_of_lt_succ hto) with rfl | hlt
          · exact ⟨byte, hbyte, hisName⟩
          · exact hname offset hfrom hlt
        · rintro ⟨hle, hname, hbefore⟩
          refine ⟨?_, fun offset hfrom hto => hname offset hfrom (by omega), hbefore⟩
          by_contra hgt
          obtain ⟨other, hother, hnone⟩ := hbefore stop (by omega)
          obtain rfl := Option.some.inj (hbyte.symm.trans hother)
          exact absurd (hisName.symm.trans hnone) (by decide)
      · next hisName =>
        rw [Option.some.injEq]
        constructor
        · rintro rfl
          refine ⟨Nat.le_refl _, fun offset hfrom hto => absurd hto (by omega), ?_⟩
          intro offset hoffset
          obtain rfl : offset = stop := by omega
          exact ⟨byte, hbyte, Bool.eq_false_iff.mpr hisName⟩
        · rintro ⟨hle, hname, -⟩
          by_contra hne
          obtain ⟨other, hother, hsome⟩ := hname stop (by omega) (Nat.lt_succ_self stop)
          obtain rfl := Option.some.inj (hbyte.symm.trans hother)
          exact hisName hsome

/-- No dollar sign is found before a name exactly if the byte there is none. -/
theorem followsDollar?_eq_some_false_iff {bytes : ByteArray} {start : Nat} :
    followsDollar? bytes start = some false ↔
      ∀ offset, offset + 1 = start →
        ∃ byte, bytes[offset]? = some byte ∧ byte ≠ '$'.toUInt8 := by
  cases start with
  | zero =>
    simp only [followsDollar?, true_iff]
    exact fun offset h => absurd h (Nat.succ_ne_zero _)
  | succ offset =>
    simp [followsDollar?]

/-- The scan of the bytes before an offset finds the name there, if there is one. -/
theorem nameBetween_iff {source : String} {start stop : Nat} :
    NameBetween source start stop ↔
      start < stop ∧ nameStart? source.toByteArray stop = some start ∧
        followsDollar? source.toByteArray start = some false := by
  rw [nameStart?_eq_some_iff, followsDollar?_eq_some_false_iff]
  constructor
  · rintro ⟨hlt, hname, hbefore⟩
    refine ⟨hlt, ⟨Nat.le_of_lt hlt, hname, fun offset hoffset => ?_⟩, fun offset hoffset => ?_⟩
    · obtain ⟨byte, hbyte, hnone, -⟩ := hbefore offset hoffset
      exact ⟨byte, hbyte, hnone⟩
    · obtain ⟨byte, hbyte, -, hdollar⟩ := hbefore offset hoffset
      exact ⟨byte, hbyte, hdollar⟩
  · rintro ⟨hlt, ⟨-, hname, hbefore⟩, hdollar⟩
    refine ⟨hlt, hname, fun offset hoffset => ?_⟩
    obtain ⟨byte, hbyte, hnone⟩ := hbefore offset hoffset
    obtain ⟨other, hother, hne⟩ := hdollar offset hoffset
    obtain rfl := Option.some.inj (hbyte.symm.trans hother)
    exact ⟨byte, hbyte, hnone, hne⟩

/-- The bytes around a parenthesis tell whether it opens a call. -/
theorem opensAt_iff {source : String} {start opening : Nat} :
    OpensAt source start opening ↔
      ∃ reversed rest, source.toList = reversed.reverse ++ '(' :: rest ∧
        opensCall reversed = true ∧ opening = utf8Len reversed ∧
        start = utf8Len (beforeName reversed) := by
  constructor
  · rintro ⟨hname, hparenthesis⟩
    obtain ⟨before, rest, hsource, rfl⟩ := Text.exists_of_getElem? (by decide) hparenthesis
    obtain ⟨hlt, hstart, hdollar⟩ := nameBetween_iff.mp hname
    have hsource' : source.toList = before.reverse.reverse ++ '(' :: rest := by
      rw [List.reverse_reverse, hsource]
    have hsize : utf8Len before = utf8Len before.reverse := (String.utf8Len_reverse before).symm
    rw [hsize, nameStart?_eq hsource', Option.some.injEq] at hstart
    subst hstart
    rw [followsDollar?_eq (toList_eq_around hsource'), Option.some.injEq] at hdollar
    refine ⟨before.reverse, rest, hsource', ?_, hsize, rfl⟩
    by_contra hopens
    rcases (opensCall_eq_false_iff _).mp (Bool.eq_false_iff.mpr hopens) with hequal | hafter
    · omega
    · exact absurd (hdollar.symm.trans hafter) (by decide)
  · rintro ⟨reversed, rest, hsource, hopens, rfl, rfl⟩
    have hneither := mt (opensCall_eq_false_iff reversed).mpr (by simp [hopens])
    obtain ⟨hne, hdollar⟩ := not_or.mp hneither
    have hsize := utf8Len_nameBefore reversed
    have hparenthesis := Text.getElem?_of_ascii hsource (by decide)
    rw [String.utf8Len_reverse] at hparenthesis
    refine ⟨nameBetween_iff.mpr ⟨by omega, nameStart?_eq hsource, ?_⟩, hparenthesis⟩
    rw [followsDollar?_eq (toList_eq_around hsource), Bool.eq_false_iff.mpr hdollar]

/-- The text behind a parenthesis tells where it is closed. -/
theorem closesAt_iff {source : String} {reversed rest : List Char} {closing : Nat}
    (hsource : source.toList = reversed.reverse ++ '(' :: rest) :
    ClosesAt source (utf8Len reversed) closing ↔
      ∃ arguments after, closing? 0 rest = some (arguments, after) ∧
        closing = utf8Len reversed + 1 + utf8Len arguments := by
  have hopened : source.toList = (reversed.reverse ++ ['(']) ++ rest := by simp [hsource]
  have hsize : utf8Len (reversed.reverse ++ ['(']) = utf8Len reversed + 1 := by
    rw [String.utf8Len_append, String.utf8Len_reverse]
    rfl
  constructor
  · rintro ⟨hparenthesis, arguments, hslice, hpaired⟩
    obtain ⟨before, after, hpart, hstart, rfl⟩ := Text.slice?_eq_some_iff.mp hslice
    obtain ⟨before', after', hclosed, hstop⟩ := Text.exists_of_getElem? (by decide) hparenthesis
    rw [← String.utf8Len_append] at hstop
    obtain ⟨-, rfl⟩ := Text.append_inj_of_utf8Len (hpart.symm.trans hclosed) hstop
    rw [List.append_assoc] at hpart
    obtain ⟨-, rfl⟩ := Text.append_inj_of_utf8Len (hopened.symm.trans hpart) (hsize.trans hstart)
    exact ⟨arguments, after', closing?_eq_some_iff.mpr ⟨rfl, hpaired⟩, by rw [hstart]⟩
  · rintro ⟨arguments, after, hfound, rfl⟩
    obtain ⟨rfl, hpaired⟩ := closing?_eq_some_iff.mp hfound
    have hclosed : source.toList = (reversed.reverse ++ ['('] ++ arguments) ++ ')' :: after := by
      simp [hsource]
    refine ⟨?_, arguments, Text.slice?_eq_some_iff.mpr ⟨_, _, hclosed, hsize.symm, ?_⟩, hpaired⟩
    · have hbyte := Text.getElem?_of_ascii hclosed (by decide)
      rwa [String.utf8Len_append, hsize] at hbyte
    · rw [hsize]

/-- A parenthesis is closed only once. -/
theorem ClosesAt.unique {source : String} {start opening closing closing' : Nat}
    (hopens : OpensAt source start opening) (h : ClosesAt source opening closing)
    (h' : ClosesAt source opening closing') : closing = closing' := by
  obtain ⟨reversed, rest, hsource, -, rfl, -⟩ := opensAt_iff.mp hopens
  obtain ⟨arguments, after, hfound, rfl⟩ := (closesAt_iff hsource).mp h
  obtain ⟨arguments', after', hfound', rfl⟩ := (closesAt_iff hsource).mp h'
  rw [hfound] at hfound'
  cases hfound'
  rfl

/-- A text has at most one leftmost opening of a call. -/
theorem OpensFirst.unique {source : String} {start start' opening opening' : Nat}
    (h : OpensFirst source start opening) (h' : OpensFirst source start' opening') :
    start = start' ∧ opening = opening' := by
  have hle := h.first _ _ h'.opens
  have hge := h'.first _ _ h.opens
  obtain rfl : opening = opening' := by omega
  obtain ⟨-, hstart, -⟩ := nameBetween_iff.mp h.opens.name
  obtain ⟨-, hstart', -⟩ := nameBetween_iff.mp h'.opens.name
  exact ⟨Option.some.inj (hstart.symm.trans hstart'), rfl⟩

/-- A text has at most one well-formed span. -/
theorem CallSpan.WellFormed.unique {source : String} {span span' : CallSpan}
    (h : span.WellFormed source) (h' : span'.WellFormed source) : span = span' := by
  obtain ⟨start, opening, closing⟩ := span
  obtain ⟨start', opening', closing'⟩ := span'
  obtain ⟨rfl, rfl⟩ := h.opens.unique h'.opens
  obtain rfl := ClosesAt.unique h.opens.opens h.closes h'.closes
  rfl

/-- If no opening is found, then no parenthesis opens a call. -/
theorem not_opensAt {source : String} (h : opening? [] source.toList = none) (start opening : Nat) :
    ¬OpensAt source start opening := by
  intro hopens
  obtain ⟨reversed, rest, hsource, hcall, -, -⟩ := opensAt_iff.mp hopens
  have hfalse := opening?_eq_none_iff.mp h _ _ hsource
  rw [List.reverse_reverse, List.append_nil, hcall] at hfalse
  cases hfalse

/-- The parenthesis that the search finds is the first one that opens a call. -/
theorem opensFirst_of_opening? {source : String} {before name rest : List Char}
    (h : opening? [] source.toList = some (before, name, rest)) :
    ∃ reversed, source.toList = reversed.reverse ++ '(' :: rest ∧
      utf8Len before = utf8Len (beforeName reversed) ∧
      utf8Len before + utf8Len name = utf8Len reversed ∧
      OpensFirst source (utf8Len (beforeName reversed)) (utf8Len reversed) := by
  obtain ⟨first, hsource, hopens, hnone, rfl, rfl⟩ := exists_of_opening? h
  rw [List.append_nil] at hopens ⊢
  have hsource' : source.toList = first.reverse.reverse ++ '(' :: rest := by
    rw [List.reverse_reverse, hsource]
  refine ⟨first.reverse, hsource', String.utf8Len_reverse _, ?_, ?_, ?_⟩
  · rw [String.utf8Len_reverse, String.utf8Len_reverse]
    exact utf8Len_nameBefore _
  · exact opensAt_iff.mpr ⟨first.reverse, rest, hsource', hopens, rfl, rfl⟩
  · intro start' opening' hopens'
    obtain ⟨reversed, rest', hother, hcall, rfl, -⟩ := opensAt_iff.mp hopens'
    by_contra hlt
    -- A parenthesis that stands earlier is one of the text before, in which no call is opened.
    rw [hsource] at hother
    rcases List.append_eq_append_iff.mp hother with ⟨middle, hmiddle, -⟩ | ⟨middle, hmiddle, hrest⟩
    · have hsize := congrArg utf8Len hmiddle
      rw [String.utf8Len_append, String.utf8Len_reverse] at hsize
      rw [String.utf8Len_reverse] at hlt
      omega
    · cases middle with
      | nil =>
        rw [List.append_nil] at hmiddle
        rw [hmiddle, List.reverse_reverse] at hlt
        exact hlt (Nat.le_refl _)
      | cons c middle =>
        obtain ⟨rfl, -⟩ := List.cons.inj hrest
        have hfalse := opening?_eq_none_iff.mp hnone _ _ hmiddle
        rw [List.reverse_reverse, List.append_nil, hcall] at hfalse
        cases hfalse

/-- The offsets around the parts of a call stand between characters. -/
theorem isValid_of_call {source : String} {reversed arguments after : List Char}
    (hcall : source.toList = reversed.reverse ++ '(' :: (arguments ++ ')' :: after)) :
    ∀ offset ∈ [utf8Len (beforeName reversed), utf8Len reversed, utf8Len reversed + 1,
        utf8Len reversed + 1 + utf8Len arguments, utf8Len reversed + 1 + utf8Len arguments + 1],
      String.Pos.Raw.IsValid source ⟨offset⟩ := by
  have hvalid {before : List Char} (rest : List Char) {offset : Nat}
      (htext : source.toList = before ++ rest) (hoffset : utf8Len before = offset) :
      String.Pos.Raw.IsValid source ⟨offset⟩ :=
    Text.isValid_iff.mpr ⟨_, _, htext, hoffset.symm⟩
  have hopened : utf8Len (reversed.reverse ++ ['(']) = utf8Len reversed + 1 := by
    rw [String.utf8Len_append, String.utf8Len_reverse]
    rfl
  have hinside : utf8Len (reversed.reverse ++ ['('] ++ arguments) =
      utf8Len reversed + 1 + utf8Len arguments := by
    rw [String.utf8Len_append, hopened]
  have hclosed : utf8Len (reversed.reverse ++ ['('] ++ arguments ++ [')']) =
      utf8Len reversed + 1 + utf8Len arguments + 1 := by
    rw [String.utf8Len_append, hinside]
    rfl
  simp only [List.forall_mem_cons, List.not_mem_nil, false_implies, implies_true, and_true]
  refine ⟨?_, ?_, ?_, ?_, ?_⟩
  · exact hvalid _ (toList_eq_around hcall) (String.utf8Len_reverse _)
  · exact hvalid _ hcall (String.utf8Len_reverse _)
  · exact hvalid (arguments ++ ')' :: after) (by simp [hcall]) hopened
  · exact hvalid (')' :: after) (by simp [hcall]) hinside
  · exact hvalid after (by simp [hcall]) hclosed

/-- The offsets of the leftmost call are well formed. -/
theorem wellFormed_of_leftmostCall {source : String} {site : CallSite}
    (h : leftmostCall source.toList = .ok (some site)) : site.span.WellFormed source := by
  obtain ⟨rest, hopen, hclose⟩ := leftmostCall_eq_some.mp h
  obtain ⟨reversed, hsource, hstart, hopening, hfirst⟩ := opensFirst_of_opening? hopen
  have hspan : site.span = ⟨utf8Len (beforeName reversed), utf8Len reversed,
      utf8Len reversed + 1 + utf8Len site.arguments⟩ := by
    rw [CallSite.span, hopening, hstart]
  have hcloses : ClosesAt source (utf8Len reversed)
      (utf8Len reversed + 1 + utf8Len site.arguments) :=
    (closesAt_iff hsource).mpr ⟨_, _, hclose, rfl⟩
  obtain ⟨arguments, hslice, hpaired⟩ := hcloses.paired
  have hcut : Paired (String.ofList arguments).toList := by rwa [String.toList_ofList]
  rw [hspan]
  refine ⟨hfirst, hcloses, ?_, arguments, hslice, ?_⟩
  · rw [(closing?_eq_some_iff.mp hclose).1] at hsource
    exact isValid_of_call hsource
  · rw [argumentTexts?_eq hcut, String.toList_ofList]

/-- A text is refused if the first parenthesis that opens a call is not closed. -/
theorem leftOpen_of_leftmostCall {source : String} {error : NotationError}
    (h : leftmostCall source.toList = .error error) : LeftOpen source := by
  obtain ⟨before, name, rest, hopen, hclose⟩ := leftmostCall_eq_error.mp ⟨error, h⟩
  obtain ⟨reversed, hsource, -, -, hfirst⟩ := opensFirst_of_opening? hopen
  refine ⟨_, _, hfirst, fun closing hcloses => ?_⟩
  obtain ⟨arguments, after, hfound, -⟩ := (closesAt_iff hsource).mp hcloses
  rw [hclose] at hfound
  cases hfound

/-- The error of a text shows the text without the blanks around it. -/
theorem eq_unbalanced_of_leftmostCall {text : List Char} {error : NotationError}
    (h : leftmostCall text = .error error) :
    error = .unbalanced (String.ofList (Text.trim text)) := by
  unfold leftmostCall at h
  split at h
  · cases h
  · split at h
    · cases h
    · exact (Except.error.inj h).symm

/-- A call that is closed is not left open. -/
theorem CallSpan.WellFormed.not_leftOpen {source : String} {span : CallSpan}
    (h : span.WellFormed source) : ¬LeftOpen source := by
  rintro ⟨start, opening, hfirst, hnone⟩
  obtain ⟨-, rfl⟩ := h.opens.unique hfirst
  exact hnone _ h.closes

section

variable {source : String}

/-- A span is found exactly if it is well-formed. -/
theorem span?_eq_call_iff {span : CallSpan} :
    span? source = some (.ok (some span)) ↔ span.WellFormed source := by
  rw [span?_eq]
  cases hcall : leftmostCall source.toList with
  | error error =>
    refine ⟨fun h => ?_, fun h => absurd (leftOpen_of_leftmostCall hcall) h.not_leftOpen⟩
    cases h
  | ok found =>
    cases found with
    | none =>
      have hnone := not_opensAt (leftmostCall_eq_none.mp hcall)
      refine ⟨fun h => ?_, fun h => absurd h.opens.opens (hnone _ _)⟩
      cases h
    | some site =>
      have hformed := wellFormed_of_leftmostCall hcall
      constructor
      · intro h
        cases h
        exact hformed
      · intro h
        rw [h.unique hformed]
        rfl

/-- Nothing is found exactly if no parenthesis opens a call. -/
theorem span?_eq_none_iff :
    span? source = some (.ok none) ↔ ∀ start opening, ¬OpensAt source start opening := by
  rw [span?_eq]
  cases hcall : leftmostCall source.toList with
  | error error =>
    obtain ⟨start, opening, hfirst, -⟩ := leftOpen_of_leftmostCall hcall
    refine ⟨fun h => ?_, fun h => absurd hfirst.opens (h start opening)⟩
    cases h
  | ok found =>
    cases found with
    | none => exact ⟨fun _ => not_opensAt (leftmostCall_eq_none.mp hcall), fun _ => rfl⟩
    | some site =>
      have hformed := wellFormed_of_leftmostCall hcall
      refine ⟨fun h => ?_, fun h => absurd hformed.opens.opens (h _ _)⟩
      cases h

/-- The search fails exactly if the leftmost call is left open. -/
theorem span?_eq_error_iff {error : NotationError} : span? source = some (.error error) ↔
    LeftOpen source ∧ error = .unbalanced (String.ofList (Text.trim source.toList)) := by
  rw [span?_eq]
  cases hcall : leftmostCall source.toList with
  | error found =>
    obtain rfl := eq_unbalanced_of_leftmostCall hcall
    constructor
    · intro h
      cases h
      exact ⟨leftOpen_of_leftmostCall hcall, rfl⟩
    · rintro ⟨-, rfl⟩
      rfl
  | ok found =>
    constructor
    · intro h
      cases h
    · rintro ⟨hopen, -⟩
      cases found with
      | none =>
        obtain ⟨start, opening, hfirst, -⟩ := hopen
        exact absurd hfirst.opens (not_opensAt (leftmostCall_eq_none.mp hcall) start opening)
      | some site => exact absurd hopen (wellFormed_of_leftmostCall hcall).not_leftOpen

end

/-- The checked search does not fail on its way. It gives the offsets of the leftmost call, finds
that there is no call, or refuses a text with an error, and the bytes of the text decide between
the three. -/
theorem span?_exact (source : String) :
    span? source = some ((leftmostCall source.toList).map (Option.map CallSite.span)) ∧
      (∀ span, span? source = some (.ok (some span)) ↔ span.WellFormed source) ∧
      (span? source = some (.ok none) ↔ ∀ start opening, ¬OpensAt source start opening) ∧
      ∀ error, span? source = some (.error error) ↔
        LeftOpen source ∧ error = .unbalanced (String.ofList (Text.trim source.toList)) :=
  ⟨span?_eq source, fun _ => span?_eq_call_iff, span?_eq_none_iff, fun _ => span?_eq_error_iff⟩

end DiceNotation.Notation
