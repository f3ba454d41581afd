import DiceNotation.Text.Blank
import Mathlib.Data.List.DropRight

/-!
# Trimmed texts

Trimming takes away blanks at the two ends of a text and nothing else, so that blanks that are
written around a text do not matter for what is left of it.
-/

namespace DiceNotation.Text

/-- All characters of a text are blanks. -/
def AllBlank (text : List Char) : Prop :=
  ∀ c ∈ text, isBlank c = true

instance (text : List Char) : Decidable (AllBlank text) :=
  decidable_of_iff (text.all isBlank = true) List.all_eq_true

variable {blanks : List Char}

/-- Trimming the end is dropping blanks from the right. -/
theorem trimEnd_eq_rdropWhile (text : List Char) : trimEnd text = text.rdropWhile isBlank :=
  rfl

/-- Trimming the start takes blanks away. -/
theorem exists_eq_append_trimStart (text : List Char) :
    ∃ before, AllBlank before ∧ text = before ++ trimStart text := by
  refine ⟨text.takeWhile isBlank, ?_, List.takeWhile_append_dropWhile.symm⟩
  exact List.all_eq_true.mp List.all_takeWhile

/-- Trimming the end takes blanks away. -/
theorem exists_eq_trimEnd_append (text : List Char) :
    ∃ after, AllBlank after ∧ text = trimEnd text ++ after := by
  obtain ⟨before, hblank, htext⟩ := exists_eq_append_trimStart text.reverse
  refine ⟨before.reverse, fun c hc => hblank c (List.mem_reverse.mp hc), ?_⟩
  rw [trimEnd, ← List.reverse_append, ← htext, List.reverse_reverse]

/-- A text is what is left of it when it is trimmed, with blanks around. -/
theorem exists_eq_append_trim (text : List Char) :
    ∃ before after, AllBlank before ∧ AllBlank after ∧ text = before ++ trim text ++ after := by
  obtain ⟨before, hbefore, hstart⟩ := exists_eq_append_trimStart text
  obtain ⟨after, hafter, hend⟩ := exists_eq_trimEnd_append (trimStart text)
  refine ⟨before, after, hbefore, hafter, ?_⟩
  rw [List.append_assoc, trim, ← hend, ← hstart]

private theorem trimStart_append (hblanks : AllBlank blanks) (text : List Char) :
    trimStart (blanks ++ text) = trimStart text :=
  List.dropWhile_append_of_pos hblanks

private theorem trimEnd_append_of_blank (hblanks : AllBlank blanks) (text : List Char) :
    trimEnd (text ++ blanks) = trimEnd text := by
  have hreverse : AllBlank blanks.reverse := fun c hc => hblanks c (List.mem_reverse.mp hc)
  rw [trimEnd, List.reverse_append, trimStart_append hreverse, ← trimEnd]

private theorem trimStart_eq_nil_iff {text : List Char} : trimStart text = [] ↔ AllBlank text :=
  List.dropWhile_eq_nil_iff

private theorem trimEnd_eq_nil_iff {text : List Char} : trimEnd text = [] ↔ AllBlank text := by
  rw [trimEnd_eq_rdropWhile]
  exact List.rdropWhile_eq_nil_iff

/-- A text can be trimmed to nothing only if there is nothing but blanks in it. -/
theorem trim_eq_nil_iff {text : List Char} : trim text = [] ↔ AllBlank text := by
  obtain ⟨before, hbefore, htext⟩ := exists_eq_append_trimStart text
  rw [trim, trimEnd_eq_nil_iff]
  constructor
  · intro h c hc
    rw [htext] at hc
    rcases List.mem_append.mp hc with hc | hc
    · exact hbefore c hc
    · exact h c hc
  · intro h c hc
    exact h c ((List.dropWhile_sublist _).subset hc)

/-- Blanks in front of a text are trimmed. -/
theorem trim_blanks_append (hblanks : AllBlank blanks) (text : List Char) :
    trim (blanks ++ text) = trim text := by
  rw [trim, trim, trimStart_append hblanks]

/-- Blanks behind a text are trimmed. -/
theorem trim_append_blanks (hblanks : AllBlank blanks) (text : List Char) :
    trim (text ++ blanks) = trim text := by
  by_cases htext : AllBlank text
  · have hboth : AllBlank (text ++ blanks) := List.forall_mem_append.mpr ⟨htext, hblanks⟩
    rw [trim_eq_nil_iff.mpr hboth, trim_eq_nil_iff.mpr htext]
  · have hstart : trimStart (text ++ blanks) = trimStart text ++ blanks := by
      have hne : trimStart text ≠ [] := fun hnil => htext (trimStart_eq_nil_iff.mp hnil)
      rw [trimStart, List.dropWhile_append, if_neg (by rwa [List.isEmpty_iff])]
      rfl
    rw [trim, hstart, trimEnd_append_of_blank hblanks, ← trim]

/-- What holds of no blank holds nowhere in blanks. -/
theorem any_eq_false_of_allBlank (hblanks : AllBlank blanks) {holds : Char → Bool}
    (hholds : ∀ c, isBlank c = true → holds c = false) : blanks.any holds = false :=
  List.any_eq_false.mpr fun c hc => by simp [hholds c (hblanks c hc)]

private theorem eq_nil_of_countP_isBlank (hblanks : AllBlank blanks)
    (h : blanks.countP isBlank = 0) : blanks = [] := by
  rw [List.countP_eq_length.mpr hblanks] at h
  exact List.eq_nil_of_length_eq_zero h

/-- Trimming a text that has blanks around it makes the number of its blanks smaller. -/
theorem trim_eq_self_of_countP {text : List Char}
    (h : text.countP isBlank = (trim text).countP isBlank) : trim text = text := by
  obtain ⟨before, after, hbefore, hafter, htext⟩ := exists_eq_append_trim text
  have hcount : text.countP isBlank =
      before.countP isBlank + (trim text).countP isBlank + after.countP isBlank := by
    conv_lhs => rw [htext]
    rw [List.countP_append, List.countP_append]
  have hnil : before = [] := eq_nil_of_countP_isBlank hbefore (by omega)
  have hnil' : after = [] := eq_nil_of_countP_isBlank hafter (by omega)
  rw [hnil, hnil', List.nil_append, List.append_nil] at htext
  exact htext.symm

end DiceNotation.Text
