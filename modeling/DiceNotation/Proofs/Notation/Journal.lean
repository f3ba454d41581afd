import DiceNotation.Proofs.Notation.Replacing

/-!
# Reading with a journal

Reading keeps no record of the calls that went over the shelf. Here it is done once more with a
journal beside its state: each call that is put on the shelf is entered, and so is each call that
is fetched, with its place. Nothing else is different, so that a reading with a journal gives the
result of a reading without one, and leaves the same state.
-/

namespace DiceNotation.Notation

/-- What reading keeps, and what went over the shelf so far. -/
structure Journal where
  /-- What reading keeps. -/
  state : ReadState := {}
  /-- The calls that were put on the shelf, in the order in which they were. -/
  shelved : List Expr := []
  /-- The calls that were fetched, with the places from which they were. -/
  fetched : List (Expr × Nat) := []

/-- A step of reading that keeps a journal. -/
abbrev Journaled := EStateM NotationError Journal

namespace Journaled

/-- A step that makes no entry. -/
def unentered {α : Type} (step : Reading α) : Journaled α := fun journal =>
  match step journal.state with
  | .ok a state => .ok a { journal with state }
  | .error error state => .error error { journal with state }

/-- Puts a call on the shelf, and enters it. -/
def shelve (call : Expr) : Journaled Nat := do
  modify fun journal => { journal with shelved := journal.shelved ++ [call] }
  unentered (Notation.shelve call)

/-- Takes the call at a place from the shelf, and enters it if there is one. -/
def fetch? (place : Nat) : Journaled (Option Expr) := do
  match ← unentered (Notation.fetch? place) with
  | some call =>
    modify fun journal => { journal with fetched := journal.fetched ++ [(call, place)] }
    pure (some call)
  | none => pure none

end Journaled

/-- Reading with a journal. -/
abbrev journaling : Shelving Journaled :=
  ⟨Journaled.shelve, Journaled.fetch?, Journaled.unentered⟩

namespace Journaled

/-- Reads a text, step by step. -/
def readChars (text : List Char) : Journaled (List Expr) :=
  journaling.readChars text

/-- What a step with a journal gives, without the journal. -/
def plain {α : Type} :
    EStateM.Result NotationError Journal α → EStateM.Result NotationError ReadState α
  | .ok a journal => .ok a journal.state
  | .error error journal => .error error journal.state

/-- A step with a journal does what a step without one does. -/
def Follows {α : Type} (journaled : Journaled α) (step : Reading α) : Prop :=
  ∀ journal, plain (journaled journal) = step journal.state

namespace Follows

variable {α β : Type}

/-- A step that does nothing follows one that does nothing. -/
theorem pure (a : α) : Follows (pure a) (pure a) :=
  fun _ => rfl

/-- A step that fails follows one that fails in the same way. -/
theorem throw (error : NotationError) : Follows (throw error : Journaled α) (throw error) :=
  fun _ => rfl

/-- A step without an entry follows the step itself. -/
theorem unentered (step : Reading α) : Follows (unentered step) step := by
  intro journal
  unfold Journaled.unentered
  cases step journal.state <;> rfl

/-- Steps that follow others do so one after the other. -/
theorem bind {journaled : Journaled α} {step : Reading α} {nextJournaled : α → Journaled β}
    {next : α → Reading β} (h : Follows journaled step)
    (hnext : ∀ a, Follows (nextJournaled a) (next a)) :
    Follows (journaled >>= nextJournaled) (step >>= next) := by
  intro journal
  have hstep := h journal
  cases hrun : journaled journal with
  | ok a last =>
    rw [hrun] at hstep
    rw [Step.bind_of_ok hrun, Step.bind_of_ok hstep.symm]
    exact hnext a last
  | error error last =>
    rw [hrun] at hstep
    rw [Step.bind_of_error hrun, Step.bind_of_error hstep.symm]
    rfl

/-- A step that succeeds has a journal. -/
theorem exists_journal {journaled : Journaled α} {step : Reading α}
    (h : Follows journaled step) (journal : Journal) {a : α} {next : ReadState}
    (hrun : step journal.state = .ok a next) :
    ∃ last, journaled journal = .ok a last ∧ last.state = next := by
  have hstep := h journal
  rw [hrun] at hstep
  cases hjournal : journaled journal with
  | error error last =>
    rw [hjournal] at hstep
    cases hstep
  | ok b last =>
    rw [hjournal] at hstep
    cases hstep
    exact ⟨last, rfl, rfl⟩

/-- An entry before a step leaves what the step does. -/
theorem entry {journaled : Journaled α} {step : Reading α} {enter : Journal → Journal}
    (henter : ∀ journal, (enter journal).state = journal.state) (h : Follows journaled step) :
    Follows (modify enter >>= fun _ => journaled) step := by
  intro journal
  have hmodify : (modify enter : Journaled Unit) journal = .ok () (enter journal) := rfl
  rw [Step.bind_of_ok hmodify, h, henter]

end Follows

/-- Putting a call on the shelf with an entry follows putting it there. -/
theorem follows_shelve (call : Expr) : Follows (shelve call) (Notation.shelve call) :=
  .entry (fun _ => rfl) (.unentered _)

/-- Taking a call from the shelf with an entry follows taking it from there. -/
theorem follows_fetch? (place : Nat) : Follows (fetch? place) (Notation.fetch? place) := by
  have hpure : Notation.fetch? place = Notation.fetch? place >>= pure := by simp
  rw [hpure]
  refine (Follows.unentered _).bind fun found => ?_
  cases found with
  | none => exact .pure none
  | some call => exact .entry (fun _ => rfl) (.pure (some call))

/-- Looking a word up with a journal follows looking it up. -/
theorem follows_token (word : List Char) : Follows (journaling.token word) (token word) := by
  unfold token Shelving.token
  split
  · refine (follows_fetch? _).bind fun found => ?_
    cases found with
    | none => exact .throw _
    | some call => exact .pure _
  · split
    · exact .pure _
    · exact .throw _
  · split
    · exact .pure _
    · exact .throw _
  all_goals exact .pure _

/-- Looking words up with a journal follows looking them up. -/
theorem follows_tokensOf (words : List (List Char)) :
    Follows (journaling.tokensOf words) (tokensOf words) := by
  induction words with
  | nil => exact .pure []
  | cons word rest ih =>
    refine (follows_token word).bind fun first => ?_
    exact ih.bind fun others => .pure (first :: others)

/-- Lifting and reading arguments with a journal follow doing so without one. -/
theorem follows_lift :
    (∀ text, Follows (journaling.lift text) (lift text)) ∧
      ∀ arguments, Follows (journaling.readArguments arguments) (readArguments arguments) := by
  refine Shelving.lift.mutual_induct _ _ ?error ?none ?call ?nil ?cons
  case error =>
    intro text error herror
    rw [journaling.lift_of_error herror, lift_of_error herror]
    exact .throw error
  case none =>
    intro text hnone
    rw [journaling.lift_of_none hnone, lift_of_none hnone]
    exact .pure text
  case call =>
    intro text site hsite iharguments ihreplaced
    rw [journaling.lift_of_some hsite, lift_of_some hsite]
    refine (Follows.unentered _).bind fun function => ?_
    refine iharguments.bind fun parameters => ?_
    exact (follows_shelve _).bind ihreplaced
  case nil =>
    rw [Shelving.readArguments, readArguments_nil]
    exact .pure []
  case cons =>
    intro argument rest ihargument ihrest
    rw [Shelving.readArguments, readArguments_cons]
    refine ihargument.bind fun lifted => ?_
    refine (follows_tokensOf _).bind fun row => ?_
    refine (Follows.unentered _).bind fun exprs => ?_
    exact ihrest.bind fun others => .pure (exprs ++ others)

/-- Reading with a journal is reading. -/
theorem follows_readChars (text : List Char) :
    Follows (readChars text) (Notation.readChars text) := by
  refine (follows_lift.1 text).bind fun lifted => ?_
  refine (follows_tokensOf _).bind fun row => ?_
  refine (Follows.unentered _).bind fun exprs => ?_
  cases exprs with
  | nil => exact .throw (nothingRead text row)
  | cons e rest => exact .pure (e :: rest)

end Journaled

end DiceNotation.Notation
