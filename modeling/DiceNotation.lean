import DiceNotation.Main
import DiceNotation.Proofs.Filling.Binding
import DiceNotation.Proofs.Filling.Twice
import DiceNotation.Proofs.Limit
import DiceNotation.Proofs.Notation.Linear
import DiceNotation.Proofs.Notation.Shown
import DiceNotation.Proofs.Record
import DiceNotation.Proofs.SameDice
import DiceNotation.Proofs.Unbiased
import DiceNotation.Proofs.Selection
import DiceNotation.Proofs.Notation.Runs
import DiceNotation.Proofs.Checked
import DiceNotation.Proofs.Earliest
import DiceNotation.Proofs.Refusal
import DiceNotation.Proofs.Notation.Ending
import DiceNotation.Proofs.Addresses
import DiceNotation.Proofs.Attainable
import DiceNotation.Proofs.DefaultRoll
import DiceNotation.Proofs.Filling.Pieces
import DiceNotation.Proofs.Notation.Spaced
import DiceNotation.Proofs.Notation.CallSpans
import DiceNotation.Proofs.Notation.Meanings
