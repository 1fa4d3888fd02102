import DiceRoll.Main
import DiceRoll.Proofs.Notation.Sources
import DiceRoll.Proofs.Rolling.Guard
import DiceRoll.Proofs.Trace.SingleRoll
import DiceRoll.Proofs.Trace.Calls
import DiceRoll.Proofs.Trace.Truncated
import DiceRoll.Proofs.Evaluation.TraceTotal
import DiceRoll.Proofs.Evaluation.Refusal
import DiceRoll.Proofs.Evaluation.Continued
import DiceRoll.Proofs.Evaluation.Described
import DiceRoll.Proofs.Reading.CorrectPrefix
import DiceRoll.Proofs.Reading.Relaxed
import DiceRoll.Proofs.Rolling.OneValue
import DiceRoll.Proofs.Rolling.Idle
import DiceRoll.Proofs.Rolling.Filtering
import DiceRoll.Proofs.Rolling.InitialOrder
import DiceRoll.Proofs.Rolling.Monotone
import DiceRoll.Proofs.Keep.Extremes
import DiceRoll.Proofs.Reading.LetterCase
import DiceRoll.Proofs.Reading.Indented
import DiceRoll.Proofs.Reading.Recovered
import DiceRoll.Proofs.Notation.Alone
import DiceRoll.Proofs.Settings
import DiceRoll.Proofs.Reading.Number
