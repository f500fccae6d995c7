import LessonDeck.Session.Desk
import LessonDeck.Proofs.Campaign.RareCount
import LessonDeck.Proofs.Machine.Fault
import LessonDeck.Proofs.Machine.Delta
import LessonDeck.Proofs.Command.RoundTrip
import LessonDeck.Proofs.Session.Reachable
import LessonDeck.Proofs.Session.Growth
import LessonDeck.Proofs.Session.Truth
import LessonDeck.Proofs.Session.Separation
import LessonDeck.Proofs.Session.Refusal
import LessonDeck.Proofs.Campaign.Bookkeeping
import LessonDeck.Proofs.Machine.Foresight
import LessonDeck.Proofs.Session.Exchange
import LessonDeck.Proofs.Wheel.Adaptive
import LessonDeck.Proofs.Campaign.Penalty
import LessonDeck.Proofs.Wheel.History
import LessonDeck.Proofs.Command.Arithmetic
import LessonDeck.Proofs.Machine.Iteration
import LessonDeck.Proofs.Machine.Stopping
import LessonDeck.Proofs.Machine.Counting
import LessonDeck.Proofs.Machine.Accumulation
import LessonDeck.Proofs.Machine.Computation
import LessonDeck.Proofs.Command.NumberCard
import LessonDeck.Proofs.Command.UniqueReading
import LessonDeck.Proofs.Campaign.Weight
import LessonDeck.Proofs.Wheel.Cumulative
