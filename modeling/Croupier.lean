import Croupier.Binary64
import Croupier.Capped
import Croupier.Card
import Croupier.Console.Commands
import Croupier.Console.Dispatcher
import Croupier.Console.Host
import Croupier.Fault
import Croupier.Hand.Rank
import Croupier.Hand.Shape
import Croupier.Hand.Value
import Croupier.Main
import Croupier.Match.Game
import Croupier.Match.Record
import Croupier.Match.Report
import Croupier.Match.Settings
import Croupier.Match.Summary
import Croupier.Measure.Interaction
import Croupier.Measure.Standing
import Croupier.Measure.Tension
import Croupier.Move
import Croupier.Program.Basic
import Croupier.Program.Decode
import Croupier.Program.Decoder
import Croupier.Program.Encode
import Croupier.Program.Library
import Croupier.Program.ParseError
import Croupier.Program.Query
import Croupier.Program.Vocabulary
import Croupier.Proofs.Codec.Acceptance
import Croupier.Proofs.Codec.Numeral
import Croupier.Proofs.Codec.Phases
import Croupier.Proofs.Codec.Ranges
import Croupier.Proofs.Codec.Reading
import Croupier.Proofs.Codec.RoundTrip
import Croupier.Proofs.Codec.Sections
import Croupier.Proofs.Codec.Trailing
import Croupier.Proofs.Codec.Truncation
import Croupier.Proofs.Codec.WellFormed
import Croupier.Proofs.Console.Failures
import Croupier.Proofs.Hand.Best
import Croupier.Proofs.Hand.Categories
import Croupier.Proofs.Hand.Flushes
import Croupier.Proofs.Hand.Groups
import Croupier.Proofs.Hand.Growth
import Croupier.Proofs.Hand.Order
import Croupier.Proofs.Hand.Points
import Croupier.Proofs.Hand.Runs
import Croupier.Proofs.Match.Accounts
import Croupier.Proofs.Match.Batches
import Croupier.Proofs.Match.Course
import Croupier.Proofs.Match.Limits
import Croupier.Proofs.Match.Reuse
import Croupier.Proofs.Match.Round
import Croupier.Proofs.Measure.History
import Croupier.Proofs.Measure.Leaders
import Croupier.Proofs.Measure.Prospects
import Croupier.Proofs.Play.Amounts
import Croupier.Proofs.Play.Battles
import Croupier.Proofs.Play.Bidding
import Croupier.Proofs.Play.Blind
import Croupier.Proofs.Play.Books
import Croupier.Proofs.Play.Chips
import Croupier.Proofs.Play.Claims
import Croupier.Proofs.Play.Completion
import Croupier.Proofs.Play.Contributions
import Croupier.Proofs.Play.Deal
import Croupier.Proofs.Play.Earnings
import Croupier.Proofs.Play.Hands
import Croupier.Proofs.Play.Means
import Croupier.Proofs.Play.Offers
import Croupier.Proofs.Play.Order
import Croupier.Proofs.Play.Pace
import Croupier.Proofs.Play.Piles
import Croupier.Proofs.Play.Playable
import Croupier.Proofs.Play.Progress
import Croupier.Proofs.Play.Refusals
import Croupier.Proofs.Play.Room
import Croupier.Proofs.Play.Rounds
import Croupier.Proofs.Play.Rules
import Croupier.Proofs.Play.Run
import Croupier.Proofs.Play.Step
import Croupier.Proofs.Play.Tricks
import Croupier.Proofs.Play.Turns
import Croupier.Proofs.Play.View
import Croupier.Proofs.Play.Visits
import Croupier.Proofs.Random.Draws
import Croupier.Proofs.Random.Fairness
import Croupier.Proofs.Random.Seeds
import Croupier.Proofs.Random.Shuffles
import Croupier.Proofs.Strategy.Choose
import Croupier.Proofs.Strategy.Pictures
import Croupier.Proofs.Strategy.Redistribution
import Croupier.Proofs.Strategy.Wins
import Croupier.Proofs.Success
import Croupier.Proofs.Table.Dealing
import Croupier.Proofs.Table.Effects
import Croupier.Proofs.Table.NextHand
import Croupier.Proofs.Table.Pool
import Croupier.Proofs.Table.Showdown
import Croupier.Proofs.Table.TurnOrder
import Croupier.Proofs.Teams.Bags
import Croupier.Proofs.Teams.Changes
import Croupier.Proofs.Teams.Contracts
import Croupier.Proofs.Teams.Guise
import Croupier.Proofs.Teams.Leaders
import Croupier.Proofs.Teams.Runs
import Croupier.Proofs.Teams.Winners
import Croupier.Proofs.Text.Numerals
import Croupier.Proofs.Text.Tokens
import Croupier.Proofs.Tricks.Points
import Croupier.Proofs.Tricks.Winner
import Croupier.Proofs.Tricks.Worth
import Croupier.Random.Draw
import Croupier.Random.Seed
import Croupier.Random.Twister
import Croupier.Rules.Apply
import Croupier.Rules.Battle
import Croupier.Rules.Betting
import Croupier.Rules.Condition
import Croupier.Rules.Contract
import Croupier.Rules.Effect
import Croupier.Rules.Offer
import Croupier.Rules.Trick
import Croupier.Rules.Turn
import Croupier.Rules.Winning
import Croupier.Strategy.Basic
import Croupier.Strategy.Choose
import Croupier.Strategy.Imagine
import Croupier.Table.Basic
import Croupier.Table.Deal
import Croupier.Table.Pile
import Croupier.Table.Pool
import Croupier.Text.Ascii
import Croupier.Text.FixedPoint
import Croupier.Text.Numeral
import Croupier.Text.Tokens
import Croupier.Total
