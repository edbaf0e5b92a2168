/-
Why bytes are not a compiled program.

An error names the section that was being read, the offset of the byte that was
read next, and the cause. The wording of a cause is given once, here.
-/

import Croupier.Program.Basic

namespace Croupier

/-- The parts of a compiled program. -/
inductive Section where
  | header
  | setup
  | phases
  | winConditions
  | effects
  | scoring
  | handPatterns
  | teams
  deriving DecidableEq, Repr

def Section.name : Section → String
  | header => "header"
  | setup => "setup"
  | phases => "phases"
  | winConditions => "win conditions"
  | effects => "effects"
  | scoring => "scoring"
  | handPatterns => "hand patterns"
  | teams => "teams"

/-- What is wrong with the bytes of a section. -/
inductive ParseCause where
  | truncated
  | truncatedEffects (declared available : Nat)
  | headerTooShort (size : Nat)
  | unsupportedVersion (version : Nat)
  | unknownTableauMode (code : Nat)
  | unknownSequenceOrder (code : Nat)
  | rankMaskTooWide
  | tooManyDeckCopies
  | unknownTieBreak (code : Nat)
  | participantsOutOfRange (count : Nat)
  | maxTurnsOutOfRange (count : Nat)
  | sectionOutside (offset : Int)
  | noTurnStructure
  | noRoster
  | negativeSetup
  | noPhases
  | unknownPhase (code : Nat)
  | unknownDrawSource (code : Nat)
  | drawCountTooLarge (count : Nat)
  | unknownPlayTarget (code : Nat)
  | invalidCardinality (least most : Nat)
  | unknownDiscardTarget (code : Nat)
  | discardCountOutOfRange (count : Nat)
  | invalidSuit (code : Nat)
  | minBetOutOfRange (amount : Nat)
  | raiseLimitOutOfRange (count : Nat)
  | invalidBidRange (least most : Nat)
  | unknownComparison (code : Nat)
  | partialCondition (length : Nat)
  | unknownCombinator (code : Nat)
  | unknownWinComparison (code : Nat)
  | unknownWinTrigger (code : Nat)
  | noEffectsMarker
  | effectRankOutOfRange (rank : Nat)
  | unknownHandPattern (code : Nat)
  | tooFewTeams
  | emptyTeam (team : Nat)
  | notAParticipant (member : Nat)
  | inTwoTeams (member : Nat)
  deriving DecidableEq, Repr

/-- A cause, and where it arose. -/
structure ParseError where
  place : Section
  offset : Nat
  cause : ParseCause
  deriving DecidableEq, Repr

/-- How many bytes the header takes. -/
def headerSize : Nat := 52

namespace ParseError

def detail (error : ParseError) : String :=
  match error.cause with
  | .truncated => "truncated " ++ error.place.name ++ " section"
  | .truncatedEffects declared available =>
      "truncated effects section: " ++ toString declared
        ++ " entries declared, " ++ toString available ++ " bytes available"
  | .headerTooShort size =>
      "program is " ++ toString size ++ " bytes, the header alone needs "
        ++ toString headerSize
  | .unsupportedVersion version =>
      "unsupported format version " ++ toString version
  | .unknownTableauMode code => "unknown tableau mode " ++ toString code
  | .unknownSequenceOrder code =>
      "unknown sequence direction " ++ toString code
  | .rankMaskTooWide => "deck rank mask uses bits beyond the 13 ranks"
  | .tooManyDeckCopies =>
      "at most " ++ toString maxDeckCopies ++ " deck copies are supported"
  | .unknownTieBreak code => "unknown war tie-break " ++ toString code
  | .participantsOutOfRange count =>
      "player count " ++ toString count ++ " outside "
        ++ toString minParticipants ++ ".." ++ toString maxParticipants
  | .maxTurnsOutOfRange count =>
      "max turns " ++ toString count ++ " out of range"
  | .sectionOutside offset =>
      "section offset " ++ toString offset ++ " is outside the program"
  | .noTurnStructure => "missing turn structure"
  | .noRoster => "team mode is set but no team roster is present"
  | .negativeSetup => "setup values must not be negative"
  | .noPhases => "a program needs at least one phase"
  | .unknownPhase code => "unknown phase type " ++ toString code
  | .unknownDrawSource code => "unknown draw source " ++ toString code
  | .drawCountTooLarge count =>
      "draw count " ++ toString count ++ " exceeds the largest deck"
  | .unknownPlayTarget code => "unknown play target " ++ toString code
  | .invalidCardinality least most =>
      "invalid play cardinality " ++ toString least ++ ".." ++ toString most
  | .unknownDiscardTarget code => "unknown discard target " ++ toString code
  | .discardCountOutOfRange count =>
      "discard count " ++ toString count ++ " out of range"
  | .invalidSuit code => "invalid suit " ++ toString code
  | .minBetOutOfRange amount =>
      "minimum bet " ++ toString amount ++ " out of range"
  | .raiseLimitOutOfRange count =>
      "raise limit " ++ toString count ++ " out of range"
  | .invalidBidRange least most =>
      "invalid bid range " ++ toString least ++ ".." ++ toString most
  | .unknownComparison code =>
      "unknown comparison operator " ++ toString code
  | .partialCondition length =>
      "condition block length " ++ toString length
        ++ " is not a whole number of conditions"
  | .unknownCombinator code => "unknown condition combinator " ++ toString code
  | .unknownWinComparison code => "unknown win comparison " ++ toString code
  | .unknownWinTrigger code => "unknown win trigger " ++ toString code
  | .noEffectsMarker => "missing effects marker"
  | .effectRankOutOfRange rank =>
      "effect rank " ++ toString rank ++ " out of range"
  | .unknownHandPattern code => "unknown hand pattern " ++ toString code
  | .tooFewTeams => "team mode needs at least two teams"
  | .emptyTeam team => "team " ++ toString team ++ " has no members"
  | .notAParticipant member =>
      "team member " ++ toString member ++ " is not a participant"
  | .inTwoTeams member =>
      "participant " ++ toString member ++ " belongs to more than one team"

/-- The whole message: the place and the wording of the cause. -/
def message (error : ParseError) : String :=
  "Could not parse program (" ++ error.place.name ++ " section, byte "
    ++ toString error.offset ++ "): " ++ error.detail ++ "."

end ParseError

end Croupier
