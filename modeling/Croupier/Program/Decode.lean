/-
Compiled programs: from bytes to a program.

The header gives the offset of each section; a section whose offset is zero is
absent. Sections are read in a fixed order and may lie anywhere behind the
header. Bytes that no section reads are ignored.
-/

import Croupier.Program.Decoder

namespace Croupier.Decoder

/-! ### Words -/

/-- The byte that stands for the first comparison. -/
def comparisonBase : Nat := 50

/-- The byte that stands for no suit. -/
def noSuitCode : Nat := 255

/-- A byte that must stand for a known location. -/
def knownLocation (code : Nat) : Bool :=
  code < Location.known.length

/-- One condition of seven bytes. The comparison must be known; an unknown kind
is kept. -/
def condition : Decoder Condition := do
  let kind ← byte
  let comparison ← small
  let value ← integer 4
  let reference ← byte
  require
    (comparisonBase ≤ comparison
      && comparison < comparisonBase + Comparison.known.length)
    (.unknownComparison comparison)
  return {
      kind := Coded.ofCode kind
      comparison := Coded.ofCode (comparison - comparisonBase).toUInt8
      value
      reference }

/-- How many bytes a condition takes. -/
def conditionSize : Nat := 7

/-- The byte of the combinator that asks for all conditions. -/
def allCode : Nat := 40

/-- The byte of the combinator that asks for one condition. -/
def anyCode : Nat := 41

/-- A condition block of a given length: nothing, a single condition, or a
combinator and the conditions it combines. -/
def conditionBlock (length : Nat) : Decoder ConditionBlock := do
  if length = 0 then
    return {}
  let left ← remaining
  require (length ≤ left) .truncated
  if length = conditionSize then
    let only ← condition
    return { conditions := [only] }
  require ((length - 1) % conditionSize = 0) (.partialCondition length)
  let combinator ← small
  require (combinator = allCode || combinator = anyCode)
    (.unknownCombinator combinator)
  let conditions ← times condition ((length - 1) / conditionSize)
  return {
      quantifier := if combinator = anyCode then .any else .all
      conditions }

/-- A suit, or none. -/
def optionalSuit : Decoder (Option SuitWord) := do
  let code ← small
  if code = noSuitCode then
    return none
  match Suit.ofIndex? code with
  | some suit => return some (.suit suit)
  | none => fail (.invalidSuit code)

/-! ### Phases -/

/-- The largest amount that a betting phase may name. -/
def maxAmount : Nat := 1000000000

def drawPhase : Decoder DrawPhase := do
  let source ← small
  let count ← natural 4
  let mandatory ← flag
  let conditional ← flag
  require (knownLocation source) (.unknownDrawSource source)
  require (count ≤ maxDeckSize) (.drawCountTooLarge count)
  let condition ← if conditional then some <$> condition else pure none
  return {
      source := Coded.ofCode source.toUInt8
      count
      mandatory
      condition }

def playPhase : Decoder PlayPhase := do
  let target ← small
  let minCards ← small
  let maxCards ← small
  let mandatory ← flag
  let passIfUnable ← flag
  let length ← natural 4
  require (knownLocation target) (.unknownPlayTarget target)
  require (maxCards ≠ 0 && minCards ≤ maxCards)
    (.invalidCardinality minCards maxCards)
  let conditions ← conditionBlock length
  return {
      target := Coded.ofCode target.toUInt8
      minCards
      maxCards
      mandatory
      passIfUnable
      conditions }

def discardPhase : Decoder DiscardPhase := do
  let target ← small
  let count ← natural 4
  let mandatory ← flag
  require (knownLocation target) (.unknownDiscardTarget target)
  require (count ≠ 0 && count ≤ maxDeckSize) (.discardCountOutOfRange count)
  return {
      target := Coded.ofCode target.toUInt8
      count
      mandatory }

def trickPhase : Decoder TrickPhase := do
  let followSuit ← flag
  let trump ← optionalSuit
  let highCardWins ← flag
  let breaking ← optionalSuit
  return { followSuit, trump, highCardWins, breaking }

def bettingPhase : Decoder BettingPhase := do
  let minBet ← natural 4
  let maxRaises ← natural 4
  require (minBet ≠ 0 && minBet ≤ maxAmount) (.minBetOutOfRange minBet)
  require (maxRaises ≤ maxAmount) (.raiseLimitOutOfRange maxRaises)
  return { minBet, maxRaises }

def claimPhase : Decoder ClaimPhase := do
  let allowChallenge ← flag
  return { allowChallenge }

def biddingPhase : Decoder BiddingPhase := do
  let minBid ← small
  let maxBid ← small
  let allowNil ← flag
  require (minBid ≤ maxBid && maxBid ≤ standardDeckSize)
    (.invalidBidRange minBid maxBid)
  return { minBid, maxBid, allowNil }

/-- One phase: a byte for its kind, then its data. The length of an unknown
phase is unknowable, so nothing behind it can be read. -/
def phase : Decoder Phase := do
  let kind ← small
  match kind with
  | 1 => .draw <$> drawPhase
  | 2 => .play <$> playPhase
  | 3 => .discard <$> discardPhase
  | 4 => .trick <$> trickPhase
  | 5 => .betting <$> bettingPhase
  | 6 => .claim <$> claimPhase
  | 7 => .bidding <$> biddingPhase
  | _ => fail (.unknownPhase kind)

/-! ### Sections -/

def setup : Decoder Setup := do
  let cardsPerParticipant ← integer 4
  let initialDiscards ← integer 4
  let startingChips ← integer 4
  require
    (0 ≤ cardsPerParticipant && 0 ≤ initialDiscards && 0 ≤ startingChips)
    .negativeSetup
  return { cardsPerParticipant, initialDiscards, startingChips }

/-- The phases section. Every phase takes a byte at least, which bounds their
number by the bytes that are left. -/
def phases : Decoder (List Phase) := do
  let count ← natural 4
  require (count ≠ 0) .noPhases
  let left ← remaining
  require (count ≤ left) .truncated
  times phase count

/-- One win condition of seven bytes. An unknown kind is kept. -/
def winCondition : Decoder WinCondition := do
  let kind ← byte
  let threshold ← integer 4
  let side ← small
  let trigger ← small
  require (side < ThresholdSide.known.length) (.unknownWinComparison side)
  require (trigger < WinTrigger.known.length) (.unknownWinTrigger trigger)
  return {
      kind := Coded.ofCode kind
      threshold
      side := Coded.ofCode side.toUInt8
      trigger := Coded.ofCode trigger.toUInt8 }

/-- A section of a count and entries of a fixed size. -/
def counted {α : Type} (size : Nat) (entry : Decoder α) :
    Decoder (List α) := do
  let count ← natural 4
  let left ← remaining
  require (count * size ≤ left) .truncated
  times entry count

def winConditions : Decoder (List WinCondition) :=
  counted 7 winCondition

/-- The byte that opens the effects section. -/
def effectsMarker : Nat := 60

def effectEntry : Decoder (RankWord × Effect) := do
  let rank ← small
  let kind ← byte
  let target ← byte
  let value ← small
  match Rank.ofIndex? rank with
  | some rank =>
      return (.rank rank,
        { kind := Coded.ofCode kind
          target := Coded.ofCode target
          value })
  | none => fail (.effectRankOutOfRange rank)

/-- The effects section. A later entry for a rank replaces an earlier one. -/
def effects : Decoder EffectTable := do
  let marker ← small
  require (marker = effectsMarker) .noEffectsMarker
  let count ← small
  let left ← remaining
  require (count * 4 ≤ left) (.truncatedEffects count left)
  let entries ← times effectEntry count
  return EffectTable.ofList entries

/-- One scoring rule of four bytes. An unknown kind is kept. -/
def scoringRule : Decoder ScoringRule := do
  let kind ← byte
  let selector ← byte
  let points ← integer 2
  return { kind := Coded.ofCode kind, selector, points }

def scoring : Decoder (List ScoringRule) :=
  counted 4 scoringRule

/-- One hand pattern of four bytes. -/
def handPattern : Decoder HandPattern := do
  let kind ← small
  let size ← small
  let weight ← integer 2
  require (kind < PatternKind.known.length) (.unknownHandPattern kind)
  return { kind := Coded.ofCode kind.toUInt8, size, weight }

def handPatterns : Decoder (List HandPattern) :=
  counted 4 handPattern

/-- The members of one team, each of them a participant that no team has yet.
Returns them in order. -/
def members (participants : Int) : (count : Nat) → (assigned : List Int) →
    Decoder (List Int)
  | 0, _ => pure []
  | count + 1, assigned => do
      let member ← small
      require ((member : Int) < participants) (.notAParticipant member)
      require (!assigned.contains (member : Int)) (.inTwoTeams member)
      let rest ← members participants count (member :: assigned)
      return member :: rest

/-- The remaining teams, the next of which has the given number. -/
def rosters (participants : Int) : (count : Nat) → (team : Nat) →
    (assigned : List Int) → Decoder (List (List Int))
  | 0, _, _ => pure []
  | count + 1, team, assigned => do
      let size ← small
      require (size ≠ 0) (.emptyTeam team)
      let roster ← members participants size assigned
      let rest ← rosters participants count (team + 1) (roster ++ assigned)
      return roster :: rest

def teams (participants : Int) : Decoder (List (List Int)) := do
  let count ← small
  require (2 ≤ count) .tooFewTeams
  rosters participants count 0 []

/-! ### The header -/

/-- Where each section begins; zero stands for an absent section. -/
structure SectionTable where
  setup : Int
  phases : Int
  winConditions : Int
  effects : Int
  scoring : Int
  handPatterns : Int
  teams : Int
  deriving DecidableEq, Repr

/-- The sections and where they begin, in the order of the table. -/
def SectionTable.toList (table : SectionTable) : List (Section × Int) :=
  [(.setup, table.setup), (.phases, table.phases),
    (.winConditions, table.winConditions), (.effects, table.effects),
    (.scoring, table.scoring), (.handPatterns, table.handPatterns),
    (.teams, table.teams)]

/-- Where the table of sections begins. -/
def sectionTableStart : Nat := 24

/-- Where the phases entry of the section table lies. -/
def phasesEntry : Nat := sectionTableStart + 4

/-- Where the teams entry of the section table lies. -/
def teamsEntry : Nat := sectionTableStart + 24

/-- Gives up for a cause at a byte of the header unless the condition holds. -/
def requireAt (offset : Nat) (condition : Bool) (cause : ParseCause) :
    Except ParseError Unit :=
  if condition then pure () else throw ⟨.header, offset, cause⟩

/-- The numbers of the header, before anything is checked. -/
structure RawHeader where
  version : Nat
  flags : Nat
  tableauMode : Nat
  sequenceOrder : Nat
  rankMask : Nat
  deckCopies : Nat
  tieBreak : Nat
  participants : Nat
  maxTurns : Nat
  fingerprint : Nat
  sections : SectionTable

def rawHeader : Decoder RawHeader := do
  let version ← small
  let flags ← small
  let tableauMode ← small
  let sequenceOrder ← small
  let rankMask ← natural 2
  let deckCopies ← small
  let tieBreak ← small
  let participants ← natural 4
  let maxTurns ← natural 4
  let fingerprint ← natural 8
  let setup ← integer 4
  let phases ← integer 4
  let winConditions ← integer 4
  let effects ← integer 4
  let scoring ← integer 4
  let handPatterns ← integer 4
  let teams ← integer 4
  let sections :=
    { setup, phases, winConditions, effects, scoring, handPatterns, teams }
  return {
      version, flags, tableauMode, sequenceOrder, rankMask, deckCopies,
      tieBreak, participants, maxTurns, fingerprint, sections }

/-- The header that checked numbers denote. No copy of the deck means one. -/
def RawHeader.toHeader (raw : RawHeader) : Header where
  version := raw.version
  teamMode := raw.flags % 2 = 1
  tableauMode := Coded.ofCode raw.tableauMode.toUInt8
  sequenceOrder := Coded.ofCode raw.sequenceOrder.toUInt8
  rankMask := raw.rankMask.toUInt16
  deckCopies := if raw.deckCopies = 0 then 1 else raw.deckCopies
  tieBreak := Coded.ofCode raw.tieBreak.toUInt8
  participants := raw.participants
  maxTurns := raw.maxTurns
  fingerprint := raw.fingerprint.toUInt64

/-- Checks the numbers of the header in the order in which they stand. -/
def RawHeader.check (raw : RawHeader) : Except ParseError Unit := do
  requireAt 0 ((raw.version : Int) = formatVersion)
    (.unsupportedVersion raw.version)
  requireAt 2 (raw.tableauMode < TableauMode.known.length)
    (.unknownTableauMode raw.tableauMode)
  requireAt 3 (raw.sequenceOrder < SequenceOrder.known.length)
    (.unknownSequenceOrder raw.sequenceOrder)
  requireAt 4 (raw.rankMask < Nat.pow 2 Rank.count) .rankMaskTooWide
  requireAt 6 (raw.deckCopies ≤ maxDeckCopies) .tooManyDeckCopies
  requireAt 7 (raw.tieBreak < TieBreak.known.length)
    (.unknownTieBreak raw.tieBreak)
  requireAt 8
    (minParticipants ≤ raw.participants && raw.participants ≤ maxParticipants)
    (.participantsOutOfRange raw.participants)
  requireAt 12 (raw.maxTurns ≠ 0 && raw.maxTurns < 0x80000000)
    (.maxTurnsOutOfRange raw.maxTurns)

/-- Checks that every present section begins behind the header and inside the
program. -/
def checkSections (size : Nat) : (entry : Nat) → List (Section × Int) →
    Except ParseError Unit
  | _, [] => pure ()
  | entry, (place, offset) :: rest => do
      if offset ≠ 0 && (offset < headerSize || (size : Int) ≤ offset) then
        throw ⟨place, entry, .sectionOutside offset⟩
      checkSections size (entry + 4) rest

/-- Reads and checks the header. -/
def header (bytes : List UInt8) : Except ParseError (Header × SectionTable) := do
  if bytes.length < headerSize then
    throw ⟨.header, 0, .headerTooShort bytes.length⟩
  let raw ← rawHeader.run' ⟨.header, 0, bytes⟩
  raw.check
  checkSections bytes.length sectionTableStart raw.sections.toList
  if raw.sections.phases = 0 then
    throw ⟨.phases, phasesEntry, .noTurnStructure⟩
  return (raw.toHeader, raw.sections)

/-! ### The whole program -/

/-- Reads a section where it begins; an absent section means its default. -/
def section? {α : Type} (bytes : List UInt8) (place : Section) (offset : Int)
    (absent : α) (decoder : Decoder α) : Except ParseError α :=
  if offset = 0 then
    pure absent
  else
    decoder.run' ⟨place, offset.toNat, bytes.drop offset.toNat⟩

end Croupier.Decoder

namespace Croupier

/-- The program that compiled bytes stand for. A roster is read only in team
mode, where it must not be absent. -/
def Program.decode (bytes : List UInt8) : Except ParseError Program := do
  let (header, table) ← Decoder.header bytes
  let setup ← Decoder.section? bytes .setup table.setup {} Decoder.setup
  let phases ← Decoder.section? bytes .phases table.phases [] Decoder.phases
  let winConditions ←
    Decoder.section? bytes .winConditions table.winConditions []
      Decoder.winConditions
  let effects ←
    Decoder.section? bytes .effects table.effects .empty Decoder.effects
  let scoring ←
    Decoder.section? bytes .scoring table.scoring [] Decoder.scoring
  let patterns ←
    Decoder.section? bytes .handPatterns table.handPatterns []
      Decoder.handPatterns
  let teams ←
    if header.teamMode then
      Decoder.section? bytes .teams table.teams []
        (Decoder.teams header.participants)
    else
      pure []
  if header.teamMode && teams.isEmpty then
    throw ⟨.teams, Decoder.teamsEntry, .noRoster⟩
  return { header, setup, phases, winConditions, effects, scoring, patterns, teams }

end Croupier
