/-
Compiled programs: from a program to bytes.

Numbers are written big-endian and cut to their width. The setup and the phases
are always written; any other section only if it has something to say.
-/

import Croupier.Program.Decode

namespace Croupier.Encoder

/-! ### Numbers -/

/-- The lowest bytes of a number in two's complement, the most significant one
first. -/
def bigEndian (value : Int) : (width : Nat) → List UInt8
  | 0 => []
  | width + 1 => lowByte (value / Nat.pow 256 width) :: bigEndian value width

/-- A truth value as a byte. -/
def flag (value : Bool) : UInt8 :=
  if value then 1 else 0

/-! ### Words -/

def condition (condition : Condition) : List UInt8 :=
  [Coded.code condition.kind,
    lowByte (Decoder.comparisonBase + (Coded.code condition.comparison).toNat)]
    ++ bigEndian condition.value 4 ++ [condition.reference]

/-- A condition block behind its length. A single condition of an all-block
needs no combinator. -/
def conditionBlock (block : ConditionBlock) : List UInt8 :=
  match block.quantifier, block.conditions with
  | _, [] => bigEndian 0 4
  | .all, [only] => bigEndian Decoder.conditionSize 4 ++ condition only
  | quantifier, conditions =>
      let combinator :=
        match quantifier with
        | .all => Decoder.allCode
        | .any => Decoder.anyCode
      bigEndian (1 + Decoder.conditionSize * conditions.length : Nat) 4
        ++ lowByte combinator :: conditions.flatMap condition

/-- The byte of a suit, or of none. -/
def optionalSuit : Option SuitWord → UInt8
  | some suit => Coded.code suit
  | none => Decoder.noSuitCode.toUInt8

/-! ### Phases -/

def phaseData : Phase → List UInt8
  | .draw phase =>
      Coded.code phase.source :: bigEndian phase.count 4
        ++ [flag phase.mandatory, flag phase.condition.isSome]
        ++ (phase.condition.map condition).getD []
  | .play phase =>
      [Coded.code phase.target, lowByte phase.minCards, lowByte phase.maxCards,
        flag phase.mandatory, flag phase.passIfUnable]
        ++ conditionBlock phase.conditions
  | .discard phase =>
      Coded.code phase.target :: bigEndian phase.count 4
        ++ [flag phase.mandatory]
  | .trick phase =>
      [flag phase.followSuit, optionalSuit phase.trump,
        flag phase.highCardWins, optionalSuit phase.breaking]
  | .betting phase => bigEndian phase.minBet 4 ++ bigEndian phase.maxRaises 4
  | .claim phase => [flag phase.allowChallenge]
  | .bidding phase =>
      [lowByte phase.minBid, lowByte phase.maxBid, flag phase.allowNil]

/-- A phase: the byte of its kind and its data. -/
def phase (phase : Phase) : List UInt8 :=
  phase.kind.code :: phaseData phase

/-! ### Sections -/

/-- A section of a count and entries, absent if there are none. -/
def counted {α : Type} (entry : α → List UInt8) (entries : List α) :
    List UInt8 :=
  if entries.isEmpty then
    []
  else
    bigEndian entries.length 4 ++ entries.flatMap entry

def setup (setup : Setup) : List UInt8 :=
  bigEndian setup.cardsPerParticipant 4 ++ bigEndian setup.initialDiscards 4
    ++ bigEndian setup.startingChips 4

def phases (phases : List Phase) : List UInt8 :=
  bigEndian phases.length 4 ++ phases.flatMap phase

def winCondition (condition : WinCondition) : List UInt8 :=
  Coded.code condition.kind :: bigEndian condition.threshold 4
    ++ [Coded.code condition.side, Coded.code condition.trigger]

def effectEntry (entry : RankWord × Effect) : List UInt8 :=
  [Coded.code entry.1, Coded.code entry.2.kind, Coded.code entry.2.target,
    lowByte entry.2.value]

/-- The effects section, absent if there are none. -/
def effects (table : EffectTable) : List UInt8 :=
  if table.entries.isEmpty then
    []
  else
    [lowByte Decoder.effectsMarker, lowByte table.entries.length]
      ++ table.entries.flatMap effectEntry

def scoringRule (rule : ScoringRule) : List UInt8 :=
  [Coded.code rule.kind, rule.selector] ++ bigEndian rule.points 2

def handPattern (pattern : HandPattern) : List UInt8 :=
  [Coded.code pattern.kind, lowByte pattern.size] ++ bigEndian pattern.weight 2

/-- One team: the number of its members, then the members. -/
def roster (members : List Int) : List UInt8 :=
  lowByte members.length :: members.map lowByte

/-- The teams section, absent outside team mode and without teams. -/
def teams (program : Program) : List UInt8 :=
  if program.header.teamMode && !program.teams.isEmpty then
    lowByte program.teams.length :: program.teams.flatMap roster
  else
    []

/-- Every section of a program, an absent one as no bytes. -/
def sections (program : Program) : List (List UInt8) :=
  [setup program.setup, phases program.phases,
    counted winCondition program.winConditions, effects program.effects,
    counted scoringRule program.scoring, counted handPattern program.patterns,
    teams program]

/-! ### The whole program -/

/-- Where sections begin that are laid out one behind the other from a given
offset on; zero for an absent one. -/
def offsets : (start : Nat) → (sections : List (List UInt8)) → List Nat
  | _, [] => []
  | start, bytes :: rest =>
      (if bytes.isEmpty then 0 else start)
        :: offsets (start + bytes.length) rest

/-- The part of the header before the table of sections. -/
def fixedHeader (header : Header) : List UInt8 :=
  [lowByte header.version, flag header.teamMode, Coded.code header.tableauMode,
    Coded.code header.sequenceOrder]
    ++ bigEndian header.rankMask.toNat 2
    ++ [lowByte header.deckCopies, Coded.code header.tieBreak]
    ++ bigEndian header.participants 4 ++ bigEndian header.maxTurns 4
    ++ bigEndian header.fingerprint.toNat 8

end Croupier.Encoder

namespace Croupier

/-- The compiled bytes of a program. -/
def Program.encode (program : Program) : List UInt8 :=
  let sections := Encoder.sections program
  let table := Encoder.offsets headerSize sections
  Encoder.fixedHeader program.header
    ++ table.flatMap (fun (offset : Nat) => Encoder.bigEndian offset 4)
    ++ sections.flatten

end Croupier
