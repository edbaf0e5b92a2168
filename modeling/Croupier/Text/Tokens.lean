/-
Tokens: the pieces of a text between delimiters, and joining pieces again.
-/

import Croupier.Text.Ascii

namespace Croupier.Text

/-- The pieces of a text between delimiters, blank or not. There is always at
least one. -/
def pieces (delimiter : UInt8) : List UInt8 → List (List UInt8)
  | [] => [[]]
  | byte :: rest =>
      if byte = delimiter then
        [] :: pieces delimiter rest
      else
        match pieces delimiter rest with
        | [] => [[byte]]
        | piece :: others => (byte :: piece) :: others

/-- The pieces of a text that are not blank, trimmed. -/
def tokens (delimiter : UInt8) (text : List UInt8) : List (List UInt8) :=
  ((pieces delimiter text).map trim).filter (fun piece => !piece.isEmpty)

/-- The pieces one behind the other, with a connector between neighbours. -/
def join (connector : List UInt8) : List (List UInt8) → List UInt8
  | [] => []
  | [piece] => piece
  | piece :: rest => piece ++ connector ++ join connector rest

def stringTokens (delimiter : UInt8) (text : String) : List String :=
  (tokens delimiter (bytes text)).map string

/-- The strings one behind the other, with a connector between neighbours. -/
def joined (connector : String) (texts : List String) : String :=
  string (join (bytes connector) (texts.map bytes))

end Croupier.Text
