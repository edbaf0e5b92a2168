/-
Text as bytes: blanks, letter case, and trimming.

Only ASCII bytes are blanks or letters; every byte of a wider character stands
for itself. Hence these operations keep valid UTF-8 valid.
-/

namespace Croupier.Text

/-- Space, tab, line feed, vertical tab, form feed and carriage return. -/
def isBlank (byte : UInt8) : Bool :=
  byte = 32 || (9 ≤ byte && byte ≤ 13)

/-- The small letter for a capital one; any other byte as it is. -/
def lowerByte (byte : UInt8) : UInt8 :=
  if 65 ≤ byte && byte ≤ 90 then byte + 32 else byte

/-- Text without the blanks at its ends. -/
def trim (text : List UInt8) : List UInt8 :=
  ((text.dropWhile isBlank).reverse.dropWhile isBlank).reverse

/-- Text with small letters for capital ones. -/
def lower (text : List UInt8) : List UInt8 :=
  text.map lowerByte

def bytes (text : String) : List UInt8 :=
  text.toUTF8.toList

/-- The string of bytes, empty if they are not valid UTF-8. -/
def string (bytes : List UInt8) : String :=
  (String.fromUTF8? bytes.toByteArray).getD ""

/-- A string up to its first NUL, where others may take it to end. -/
def upToNul (text : String) : String :=
  String.ofList (text.toList.takeWhile (fun letter => letter ≠ '\x00'))

/-- A string without the blanks at its ends. -/
def trimmed (text : String) : String :=
  string (trim (bytes text))

/-- A string with small letters for capital ones. -/
def lowered (text : String) : String :=
  string (lower (bytes text))

end Croupier.Text
