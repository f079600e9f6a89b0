import SumProduct.Text.Blank

/-!
# Lines of a stream

A stream of bytes is cut into lines at its line feeds, and each line is decoded
by itself, so that bytes which are not UTF-8 spoil only the line that holds them.
-/

namespace SumProduct.Text

/-- The byte that ends a line. -/
def lineFeed : UInt8 := 10

/-- The byte that some writers put before a line feed. -/
def carriageReturn : UInt8 := 13

/-- A line without the carriage return that may stand before its line feed. -/
def dropCarriageReturn (line : List UInt8) : List UInt8 :=
  if line.getLast? = some carriageReturn then line.dropLast else line

/-- The lines of a stream. Each ends with a line feed, but the last one need not:
what follows the last line feed is a line too unless it is empty. -/
def lines (bytes : List UInt8) : List (List UInt8) :=
  let pieces := bytes.splitOn lineFeed
  pieces.dropLast.map dropCarriageReturn ++ pieces.getLast?.toList.filter (!·.isEmpty)

/-- The text of a line, if it is UTF-8. -/
def decode? (line : List UInt8) : Option String :=
  String.fromUTF8? line.toByteArray

/-- Whether a line holds nothing but white space. -/
def isBlankLine (line : String) : Bool :=
  line.toList.all isBlank

example : lines [97, 13, 10, 13, 10, 98, 13] = [[97], [], [98, 13]] := by decide

end SumProduct.Text
