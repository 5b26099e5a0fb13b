import TokenRules.Decimal.Literal
import TokenRules.Source.LineBreak

/-! Where an offset lies in a text: its row, its column and the line around it, and a picture of
that place. An offset before the text lies in the row above the first, counted from the end of the
text; one after the text continues the last row. -/
namespace TokenRules.Source

structure Location where
  row : Int
  column : Int
  line : Text
  deriving DecidableEq, Repr

/-- A line with a caret under one column. Tabs stay tabs, so that the caret lines up; a column
before the line counts from its end. -/
def illustration (line : Text) (column : Int) : Text :=
  let count := if column < 0 then (column + line.length).toNat else column.toNat
  let blank (c : CodePoint) : CodePoint := if c == Sign.tab then c else Sign.space
  line ++ [Sign.lineFeed] ++ (line.take count).map blank ++ [Sign.caret]

/-- A text, or a section of one, whose first row has the number `firstRow`. -/
structure SourceText where
  content : Text
  lineBreaks : LineBreaks
  firstRow : Int

namespace SourceText

def breaks (s : SourceText) : List Break :=
  Source.breaks s.lineBreaks 0 s.content

/-- Where the lines start. -/
def lineStarts (s : SourceText) : List Nat :=
  0 :: s.breaks.map (·.stop)

/-- Where the lines end, their breaks not counted. -/
def lineStops (s : SourceText) : List Nat :=
  s.breaks.map (·.start) ++ [s.content.length]

/-- The index of the last line that starts at or before an offset; -1 if the offset is negative. -/
def lineIndex (s : SourceText) (offset : Int) : Int :=
  ((s.lineStarts.countP fun (start : Nat) => (start : Int) ≤ offset : Nat) : Int) - 1

/-- The offset from which the columns of a line are counted. -/
def columnOrigin (s : SourceText) (index : Int) : Nat :=
  if index < 0 then s.content.length else s.lineStarts.getD index.toNat 0

def rowColumn (s : SourceText) (offset : Int) : Int × Int :=
  let index := s.lineIndex offset
  (index + s.firstRow, offset - s.columnOrigin index)

/-- The text of a row without its break. Rows above the first show the first; there are none below
the last. -/
def line? (s : SourceText) (row : Int) : Option Text := do
  let index := (row - s.firstRow).toNat
  let start ← s.lineStarts[index]?
  let stop ← s.lineStops[index]?
  some (s.content.slice start stop)

/-- A row this far below the first cannot be looked up at all. -/
def rowBound : Nat := 0x8000000000000000

/-- The text of the fault of a row below the last. -/
def missingLine (s : SourceText) (row : Int) : Text :=
  if (rowBound : Int) ≤ row - s.firstRow then
    Text.ofString "cannot fit 'int' into an index-sized integer"
  else Text.ofString "list index out of range"

def locate (s : SourceText) (offset : Int) : Location :=
  let (row, column) := s.rowColumn offset
  { row, column, line := (s.line? row).getD [] }

/-- A description with the row, unless the whole text is one line, and a picture of the place. The row is
written out here with all its digits, however many it has. -/
def diagnostic (s : SourceText) (offset : Int) (description : Text) : Text × Location :=
  let place := s.locate offset
  let mark :=
    if place.line.length == s.content.length then []
    else Text.ofString " (line: " ++ Text.signedDecimal place.row ++ Text.ofString ")"
  (description ++ mark ++ [Sign.lineFeed] ++ illustration place.line place.column, place)

/-- What is said of the row of a place: nothing, if the whole text is one line. A row with too many digits
cannot be written. -/
def rowMark? (s : SourceText) (place : Location) : Option Text :=
  if place.line.length == s.content.length then some []
  else (Decimal.writeInteger? place.row).map fun row =>
    Text.ofString " (line: " ++ row ++ Text.ofString ")"

/-- The diagnostic of an offset, if its row can be written. -/
def diagnostic? (s : SourceText) (offset : Int) (description : Text) : Option (Text × Location) :=
  let place := s.locate offset
  (s.rowMark? place).map fun mark =>
    (description ++ mark ++ [Sign.lineFeed] ++ illustration place.line place.column, place)

end SourceText

/-- The location of an offset in a text whose rows are counted from one. -/
def locate (content : Text) (offset : Int) (mode : LineBreaks) : Location :=
  (SourceText.mk content mode 1).locate offset

end TokenRules.Source
