import LuaSymbols.Text.Utf8

/-!
# Places in a source

Syntax trees speak of rows and byte columns (`Point`, `Span`), answers of lines
and character columns (`Position`, `Range`). `Source.range` goes from the first
to the second; both count from zero.
-/

namespace LuaSymbols

structure Point where
  row : Nat
  column : Nat
  deriving DecidableEq, Inhabited, Repr

structure Span where
  start : Point
  stop : Point
  deriving DecidableEq, Inhabited, Repr

structure Position where
  line : Nat
  character : Nat
  deriving DecidableEq, Inhabited, Repr

/-- `stop` is the column behind the last character. -/
structure Range where
  start : Position
  stop : Position
  deriving DecidableEq, Inhabited, Repr

/-- Whether a position lies inside, both ends included. Lines and columns are
compared separately, so a range over several lines holds a rectangle. -/
def Range.contains (r : Range) (line character : Int) : Bool :=
  r.start.line ≤ line && line ≤ r.stop.line &&
    (r.start.character ≤ character && character ≤ r.stop.character)

/-- The bytes of a source, cut at line feeds. -/
structure Source where
  lines : List (List UInt8)
  deriving DecidableEq, Repr

namespace Source

def ofBytes (bytes : List UInt8) : Source := ⟨bytes.splitOn 0x0A⟩

def ofText (text : String) : Source := ofBytes (Utf8.encode text.toList)

/-- The character column of a byte column: how many characters the bytes before
it decode to. Rows behind the last line keep their byte columns. -/
def character (s : Source) (row column : Nat) : Nat :=
  match s.lines[row]? with
  | none => column
  | some line =>
    if line.all (· < 0x80) then column else Utf8.count column line

def position (s : Source) (p : Point) : Position := ⟨p.row, s.character p.row p.column⟩

def range (s : Source) (span : Span) : Range := ⟨s.position span.start, s.position span.stop⟩

end Source

end LuaSymbols
