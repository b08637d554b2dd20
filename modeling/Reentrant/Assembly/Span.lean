/-! Places in a source as people count them. Lines and columns start at zero here. -/

namespace Reentrant.Assembly

/-- A stretch of a source: byte offsets, and the lines and columns of its two ends. Only a line feed
starts a line, and columns count characters. -/
structure Span where
  start : Nat := 0
  stop : Nat := 0
  startLine : Nat := 0
  startCol : Nat := 0
  stopLine : Nat := 0
  stopCol : Nat := 0
  deriving DecidableEq, Inhabited

/-- The line and column that a byte offset is at. -/
def lineCol (source : List Char) (offset : Nat) : Nat × Nat := go source 0 0 0
where
  go : List Char → (seen line col : Nat) → Nat × Nat
    | [], _, line, col => (line, col)
    | c :: cs, seen, line, col =>
        if offset ≤ seen then (line, col)
        else if c = '\n' then go cs (seen + c.utf8Size) (line + 1) 0
        else go cs (seen + c.utf8Size) line (col + 1)

def Span.between (source : List Char) (start stop : Nat) : Span :=
  let (startLine, startCol) := lineCol source start
  let (stopLine, stopCol) := lineCol source stop
  { start, stop, startLine, startCol, stopLine, stopCol }

end Reentrant.Assembly
