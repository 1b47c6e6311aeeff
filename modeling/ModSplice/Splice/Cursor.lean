import ModSplice.Fault
import ModSplice.Text.Utf8

/-!
A cursor over the source text. What lies before its position has been dealt with, copied or
skipped; what lies behind is untouched. It never moves back.
-/
namespace ModSplice

structure Cursor where
  source : String
  position : Nat := 0
  output : String := ""
  deriving DecidableEq, Repr, Inhabited

namespace Cursor

def size (c : Cursor) : Nat :=
  c.source.utf8ByteSize

/-- What forbids a move to `offset`: an offset that is no boundary comes before one that lies
behind. -/
def obstacle? (c : Cursor) (offset : Nat) : Option Fault :=
  if !Text.isBoundary c.source offset then some (.outOfBounds offset c.size)
  else if offset < c.position then some (.regression c.position offset)
  else none

/-- Moves to `offset`, leaving out the text in between. -/
def skipTo (c : Cursor) (offset : Nat) : Except Fault Cursor :=
  match c.obstacle? offset with
  | some fault => .error fault
  | none => .ok { c with position := offset }

/-- Moves to `offset`, copying the text in between. -/
def copyTo (c : Cursor) (offset : Nat) : Except Fault Cursor :=
  match c.obstacle? offset with
  | some fault => .error fault
  | none => .ok { c with
      position := offset
      output := c.output ++ Text.between c.source c.position offset }

def write (c : Cursor) (text : String) : Cursor :=
  { c with output := c.output ++ text }

/-- The output with the rest of the source behind it. -/
def finish (c : Cursor) : Except Fault String :=
  (c.copyTo c.size).map Cursor.output

end Cursor
end ModSplice
