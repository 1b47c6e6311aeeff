import ModSplice.Splice.State

/-! A session: one state, acted on step by step. A step that fails leaves behind what it did before
the fault, and the session goes on. -/
namespace ModSplice

inductive Step where
  | copyTo (offset : Nat)
  | skipTo (offset : Nat)
  | write (text : String)
  /-- Ask for a temporary name. -/
  | draw (stem : String)
  /-- Number temporary names from zero again. -/
  | renumber
  /-- Walk a tree over what is left of the source. -/
  | walk (tree : Node)
  /-- Replace the declarations of the whole source apart from the session. -/
  | splice (tree : Node)
  /-- Finish this source and go on with another. -/
  | next (source : String) (keepNames : Bool)
  | setOptions (options : Options)

inductive Reply where
  | done
  | name (value : String)
  | spliced (output : String)
  | finished (output : String)
  | failed (fault : Fault)
  deriving DecidableEq, Repr

namespace Session

def move (s : State) : Except Fault Cursor → Reply × State
  | .ok cursor => (.done, { s with cursor })
  | .error fault => (.failed fault, s)

/-- One step; the splicer's rules are used throughout, its options only for a whole source. -/
def step (splicer : Splicer) (s : State) : Step → Reply × State
  | .copyTo offset => move s (s.cursor.copyTo offset)
  | .skipTo offset => move s (s.cursor.skipTo offset)
  | .write text => (.done, { s with cursor := s.cursor.write text })
  | .draw stem =>
    let (name, s) := s.draw stem
    (.name name, s)
  | .renumber => (.done, { s with names := {} })
  | .walk tree =>
    match s.walk splicer.rules tree with
    | (s, none) => (.done, s)
    | (s, some fault) => (.failed fault, s)
  | .splice tree =>
    match splicer.splice s.cursor.source tree with
    | .ok output => (.spliced output, s)
    | .error fault => (.failed fault, s)
  | .next source keepNames =>
    match s.cursor.finish with
    | .ok output =>
      let fresh := State.start source s.options
      (.finished output, if keepNames then { fresh with names := s.names } else fresh)
    | .error fault => (.failed fault, s)
  | .setOptions options => (.done, { s with options })

/-- All steps, each with its answer and the state after it, and the last state. -/
def run (splicer : Splicer) (s : State) : List Step → List (Reply × State) × State
  | [] => ([], s)
  | first :: rest =>
    let (reply, next) := step splicer s first
    let (replies, last) := run splicer next rest
    ((reply, next) :: replies, last)

end Session
end ModSplice
