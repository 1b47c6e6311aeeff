import ModSplice.Splice.Cursor
import ModSplice.Splice.Edit

/-!
Carrying out edits. An edit that fails leaves the state as it was, and the edits behind it are
passed over; they only keep the path in step, so that it ends where it began.
-/
namespace ModSplice

/-- A note of a node: its ancestors, outermost first, and how far the cursor had come. -/
structure Visit where
  node : Node
  ancestors : List Node
  position : Nat

structure State where
  cursor : Cursor
  names : Names := {}
  options : Options := {}
  /-- The nodes that the walk is inside of, innermost first. -/
  path : List Node := []
  /-- The notes made, newest first. -/
  visits : List Visit := []

namespace State

def start (source : String) (options : Options) : State :=
  { cursor := { source }, options }

def insert (s : State) (snippet : Snippet) : State :=
  { s with
    cursor := s.cursor.write (snippet.text s.options s.names.next)
    names := s.names.advance snippet.stems.length }

def draw (s : State) (stem : String) : String × State :=
  let (name, names) := s.names.draw stem
  (name, { s with names })

def enter (s : State) (node : Node) : State :=
  { s with path := node :: s.path }

def leave (s : State) : State :=
  { s with path := s.path.tail }

def note (s : State) (node : Node) : State :=
  { s with visits := ⟨node, s.path.reverse, s.cursor.position⟩ :: s.visits }

def apply (s : State) : Edit → Except Fault State
  | .copyTo offset => (s.cursor.copyTo offset).map fun cursor => { s with cursor }
  | .skipTo offset => (s.cursor.skipTo offset).map fun cursor => { s with cursor }
  | .insert snippet => .ok (s.insert snippet)
  | .refuse fault => .error fault
  | .enter node => .ok (s.enter node)
  | .leave => .ok s.leave
  | .note node => .ok (s.note node)

/-- Keeps the path in step with an edit that is passed over. -/
def pass (s : State) : Edit → State
  | .enter node => s.enter node
  | .leave => s.leave
  | _ => s

/-- Carries out edits up to the first fault. -/
def run (s : State) : List Edit → State × Option Fault
  | [] => (s, none)
  | edit :: rest =>
    match s.apply edit with
    | .ok next => run next rest
    | .error fault => (rest.foldl pass s, some fault)

def walk (s : State) (rules : List Rule) (tree : Node) : State × Option Fault :=
  s.run (tree.edits rules)

end State

structure Splicer where
  rules : List Rule := Rule.standard
  options : Options := {}
  deriving DecidableEq, Repr

namespace Splicer

/-- The source with the declarations of its tree replaced. -/
def splice (splicer : Splicer) (source : String) (tree : Node) : Except Fault String :=
  match (State.start source splicer.options).walk splicer.rules tree with
  | (_, some fault) => .error fault
  | (s, none) => s.cursor.finish

end Splicer
end ModSplice
