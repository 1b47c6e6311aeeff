import ModSplice.Json.Token

/-!
Reading JSON text. The tokens drive a machine with a stack of the arrays and objects that are still
open, so nesting is not bounded by the reader itself; a bound, where one is wanted, is a property of
the value that was read.
-/
namespace ModSplice.Json

/-- An open array or object, with the values before the current one, newest first. -/
inductive Frame where
  | array (before : List Json)
  | object (before : List (Option String × Json)) (key : Option String)
  deriving Repr, Inhabited

inductive Reader where
  | expectValue (frames : List Frame)
  | firstItem (frames : List Frame)
  | firstKey (frames : List Frame)
  | expectKey (before : List (Option String × Json)) (frames : List Frame)
  | expectColon (before : List (Option String × Json)) (key : Option String) (frames : List Frame)
  /-- A value is complete; a comma, a closing bracket or the end may follow. -/
  | complete (value : Json) (frames : List Frame)
  deriving Repr, Inhabited

/-- An object from its fields; one malformed key spoils it. -/
def ofFields (fields : List (Option String × Json)) : Json :=
  match fields.mapM fun (key, value) => key.map fun k => (k, value) with
  | some fields => .obj fields
  | none => .malformed

namespace Reader

def begin (frames : List Frame) : Token → Option Reader
  | .openArray => some (.firstItem frames)
  | .openObject => some (.firstKey frames)
  | .text (some s) => some (.complete (.str s) frames)
  | .text none => some (.complete .malformed frames)
  | .literal value => some (.complete value frames)
  | _ => none

def continue? (value : Json) : List Frame → Token → Option Reader
  | .array before :: frames, .comma => some (.expectValue (.array (value :: before) :: frames))
  | .array before :: frames, .closeArray =>
    some (.complete (.arr (value :: before).reverse) frames)
  | .object before key :: frames, .comma => some (.expectKey ((key, value) :: before) frames)
  | .object before key :: frames, .closeObject =>
    some (.complete (ofFields ((key, value) :: before).reverse) frames)
  | _, _ => none

def step : Reader → Token → Option Reader
  | .expectValue frames, token => begin frames token
  | .firstItem frames, .closeArray => some (.complete (.arr []) frames)
  | .firstItem frames, token => begin (.array [] :: frames) token
  | .firstKey frames, .closeObject => some (.complete (.obj []) frames)
  | .firstKey frames, .text key => some (.expectColon [] key frames)
  | .expectKey before frames, .text key => some (.expectColon before key frames)
  | .expectColon before key frames, .colon => some (.expectValue (.object before key :: frames))
  | .complete value frames, token => continue? value frames token
  | _, _ => none

def finish : Reader → Option Json
  | .complete value [] => some value
  | _ => none

def run : Reader → List Token → Option Json
  | reader, [] => reader.finish
  | reader, token :: tokens => (reader.step token).bind fun next => run next tokens

end Reader

def ofTokens? (tokens : List Token) : Option Json :=
  Reader.run (.expectValue []) tokens

/-- The value that the text spells, blanks around it allowed. -/
def parse? (text : String) : Option Json :=
  (Lexer.run .between text.toList).bind ofTokens?

/-- The deepest nesting accepted in a text that is read as a whole. -/
def depthLimit : Nat := 127

/-- Like `parse?`, and refuses malformed strings, infinite numbers and deep nesting anywhere. -/
def parseSound? (text : String) : Option Json := do
  let value ← parse? text
  if value.isSound && value.depth ≤ depthLimit then some value else none

end ModSplice.Json
