import ModSplice.Tree.Node

/-!
What a parser reports about a script. The declarations of a module are told in detail. Below them
only functions and classes matter, so every other piece of the script is a part with named fields,
whatever it is.
-/
namespace ModSplice.Parsed

/-- Positions as the parser counts them: 32-bit words from a base that need not be zero. -/
structure Range where
  lo : UInt32
  hi : UInt32
  deriving DecidableEq, Repr, Inhabited

/-- A statement, an expression, a class member or any smaller piece. -/
inductive Part where
  /-- A function, method or constructor, or an arrow with a block: the statements of its body. -/
  | function (range : Range) (body : List Part)
  /-- An arrow whose body is an expression. -/
  | arrow (range : Range) (value : Part)
  /-- A class: its members. -/
  | classDef (range : Range) (members : List Part)
  /-- Anything else: its fields, in the order in which they are visited. -/
  | other (type : String) (range : Range) (fields : List (String × List Part))
  deriving Repr, Inhabited

namespace Part

def range : Part → Range
  | .function range _ => range
  | .arrow range _ => range
  | .classDef range _ => range
  | .other _ range _ => range

end Part

inductive ListedName where
  | identifier (name : String)
  | literal
  deriving DecidableEq, Repr

inductive ImportName where
  | named (binding : String) (imported : Option ListedName) (typeOnly : Bool)
  | default (binding : String)
  /-- `* as binding`. -/
  | everything (binding : String)
  deriving DecidableEq, Repr

inductive ExportName where
  | named (name : ListedName) (exported : Option ListedName) (typeOnly : Bool)
  /-- `* as name`. -/
  | everything
  /-- A name without braces. -/
  | default
  deriving DecidableEq, Repr

/-- One variable of a declaration; a pattern that takes a value apart has no name. -/
structure Variable where
  range : Range
  name? : Option String
  value? : Option Part
  deriving Repr

/-- A declaration behind `export`. -/
inductive Declaration where
  | bindings (kind : VarKind) (ambient : Bool) (list : List Variable)
  | function (name : String) (ambient : Bool) (range : Range) (body : List Part)
  /-- `decorators` are the positions where decorators begin. -/
  | classDef (name : String) (ambient : Bool) (range : Range) (members : List Part)
      (decorators : List UInt32)
  | interface
  | typeAlias
  | enumeration
  | namespaceBlock
  | resource
  | other
  deriving Repr

/-- A definition behind `export default`. -/
inductive DefaultDeclaration where
  | function (name? : Option String) (range : Range) (body : List Part)
  | classDef (name? : Option String) (range : Range) (members : List Part)
      (decorators : List UInt32)
  | interface
  deriving Repr

inductive Item where
  | statement (part : Part)
  | importing (range : Range) (typeOnly : Bool) (names : List ImportName) (source : Range)
  | exportDeclaration (range : Range) (declaration : Declaration)
  | exportNames (range : Range) (typeOnly : Bool) (names : List ExportName)
      (source? : Option Range)
  | exportDefault (range : Range) (declaration : DefaultDeclaration)
  | exportValue (range : Range) (value : Part)
  | exportAll (range : Range) (typeOnly : Bool) (source : Range)
  /-- Module syntax that only TypeScript has. -/
  | typeScript (range : Range)
  deriving Repr

inductive Report where
  /-- The parser gave up. -/
  | fatal
  /-- The parser went on after this many errors. -/
  | recovered (errors : Nat)
  | script (base : UInt32) (items : List Item)
  deriving Repr

end ModSplice.Parsed
