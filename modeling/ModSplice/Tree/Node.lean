import ModSplice.Tree.Span

/-!
The tree of module declarations over a source text. Every node knows the bytes it covers. Imports,
exports and `module … from …` declarations are told apart in detail; everything else is a plain
element, kept so that declarations inside it can be reached.
-/
namespace ModSplice

inductive ElementKind where
  | program
  | statement
  | function
  | classDef
  | expression
  deriving DecidableEq, Repr, Inhabited

/-- A quoted module path: where it stands and how it is spelt, quotes included. -/
structure Source where
  span : Span
  raw : String
  deriving DecidableEq, Repr, Inhabited

/-- One name of an import or export list, and the name it goes by on this side. -/
structure Specifier where
  name : String
  alias? : Option String := none
  deriving DecidableEq, Repr, Inhabited

namespace Specifier

/-- The alias if there is one, else the name itself. -/
def localName (s : Specifier) : String :=
  s.alias?.getD s.name

end Specifier

inductive ImportKind where
  | bare
  | default
  | named
  /-- Anything else, such as a default import together with a list. -/
  | unrecognized
  deriving DecidableEq, Repr, Inhabited

structure ImportDecl where
  span : Span
  kind : ImportKind
  specifiers : List Specifier
  source : Source
  deriving DecidableEq, Repr, Inhabited

/-- `module name from "m"`, also written `import * as name from "m"`. -/
structure ModuleDecl where
  span : Span
  name : String
  source : Source
  deriving DecidableEq, Repr, Inhabited

inductive VarKind where
  | var
  | lexical
  | const
  deriving DecidableEq, Repr, Inhabited

inductive DefinitionKind where
  | function
  | classDef
  deriving DecidableEq, Repr, Inhabited

mutual

inductive Node where
  | importDecl (decl : ImportDecl)
  | moduleDecl (decl : ModuleDecl)
  /-- `export default value`. -/
  | exportValue (span : Span) (target : String) (value : Node)
  /-- `export default;`. -/
  | exportNothing (span : Span) (target : String)
  /-- `export var a = 1, b`. -/
  | exportVariables (span : Span) (kind : VarKind) (declarators : List Declarator)
  /-- `export function f() …`, `export class C …`, either of them perhaps as the default. -/
  | exportDefinition (span : Span) (kind : DefinitionKind) (name : String) (definition : Node)
      (isDefault : Bool)
  /-- `export * from "m"`. -/
  | exportAll (span : Span) (source : Source)
  /-- An export list taken from another module. -/
  | exportFrom (span : Span) (source : Source) (specifiers : List Specifier)
  /-- An export list of names of this module. -/
  | exportNames (span : Span) (specifiers : List Specifier)
  | element (kind : ElementKind) (span : Span) (children : List Node)

inductive Declarator where
  | unset (span : Span) (name : String)
  | set (span : Span) (name : String) (value : Node)

end

instance : Inhabited Node := ⟨.element .program ⟨0, 0⟩ []⟩

namespace ElementKind

def typeName : ElementKind → String
  | .program => "Program"
  | .statement => "Statement"
  | .function => "Function"
  | .classDef => "Class"
  | .expression => "Expression"

end ElementKind

namespace VarKind

def keyword : VarKind → String
  | .var => "var"
  | .lexical => "let"
  | .const => "const"

end VarKind

namespace Declarator

def span : Declarator → Span
  | .unset span _ => span
  | .set span _ _ => span

def name : Declarator → String
  | .unset _ name => name
  | .set _ name _ => name

def value? : Declarator → Option Node
  | .unset _ _ => none
  | .set _ _ value => some value

end Declarator

namespace Node

def span : Node → Span
  | .importDecl decl => decl.span
  | .moduleDecl decl => decl.span
  | .exportValue span .. => span
  | .exportNothing span .. => span
  | .exportVariables span .. => span
  | .exportDefinition span .. => span
  | .exportAll span .. => span
  | .exportFrom span .. => span
  | .exportNames span .. => span
  | .element _ span _ => span

/-- The name under which a rule knows the node. -/
def typeName : Node → String
  | .importDecl _ => "ImportDeclaration"
  | .moduleDecl _ => "ModuleDeclaration"
  | .element kind _ _ => kind.typeName
  | _ => "ExportDeclaration"

def isImport : Node → Bool
  | .importDecl _ => true
  | _ => false

def isModule : Node → Bool
  | .moduleDecl _ => true
  | _ => false

def isElement : Node → Bool
  | .element .. => true
  | _ => false

def isExport (node : Node) : Bool :=
  !node.isImport && !node.isModule && !node.isElement

/-- A function or class, which takes no semicolon of its own as a statement. -/
def isDefinition : Node → Bool
  | .element .function _ _ => true
  | .element .classDef _ _ => true
  | _ => false

/-- The nodes directly inside, in the order of a walk. -/
def children : Node → List Node
  | .exportValue _ _ value => [value]
  | .exportVariables _ _ declarators => declarators.filterMap Declarator.value?
  | .exportDefinition _ _ _ definition _ => [definition]
  | .element _ _ children => children
  | _ => []

mutual

/-- The node and all nodes below it with their depths, each before what is inside it. -/
def outline (depth : Nat) : Node → List (Nat × Node)
  | .exportValue span target value =>
    (depth, .exportValue span target value) :: outline (depth + 1) value
  | .exportVariables span kind declarators =>
    (depth, .exportVariables span kind declarators) :: outlineValues (depth + 1) declarators
  | .exportDefinition span kind name definition isDefault =>
    (depth, .exportDefinition span kind name definition isDefault) ::
      outline (depth + 1) definition
  | .element kind span children =>
    (depth, .element kind span children) :: outlineAll (depth + 1) children
  | node => [(depth, node)]

def outlineAll (depth : Nat) : List Node → List (Nat × Node)
  | [] => []
  | node :: rest => outline depth node ++ outlineAll depth rest

def outlineValues (depth : Nat) : List Declarator → List (Nat × Node)
  | [] => []
  | .unset _ _ :: rest => outlineValues depth rest
  | .set _ _ value :: rest => outline depth value ++ outlineValues depth rest

end

end Node
end ModSplice
