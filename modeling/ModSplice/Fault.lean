import ModSplice.Tree.Span

/-! What can go wrong, as causes, and the wording of each. -/
namespace ModSplice

/-- Constructs that have no counterpart in the generated code. -/
inductive Unsupported where
  | importKind (span : Span)
  | typeOnlyImport
  | typeOnlyImportName
  | literalImportName
  | noDeclarators
  | ambientVariable
  | destructuring
  | ambientDefinition
  | interface
  | typeAlias
  | enumeration
  | namespaceBlock
  | resource
  | otherDeclaration
  | defaultInterface
  | typeOnlyExport
  | typeOnlyExportName
  | literalExportName
  | wholeModuleName
  | defaultName
  | typeScriptModule (span : Span)
  deriving DecidableEq, Repr

namespace Unsupported

/-- The kind of declaration in which the construct was met. -/
def declaration : Unsupported → String
  | .importKind _ | .typeOnlyImport | .typeOnlyImportName | .literalImportName =>
    "ImportDeclaration"
  | _ => "ExportDeclaration"

def detail : Unsupported → String
  | .importKind span => "don't know how to rewrite import at " ++ span.text
  | .typeOnlyImport => "type-only import"
  | .typeOnlyImportName => "type-only import specifier"
  | .literalImportName => "string literal module export name"
  | .noDeclarators => "variable export without declarators"
  | .ambientVariable => "ambient `declare` variable"
  | .destructuring => "destructuring export"
  | .ambientDefinition => "cannot export an ambient `declare` declaration"
  | .interface => "cannot export an interface"
  | .typeAlias => "cannot export a type alias"
  | .enumeration => "cannot export an enum"
  | .namespaceBlock => "cannot export a namespace"
  | .resource => "cannot export a using declaration"
  | .otherDeclaration => "cannot export this declaration"
  | .defaultInterface => "cannot export an interface as default"
  | .typeOnlyExport => "type-only export"
  | .typeOnlyExportName => "type-only export specifier"
  | .literalExportName => "string literal module export name"
  | .wholeModuleName => "`export * as name` re-export"
  | .defaultName => "`export name from` re-export"
  | .typeScriptModule span => "TypeScript module syntax at " ++ span.text

def message (u : Unsupported) : String :=
  "unsupported " ++ u.declaration ++ ": " ++ u.detail

end Unsupported

inductive Fault where
  | unsupported (construct : Unsupported)
  /-- A default import that binds no name. -/
  | missingSpecifier (span : Span)
  /-- A move towards text that is already behind. -/
  | regression (position requested : Nat)
  /-- An offset behind the end of the text or inside a character. -/
  | outOfBounds (offset size : Nat)
  deriving DecidableEq, Repr

namespace Fault

def message : Fault → String
  | .unsupported construct => construct.message
  | .missingSpecifier span => "default import at " ++ span.text ++ " has no specifier"
  | .regression position requested =>
    "cursor cannot move back from byte " ++ Nat.repr position ++ " to byte " ++
      Nat.repr requested
  | .outOfBounds offset size =>
    "offset " ++ Nat.repr offset ++ " is not a valid position in a source of " ++
      Nat.repr size ++ " bytes"

end Fault
end ModSplice
