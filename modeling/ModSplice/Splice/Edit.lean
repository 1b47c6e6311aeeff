import ModSplice.Fault
import ModSplice.Splice.Snippet

/-!
A walk over a tree, as the list of edits it asks for. Rules decide at each node: a declaration is
replaced by its own edits, a node may be noted, and otherwise the walk goes on inside. Nothing here
depends on the source text or on the options; both come in when the edits are carried out.
-/
namespace ModSplice

inductive Edit where
  /-- Copy the source up to an offset. -/
  | copyTo (offset : Nat)
  /-- Leave out the source up to an offset. -/
  | skipTo (offset : Nat)
  | insert (snippet : Snippet)
  | refuse (fault : Fault)
  /-- What follows is inside the node, up to the matching `leave`. -/
  | enter (node : Node)
  | leave
  /-- Make a note of the node. -/
  | note (node : Node)

/-- How a walk comes to what is inside a node that a recorder has noted. -/
inductive Descent where
  /-- The recorder leaves it to the walk. -/
  | onward
  /-- The recorder walks it itself and tells the walk that it is done. -/
  | led
  /-- Not at all: the recorder tells the walk that it is done. -/
  | withheld
  deriving DecidableEq, Repr

inductive Rule where
  | imports
  | modules
  | exports
  /-- Notes the nodes of the given types. -/
  | recorder (types : List String) (descent : Descent)
  deriving DecidableEq, Repr

inductive Verdict where
  /-- The edits of the declaration itself. -/
  | replace
  /-- Into the node. -/
  | descend
  | note (descent : Descent)
  deriving DecidableEq, Repr

namespace Rule

def accepts (node : Node) : Rule → Bool
  | .imports => node.isImport
  | .modules => node.isModule
  | .exports => node.isExport
  | .recorder types _ => types.contains node.typeName

def standard : List Rule := [.imports, .modules, .exports]

def verdict : Rule → Verdict
  | .recorder _ descent => .note descent
  | _ => .replace

end Rule

/-- The first rule that accepts the node decides. -/
def verdict (rules : List Rule) (node : Node) : Verdict :=
  match rules.find? (Rule.accepts node) with
  | some rule => rule.verdict
  | none => .descend

def within (node : Node) (edits : List Edit) : List Edit :=
  .enter node :: (edits ++ [.leave])

namespace Descent

/-- The edits of the recorder, from those inside the node. -/
def visit (node : Node) (inside : List Edit) : Descent → List Edit
  | .onward => [.note node]
  | .led => .note node :: within node inside
  | .withheld => [.note node]

/-- The edits of the walk once the recorder is done. -/
def resume (node : Node) (inside : List Edit) : Descent → List Edit
  | .onward => within node inside
  | .led => []
  | .withheld => []

end Descent

namespace Verdict

/-- The edits at a node, from those inside it and those that replace it. -/
def settle (node : Node) (inside replacement : List Edit) : Verdict → List Edit
  | .replace => replacement
  | .descend => within node inside
  | .note descent => descent.visit node inside ++ descent.resume node inside

/-- Whether the walk goes inside or the recorder does, the edits are the same. -/
theorem settle_note {descent : Descent} (h : descent ≠ .withheld) (node : Node)
    (inside replacement : List Edit) :
    (note descent).settle node inside replacement = .note node :: within node inside := by
  cases descent with
  | onward => rfl
  | led => exact List.append_nil _
  | withheld => exact absurd rfl h

end Verdict

namespace ImportDecl

def substitute (d : ImportDecl) : Edit :=
  match d.kind, d.specifiers with
  | .bare, _ => .insert (.load d.source.raw)
  | .default, [] => .refuse (.missingSpecifier d.span)
  | .default, s :: _ => .insert (.bind s.localName d.source.raw)
  | .named, specifiers => .insert (.bindMembers d.source.raw specifiers)
  | .unrecognized, _ => .refuse (.unsupported (.importKind d.span))

end ImportDecl

def replaceWhole (span : Span) (substitute : Edit) : List Edit :=
  [.copyTo span.start, substitute, .skipTo span.stop]

/-- Copies a part of the declaration `node`, with the given edits inside. -/
def keepPart (node part : Node) (inside : List Edit) : List Edit :=
  .skipTo part.span.start :: (within node inside ++ [.copyTo part.span.stop])

/-- A default export keeps its value behind an assignment. -/
def valueEdits (node : Node) (span : Span) (target : String) (value : Node)
    (inside : List Edit) : List Edit :=
  [.copyTo span.start, .insert (.assign target)] ++ keepPart node value inside ++
    (if value.isDefinition && value.span.stop == span.stop then [.insert .semicolon] else [])

/-- An exported definition stays, and its public name is assigned on the next line. -/
def definitionEdits (node : Node) (span : Span) (name : String) (definition : Node)
    (isDefault : Bool) (inside : List Edit) : List Edit :=
  .copyTo span.start :: (keepPart node definition inside ++
    [.insert (.publish name isDefault), .skipTo span.stop])

/-- From the keyword to the first declarator; text between declarators stays. -/
def declaratorLead (kind? : Option VarKind) (start : Nat) : List Edit :=
  match kind? with
  | some kind => [.skipTo start, .insert (.keyword kind)]
  | none => [.copyTo start]

namespace Node

mutual

def edits (rules : List Rule) : Node → List Edit
  | .importDecl decl =>
    (verdict rules (.importDecl decl)).settle (.importDecl decl) []
      (replaceWhole decl.span decl.substitute)
  | .moduleDecl decl =>
    (verdict rules (.moduleDecl decl)).settle (.moduleDecl decl) []
      (replaceWhole decl.span (.insert (.bind decl.name decl.source.raw)))
  | .exportValue span target value =>
    let node := Node.exportValue span target value
    let inside := edits rules value
    (verdict rules node).settle node inside (valueEdits node span target value inside)
  | .exportNothing span target =>
    (verdict rules (.exportNothing span target)).settle (.exportNothing span target) []
      (replaceWhole span (.insert (.assignUndefined target)))
  | .exportVariables span kind declarators =>
    let node := Node.exportVariables span kind declarators
    match verdict rules node with
    | .replace =>
      .copyTo span.start ::
        (if declarators.isEmpty then [.refuse (.unsupported .noDeclarators)]
         else declaratorEdits rules node (some kind) declarators)
    | other => other.settle node (valuesEdits rules declarators) []
  | .exportDefinition span kind name definition isDefault =>
    let node := Node.exportDefinition span kind name definition isDefault
    let inside := edits rules definition
    (verdict rules node).settle node inside
      (definitionEdits node span name definition isDefault inside)
  | .exportAll span source =>
    (verdict rules (.exportAll span source)).settle (.exportAll span source) []
      (replaceWhole span (.insert (.forwardAll source.raw)))
  | .exportFrom span source specifiers =>
    (verdict rules (.exportFrom span source specifiers)).settle
      (.exportFrom span source specifiers) []
      (replaceWhole span (.insert (.forwardMembers source.raw specifiers)))
  | .exportNames span specifiers =>
    (verdict rules (.exportNames span specifiers)).settle (.exportNames span specifiers) []
      (replaceWhole span (.insert (.publishNames specifiers)))
  | .element kind span children =>
    (verdict rules (.element kind span children)).settle (.element kind span children)
      (allEdits rules children) []

def allEdits (rules : List Rule) : List Node → List Edit
  | [] => []
  | node :: rest => edits rules node ++ allEdits rules rest

def valuesEdits (rules : List Rule) : List Declarator → List Edit
  | [] => []
  | .unset _ _ :: rest => valuesEdits rules rest
  | .set _ _ value :: rest => edits rules value ++ valuesEdits rules rest

/-- The edits that turn declarators into assignments of public names; `kind?` is the keyword in
front of the first one. -/
def declaratorEdits (rules : List Rule) (node : Node) (kind? : Option VarKind) :
    List Declarator → List Edit
  | [] => []
  | .unset span name :: rest =>
    declaratorLead kind? span.start ++
      [.insert (.initialise name), .insert .undefined, .skipTo span.stop] ++
      declaratorEdits rules node none rest
  | .set span name value :: rest =>
    declaratorLead kind? span.start ++ [.insert (.initialise name)] ++
      keepPart node value (edits rules value) ++ declaratorEdits rules node none rest

end

end Node
end ModSplice
