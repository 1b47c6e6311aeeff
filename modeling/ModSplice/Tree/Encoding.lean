import ModSplice.Json.Record
import ModSplice.Tree.Node

/-!
Trees as JSON. Writing leaves out what is empty by default: the children of an element, the alias
of a specifier, the value of a declarator. Reading is total with a bound on the nesting of nodes,
which the depth of the JSON value supplies.
-/
namespace ModSplice

namespace Span

def toJson (s : Span) : Json :=
  .obj [("start", .nat s.start), ("end", .nat s.stop)]

def ofJson? (j : Json) : Option Span := do
  match ← j.record? ["start", "end"] with
  | [some start, some stop] => some ⟨← start.toOffset?, ← stop.toOffset?⟩
  | _ => none

end Span

namespace Source

def toJson (s : Source) : Json :=
  .obj [("span", s.span.toJson), ("raw", .str s.raw)]

def ofJson? (j : Json) : Option Source := do
  match ← j.record? ["span", "raw"] with
  | [some span, some raw] => some ⟨← Span.ofJson? span, ← raw.toString?⟩
  | _ => none

end Source

namespace Specifier

def toJson (s : Specifier) : Json :=
  match s.alias? with
  | none => .obj [("name", .str s.name)]
  | some a => .obj [("name", .str s.name), ("alias", .str a)]

def ofJson? (j : Json) : Option Specifier := do
  match ← j.record? ["name", "alias"] with
  | [some name, a] => some ⟨← name.toString?, ← Json.textOrNone? a⟩
  | _ => none

end Specifier

namespace ElementKind

def toText : ElementKind → String
  | .program => "program"
  | .statement => "statement"
  | .function => "function"
  | .classDef => "class"
  | .expression => "expression"

def ofText? : String → Option ElementKind
  | "program" => some .program
  | "statement" => some .statement
  | "function" => some .function
  | "class" => some .classDef
  | "expression" => some .expression
  | _ => none

end ElementKind

namespace ImportKind

def toText : ImportKind → String
  | .bare => "bare"
  | .default => "default"
  | .named => "named"
  | .unrecognized => "unrecognized"

/-- Every other word is an unrecognized kind, not an error. -/
def ofText : String → ImportKind
  | "bare" => .bare
  | "default" => .default
  | "named" => .named
  | _ => .unrecognized

end ImportKind

namespace VarKind

def ofText? : String → Option VarKind
  | "var" => some .var
  | "let" => some .lexical
  | "const" => some .const
  | _ => none

end VarKind

namespace DefinitionKind

def shape : DefinitionKind → String
  | .function => "function"
  | .classDef => "class"

end DefinitionKind

namespace ImportDecl

def toJson (d : ImportDecl) : Json :=
  .obj [("type", .str "ImportDeclaration"), ("span", d.span.toJson), ("kind", .str d.kind.toText),
    ("specifiers", .arr (d.specifiers.map Specifier.toJson)), ("source", d.source.toJson)]

def ofRecord? (body : Json) : Option ImportDecl := do
  match ← body.record? ["span", "kind", "specifiers", "source"] with
  | [some span, some kind, specifiers, some source] =>
    some {
      span := ← Span.ofJson? span
      kind := ImportKind.ofText (← kind.choice?)
      specifiers := ← (← Json.itemsOrEmpty? specifiers).mapM Specifier.ofJson?
      source := ← Source.ofJson? source }
  | _ => none

end ImportDecl

namespace ModuleDecl

def toJson (d : ModuleDecl) : Json :=
  .obj [("type", .str "ModuleDeclaration"), ("span", d.span.toJson), ("name", .str d.name),
    ("source", d.source.toJson)]

def ofRecord? (body : Json) : Option ModuleDecl := do
  match ← body.record? ["span", "name", "source"] with
  | [some span, some name, some source] =>
    some ⟨← Span.ofJson? span, ← name.toString?, ← Source.ofJson? source⟩
  | _ => none

end ModuleDecl

namespace Node

def exportJson (span : Span) (shape : String) (fields : List (String × Json)) : Json :=
  .obj [("type", .str "ExportDeclaration"), ("span", span.toJson),
    ("kind", .obj (("shape", .str shape) :: fields))]

/-- The children of an element, left out when there are none. -/
def childrenField : List Json → List (String × Json)
  | [] => []
  | items => [("children", .arr items)]

mutual

def toJson : Node → Json
  | .importDecl decl => decl.toJson
  | .moduleDecl decl => decl.toJson
  | .exportValue span target value =>
    exportJson span "default_assignment" [("target", .str target), ("init", toJson value)]
  | .exportNothing span target => exportJson span "default_bare" [("target", .str target)]
  | .exportVariables span kind declarators =>
    exportJson span "variable"
      [("kind", .str kind.keyword), ("declarators", .arr (declaratorsToJson declarators))]
  | .exportDefinition span kind name definition isDefault =>
    exportJson span kind.shape
      [("name", .str name), ("declaration", toJson definition), ("default", .bool isDefault)]
  | .exportAll span source => exportJson span "reexport_all" [("source", source.toJson)]
  | .exportFrom span source specifiers =>
    exportJson span "reexport_named"
      [("source", source.toJson), ("specifiers", .arr (specifiers.map Specifier.toJson))]
  | .exportNames span specifiers =>
    exportJson span "named" [("specifiers", .arr (specifiers.map Specifier.toJson))]
  | .element kind span children =>
    .obj ([("type", .str "Syntax"), ("kind", .str kind.toText), ("span", span.toJson)] ++
      childrenField (allToJson children))

def allToJson : List Node → List Json
  | [] => []
  | node :: rest => toJson node :: allToJson rest

def declaratorsToJson : List Declarator → List Json
  | [] => []
  | .unset span name :: rest =>
    .obj [("span", span.toJson), ("name", .str name)] :: declaratorsToJson rest
  | .set span name value :: rest =>
    .obj [("span", span.toJson), ("name", .str name), ("init", toJson value)] ::
      declaratorsToJson rest

end

/-- The types of nodes, in the order of their numbers. -/
def types : List String :=
  ["ImportDeclaration", "ExportDeclaration", "ModuleDeclaration", "Syntax"]

/-- The shapes of exports, in the order of their numbers. -/
def shapes : List String :=
  ["default_assignment", "default_bare", "variable", "function", "class", "reexport_all",
    "reexport_named", "named"]

def declaratorOfJson? (read : Json → Option Node) (j : Json) : Option Declarator := do
  match ← j.record? ["span", "name", "init"] with
  | [some span, some name, value] =>
    let span ← Span.ofJson? span
    let name ← name.toString?
    match value with
    | none => some (.unset span name)
    | some .null => some (.unset span name)
    | some value => some (.set span name (← read value))
  | _ => none

def definitionOfRecord? (read : Json → Option Node) (span : Span) (kind : DefinitionKind)
    (body : Json) : Option Node := do
  match ← body.record? ["name", "declaration", "default"] with
  | [some name, some definition, isDefault] =>
    some (.exportDefinition span kind (← name.toString?) (← read definition)
      (← Json.flagOrFalse? isDefault))
  | _ => none

def exportOfRecord? (read : Json → Option Node) (span : Span) (shape : String) (body : Json) :
    Option Node := do
  match shape with
  | "default_assignment" =>
    match ← body.record? ["target", "init"] with
    | [some target, some value] => some (.exportValue span (← target.toString?) (← read value))
    | _ => none
  | "default_bare" =>
    match ← body.record? ["target"] with
    | [some target] => some (.exportNothing span (← target.toString?))
    | _ => none
  | "variable" =>
    match ← body.record? ["kind", "declarators"] with
    | [some kind, some declarators] =>
      some (.exportVariables span (← VarKind.ofText? (← kind.choice?))
        (← (← declarators.toItems?).mapM (declaratorOfJson? read)))
    | _ => none
  | "function" => definitionOfRecord? read span .function body
  | "class" => definitionOfRecord? read span .classDef body
  | "reexport_all" =>
    match ← body.record? ["source"] with
    | [some source] => some (.exportAll span (← Source.ofJson? source))
    | _ => none
  | "reexport_named" =>
    match ← body.record? ["source", "specifiers"] with
    | [some source, some specifiers] =>
      some (.exportFrom span (← Source.ofJson? source)
        (← (← specifiers.toItems?).mapM Specifier.ofJson?))
    | _ => none
  | "named" =>
    match ← body.record? ["specifiers"] with
    | [some specifiers] =>
      some (.exportNames span (← (← specifiers.toItems?).mapM Specifier.ofJson?))
    | _ => none
  | _ => none

def ofRecord? (read : Json → Option Node) (type : String) (body : Json) : Option Node := do
  match type with
  | "ImportDeclaration" => some (.importDecl (← ImportDecl.ofRecord? body))
  | "ModuleDeclaration" => some (.moduleDecl (← ModuleDecl.ofRecord? body))
  | "ExportDeclaration" =>
    match ← body.record? ["span", "kind"] with
    | [some span, some kind] =>
      let span ← Span.ofJson? span
      let (shape, body) ← kind.tagged? "shape"
      exportOfRecord? read span (← shape.variant? shapes true) body
    | _ => none
  | "Syntax" =>
    match ← body.record? ["kind", "span", "children"] with
    | [some kind, some span, children] =>
      some (.element (← ElementKind.ofText? (← kind.choice?)) (← Span.ofJson? span)
        (← (← Json.itemsOrEmpty? children).mapM read))
    | _ => none
  | _ => none

/-- Reads a node with at most `bound` nodes inside each other. Only below the top may a type be
given by its number. -/
def readWithin : (bound : Nat) → (nested : Bool) → Json → Option Node
  | 0, _, _ => none
  | bound + 1, nested, j => do
    let (type, body) ← j.tagged? "type"
    ofRecord? (readWithin bound true) (← type.variant? types nested) body

def ofJson? (j : Json) : Option Node :=
  readWithin j.depth false j

end Node
end ModSplice
