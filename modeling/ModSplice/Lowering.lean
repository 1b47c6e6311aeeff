import ModSplice.Fault
import ModSplice.Parsed.Item
import ModSplice.Text.Utf8

/-!
From a parser's report to the tree of a module. Statements and expressions become plain elements
whose children are the outermost functions and classes inside them, so that declarations found
apart from the parser can be hung in at the right depth.
-/
namespace ModSplice.Parsed

namespace Range

/-- The range in bytes from the beginning of the text. -/
def toSpan (base : UInt32) (r : Range) : Span :=
  ⟨r.lo.toNat - base.toNat, r.hi.toNat - base.toNat⟩

end Range

namespace Part

mutual

/-- The outermost functions and classes of a part, as elements. -/
def scopes (base : UInt32) : Part → List Node
  | .function range body => [.element .function (range.toSpan base) (statements base body)]
  | .arrow range value => [.element .function (range.toSpan base) (scopes base value)]
  | .classDef range members => [.element .classDef (range.toSpan base) (allScopes base members)]
  | .other _ _ fields => fieldScopes base fields

def statements (base : UInt32) : List Part → List Node
  | [] => []
  | part :: rest =>
    .element .statement (part.range.toSpan base) (scopes base part) :: statements base rest

def allScopes (base : UInt32) : List Part → List Node
  | [] => []
  | part :: rest => scopes base part ++ allScopes base rest

/-- Field after field, as they are visited, wherever they stand in the text. -/
def fieldScopes (base : UInt32) : List (String × List Part) → List Node
  | [] => []
  | (_, parts) :: rest => allScopes base parts ++ fieldScopes base rest

end

def toElement (base : UInt32) (kind : ElementKind) (part : Part) : Node :=
  .element kind (part.range.toSpan base) (part.scopes base)

end Part

def functionNode (base : UInt32) (range : Range) (body : List Part) : Node :=
  .element .function (range.toSpan base) (Part.statements base body)

/-- An exported class. The range of a class begins at its keyword; decorators between `export` and
the keyword belong to it, those before `export` do not. -/
def classNode (base : UInt32) (range : Range) (members : List Part) (decorators : List UInt32)
    (exportStart : UInt32) : Node :=
  let span := range.toSpan base
  let starts := (decorators.filter (exportStart ≤ ·)).map fun d => d.toNat - base.toNat
  .element .classDef { span with start := starts.foldl min span.start }
    (Part.allScopes base members)

/-- A quoted path, with its spelling in the text; empty if the range does not fit the text. -/
def sourceOf (base : UInt32) (text : String) (range : Range) : Source :=
  let span := range.toSpan base
  ⟨span, (Text.slice? text span.start span.stop).getD ""⟩

namespace ListedName

def identifierOr (construct : Unsupported) : ListedName → Except Unsupported String
  | .identifier name => .ok name
  | .literal => .error construct

end ListedName

namespace ImportName

def toSpecifier : ImportName → Except Unsupported Specifier
  | .named _ _ true => .error .typeOnlyImportName
  | .named binding none false => .ok ⟨binding, none⟩
  | .named binding (some imported) false => do
    .ok ⟨← imported.identifierOr .literalImportName, some binding⟩
  | .default binding => .ok ⟨binding, none⟩
  | .everything binding => .ok ⟨"*", some binding⟩

def isNamed : ImportName → Bool
  | .named .. => true
  | _ => false

end ImportName

namespace ExportName

def toSpecifier : ExportName → Except Unsupported Specifier
  | .named _ _ true => .error .typeOnlyExportName
  | .named name none false => do
    .ok ⟨← name.identifierOr .literalExportName, none⟩
  | .named name (some exported) false => do
    let name ← name.identifierOr .literalExportName
    .ok ⟨name, some (← exported.identifierOr .literalExportName)⟩
  | .everything => .error .wholeModuleName
  | .default => .error .defaultName

end ExportName

/-- The kind of an import that is not a lone `* as name`. -/
def importKind : List ImportName → ImportKind
  | [] => .bare
  | [.default _] => .default
  | names => if names.all ImportName.isNamed then .named else .unrecognized

namespace Variable

def toDeclarator (base : UInt32) (v : Variable) : Except Unsupported Declarator :=
  match v.name?, v.value? with
  | none, _ => .error .destructuring
  | some name, none => .ok (.unset (v.range.toSpan base) name)
  | some name, some value =>
    .ok (.set (v.range.toSpan base) name (value.toElement base .expression))

end Variable

namespace Declaration

def toNode (base : UInt32) (range : Range) : Declaration → Except Unsupported Node
  | .bindings kind ambient list =>
    if ambient then .error .ambientVariable
    else do
      .ok (.exportVariables (range.toSpan base) kind
        (← list.mapM (Variable.toDeclarator base)))
  | .function name ambient inner body =>
    if ambient then .error .ambientDefinition
    else .ok (.exportDefinition (range.toSpan base) .function name
      (functionNode base inner body) false)
  | .classDef name ambient inner members decorators =>
    if ambient then .error .ambientDefinition
    else .ok (.exportDefinition (range.toSpan base) .classDef name
      (classNode base inner members decorators range.lo) false)
  | .interface => .error .interface
  | .typeAlias => .error .typeAlias
  | .enumeration => .error .enumeration
  | .namespaceBlock => .error .namespaceBlock
  | .resource => .error .resource
  | .other => .error .otherDeclaration

end Declaration

namespace DefaultDeclaration

/-- A definition with a name keeps it; one without becomes the exported value. -/
def exported (span : Span) (kind : DefinitionKind) (definition : Node) : Option String → Node
  | some name => .exportDefinition span kind name definition true
  | none => .exportValue span "default" definition

def toNode (base : UInt32) (range : Range) : DefaultDeclaration → Except Unsupported Node
  | .function name? inner body =>
    .ok (exported (range.toSpan base) .function (functionNode base inner body) name?)
  | .classDef name? inner members decorators =>
    .ok (exported (range.toSpan base) .classDef
      (classNode base inner members decorators range.lo) name?)
  | .interface => .error .defaultInterface

end DefaultDeclaration

namespace Item

/-- An import; a lone `* as name` declares a module. -/
def importNode (base : UInt32) (text : String) (range : Range) (names : List ImportName)
    (source : Range) : Except Unsupported Node :=
  let span := range.toSpan base
  let source := sourceOf base text source
  match names with
  | [.everything binding] => .ok (.moduleDecl ⟨span, binding, source⟩)
  | names => do
    .ok (.importDecl ⟨span, importKind names, ← names.mapM ImportName.toSpecifier, source⟩)

def toNode (base : UInt32) (text : String) : Item → Except Unsupported Node
  | .statement part => .ok (part.toElement base .statement)
  | .importing range typeOnly names source =>
    if typeOnly then .error .typeOnlyImport else importNode base text range names source
  | .exportDeclaration range declaration => declaration.toNode base range
  | .exportNames range typeOnly names source? =>
    if typeOnly then .error .typeOnlyExport
    else do
      let specifiers ← names.mapM ExportName.toSpecifier
      match source? with
      | some source =>
        .ok (.exportFrom (range.toSpan base) (sourceOf base text source) specifiers)
      | none => .ok (.exportNames (range.toSpan base) specifiers)
  | .exportDefault range declaration => declaration.toNode base range
  | .exportValue range value =>
    .ok (.exportValue (range.toSpan base) "default" (value.toElement base .expression))
  | .exportAll range typeOnly source =>
    if typeOnly then .error .typeOnlyExport
    else .ok (.exportAll (range.toSpan base) (sourceOf base text source))
  | .typeScript range => .error (.typeScriptModule (range.toSpan base))

end Item

/-- The items of a module as nodes; the first one without a counterpart decides. -/
def lower (base : UInt32) (text : String) (items : List Item) :
    Except Unsupported (List Node) :=
  items.mapM (Item.toNode base text)

end ModSplice.Parsed
