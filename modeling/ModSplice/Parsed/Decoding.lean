import ModSplice.Json.Basic
import ModSplice.Parsed.Fields
import ModSplice.Parsed.Item

/-!
Parser reports as JSON. Objects with a type are parts of the script; an object without one is a
function when it has parameters, and otherwise only groups what is inside it.
-/
namespace ModSplice.Parsed

def word? : Json → Option UInt32
  | .nat n => if n < UInt32.size then some n.toUInt32 else none
  | _ => none

namespace Range

def ofJson? (j : Json) : Option Range := do
  some ⟨← word? (← j.get? "start"), ← word? (← j.get? "end")⟩

/-- The range in the field `span`. -/
def of? (j : Json) : Option Range := do
  ofJson? (← j.get? "span")

end Range

def type? (j : Json) : Option String := do
  (← j.get? "type").toString?

namespace Part

def named (fields : List (String × List Part)) (name : String) : List Part :=
  (fields.lookup name).getD []

/-- The statements of a block in the field `body`; none if there is no block. -/
def blockStatements (fields : List (String × List Part)) : Option (List Part) :=
  match named fields "body" with
  | [.other "BlockStatement" _ fields] => some (named fields "stmts")
  | _ => none

/-- The parts that an object stands for, from those in its fields. -/
def assemble (j : Json) (fields : List (String × List Part)) : List Part :=
  let range := (Range.of? j).getD ⟨0, 0⟩
  let body := (blockStatements fields).getD []
  match type? j with
  | some "FunctionDeclaration" | some "FunctionExpression" | some "Constructor" =>
    [.function range body]
  | some "MethodProperty" =>
    [.other "MethodProperty" range
      [("key", named fields "key"), ("function", [.function range body])]]
  | some "ArrowFunctionExpression" =>
    match blockStatements fields, named fields "body" with
    | some statements, _ => [.function range statements]
    | none, value :: _ => [.arrow range value]
    | none, [] => [.function range []]
  | some "ClassDeclaration" | some "ClassExpression" => [.classDef range (named fields "body")]
  | some type =>
    [.other type range (inDeclaredOrder type (fields.filter fun f => !f.2.isEmpty))]
  | none =>
    if (j.get? "params").isSome then [.function range body] else fields.flatMap (·.2)

mutual

def ofJson : Json → List Part
  | .arr items => ofItems items
  | .obj fields => assemble (.obj fields) (ofFields fields)
  | _ => []

def ofItems : List Json → List Part
  | [] => []
  | item :: rest => ofJson item ++ ofItems rest

def ofFields : List (String × Json) → List (String × List Part)
  | [] => []
  | (name, value) :: rest => (name, ofJson value) :: ofFields rest

end

def ofJson? (j : Json) : Option Part :=
  (ofJson j).head?

end Part

/-- A flag that is false when left out. -/
def flag (j : Json) (name : String) : Bool :=
  ((j.get? name).bind Json.toBool?).getD false

def identifier? (j : Json) : Option String := do
  if type? j = some "Identifier" then (← j.get? "value").toString? else none

def identifierAt? (j : Json) (name : String) : Option String := do
  identifier? (← j.get? name)

def items? (j : Json) (name : String) : Option (List Json) := do
  (← j.get? name).toItems?

namespace ListedName

def ofJson (j : Json) : ListedName :=
  match identifier? j with
  | some name => .identifier name
  | none => .literal

end ListedName

namespace ImportName

def ofJson? (j : Json) : Option ImportName := do
  let binding ← identifierAt? j "local"
  match ← type? j with
  | "ImportSpecifier" =>
    some (.named binding ((j.get? "imported").map ListedName.ofJson) (flag j "isTypeOnly"))
  | "ImportDefaultSpecifier" => some (.default binding)
  | "ImportNamespaceSpecifier" => some (.everything binding)
  | _ => none

end ImportName

namespace ExportName

def ofJson? (j : Json) : Option ExportName := do
  match ← type? j with
  | "ExportSpecifier" =>
    some (.named (ListedName.ofJson (← j.get? "orig"))
      ((j.get? "exported").map ListedName.ofJson) (flag j "isTypeOnly"))
  | "ExportNamespaceSpecifier" => some .everything
  | "ExportDefaultSpecifier" => some .default
  | _ => none

end ExportName

namespace Variable

def ofJson? (j : Json) : Option Variable := do
  some {
    range := ← Range.of? j
    name? := identifierAt? j "id"
    value? := (j.get? "init").bind Part.ofJson? }

end Variable

def varKind? : String → Option VarKind
  | "var" => some .var
  | "let" => some .lexical
  | "const" => some .const
  | _ => none

/-- Where the decorators of a class begin. -/
def decorators (j : Json) : List UInt32 :=
  ((items? j "decorators").getD []).filterMap fun d => (Range.of? d).map Range.lo

def bodyOf (j : Json) : List Part :=
  match j with
  | .obj fields => (Part.blockStatements (Part.ofFields fields)).getD []
  | _ => []

def membersOf (j : Json) : List Part :=
  ((j.get? "body").map Part.ofJson).getD []

namespace Declaration

def ofJson? (j : Json) : Option Declaration := do
  match ← type? j with
  | "VariableDeclaration" =>
    some (.bindings (← varKind? (← (← j.get? "kind").toString?)) (flag j "declare")
      (← (← items? j "declarations").mapM Variable.ofJson?))
  | "FunctionDeclaration" =>
    some (.function (← identifierAt? j "identifier") (flag j "declare") (← Range.of? j) (bodyOf j))
  | "ClassDeclaration" =>
    some (.classDef (← identifierAt? j "identifier") (flag j "declare") (← Range.of? j)
      (membersOf j) (decorators j))
  | "TsInterfaceDeclaration" => some .interface
  | "TsTypeAliasDeclaration" => some .typeAlias
  | "TsEnumDeclaration" => some .enumeration
  | "TsModuleDeclaration" => some .namespaceBlock
  | "UsingDeclaration" => some .resource
  | _ => some .other

end Declaration

namespace DefaultDeclaration

def ofJson? (j : Json) : Option DefaultDeclaration := do
  match ← type? j with
  | "FunctionExpression" =>
    some (.function (identifierAt? j "identifier") (← Range.of? j) (bodyOf j))
  | "ClassExpression" =>
    some (.classDef (identifierAt? j "identifier") (← Range.of? j) (membersOf j) (decorators j))
  | _ => some .interface

end DefaultDeclaration

namespace Item

def ofJson? (j : Json) : Option Item := do
  let range ← Range.of? j
  match ← type? j with
  | "ImportDeclaration" =>
    some (.importing range (flag j "typeOnly")
      (← (← items? j "specifiers").mapM ImportName.ofJson?) (← Range.of? (← j.get? "source")))
  | "ExportDeclaration" =>
    some (.exportDeclaration range (← Declaration.ofJson? (← j.get? "declaration")))
  | "ExportNamedDeclaration" =>
    some (.exportNames range (flag j "typeOnly")
      (← (← items? j "specifiers").mapM ExportName.ofJson?) ((j.get? "source").bind Range.of?))
  | "ExportDefaultDeclaration" =>
    some (.exportDefault range (← DefaultDeclaration.ofJson? (← j.get? "decl")))
  | "ExportDefaultExpression" =>
    some (.exportValue range (← Part.ofJson? (← j.get? "expression")))
  | "ExportAllDeclaration" =>
    some (.exportAll range (flag j "typeOnly") (← Range.of? (← j.get? "source")))
  | "TsImportEqualsDeclaration" | "TsExportAssignment" | "TsNamespaceExportDeclaration" =>
    some (.typeScript range)
  | _ => some (.statement (← Part.ofJson? j))

end Item

namespace Report

def ofJson? (j : Json) : Option Report := do
  match j.get? "fatal", j.get? "recovered", j.get? "module" with
  | some _, _, _ => some .fatal
  | _, some (.nat errors), _ => some (.recovered errors)
  | _, _, some tree =>
    some (.script (← word? (← j.get? "base")) (← (← items? tree "body").mapM Item.ofJson?))
  | _, _, _ => none

end Report
end ModSplice.Parsed
