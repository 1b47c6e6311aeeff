/-!
The order of fields. A part is visited field by field in the order in which the grammar declares its
fields, which need not be the order of the text. A report may list them in any order.
-/
namespace ModSplice.Parsed

def statementFields : List (String × List String) :=
  [("VariableDeclarator", ["id", "init"]),
    ("IfStatement", ["test", "consequent", "alternate"]),
    ("WhileStatement", ["test", "body"]),
    ("DoWhileStatement", ["test", "body"]),
    ("ForStatement", ["init", "test", "update", "body"]),
    ("ForInStatement", ["left", "right", "body"]),
    ("ForOfStatement", ["left", "right", "body"]),
    ("SwitchStatement", ["discriminant", "cases"]),
    ("SwitchCase", ["test", "consequent"]),
    ("TryStatement", ["block", "handler", "finalizer"]),
    ("CatchClause", ["param", "body"]),
    ("WithStatement", ["object", "body"])]

def expressionFields : List (String × List String) :=
  [("BinaryExpression", ["left", "right"]),
    ("AssignmentExpression", ["left", "right"]),
    ("ConditionalExpression", ["test", "consequent", "alternate"]),
    ("MemberExpression", ["object", "property"]),
    ("SuperPropExpression", ["obj", "property"]),
    ("CallExpression", ["callee", "arguments", "typeArguments"]),
    ("NewExpression", ["callee", "arguments", "typeArguments"]),
    ("TemplateLiteral", ["expressions", "types", "quasis"]),
    ("TaggedTemplateExpression", ["tag", "typeParameters", "template"]),
    ("KeyValueProperty", ["key", "value"]),
    ("AssignmentProperty", ["key", "value"]),
    ("GetterProperty", ["key", "typeAnnotation", "body"]),
    ("SetterProperty", ["key", "thisParam", "param", "body"])]

def patternFields : List (String × List String) :=
  [("ArrayPattern", ["elements", "typeAnnotation"]),
    ("ObjectPattern", ["properties", "typeAnnotation"]),
    ("RestElement", ["argument", "typeAnnotation"]),
    ("AssignmentPattern", ["left", "right"]),
    ("KeyValuePatternProperty", ["key", "value"]),
    ("AssignmentPatternProperty", ["key", "value"]),
    ("Parameter", ["decorators", "pat"]),
    ("TsParameterProperty", ["decorators", "param"])]

def memberFields : List (String × List String) :=
  [("ClassMethod", ["key", "function"]),
    ("PrivateMethod", ["key", "function"]),
    ("ClassProperty", ["key", "value", "typeAnnotation", "decorators"]),
    ("PrivateProperty", ["key", "value", "typeAnnotation", "decorators"]),
    ("AutoAccessor", ["key", "value", "typeAnnotation", "decorators"])]

def markupFields : List (String × List String) :=
  [("JSXElement", ["opening", "children", "closing"]),
    ("JSXFragment", ["opening", "children", "closing"]),
    ("JSXOpeningElement", ["name", "attributes", "typeArguments"]),
    ("JSXAttribute", ["name", "value"])]

def typeFields : List (String × List String) :=
  [("TsTypeParameter", ["name", "constraint", "default"]),
    ("TsPropertySignature", ["key", "typeAnnotation"]),
    ("TsGetterSignature", ["key", "typeAnnotation"]),
    ("TsSetterSignature", ["key", "param"]),
    ("TsMethodSignature", ["key", "params", "typeAnn", "typeAnnotation", "typeParams"]),
    ("TsCallSignatureDeclaration", ["params", "typeAnnotation", "typeParams"]),
    ("TsConstructSignatureDeclaration", ["params", "typeAnnotation", "typeParams"]),
    ("TsIndexSignature", ["params", "typeAnnotation"]),
    ("TsFunctionType", ["params", "typeParams", "typeAnnotation"]),
    ("TsConstructorType", ["params", "typeParams", "typeAnnotation"]),
    ("TsTypeReference", ["typeName", "typeParams"]),
    ("TsTypePredicate", ["paramName", "typeAnnotation"]),
    ("TsTypeQuery", ["exprName", "typeArguments"]),
    ("TsImportType", ["argument", "qualifier", "typeArguments", "attributes"]),
    ("TsTupleElement", ["label", "ty"]),
    ("TsConditionalType", ["checkType", "extendsType", "trueType", "falseType"]),
    ("TsIndexedAccessType", ["objectType", "indexType"]),
    ("TsMappedType", ["typeParam", "nameType", "typeAnnotation"]),
    ("TsAsExpression", ["expression", "typeAnnotation"]),
    ("TsSatisfiesExpression", ["expression", "typeAnnotation"]),
    ("TsTypeAssertion", ["expression", "typeAnnotation"]),
    ("TsInstantiation", ["expression", "typeArguments"]),
    ("TsExpressionWithTypeArguments", ["expression", "typeArguments"]),
    ("TsInterfaceDeclaration", ["id", "typeParams", "extends", "body"]),
    ("TsTypeAliasDeclaration", ["id", "typeParams", "typeAnnotation"]),
    ("TsEnumDeclaration", ["id", "members"]),
    ("TsEnumMember", ["id", "init"]),
    ("TsModuleDeclaration", ["id", "body"]),
    ("TsNamespaceDeclaration", ["id", "body"])]

/-- The fields of each kind of part as the grammar declares them. A kind is left out if at most one
of its fields can hold a function or a class. -/
def fieldTable : List (String × List String) :=
  statementFields ++ expressionFields ++ patternFields ++ memberFields ++ markupFields ++ typeFields

def declaredFields (type : String) : List String :=
  (fieldTable.lookup type).getD []

/-- Fields in the order in which they are declared. Those that are not declared come last, as they
are listed. -/
def inDeclaredOrder {α : Type} (type : String) (fields : List (String × α)) :
    List (String × α) :=
  (declaredFields type).flatMap (fun name => fields.filter (·.1 == name)) ++
    fields.filter fun f => !(declaredFields type).contains f.1

end ModSplice.Parsed
