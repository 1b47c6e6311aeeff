import ModSplice.Json.Record

/-! Settings: how the two primitives of the generated code are spelt, and which of the older
declaration forms are looked for. Both are read from JSON records whose fields may be left out. -/
namespace ModSplice

structure Options where
  /-- The object onto which public names are assigned. -/
  exportsObject : String := "module.exports"
  /-- The function that is called with a quoted path to load a module. -/
  loader : String := "require"
  deriving DecidableEq, Repr, Inhabited

/-- The older declaration forms that are recognised. -/
structure Forms where
  /-- `module name from "m"`. -/
  moduleFrom : Bool := true
  /-- `export default;`. -/
  bareDefault : Bool := true
  deriving DecidableEq, Repr, Inhabited

structure Config where
  options : Options := {}
  forms : Forms := {}
  deriving DecidableEq, Repr, Inhabited

/-- A field that may be left out, then with its default. -/
def Json.fieldOr? {α : Type} (fallback : α) (read : Json → Option α) : Option Json → Option α
  | none => some fallback
  | some value => read value

namespace Options

/-- A call of the loader on a quoted path. -/
def load (o : Options) (raw : String) : String :=
  o.loader ++ "(" ++ raw ++ ")"

def member (o : Options) (name : String) : String :=
  o.exportsObject ++ "." ++ name

/-- Where a public name is assigned: the default export is the exports object itself. -/
def exportTarget (o : Options) (name : String) : String :=
  if name = "default" then o.exportsObject else o.member name

def toJson (o : Options) : Json :=
  .obj [("exports_object", .str o.exportsObject), ("loader", .str o.loader)]

def ofJson? (j : Json) : Option Options := do
  match ← j.record? ["exports_object", "loader"] with
  | [exportsObject, loader] =>
    let defaults : Options := {}
    some {
      exportsObject := ← Json.fieldOr? defaults.exportsObject Json.toString? exportsObject
      loader := ← Json.fieldOr? defaults.loader Json.toString? loader }
  | _ => none

end Options

namespace Forms

def ofJson? (j : Json) : Option Forms := do
  match ← j.record? ["module_from", "bare_default_export"] with
  | [moduleFrom, bareDefault] =>
    some {
      moduleFrom := ← Json.fieldOr? true Json.toBool? moduleFrom
      bareDefault := ← Json.fieldOr? true Json.toBool? bareDefault }
  | _ => none

end Forms

namespace Config

def ofJson? (j : Json) : Option Config := do
  match ← j.record? ["rewrite", "syntax"] with
  | [options, forms] =>
    some {
      options := ← Json.fieldOr? {} Options.ofJson? options
      forms := ← Json.fieldOr? {} Forms.ofJson? forms }
  | _ => none

end Config
end ModSplice
