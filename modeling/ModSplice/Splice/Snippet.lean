import ModSplice.Options
import ModSplice.Splice.Names
import ModSplice.Tree.Node

/-!
Generated text. Each snippet is one piece of code that takes the place of a declaration or of a part
of it; its text depends on the options and on the number of the next temporary name.
-/
namespace ModSplice

inductive Snippet where
  /-- Load a module for its effects. -/
  | load (raw : String)
  /-- Bind a name to a loaded module. -/
  | bind (name raw : String)
  /-- Bind names to members of a loaded module. -/
  | bindMembers (raw : String) (specifiers : List Specifier)
  /-- The left side of a default export. -/
  | assign (target : String)
  /-- A default export without a value. -/
  | assignUndefined (target : String)
  /-- The keyword in front of exported variables. -/
  | keyword (kind : VarKind)
  /-- A variable and its public name, up to the value. -/
  | initialise (name : String)
  /-- The value of a variable that has none. -/
  | undefined
  /-- A semicolon for a definition that has become a value. -/
  | semicolon
  /-- The public name of a definition, on a line of its own. -/
  | publish (name : String) (isDefault : Bool)
  /-- The public names for a list of names of this module. -/
  | publishNames (specifiers : List Specifier)
  /-- Every member of a loaded module made public. -/
  | forwardAll (raw : String)
  /-- Some members of a loaded module made public. -/
  | forwardMembers (raw : String) (specifiers : List Specifier)
  deriving DecidableEq, Repr

namespace Snippet

/-- The stems of the temporary names that the snippet introduces, in order. -/
def stems : Snippet → List String
  | .bindMembers _ _ => ["mod"]
  | .forwardAll _ => ["mod", "key"]
  | .forwardMembers _ _ => ["mod"]
  | _ => []

/-- A loaded module bound to a temporary name. -/
def loadLine (o : Options) (name raw : String) : String :=
  "var " ++ name ++ " = " ++ o.load raw ++ ";"

/-- One line a specifier, without a line break at the end. -/
def lines (line : Specifier → String) (specifiers : List Specifier) : String :=
  String.intercalate "\n" (specifiers.map line)

/-- The text, where the first temporary name has the number `n`. -/
def text (o : Options) (n : UInt32) : Snippet → String
  | .load raw => o.load raw ++ ";"
  | .bind name raw => loadLine o name raw
  | .bindMembers raw specifiers =>
    let loaded := Names.numbered "mod" n
    loadLine o loaded raw ++ "\n" ++
      lines (fun s => "var " ++ s.localName ++ " = " ++ loaded ++ "." ++ s.name ++ ";") specifiers
  | .assign target => o.exportTarget target ++ " = "
  | .assignUndefined target => o.exportTarget target ++ " = undefined;"
  | .keyword kind => kind.keyword ++ " "
  | .initialise name => name ++ " = " ++ o.member name ++ " = "
  | .undefined => "undefined"
  | .semicolon => ";"
  | .publish name isDefault =>
    "\n" ++ (if isDefault then o.exportTarget "default" else o.member name) ++ " = " ++ name ++ ";"
  | .publishNames specifiers =>
    lines (fun s => o.member s.localName ++ " = " ++ s.name ++ ";") specifiers
  | .forwardAll raw =>
    let loaded := Names.numbered "mod" n
    let key := Names.numbered "key" (n + 1)
    loadLine o loaded raw ++ "\n" ++
      "for (var " ++ key ++ " in " ++ loaded ++ ") " ++ o.exportsObject ++ "[" ++ key ++ "] = " ++
      loaded ++ "[" ++ key ++ "];"
  | .forwardMembers raw specifiers =>
    let loaded := Names.numbered "mod" n
    loadLine o loaded raw ++ "\n" ++
      lines (fun s => o.member s.localName ++ " = " ++ loaded ++ "." ++ s.name ++ ";") specifiers

end Snippet
end ModSplice
