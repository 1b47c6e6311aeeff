import ModSplice.Legacy.Scan
import ModSplice.Lowering
import ModSplice.Tree.Attach

/-!
The tree of a source text. The declarations in the older forms are found first and blanked out, a
parser reads what is left, and then the two are brought together. The parser itself is not part of
this; its report on the blanked text is given.
-/
namespace ModSplice

inductive ParseFailure where
  | fatal
  | recovered (errors : Nat)
  | unsupported (construct : Unsupported)
  deriving DecidableEq, Repr

namespace ParseFailure

def context (filename : String) : ParseFailure → String
  | .fatal => "failed to parse " ++ filename
  | .recovered errors =>
    "failed to parse " ++ filename ++ ": " ++ Nat.repr errors ++ " syntax error(s)"
  | .unsupported _ => "cannot rewrite " ++ filename

def cause? : ParseFailure → Option String
  | .unsupported construct => some construct.message
  | _ => none

def message (filename : String) (f : ParseFailure) : String :=
  match f.cause? with
  | some cause => f.context filename ++ ": " ++ cause
  | none => f.context filename

end ParseFailure

/-- The tree of a source text, and the text that the parser saw. -/
structure Program where
  tree : Node
  blanked : String

namespace Program

/-- Brings the items of the parser and the declarations found before together. -/
def assemble (source : String) (items legacy : List Node) : Node :=
  .element .program ⟨0, source.utf8ByteSize⟩ (legacy.foldl Node.attach items)

/-- The tree of a source text, given the parser's report on the text without the older
declarations. -/
def ofReport (forms : Forms) (source : String) : Parsed.Report → Except ParseFailure Program
  | .fatal => .error .fatal
  | .recovered errors => .error (.recovered errors)
  | .script base items =>
    match Parsed.lower base source items with
    | .error construct => .error (.unsupported construct)
    | .ok nodes =>
      let extract := Legacy.extract forms source
      .ok { tree := assemble source nodes extract.nodes, blanked := extract.text }

end Program
end ModSplice
