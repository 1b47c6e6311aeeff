import ModSplice.Proofs.Boundary
import ModSplice.Splice.Edit

/-!
# The reference splice

What a splice should give, read off the tree alone: the source with the range of every outermost
declaration replaced. A declaration that keeps a part of its text keeps it with the declarations
inside replaced in turn. There is no cursor here and no order of events; temporary names are
counted by natural numbers.
-/
namespace ModSplice

open Text

structure Patch where
  span : Span
  text : String
  deriving DecidableEq, Repr

/-- The source from one offset to another with some of its ranges replaced. -/
def patched (source : String) (start stop : Nat) : List Patch → String
  | [] => between source start stop
  | patch :: rest =>
    between source start patch.span.start ++ patch.text ++
      patched source patch.span.stop stop rest

theorem patched_append_cons (source : String) (start stop : Nat) (first : List Patch)
    (patch : Patch) (rest : List Patch) :
    patched source start stop (first ++ patch :: rest) =
      patched source start patch.span.start first ++ patch.text ++
        patched source patch.span.stop stop rest := by
  induction first generalizing start with
  | nil => rfl
  | cons p first ih => simp only [List.cons_append, patched, ih, String.append_assoc]

def temporary (stem : String) (n : Nat) : String :=
  stem ++ "$" ++ Nat.repr n

def specifierLines (line : Specifier → String) (specifiers : List Specifier) : String :=
  String.intercalate "\n" (specifiers.map line)

namespace ImportDecl

/-- An import that has a counterpart: its kind is known, and a default import binds a name. -/
def isSupported (d : ImportDecl) : Bool :=
  match d.kind, d.specifiers with
  | .default, [] => false
  | .unrecognized, _ => false
  | _, _ => true

/-- The statements in place of an import, where `n` is the number of the next temporary name. -/
def statements (o : Options) (n : Nat) (d : ImportDecl) : String :=
  match d.kind, d.specifiers with
  | .bare, _ => o.load d.source.raw ++ ";"
  | .default, s :: _ => "var " ++ s.localName ++ " = " ++ o.load d.source.raw ++ ";"
  | .named, specifiers =>
    "var " ++ temporary "mod" n ++ " = " ++ o.load d.source.raw ++ ";" ++ "\n" ++
      specifierLines (fun s => "var " ++ s.localName ++ " = " ++ temporary "mod" n ++ "." ++
        s.name ++ ";") specifiers
  | _, _ => ""

def temporaries (d : ImportDecl) : Nat :=
  if d.kind = .named then 1 else 0

end ImportDecl

namespace Node

mutual

def temporaries : Node → Nat
  | .importDecl decl => decl.temporaries
  | .exportValue _ _ value => temporaries value
  | .exportVariables _ _ declarators => temporariesOfValues declarators
  | .exportDefinition _ _ _ definition _ => temporaries definition
  | .exportAll _ _ => 2
  | .exportFrom _ _ _ => 1
  | .element _ _ children => temporariesOfAll children
  | _ => 0

def temporariesOfAll : List Node → Nat
  | [] => 0
  | node :: rest => temporaries node + temporariesOfAll rest

def temporariesOfValues : List Declarator → Nat
  | [] => 0
  | .unset _ _ :: rest => temporariesOfValues rest
  | .set _ _ value :: rest => temporaries value + temporariesOfValues rest

end

mutual

/-- The declarations of a tree that lie in no other declaration. -/
def outermost : Node → List Node
  | .element _ _ children => outermostOfAll children
  | node => [node]

def outermostOfAll : List Node → List Node
  | [] => []
  | node :: rest => outermost node ++ outermostOfAll rest

end

def statements (o : Options) (n : Nat) : Node → String
  | .importDecl decl => decl.statements o n
  | .moduleDecl decl => "var " ++ decl.name ++ " = " ++ o.load decl.source.raw ++ ";"
  | .exportNothing _ target => o.exportTarget target ++ " = undefined;"
  | .exportAll _ source =>
    "var " ++ temporary "mod" n ++ " = " ++ o.load source.raw ++ ";" ++ "\n" ++
      "for (var " ++ temporary "key" (n + 1) ++ " in " ++ temporary "mod" n ++ ") " ++
      o.exportsObject ++ "[" ++ temporary "key" (n + 1) ++ "] = " ++ temporary "mod" n ++ "[" ++
      temporary "key" (n + 1) ++ "];"
  | .exportFrom _ source specifiers =>
    "var " ++ temporary "mod" n ++ " = " ++ o.load source.raw ++ ";" ++ "\n" ++
      specifierLines (fun s => o.member s.localName ++ " = " ++ temporary "mod" n ++ "." ++
        s.name ++ ";") specifiers
  | .exportNames _ specifiers =>
    specifierLines (fun s => o.member s.localName ++ " = " ++ s.name ++ ";") specifiers
  | _ => ""

/-- The text of a node's own range with the given patches inside. -/
def kept (source : String) (node : Node) (inside : List Patch) : String :=
  patched source node.span.start node.span.stop inside

mutual

/-- The outermost declarations of a tree, each with the text that takes its place; `n` is the
number of the first temporary name. -/
def patches (source : String) (o : Options) (n : Nat) : Node → List Patch
  | .exportValue span target value =>
    -- what stands between the value and the end of the export stays
    [⟨span, o.exportTarget target ++ " = " ++ kept source value (patches source o n value) ++
      (if value.isDefinition && value.span.stop == span.stop then ";" else "") ++
      between source value.span.stop span.stop⟩]
  | .exportVariables span kind declarators =>
    let start := (declarators.head?.map fun d => d.span.start).getD span.stop
    [⟨span, kind.keyword ++ " " ++ assignments source o n start span.stop declarators⟩]
  | .exportDefinition span _ name definition isDefault =>
    [⟨span, kept source definition (patches source o n definition) ++ "\n" ++
      (if isDefault then o.exportsObject else o.member name) ++ " = " ++ name ++ ";"⟩]
  | .element _ _ children => patchesOfAll source o n children
  | node => [⟨node.span, node.statements o n⟩]

def patchesOfAll (source : String) (o : Options) (n : Nat) : List Node → List Patch
  | [] => []
  | node :: rest =>
    patches source o n node ++ patchesOfAll source o (n + node.temporaries) rest

/-- Declarators as assignments of public names; what stands between them stays, from the offset
`start` to the end of the export. -/
def assignments (source : String) (o : Options) (n start stop : Nat) : List Declarator → String
  | [] => between source start stop
  | .unset span name :: rest =>
    between source start span.start ++ name ++ " = " ++ o.member name ++ " = " ++ "undefined" ++
      assignments source o n span.stop stop rest
  | .set span name value :: rest =>
    between source start span.start ++ name ++ " = " ++ o.member name ++ " = " ++
      kept source value (patches source o n value) ++
      assignments source o (n + value.temporaries) value.span.stop stop rest

end

mutual

/-- The patches cover the outermost declarations and nothing else. -/
theorem patches_spans (source : String) (o : Options) : ∀ (node : Node) (n : Nat),
    (patches source o n node).map Patch.span = node.outermost.map Node.span
  | .element _ _ children, n => patchesOfAll_spans source o children n
  | .importDecl _, _ | .moduleDecl _, _ | .exportValue .., _ | .exportNothing .., _
  | .exportVariables .., _ | .exportDefinition .., _ | .exportAll .., _ | .exportFrom .., _
  | .exportNames .., _ => rfl

theorem patchesOfAll_spans (source : String) (o : Options) : ∀ (nodes : List Node) (n : Nat),
    (patchesOfAll source o n nodes).map Patch.span = (outermostOfAll nodes).map Node.span
  | [], _ => rfl
  | node :: rest, n => by
    simp only [patchesOfAll, outermostOfAll, List.map_append, patches_spans source o node,
      patchesOfAll_spans source o rest]

end

end Node

/-- A range that runs forwards between two boundaries of the source. -/
def Span.fits (source : String) (s : Span) : Bool :=
  s.start ≤ s.stop && isBoundary source s.start && isBoundary source s.stop

theorem Span.fits_iff (source : String) (s : Span) :
    s.fits source = true ↔
      s.start ≤ s.stop ∧ isBoundary source s.start = true ∧ isBoundary source s.stop = true := by
  simp [fits, and_assoc]

namespace Node

mutual

/-- A tree whose spans are those of a text: each runs forwards between boundaries of the source,
what is inside a node lies in its span, and siblings follow one another without overlap. -/
def fits (source : String) : Node → Bool
  | .exportValue span _ value =>
    span.fits source && span.contains value.span && fits source value
  | .exportVariables span _ declarators =>
    span.fits source && declaratorsFit source span.start span.stop declarators
  | .exportDefinition span _ _ definition _ =>
    span.fits source && span.contains definition.span && fits source definition
  | .element _ span children =>
    span.fits source && allFit source span.start span.stop children
  | node => node.span.fits source

def allFit (source : String) (start stop : Nat) : List Node → Bool
  | [] => true
  | node :: rest =>
    start ≤ node.span.start && node.span.stop ≤ stop && fits source node &&
      allFit source node.span.stop stop rest

def declaratorsFit (source : String) (start stop : Nat) : List Declarator → Bool
  | [] => true
  | .unset span _ :: rest =>
    start ≤ span.start && span.stop ≤ stop && span.fits source &&
      declaratorsFit source span.stop stop rest
  | .set span _ value :: rest =>
    start ≤ span.start && span.stop ≤ stop && span.fits source &&
      (span.contains value.span && fits source value) &&
      declaratorsFit source span.stop stop rest

end

mutual

def isSupported : Node → Bool
  | .importDecl decl => decl.isSupported
  | .exportValue _ _ value => isSupported value
  | .exportVariables _ _ declarators => !declarators.isEmpty && valuesSupported declarators
  | .exportDefinition _ _ _ definition _ => isSupported definition
  | .element _ _ children => allSupported children
  | _ => true

def allSupported : List Node → Bool
  | [] => true
  | node :: rest => isSupported node && allSupported rest

def valuesSupported : List Declarator → Bool
  | [] => true
  | .unset _ _ :: rest => valuesSupported rest
  | .set _ _ value :: rest => isSupported value && valuesSupported rest

end

theorem fits_span (source : String) (node : Node) (h : node.fits source = true) :
    node.span.fits source = true := by
  cases node <;> simp_all [fits, span]

end Node
end ModSplice
