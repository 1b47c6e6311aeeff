import ModSplice.Proofs.Nesting
import ModSplice.Proofs.Pipeline
import ModSplice.Proofs.StandardWalk

/-!
# Temporary names and the names of the module

A walk draws its temporary names in the order of the declarations and numbers them without a look at
the names that the declarations bind or read. So there is one way to clash with a temporary name:
to be spelt like the one that is drawn with that number.
-/
namespace ModSplice

namespace Names

/-- The names of the stems, numbered from `n` on. -/
def numberedFrom (n : UInt32) : List String → List String
  | [] => []
  | stem :: rest => numbered stem n :: numberedFrom (n + 1) rest

theorem toUInt32_succ (k : Nat) : (k + 1).toUInt32 = 1 + k.toUInt32 := by
  rw [Nat.add_comm]
  exact UInt32.ofNat_add 1 k

theorem numberedFrom_append (n : UInt32) (a b : List String) :
    numberedFrom n (a ++ b) = numberedFrom n a ++ numberedFrom (n + a.length.toUInt32) b := by
  induction a generalizing n with
  | nil => simp [numberedFrom]
  | cons stem a ih =>
    rw [List.length_cons, toUInt32_succ, ← UInt32.add_assoc]
    simp only [List.cons_append, numberedFrom, ih]

@[simp] theorem length_numberedFrom (n : UInt32) (stems : List String) :
    (numberedFrom n stems).length = stems.length := by
  induction stems generalizing n with
  | nil => rfl
  | cons stem rest ih => simp [numberedFrom, ih]

theorem getElem?_numberedFrom (n : UInt32) (stems : List String) (k : Nat) :
    (numberedFrom n stems)[k]? = stems[k]?.map fun stem => numbered stem (n + k.toUInt32) := by
  induction stems generalizing n k with
  | nil => rfl
  | cons first rest ih =>
    cases k with
    | zero => simp [numberedFrom]
    | succ k =>
      rw [toUInt32_succ, ← UInt32.add_assoc]
      exact ih (n + 1) k

theorem mem_numberedFrom (n : UInt32) (stems : List String) (name : String) :
    name ∈ numberedFrom n stems ↔
      ∃ (k : Nat) (stem : String),
        stems[k]? = some stem ∧ name = numbered stem (n + k.toUInt32) := by
  simp only [List.mem_iff_getElem?, getElem?_numberedFrom, Option.map_eq_some_iff,
    eq_comm (a := name)]

end Names

def Edit.stems : Edit → List String
  | .insert snippet => snippet.stems
  | _ => []

namespace State

def drawAll (s : State) : List String → List String × State
  | [] => ([], s)
  | stem :: rest =>
    let (name, next) := s.draw stem
    let (names, last) := drawAll next rest
    (name :: names, last)

theorem drawAll_eq (stems : List String) (s : State) :
    (s.drawAll stems).1 = Names.numberedFrom s.names.next stems ∧
      (s.drawAll stems).2.names = s.names.advance stems.length := by
  induction stems generalizing s with
  | nil => exact ⟨rfl, by simp [drawAll, Names.advance]⟩
  | cons stem rest ih =>
    obtain ⟨hnames, hleft⟩ := ih (s.draw stem).2
    refine ⟨congrArg (Names.numbered stem s.names.next :: ·) hnames, hleft.trans ?_⟩
    rw [List.length_cons, Names.advance, Names.advance, Names.toUInt32_succ, ← UInt32.add_assoc]
    rfl

/-- What is left of the supply after an edit is what drawing the names of its stems leaves. -/
theorem apply_names {s t : State} {edit : Edit} (h : s.apply edit = .ok t) :
    t.names = (s.drawAll edit.stems).2.names := by
  rw [(drawAll_eq edit.stems s).2]
  obtain ⟨_, rfl, -, rfl⟩ | ⟨_, rfl, -, rfl⟩ | ⟨snippet, rfl, rfl⟩ | ⟨hquiet, hsame⟩ :=
    apply_cases h
  · simp [Edit.stems, Names.advance]
  · simp [Edit.stems, Names.advance]
  · rfl
  · rw [hsame.names]
    cases edit with
    | enter | leave | note => simp [Edit.stems, Names.advance]
    | copyTo | skipTo | insert | refuse => exact hquiet.elim

/-- The temporary names that a run draws, up to its first fault. -/
def drawn (s : State) : List Edit → List String
  | [] => []
  | edit :: rest =>
    match s.apply edit with
    | .ok next => (s.drawAll edit.stems).1 ++ drawn next rest
    | .error _ => []

/-- A run that carries out all its edits numbers their stems one after the other. -/
theorem drawn_eq {edits : List Edit} {s t : State} (h : s.Runs edits t) :
    s.drawn edits = Names.numberedFrom s.names.next (edits.flatMap Edit.stems) := by
  induction edits generalizing s with
  | nil => rfl
  | cons edit rest ih =>
    obtain ⟨u, hu, ht⟩ := (runs_cons s t edit rest).mp h
    obtain ⟨hnames, hleft⟩ := drawAll_eq edit.stems s
    have hnext : u.names.next = s.names.next + edit.stems.length.toUInt32 := by
      rw [apply_names hu, hleft]
      rfl
    simp only [drawn, hu]
    rw [hnames, ih ht, hnext, List.flatMap_cons, Names.numberedFrom_append]

end State

namespace Node

/-- The stems of the temporary names that a declaration takes for itself. -/
def ownStems : Node → List String
  | .importDecl decl => if decl.kind = .named then ["mod"] else []
  | .exportAll .. => ["mod", "key"]
  | .exportFrom .. => ["mod"]
  | _ => []

def stems (tree : Node) : List String :=
  tree.nodes.flatMap ownStems

/-- The names of this module that a declaration binds or reads. -/
def ownNames : Node → List String
  | .importDecl decl => decl.specifiers.map Specifier.localName
  | .moduleDecl decl => [decl.name]
  | .exportVariables _ _ declarators => declarators.map Declarator.name
  | .exportDefinition _ _ name _ _ => [name]
  | .exportNames _ specifiers => specifiers.map Specifier.name
  | _ => []

def localNames (tree : Node) : List String :=
  tree.nodes.flatMap ownNames

theorem ownStems_subset {node : Node} {stem : String} (h : stem ∈ node.ownStems) :
    stem ∈ ["mod", "key"] := by
  cases node with
  | importDecl decl =>
    by_cases hkind : decl.kind = .named
    · simp_all [ownStems]
    · simp [ownStems, hkind] at h
  | exportAll => exact h
  | exportFrom => simp_all [ownStems]
  | moduleDecl | exportValue | exportNothing | exportVariables | exportDefinition | exportNames
  | element => cases h

theorem legible_stems : Edit.Legible Edit.stems where
  skipTo _ := rfl
  insert _ h := h
  refuse _ := rfl
  enter _ := rfl
  leave := rfl

/-- A walk draws the names of a declaration itself before those of the declarations inside. -/
theorem reading_stems (node : Node) :
    node.reading Edit.stems = node.ownStems ++ node.children.flatMap (reading Edit.stems) := by
  cases node with
  | importDecl decl =>
    have hreading : (importDecl decl).reading Edit.stems =
        [] ++ decl.substitute.stems ++ [] := flatMap_replaceWhole legible_stems _ _
    obtain ⟨span, kind, specifiers, source⟩ := decl
    rw [hreading]
    cases kind with
    | default => cases specifiers <;> rfl
    | bare | named | unrecognized => rfl
  | moduleDecl | exportNothing | exportAll | exportFrom | exportNames => rfl
  | exportValue span target value =>
    rw [reading_exportValue legible_stems]
    simp [partReading, Edit.stems, ownStems, children]
  | exportDefinition span kind name definition isDefault =>
    rw [reading_exportDefinition legible_stems]
    simp [partReading, Edit.stems, ownStems, children]
  | exportVariables span kind declarators =>
    have hvalues : declarators.flatMap (declaratorReading Edit.stems) =
        (declarators.filterMap Declarator.value?).flatMap (reading Edit.stems) := by
      induction declarators with
      | nil => rfl
      | cons declarator rest ih =>
        rw [List.flatMap_cons, ih]
        cases declarator with
        | unset span name => rfl
        | set span name value =>
          have hvalue : declaratorReading Edit.stems (.set span name value) =
              value.reading Edit.stems := by simp [declaratorReading, partReading, Edit.stems]
          rw [hvalue]
          rfl
    rw [reading_exportVariables legible_stems, hvalues]
    rfl
  | element kind span children => exact reading_element legible_stems kind span children

theorem stems_eq (tree : Node) : (tree.edits Rule.standard).flatMap Edit.stems = tree.stems := by
  have hforest : ∀ forest : List Node,
      forest.flatMap (reading Edit.stems) = (forest.flatMap nodes).flatMap ownStems := by
    intro forest
    induction forest using forest_induction with
    | nil => rfl
    | cons node rest hinside hrest =>
      rw [List.flatMap_cons, reading_stems, hinside, hrest, List.flatMap_cons, nodes_eq,
        List.flatMap_append, List.flatMap_cons, List.append_assoc]
  simpa [stems, reading] using hforest [tree]

end Node

/-- A temporary name that a splice draws is the name of a declaration of the same tree only if that
one is spelt `mod$` or `key$` and a number below the count of the temporary names. None is if and
only if no declaration goes by the name that is drawn with some number. -/
theorem temporaries_clash_only_when_spelt_alike (source output : String) (options : Options)
    (tree : Node) (h : ({ options } : Splicer).splice source tree = .ok output) :
    let drawn := (State.start source options).drawn (tree.edits Rule.standard)
    (∀ name ∈ tree.localNames, name ∈ drawn →
      ∃ stem ∈ ["mod", "key"], ∃ k < tree.stems.length, name = temporary stem k) ∧
    ((∀ name ∈ tree.localNames, name ∉ drawn) ↔
      ∀ k stem, tree.stems[k]? = some stem → temporary stem (k % 2 ^ 32) ∉ tree.localNames) := by
  intro drawn
  obtain ⟨t, hruns, -⟩ := Splicer.splice_eq_ok h
  have hmem : ∀ name, name ∈ drawn ↔
      ∃ k stem, tree.stems[k]? = some stem ∧ name = temporary stem (k % 2 ^ 32) := by
    intro name
    have hdrawn : drawn = Names.numberedFrom 0 tree.stems := by
      rw [← tree.stems_eq]
      exact State.drawn_eq hruns
    rw [hdrawn, Names.mem_numberedFrom]
    simp only [UInt32.zero_add]
    rfl
  refine ⟨?_, ?_⟩
  · intro name _ hname
    obtain ⟨k, stem, hk, rfl⟩ := (hmem name).mp hname
    obtain ⟨hlt, -⟩ := List.getElem?_eq_some_iff.mp hk
    obtain ⟨decl, -, hstem⟩ := List.mem_flatMap.mp (List.mem_of_getElem? hk)
    exact ⟨stem, Node.ownStems_subset hstem, k % 2 ^ 32, Nat.lt_of_le_of_lt (Nat.mod_le _ _) hlt,
      rfl⟩
  · constructor
    · intro hfresh k stem hk hlocal
      exact hfresh _ hlocal ((hmem _).mpr ⟨k, stem, hk, rfl⟩)
    · intro hfresh name hlocal hname
      obtain ⟨k, stem, hk, rfl⟩ := (hmem name).mp hname
      exact hfresh k stem hk hlocal

/-- Names that look like temporary ones but have other numbers, in a tree where the temporary names
of the declarations go from zero to two. -/
theorem temporaries_clash_only_when_spelt_alike_numbered :
    let source := "import \x7b a as mod$7 \x7d from 'm';\nexport * from 'n';\nexport \x7b key$1 \x7d;"
    let output := "var mod$0 = require('m');\nvar mod$7 = mod$0.a;\nvar mod$1 = require('n');\n" ++
      "for (var key$2 in mod$1) module.exports[key$2] = mod$1[key$2];\n" ++
      "module.exports.key$1 = key$1;"
    let tree := Node.element .program ⟨0, 68⟩
      [.importDecl ⟨⟨0, 31⟩, .named, [⟨"a", some "mod$7"⟩], ⟨⟨27, 30⟩, "'m'"⟩⟩,
        .exportAll ⟨32, 50⟩ ⟨⟨46, 49⟩, "'n'"⟩, .exportNames ⟨51, 68⟩ [⟨"key$1", none⟩]]
    ({} : Splicer).splice source tree = .ok output ∧
      ∀ name ∈ tree.localNames,
        name ∉ (State.start source {}).drawn (tree.edits Rule.standard) := by
  intro source output tree
  have hsplice : ({} : Splicer).splice source tree = .ok output := by decide +kernel
  have hfresh := (temporaries_clash_only_when_spelt_alike source output {} tree hsplice).2
  refine ⟨hsplice, hfresh.mpr ?_⟩
  have hstems : tree.stems = ["mod", "mod", "key"] := by decide
  have hnames : tree.localNames = ["mod$7", "key$1"] := by decide
  rw [hstems, hnames]
  rintro (_ | _ | _ | k) stem hk
  · obtain rfl := Option.some.inj hk
    decide
  · obtain rfl := Option.some.inj hk
    decide
  · obtain rfl := Option.some.inj hk
    decide
  · cases hk

/-- An imported name that is spelt like the first temporary name: the module is loaded under it, and
the import then reads its member from itself. -/
theorem temporary_clashes_with_import :
    let source := "import \x7b mod$0 \x7d from 'm';"
    let tree := Node.element .program ⟨0, 26⟩
      [.importDecl ⟨⟨0, 26⟩, .named, [⟨"mod$0", none⟩], ⟨⟨22, 25⟩, "'m'"⟩⟩]
    ({} : Splicer).splice source tree =
        .ok "var mod$0 = require('m');\nvar mod$0 = mod$0.mod$0;" ∧
      "mod$0" ∈ tree.localNames ∧
      "mod$0" ∈ (State.start source {}).drawn (tree.edits Rule.standard) := by
  intro source tree
  exact ⟨by decide +kernel, by decide, by decide +kernel⟩

end ModSplice
