import Mathlib.Data.List.Nodup
import ModSplice.Proofs.Attachment
import ModSplice.Proofs.Reference
import ModSplice.Proofs.Scan
import ModSplice.Proofs.Trace

/-!
# The older forms from end to end

A declaration in an older form is blanked out before the parser sees the text, hung into the tree
afterwards, and replaced on the walk. None is lost on the way: the edits of a tree hold one block
for each of its nodes of these kinds, in the order of the tree, and a run that carries them all out
leaves one statement for each and leaves its range out. Since the ranges tile the source, the order
of the tree can only be the order in which the declarations were found.
-/
namespace ModSplice

open Text

/-- The blocks stand in the list, one behind the other and whole, whatever is in between. -/
def Holds {α : Type} : List (List α) → List α → Prop
  | [], _ => True
  | block :: rest, xs => ∃ front back, xs = front ++ block ++ back ∧ Holds rest back

namespace Holds

variable {α : Type} {a b : List (List α)} {xs ys : List α}

theorem append_left (h : Holds a xs) (ys : List α) : Holds a (ys ++ xs) := by
  cases a with
  | nil => trivial
  | cons block rest =>
    obtain ⟨front, back, rfl, hrest⟩ := h
    exact ⟨ys ++ front, back, by simp, hrest⟩

theorem append (ha : Holds a xs) (hb : Holds b ys) : Holds (a ++ b) (xs ++ ys) := by
  induction a generalizing xs with
  | nil => exact hb.append_left xs
  | cons block rest ih =>
    obtain ⟨front, back, rfl, hrest⟩ := ha
    exact ⟨front, back ++ ys, by simp, ih hrest⟩

theorem append_right (h : Holds a xs) (ys : List α) : Holds a (xs ++ ys) := by
  have hnil : Holds [] ys := trivial
  simpa using h.append hnil

theorem sublist (h : Holds b xs) (hs : a.Sublist b) : Holds a xs := by
  induction hs generalizing xs with
  | slnil => exact h
  | cons block _ ih =>
    obtain ⟨front, back, rfl, hrest⟩ := h
    exact (ih hrest).append_left _
  | cons_cons block _ ih =>
    obtain ⟨front, back, rfl, hrest⟩ := h
    exact ⟨front, back, rfl, ih hrest⟩

theorem mem {block : List α} {x : α} (h : Holds a xs) (hb : block ∈ a) (hx : x ∈ block) :
    x ∈ xs := by
  induction a generalizing xs with
  | nil => cases hb
  | cons first rest ih =>
    obtain ⟨front, back, rfl, hrest⟩ := h
    rcases List.mem_cons.mp hb with rfl | hb
    · simp [hx]
    · simp [ih hrest hb]

theorem within {edits : List Edit} {blocks : List (List Edit)} (h : Holds blocks edits)
    (node : Node) : Holds blocks (ModSplice.within node edits) :=
  (h.append_right [.leave]).append_left [.enter node]

theorem keepPart {edits : List Edit} {blocks : List (List Edit)} (h : Holds blocks edits)
    (node part : Node) : Holds blocks (ModSplice.keepPart node part edits) :=
  ((h.within node).append_right [.copyTo part.span.stop]).append_left [.skipTo part.span.start]

end Holds

namespace Label

/-- The range and the statement of a declaration of a kind that has an older form. -/
def older? : Label → Option (Span × Snippet)
  | .moduleDecl decl => some (decl.span, .bind decl.name decl.source.raw)
  | .exportNothing span target => some (span, .assignUndefined target)
  | _ => none

def blocks (labels : List Label) : List (List Edit) :=
  (labels.filterMap older?).map fun x => replaceWhole x.1 (.insert x.2)

theorem blocks_append (a b : List Label) : blocks (a ++ b) = blocks a ++ blocks b := by
  simp [blocks]

end Label

namespace Node

open Label

mutual

/-- A walk replaces every declaration of these kinds, in the order of the tree, also below other
declarations. -/
theorem edits_hold : ∀ node : Node, Holds (blocks node.labels) (node.edits Rule.standard)
  | .importDecl _ | .exportAll _ _ | .exportFrom _ _ _ | .exportNames _ _ => trivial
  | .moduleDecl _ | .exportNothing _ _ => ⟨[], [], rfl, trivial⟩
  | .exportValue span target value => by
    have h := ((edits_hold value).keepPart (.exportValue span target value) value).append_left
      [.copyTo span.start, .insert (.assign target)]
    exact h.append_right _
  | .exportVariables span kind declarators => by
    have h := declaratorEdits_hold (.exportVariables span kind declarators) declarators (some kind)
    cases declarators with
    | nil => trivial
    | cons first rest => exact h.append_left [.copyTo span.start]
  | .exportDefinition span kind name definition isDefault => by
    have h := (edits_hold definition).keepPart
      (.exportDefinition span kind name definition isDefault) definition
    exact (h.append_right _).append_left [.copyTo span.start]
  | .element kind span children => (allEdits_hold children).within (.element kind span children)

theorem allEdits_hold : ∀ nodes : List Node,
    Holds (blocks (labelsOfAll nodes)) (allEdits Rule.standard nodes)
  | [] => trivial
  | node :: rest => by
    rw [labelsOfAll, blocks_append]
    exact (edits_hold node).append (allEdits_hold rest)

theorem declaratorEdits_hold (node : Node) : ∀ (declarators : List Declarator)
    (kind? : Option VarKind),
    Holds (blocks (labelsOfValues declarators))
      (declaratorEdits Rule.standard node kind? declarators)
  | [], _ => trivial
  | .unset _ _ :: rest, _ => (declaratorEdits_hold node rest none).append_left _
  | .set _ _ value :: rest, _ => by
    rw [labelsOfValues, blocks_append]
    exact (((edits_hold value).keepPart node value).append_left _).append
      (declaratorEdits_hold node rest none)

end

end Node

namespace Patch

/-- What is left behind where a range has been replaced: the text, then the range left out. -/
def pieces (patch : Patch) : List Piece :=
  [.written patch.text, .skipped patch.span]

end Patch

namespace Tiles

variable {source : String} {p q : Nat} {pieces : List Piece}

/-- Ranges that are left out start behind the beginning of the tiling. -/
theorem le_of_skipped (h : Tiles source p pieces q) {span : Span}
    (hs : .skipped span ∈ pieces) : p ≤ span.start := by
  induction h with
  | nil => cases hs
  | copied hle _ _ ih =>
    have hs := List.mem_of_ne_of_mem (by simp) hs
    exact Nat.le_trans hle (ih hs)
  | skipped hle _ _ ih =>
    rcases List.mem_cons.mp hs with heq | hs
    · cases heq
      exact Nat.le_refl _
    · exact Nat.le_trans hle (ih hs)
  | written _ _ ih => exact ih (List.mem_of_ne_of_mem (by simp) hs)

/-- No range with some text in it is left out twice. -/
theorem count_skipped_le (h : Tiles source p pieces q) {span : Span} (hs : span.start < span.stop) :
    pieces.count (.skipped span) ≤ 1 := by
  induction h with
  | nil => simp
  | copied _ _ _ ih | written _ _ ih => simpa [List.count_cons] using ih
  | @skipped start mid _ rest _ _ htiles ih =>
    rw [List.count_cons]
    by_cases heq : span = ⟨start, mid⟩
    · have hlater : .skipped span ∉ rest := by
        intro hmem
        have hle := htiles.le_of_skipped hmem
        subst heq
        exact absurd hs (Nat.not_lt.mpr hle)
      rw [List.count_eq_zero.mpr hlater]
      split <;> omega
    · have hne : (Piece.skipped ⟨start, mid⟩ == Piece.skipped span) = false := by
        simpa using fun h => heq h.symm
      rw [hne]
      exact ih

theorem span_of_pieces {patch : Patch} (h : Tiles source p patch.pieces q) :
    patch.span = ⟨p, q⟩ := by
  obtain ⟨⟨start, stop⟩, text⟩ := patch
  cases h with
  | written _ h =>
    cases h with
    | skipped _ _ h =>
      cases h
      rfl

/-- Replaced ranges follow one another in the order in which they are left behind. -/
theorem patches_ordered {patches : List Patch} (h : Tiles source p pieces q)
    (hp : Holds (patches.map Patch.pieces) pieces) :
    (∀ patch ∈ patches, p ≤ patch.span.start) ∧
      patches.Pairwise fun a b => a.span.stop ≤ b.span.start := by
  induction patches generalizing p pieces with
  | nil => exact ⟨by simp, .nil⟩
  | cons patch rest ih =>
    obtain ⟨front, back, rfl, hrest⟩ := hp
    obtain ⟨m, hthrough, hback⟩ := h.split
    obtain ⟨k, hfront, hpatch⟩ := hthrough.split
    obtain ⟨hlater, hpairwise⟩ := ih hback hrest
    have hspan := hpatch.span_of_pieces
    have hpk : p ≤ k := hfront.le
    have hkm : k ≤ m := hpatch.le
    refine ⟨?_, List.pairwise_cons.mpr ⟨?_, hpairwise⟩⟩
    · intro x hx
      rcases List.mem_cons.mp hx with rfl | hx
      · rw [hspan]
        exact hpk
      · have := hlater x hx
        omega
    · intro x hx
      rw [hspan]
      exact hlater x hx

end Tiles

theorem Snippet.text_eq_of_stems {snippet : Snippet} (h : snippet.stems = []) (o : Options)
    (n m : UInt32) : snippet.text o n = snippet.text o m := by
  cases snippet with
  | bindMembers | forwardAll | forwardMembers => cases h
  | _ => rfl

namespace State

/-- What a replaced declaration leaves behind. -/
theorem trace_replaceWhole {s t : State} {span : Span} {snippet : Snippet}
    (h : s.Runs (replaceWhole span (.insert snippet)) t) :
    s.trace (replaceWhole span (.insert snippet)) =
      [.copied ⟨s.cursor.position, span.start⟩, .written (snippet.text s.options s.names.next),
        .skipped span] := by
  simp only [replaceWhole, runs_cons, runs_nil] at h ⊢
  obtain ⟨u, hu, v, hv, w, hw, -⟩ := h
  simp only [trace, hu, hv, hw, pieces]
  obtain ⟨-, rfl⟩ := (apply_copyTo_eq_ok s u _).mp hu
  obtain rfl := Except.ok.inj hv
  rfl

/-- Blocks of edits that are all carried out leave their statements behind, in the same order. -/
theorem trace_holds {edits : List Edit} {s t : State} (found : List (Span × Snippet))
    (hstems : ∀ x ∈ found, x.2.stems = []) (hrun : s.Runs edits t)
    (h : Holds (found.map fun x => replaceWhole x.1 (.insert x.2)) edits) :
    Holds ((found.map fun x => ⟨x.1, x.2.text s.options 0⟩).map Patch.pieces)
      (s.trace edits) := by
  induction found generalizing s edits with
  | nil => trivial
  | cons x rest ih =>
    obtain ⟨front, back, rfl, hback⟩ := h
    obtain ⟨v, hthrough, hlast⟩ := (runs_append s t _ back).mp hrun
    obtain ⟨u, hfront, hblock⟩ := (runs_append s v front _).mp hthrough
    have hu : u.options = s.options := (runs_keeps hfront).2
    have hv : v.options = s.options := (runs_keeps hthrough).2
    have htext := Snippet.text_eq_of_stems (hstems x (by simp)) s.options u.names.next 0
    have hrest := ih (fun y hy => hstems y (by simp [hy])) hlast hback
    rw [hv] at hrest
    refine ⟨s.trace front ++ [.copied ⟨u.cursor.position, x.1.start⟩], v.trace back, ?_, hrest⟩
    rw [trace_append hthrough, trace_append hfront, trace_replaceWhole hblock, hu, htext]
    simp [Patch.pieces]

end State

theorem Splicer.splice_eq_ok {splicer : Splicer} {source output : String} {tree : Node}
    (h : splicer.splice source tree = .ok output) :
    ∃ t, (State.start source splicer.options).Runs (tree.edits splicer.rules) t ∧
      t.cursor.finish = .ok output := by
  simp only [splice] at h
  split at h
  · cases h
  · rename_i t ht
    exact ⟨t, ht, h⟩

theorem Label.older?_stems {label : Label} {x : Span × Snippet} (h : label.older? = some x) :
    x.2.stems = [] := by
  cases label with
  | moduleDecl decl | exportNothing span target =>
    obtain rfl := Option.some.inj h
    rfl
  | importDecl | exportValue | exportVariables | exportDefinition | exportAll | exportFrom
  | exportNames | element => cases h

/-- Declarations that start one behind the other are replaced in that order, wherever in the tree
they hang: the ranges that a run leaves out cannot come in any other order. -/
theorem patches_hold {source : String} {s t : State} {tree : Node} {p q : Nat}
    (found : List (Span × Snippet)) (hfound : found.Subperm (tree.labels.filterMap Label.older?))
    (hnonempty : ∀ x ∈ found, x.1.start < x.1.stop)
    (hordered : found.Pairwise fun x y => x.1.start < y.1.start)
    (hrun : s.Runs (tree.edits Rule.standard) t)
    (htiles : Tiles source p (s.trace (tree.edits Rule.standard)) q) :
    Holds ((found.map fun x => ⟨x.1, x.2.text s.options 0⟩).map Patch.pieces)
      (s.trace (tree.edits Rule.standard)) := by
  obtain ⟨hung, hperm, hsublist⟩ := hfound
  have hstems : ∀ x ∈ hung, x.2.stems = [] := by
    intro x hx
    obtain ⟨label, -, hlabel⟩ := List.mem_filterMap.mp (hsublist.subset hx)
    exact Label.older?_stems hlabel
  have hedits := (Node.edits_hold tree).sublist (hsublist.map _)
  have hhung := State.trace_holds hung hstems hrun hedits
  -- in the order of the tree they do not overlap either, so this is the order of their starts
  have hdisjoint := (htiles.patches_ordered hhung).2
  rw [List.pairwise_map] at hdisjoint
  have hstarts : hung.Pairwise fun x y => x.1.start < y.1.start := by
    refine hdisjoint.imp_of_mem ?_
    intro x y hx _ hxy
    exact Nat.lt_of_lt_of_le (hnonempty x (hperm.subset hx)) hxy
  have heq : hung = found :=
    List.Perm.eq_of_pairwise (fun _ _ _ _ hxy hyx => absurd hxy (Nat.lt_asymm hyx)) hstarts
      hordered hperm
  rwa [heq] at hhung

namespace Legacy

def snippet : Legacy → Snippet
  | .moduleFrom _ name path _ => .bind (String.ofList name) (String.ofList path)
  | .bareDefault _ => .assignUndefined "default"

theorem labels_toNode (offset : Nat) (found : Legacy) :
    (found.toNode offset).labels = [(found.toNode offset).label] := by
  cases found <;> rfl

theorem older?_toNode (offset : Nat) (found : Legacy) :
    (found.toNode offset).label.older? = some ((found.toNode offset).span, found.snippet) := by
  cases found <;> rfl

/-- No temporary name is needed, so the number of the next one does not matter. -/
theorem snippet_text (options : Options) (offset : Nat) (found : Legacy) :
    found.snippet.text options 0 = (found.toNode offset).statements options 0 := by
  cases found <;> rfl

variable (forms : Forms) (source : List Char)

theorem labelsOfAll_declarations :
    Node.labelsOfAll (declarations forms source) = (declarations forms source).map Node.label := by
  rw [Node.labelsOfAll_eq, declarations, List.flatMap_map, List.map_map, List.map_eq_flatMap]
  exact List.flatMap_congr fun x _ => labels_toNode x.1 x.2

/-- No two declarations are the same. -/
theorem count_label {node : Node} (h : node ∈ declarations forms source) :
    ((declarations forms source).map Node.label).count node.label = 1 := by
  have hnodup : ((declarations forms source).map Node.label).Nodup := by
    rw [declarations, List.map_map, List.nodup_iff_pairwise_ne, List.pairwise_map]
    refine (scan_pairwise forms source [] [] 0 0).imp ?_
    intro x y hlt heq
    have hspan := congrArg Label.older? heq
    simp only [Function.comp_apply, older?_toNode, Option.some.injEq, Prod.mk.injEq] at hspan
    have hstart := congrArg Span.start hspan.1
    rw [toNode_start, toNode_start] at hstart
    omega
  exact List.count_eq_one_of_mem hnodup (List.mem_map_of_mem h)

/-- The ranges and the statements of the declarations, as they are found in the tree. -/
theorem older_declarations :
    ((declarations forms source).map Node.label).filterMap Label.older? =
      (scan forms [] [] 0 0 source).map fun x => ((x.2.toNode x.1).span, x.2.snippet) := by
  rw [declarations, List.map_map, List.filterMap_map, ← List.filterMap_eq_map]
  exact List.filterMap_congr fun x _ => older?_toNode x.1 x.2

theorem older_nonempty :
    ∀ x ∈ ((declarations forms source).map Node.label).filterMap Label.older?,
      x.1.start < x.1.stop := by
  rw [older_declarations]
  intro x hx
  obtain ⟨y, hy, rfl⟩ := List.mem_map.mp hx
  exact declarations_nonempty forms source _ (List.mem_map_of_mem hy)

theorem older_pairwise :
    (((declarations forms source).map Node.label).filterMap Label.older?).Pairwise
      fun x y => x.1.start < y.1.start := by
  rw [older_declarations, List.pairwise_map]
  have h := declarations_pairwise forms source
  rwa [declarations, List.pairwise_map] at h

theorem older_patches (options : Options) :
    (((declarations forms source).map Node.label).filterMap Label.older?).map
        (fun x => Patch.mk x.1 (x.2.text options 0)) =
      (declarations forms source).map fun node => ⟨node.span, node.statements options 0⟩ := by
  rw [older_declarations, declarations, List.map_map, List.map_map]
  refine List.map_congr_left fun x _ => ?_
  simp only [Function.comp_apply, snippet_text options x.1]

end Legacy

/-- An output together with the pieces it is made of, in which every patch has been put in its
place: its text is written just where its range is left out. The patches come in the order of their
ranges, and no range is left out a second time. -/
structure ReplacedOnce (source output : String) (pieces : List Piece) (patches : List Patch) :
    Prop where
  pieced : ∃ p, Tiles source 0 pieces p ∧
    output = Piece.render source pieces ++ between source p source.utf8ByteSize
  placed : Holds (patches.map Patch.pieces) pieces
  ordered : patches.Pairwise fun a b => a.span.stop ≤ b.span.start
  once : ∀ patch ∈ patches, patch.span.start < patch.span.stop ∧
    pieces.count (.skipped patch.span) = 1

/-- A splice replaces the declarations that were found, if its tree has them all. -/
theorem splice_replaces (forms : Forms) {source output : String} {options : Options} {tree : Node}
    (hsplice : ({ options } : Splicer).splice source tree = .ok output)
    (htree : ((Legacy.declarations forms source.toList).map Node.label).Subperm tree.labels) :
    ReplacedOnce source output
      ((State.start source options).trace (tree.edits Rule.standard))
      ((Legacy.declarations forms source.toList).map fun node =>
        ⟨node.span, node.statements options 0⟩) := by
  let start := State.start source options
  let found := ((Legacy.declarations forms source.toList).map Node.label).filterMap Label.older?
  obtain ⟨t, hrun, hfinish⟩ := Splicer.splice_eq_ok hsplice
  have hextends : start.cursor.Extends (start.trace (tree.edits Rule.standard)) t.cursor := by
    have h := start.run_extends (tree.edits Rule.standard)
    rwa [show start.run (tree.edits Rule.standard) = (t, none) from hrun] at h
  have htiles : Tiles source 0 (start.trace (tree.edits Rule.standard)) t.cursor.position :=
    hextends.tiles
  have hfound : found.Subperm (tree.labels.filterMap Label.older?) := by
    obtain ⟨hung, hperm, hsublist⟩ := htree
    exact ⟨_, hperm.filterMap _, hsublist.filterMap _⟩
  have hplaced := patches_hold found hfound (Legacy.older_nonempty forms source.toList)
    (Legacy.older_pairwise forms source.toList) hrun htiles
  rw [Legacy.older_patches] at hplaced
  refine ⟨⟨t.cursor.position, htiles, ?_⟩, hplaced, (htiles.patches_ordered hplaced).2, ?_⟩
  · have hb : isBoundary t.cursor.source t.cursor.position = true :=
      hextends.isBoundary_position (isBoundary_zero source)
    rw [t.cursor.finish_eq_ok hb, Except.ok.injEq, hextends.output, hextends.source] at hfinish
    rw [← hfinish]
    simp [start, State.start]
  · intro patch hpatch
    have hmem : .skipped patch.span ∈ start.trace (tree.edits Rule.standard) :=
      hplaced.mem (List.mem_map_of_mem hpatch) (by simp [Patch.pieces])
    obtain ⟨node, hnode, rfl⟩ := List.mem_map.mp hpatch
    have hlt := Legacy.declarations_nonempty forms source.toList node hnode
    exact ⟨hlt, Nat.le_antisymm (htiles.count_skipped_le hlt) (List.count_pos_iff.mpr hmem)⟩

namespace Program

/-- Declarations in the older forms get through. Each comes into the tree of the parser's items
once, where all else stays in its order. If the declarations of that tree can be replaced, the range
of each, as it stood in the source, is left out once and its statement stands there, in the order in
which they were found. -/
theorem older_forms_replaced_once (forms : Forms) (source : String) (base : UInt32)
    (items : List Parsed.Item) (lowered : List Node)
    (hlower : Parsed.lower base source items = .ok lowered) :
    let legacy := (Legacy.extract forms source).nodes
    let before := Label.element .program ⟨0, source.utf8ByteSize⟩ :: Node.labelsOfAll lowered
    ∃ program, ofReport forms source (.script base items) = .ok program ∧
      before.Sublist program.tree.labels ∧
      program.tree.labels.Perm (before ++ legacy.map Node.label) ∧
      (∀ node ∈ legacy, program.tree.labels.count node.label = before.count node.label + 1) ∧
      ∀ (options : Options) (output : String),
        ({ options } : Splicer).splice source program.tree = .ok output →
        ReplacedOnce source output
          ((State.start source options).trace (program.tree.edits Rule.standard))
          (legacy.map fun node => ⟨node.span, node.statements options 0⟩) := by
  intro legacy before
  obtain ⟨hsublist, hperm⟩ := assemble_labels source lowered legacy
  have hlabels : Node.labelsOfAll legacy = legacy.map Node.label :=
    Legacy.labelsOfAll_declarations forms source.toList
  rw [hlabels] at hperm
  refine ⟨⟨assemble source lowered legacy, (Legacy.extract forms source).text⟩, ?_, hsublist, hperm,
    ?_, ?_⟩
  · simp only [ofReport, hlower]
    rfl
  · intro node hnode
    have hcount := Legacy.count_label forms source.toList hnode
    rw [hperm.count_eq, List.count_append]
    exact congrArg _ hcount
  · intro options output hsplice
    have htree : (legacy.map Node.label).Subperm (assemble source lowered legacy).labels :=
      (List.sublist_append_right _ _).subperm.trans hperm.symm.subperm
    exact splice_replaces forms hsplice htree

/-- One declaration inside the value of an exported variable, and one behind the export. -/
theorem older_forms_replaced_once_nested :
    let source := "export var f = function () \x7b module é from 'm'; \x7d;\nexport default;"
    let output := "var f = module.exports.f = function () \x7b var é = require('m'); \x7d;\n" ++
      "module.exports = undefined;"
    let items : List Parsed.Item := [.exportDeclaration ⟨1, 52⟩ (.bindings .var false
      [⟨⟨12, 51⟩, some "f", some (.function ⟨16, 51⟩ [])⟩])]
    let lowered := [Node.exportVariables ⟨0, 51⟩ .var [.set ⟨11, 50⟩ "f"
      (.element .expression ⟨15, 50⟩ [.element .function ⟨15, 50⟩ []])]]
    Parsed.lower 1 source items = .ok lowered ∧
      ∃ program, ofReport {} source (.script 1 items) = .ok program ∧
        ({} : Splicer).splice source program.tree = .ok output ∧
        ReplacedOnce source output
          ((State.start source {}).trace (program.tree.edits Rule.standard))
          [⟨⟨29, 48⟩, "var é = require('m');"⟩, ⟨⟨52, 67⟩, "module.exports = undefined;"⟩] := by
  intro source output items lowered
  have hlower : Parsed.lower 1 source items = .ok lowered := rfl
  obtain ⟨program, hprogram, -, -, -, hreplaced⟩ :=
    older_forms_replaced_once {} source 1 items lowered hlower
  have htree : assemble source lowered (Legacy.extract {} source).nodes = program.tree :=
    congrArg tree (Except.ok.inj hprogram)
  have hsplice : ({} : Splicer).splice source program.tree = .ok output := by
    rw [← htree]
    decide +kernel
  have hpatches : (Legacy.extract {} source).nodes.map
      (fun node => Patch.mk node.span (node.statements {} 0)) =
        [⟨⟨29, 48⟩, "var é = require('m');"⟩, ⟨⟨52, 67⟩, "module.exports = undefined;"⟩] := by
    decide +kernel
  refine ⟨hlower, program, hprogram, hsplice, ?_⟩
  rw [← hpatches]
  exact hreplaced {} output hsplice

end Program
end ModSplice
