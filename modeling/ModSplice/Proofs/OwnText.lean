import ModSplice.Proofs.Boundary
import ModSplice.Proofs.LeadingComment
import ModSplice.Proofs.Nesting

/-!
# Declarations and their own text

What the scan finds stands in the source as it is told: the span of a node cuts out the text that
was read, piece by piece, and the span of its path cuts out the path. A declaration is taken whole,
so the next one begins behind it.
-/
namespace ModSplice

open Text

namespace Legacy

/-! ## Places -/

/-- Each declaration ends before the next one begins. -/
theorem scan_disjoint (forms : Forms) (templates : Templates) (past : List Char) (offset : Nat)
    (cs : List Char) :
    (scan forms templates past offset 0 cs).Pairwise fun x y =>
      x.1 + byteSize x.2.text ≤ y.1 := by
  refine (scan_pairwise forms cs templates past offset 0).imp_of_mem ?_
  intro x y hx hy hlt
  obtain ⟨front, back, hsplit, hplace, -⟩ := scan_found forms cs templates past offset 0 y hy
  -- no declaration is taken inside another
  have hfree := ((scan_selects forms cs templates past offset front back hsplit).mp
    ⟨y, hy, hplace⟩).2 x hx
  rw [Covers] at hfree
  omega

theorem declarations_disjoint (forms : Forms) (source : List Char) :
    (declarations forms source).Pairwise fun a b => a.span.stop ≤ b.span.start := by
  rw [declarations, List.pairwise_map]
  refine (scan_disjoint forms [] [] 0 source).imp ?_
  intro x y h
  simpa only [toNode_start, toNode_stop] using h

/-- A node tells of a declaration that is written in the source. -/
theorem exists_written_of_mem {forms : Forms} {source : List Char} {node : Node}
    (h : node ∈ declarations forms source) :
    ∃ front found rest, source = front ++ text found ++ rest ∧ Written found rest ∧
      node = found.toNode (byteSize front) := by
  obtain ⟨⟨offset, found⟩, hx, rfl⟩ := List.mem_map.mp h
  obtain ⟨front, back, rfl, rfl, hfound⟩ := scan_found forms source [] [] 0 0 _ hx
  obtain ⟨rest, rfl, hwritten, -⟩ := ofChars?_eq_some_iff.mp hfound
  exact ⟨front, found, rest, by simp, hwritten, by simp⟩

/-! ## Texts -/

/-- `module`, a name, `from` and a path, with blanks in between, and behind the path a semicolon on
the same line if there is one. -/
inductive IsModuleText (name path : String) : String → Prop
  | intro {gap gap' gap'' tail : String} :
    gap ≠ "" → IsBlanks gap.toList → IsName name.toList → gap' ≠ "" → IsBlanks gap'.toList →
    IsBlanks gap''.toList → (tail = "" ∨ ∃ indent, IsIndent indent.toList ∧ tail = indent ++ ";") →
    IsModuleText name path
      ("module" ++ gap ++ name ++ gap' ++ "from" ++ gap'' ++ path ++ tail)

/-- `export`, `default` and a semicolon, with blanks in between. -/
inductive IsBareText : String → Prop
  | intro {gap gap' : String} : gap ≠ "" → IsBlanks gap.toList → IsBlanks gap'.toList →
    IsBareText ("export" ++ gap ++ "default" ++ gap' ++ ";")

/-- A node in an older form, and the text that its span cuts out of a source. -/
inductive Tells (source : String) : Node → Prop
  | moduleFrom {decl : ModuleDecl} {text : String} :
    slice? source decl.span.start decl.span.stop = some text →
    IsModuleText decl.name decl.source.raw text →
    slice? source decl.source.span.start decl.source.span.stop = some decl.source.raw →
    decl.span.contains decl.source.span = true → Tells source (.moduleDecl decl)
  | bareDefault {span : Span} {text : String} :
    slice? source span.start span.stop = some text → IsBareText text →
    Tells source (.exportNothing span "default")

theorem isModuleText_of_written {lead name path tail rest : List Char}
    (h : Written (.moduleFrom lead name path tail) rest) :
    IsModuleText (String.ofList name) (String.ofList path)
      (String.ofList (lead ++ path ++ tail)) := by
  cases h with
  | @moduleFrom gap name gap' gap'' path tail rest hgap hblanks hname hgap' hblanks' hblanks'' _
      htail =>
    have hends : String.ofList tail = "" ∨
        ∃ indent, IsIndent indent.toList ∧ String.ofList tail = indent ++ ";" := by
      rcases htail with ⟨indent, hindent, rfl⟩ | ⟨rfl, -⟩
      · exact .inr ⟨String.ofList indent, by simpa using hindent, by rw [String.ofList_append]⟩
      · exact .inl rfl
    have htext : IsModuleText (String.ofList name) (String.ofList path)
        ("module" ++ String.ofList gap ++ String.ofList name ++ String.ofList gap' ++ "from" ++
          String.ofList gap'' ++ String.ofList path ++ String.ofList tail) :=
      .intro (by simpa using hgap) (by simpa using hblanks) (by simpa using hname)
        (by simpa using hgap') (by simpa using hblanks') (by simpa using hblanks'') hends
    simpa only [String.ofList_append] using htext

theorem isBareText_of_written {text rest : List Char} (h : Written (.bareDefault text) rest) :
    IsBareText (String.ofList text) := by
  cases h with
  | @bareDefault gap gap' rest hgap hblanks hblanks' =>
    have htext : IsBareText ("export" ++ String.ofList gap ++ "default" ++ String.ofList gap' ++
        ";") := .intro (by simpa using hgap) (by simpa using hblanks) (by simpa using hblanks')
    simpa only [String.ofList_append] using htext

/-- A slice by characters. -/
theorem slice?_ofList (front part rest : List Char) :
    slice? (String.ofList (front ++ part ++ rest)) (byteSize front)
      (byteSize front + byteSize part) = some (String.ofList part) := by
  rw [byteSize_eq, byteSize_eq, String.ofList_append, String.ofList_append, slice?_parts]

/-- A declaration that is written in a source is told by its node. -/
theorem Written.tells {found : Legacy} {rest : List Char} (h : Written found rest)
    (front : List Char) :
    Tells (String.ofList (front ++ text found ++ rest)) (found.toNode (byteSize front)) := by
  cases found with
  | moduleFrom lead name path tail =>
    have hwhole := slice?_ofList front (lead ++ path ++ tail) rest
    have hpath := slice?_ofList (front ++ lead) path (tail ++ rest)
    have hsplit : front ++ lead ++ path ++ (tail ++ rest) =
        front ++ (lead ++ path ++ tail) ++ rest := by simp
    rw [hsplit, byteSize_append] at hpath
    refine .moduleFrom hwhole (isModuleText_of_written h) hpath (Span.contains_iff.mpr ⟨?_, ?_⟩)
    · simp only
      omega
    · simp only [byteSize_append]
      omega
  | bareDefault text =>
    exact .bareDefault (slice?_ofList front text rest) (isBareText_of_written h)

theorem Tells.isBoundary {source : String} {node : Node} (h : Tells source node) :
    isBoundary source node.span.start = true ∧ isBoundary source node.span.stop = true := by
  have hslice : ∃ text, slice? source node.span.start node.span.stop = some text := by
    cases h with
    | moduleFrom hwhole => exact ⟨_, hwhole⟩
    | bareDefault hwhole => exact ⟨_, hwhole⟩
  obtain ⟨text, hslice⟩ := hslice
  obtain ⟨hcond, -⟩ := Option.ite_none_right_eq_some.mp hslice
  simp only [Bool.and_eq_true] at hcond
  exact ⟨hcond.1.2, hcond.2⟩

theorem tells_of_mem {forms : Forms} {source : String} {node : Node}
    (h : node ∈ (extract forms source).nodes) : Tells source node := by
  obtain ⟨front, found, rest, hsource, hwritten, rfl⟩ := exists_written_of_mem h
  have htells := hwritten.tells front
  rwa [← hsource, String.ofList_toList] at htells

/-- The nodes of an extract tell the text at their spans, which lie one behind the other on
boundaries of the source. -/
theorem extract_nodes_tell_text (forms : Forms) (source : String) :
    let nodes := (extract forms source).nodes
    nodes.Pairwise (fun a b => a.span.stop ≤ b.span.start) ∧
      ∀ node ∈ nodes, node.span.start < node.span.stop ∧
        isBoundary source node.span.start = true ∧ isBoundary source node.span.stop = true ∧
        Tells source node := by
  intro nodes
  refine ⟨declarations_disjoint forms source.toList, fun node hnode => ?_⟩
  have htells := tells_of_mem hnode
  exact ⟨declarations_nonempty forms source.toList node hnode, htells.isBoundary.1,
    htells.isBoundary.2, htells⟩

/-- Two declarations side by side, one of them with a name of two bytes and broken over lines. -/
theorem extract_nodes_tell_text_adjacent :
    let source := "é module ñ\n from 'm'\t;export default;"
    let decl : ModuleDecl := ⟨⟨3, 24⟩, "ñ", ⟨⟨19, 22⟩, "'m'"⟩⟩
    let bare := Node.exportNothing ⟨24, 39⟩ "default"
    (extract {} source).nodes = [.moduleDecl decl, bare] ∧ Tells source (.moduleDecl decl) ∧
      Tells source bare := by
  intro source decl bare
  have hscan : scan {} [] [] 0 0 source.toList =
      [(3, .moduleFrom "module ñ\n from ".toList ['ñ'] "'m'".toList ['\t', ';']),
        (24, .bareDefault "export default;".toList)] := by decide +kernel
  have hnodes : (extract {} source).nodes = [.moduleDecl decl, bare] := by
    change declarations {} source.toList = _
    rw [declarations, hscan]
    rfl
  obtain ⟨-, htells⟩ := extract_nodes_tell_text {} source
  rw [hnodes] at htells
  exact ⟨hnodes, (htells _ (by simp)).2.2.2, (htells _ (by simp)).2.2.2⟩

end Legacy
end ModSplice
