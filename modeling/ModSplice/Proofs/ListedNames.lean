import ModSplice.Lowering
import ModSplice.Proofs.Reference
import ModSplice.Proofs.Runs

/-!
# Names in lists

An entry of an import list names the member first and the variable behind `as`, one of an export
list the variable first and the public name behind it. Both become specifiers on the way to their
statements. The statements say the same as the lists: an import binds the variable to the member,
an export assigns the variable, or the member of another module, to the public name.
-/
namespace ModSplice

open Text

namespace Parsed

/-- A path that lies in the text is spelt as the text has it. -/
theorem raw_sourceOf {base : UInt32} {text : String} {range : Range}
    (h : (range.toSpan base).fits text = true) :
    (sourceOf base text range).raw =
      between text (range.toSpan base).start (range.toSpan base).stop := by
  obtain ⟨hle, hstart, hstop⟩ := (Span.fits_iff _ _).mp h
  simp [sourceOf, slice?, hle, hstart, hstop]

theorem mapM_map_eq_ok {α β γ ε : Type} {write : α → β} {read : β → Except ε γ} {value : α → γ}
    (h : ∀ x, read (write x) = .ok (value x)) (xs : List α) :
    (xs.map write).mapM read = .ok (xs.map value) := by
  have hread : read ∘ write = fun x => pure (value x) := funext h
  rw [List.mapM_map, hread, List.mapM_pure]
  rfl

namespace ImportName

/-- `binding`, or `imported as binding`. -/
def plain (entry : String × Option String) : ImportName :=
  .named entry.1 (entry.2.map .identifier) false

/-- The member comes first in a specifier; without a name of its own it has that of the variable. -/
def specifier (entry : String × Option String) : Specifier :=
  ⟨entry.2.getD entry.1, entry.2.map fun _ => entry.1⟩

@[simp] theorem localName_specifier (entry : String × Option String) :
    (specifier entry).localName = entry.1 := by
  obtain ⟨binding, imported?⟩ := entry
  cases imported? <;> rfl

theorem toSpecifier_plain (entry : String × Option String) :
    toSpecifier (plain entry) = .ok (specifier entry) := by
  obtain ⟨binding, imported?⟩ := entry
  cases imported? <;> rfl

end ImportName

namespace ExportName

def plain (entry : String × Option String) : ExportName :=
  .named (.identifier entry.1) (entry.2.map .identifier) false

def specifier (entry : String × Option String) : Specifier :=
  ⟨entry.1, entry.2⟩

theorem toSpecifier_plain (entry : String × Option String) :
    toSpecifier (plain entry) = .ok (specifier entry) := by
  obtain ⟨name, exported?⟩ := entry
  cases exported? <;> rfl

end ExportName

theorem importKind_plain {entries : List (String × Option String)} (h : entries ≠ []) :
    importKind (entries.map ImportName.plain) = .named := by
  obtain _ | ⟨first, _ | ⟨second, rest⟩⟩ := entries
  · exact absurd rfl h
  · rfl
  · simp [importKind, ImportName.plain, ImportName.isNamed]

namespace Item

theorem toNode_importing {entries : List (String × Option String)} (h : entries ≠ [])
    (base : UInt32) (text : String) (range literal : Range) :
    toNode base text (.importing range false (entries.map .plain) literal) =
      .ok (.importDecl ⟨range.toSpan base, .named, entries.map ImportName.specifier,
        sourceOf base text literal⟩) := by
  have hnode : toNode base text (.importing range false (entries.map .plain) literal) = (do
      .ok (.importDecl ⟨range.toSpan base, importKind (entries.map .plain),
        ← (entries.map ImportName.plain).mapM ImportName.toSpecifier,
        sourceOf base text literal⟩)) := by
    obtain _ | ⟨first, _ | ⟨second, rest⟩⟩ := entries
    · exact absurd rfl h
    · rfl
    · rfl
  rw [hnode, importKind_plain h, mapM_map_eq_ok ImportName.toSpecifier_plain]
  rfl

theorem toNode_exportNames (entries : List (String × Option String)) (base : UInt32)
    (text : String) (range : Range) (literal? : Option Range) :
    toNode base text (.exportNames range false (entries.map .plain) literal?) =
      .ok (literal?.elim
        (.exportNames (range.toSpan base) (entries.map ExportName.specifier))
        fun literal => .exportFrom (range.toSpan base) (sourceOf base text literal)
          (entries.map ExportName.specifier)) := by
  simp only [toNode, Bool.false_eq_true, if_false, mapM_map_eq_ok ExportName.toSpecifier_plain]
  cases literal? <;> rfl

end Item
end Parsed

namespace Snippet

/-- A loaded module in front of lines is one more line. -/
theorem loadLine_lines (o : Options) (name raw : String) (line : Specifier → String)
    {specifiers : List Specifier} (h : specifiers ≠ []) :
    loadLine o name raw ++ "\n" ++ lines line specifiers =
      String.intercalate "\n" (("var " ++ name ++ " = " ++ o.loader ++ "(" ++ raw ++ ");") ::
        specifiers.map line) := by
  rw [String.intercalate_cons_of_ne_nil (by simpa using h)]
  simp only [loadLine, lines, Options.load, String.append_assoc]
  rfl

end Snippet

namespace State

/-- The state after a declaration that has made way for a text with some temporary names. -/
def replaced (s : State) (span : Span) (text : String) (temporaries : Nat) : State :=
  { s with
    cursor := { s.cursor with
      position := span.stop
      output := s.cursor.output ++ between s.cursor.source s.cursor.position span.start ++ text }
    names := s.names.advance temporaries }

theorem run_replaceWhole {s : State} {span : Span} (hspan : span.fits s.cursor.source = true)
    (hposition : s.cursor.position ≤ span.start) (snippet : Snippet) :
    s.run (replaceWhole span (.insert snippet)) =
      (s.replaced span (snippet.text s.options s.names.next) snippet.stems.length, none) := by
  obtain ⟨hle, hstart, hstop⟩ := (Span.fits_iff _ _).mp hspan
  change s.Runs _ _
  simp only [replaceWhole, runs_cons, runs_nil]
  exact ⟨_, s.apply_copyTo ⟨hstart, hposition⟩, _, rfl, _, apply_skipTo _ ⟨hstop, hle⟩, rfl⟩

end State

/-- The item has a node, and the walk over it puts the statements, each on a line of its own, in the
place of the span, with this many temporary names. -/
def Parsed.Item.MakesWay (base : UInt32) (s : State) (item : Parsed.Item) (span : Span)
    (statements : List String) (temporaries : Nat) : Prop :=
  ∃ node, item.toNode base s.cursor.source = .ok node ∧
    s.walk Rule.standard node =
      (s.replaced span (String.intercalate "\n" statements) temporaries, none)

namespace State

open Parsed.Item

/-- Lists of names keep their direction. In an import list an entry is the variable and, if it has
another name, the member; in an export list it is the variable or member and, if it has another
name, the public name. -/
theorem lists_keep_direction (s : State) (base : UInt32) (range : Parsed.Range)
    (entries : List (String × Option String)) (hentries : entries ≠ [])
    (hrange : (range.toSpan base).fits s.cursor.source = true)
    (hposition : s.cursor.position ≤ (range.toSpan base).start) :
    (∀ literal : Parsed.Range, (literal.toSpan base).fits s.cursor.source = true →
      let raw := between s.cursor.source (literal.toSpan base).start (literal.toSpan base).stop
      let loaded := temporary "mod" s.names.next.toNat
      let loading := "var " ++ loaded ++ " = " ++ s.options.loader ++ "(" ++ raw ++ ");"
      MakesWay base s (.importing range false (entries.map .plain) literal) (range.toSpan base)
          (loading :: entries.map fun entry =>
            "var " ++ entry.1 ++ " = " ++ loaded ++ "." ++ entry.2.getD entry.1 ++ ";") 1 ∧
        MakesWay base s (.exportNames range false (entries.map .plain) (some literal))
          (range.toSpan base)
          (loading :: entries.map fun entry =>
            s.options.exportsObject ++ "." ++ entry.2.getD entry.1 ++ " = " ++ loaded ++ "." ++
              entry.1 ++ ";") 1) ∧
      MakesWay base s (.exportNames range false (entries.map .plain) none) (range.toSpan base)
        (entries.map fun entry =>
          s.options.exportsObject ++ "." ++ entry.2.getD entry.1 ++ " = " ++ entry.1 ++ ";") 0 := by
  refine ⟨fun literal hliteral => ⟨?_, ?_⟩, ?_⟩
  · refine ⟨_, Parsed.Item.toNode_importing hentries .., (run_replaceWhole hrange hposition
      (.bindMembers _ _)).trans ?_⟩
    rw [Snippet.text, Snippet.loadLine_lines _ _ _ _ (by simpa using hentries),
      Parsed.raw_sourceOf hliteral]
    simp only [List.map_map, Function.comp_def, Parsed.ImportName.localName_specifier]
    rfl
  · refine ⟨_, Parsed.Item.toNode_exportNames .., (run_replaceWhole hrange hposition
      (.forwardMembers _ _)).trans ?_⟩
    rw [Snippet.text, Snippet.loadLine_lines _ _ _ _ (by simpa using hentries),
      Parsed.raw_sourceOf hliteral, List.map_map]
    rfl
  · refine ⟨_, Parsed.Item.toNode_exportNames .., (run_replaceWhole hrange hposition
      (.publishNames _)).trans ?_⟩
    rw [Snippet.text, Snippet.lines, List.map_map]
    rfl

/-- In each list one entry has a second name and one has not; seven names have been drawn before,
and what follows the declaration is not reached. -/
theorem lists_keep_direction_mixed :
    MakesWay 1 { State.start "import \x7b a, b as c \x7d from 'm'; f()" {} with names := ⟨7⟩ }
        (.importing ⟨1, 31⟩ false
          [.named "a" none false, .named "c" (some (.identifier "b")) false] ⟨27, 30⟩)
        ⟨0, 30⟩ ["var mod$7 = require('m');", "var a = mod$7.a;", "var c = mod$7.b;"] 1 ∧
      MakesWay 1 { State.start "export \x7b a, b as c \x7d from 'm'; f()" {} with names := ⟨7⟩ }
        (.exportNames ⟨1, 31⟩ false
          [.named (.identifier "a") none false,
            .named (.identifier "b") (some (.identifier "c")) false] (some ⟨27, 30⟩))
        ⟨0, 30⟩ ["var mod$7 = require('m');", "module.exports.a = mod$7.a;",
          "module.exports.c = mod$7.b;"] 1 ∧
      MakesWay 1 { State.start "export \x7b a, b as c \x7d; f()" {} with names := ⟨7⟩ }
        (.exportNames ⟨1, 22⟩ false
          [.named (.identifier "a") none false,
            .named (.identifier "b") (some (.identifier "c")) false] none)
        ⟨0, 21⟩ ["module.exports.a = a;", "module.exports.c = b;"] 0 := by
  refine ⟨?_, ?_, ?_⟩
  · exact ((lists_keep_direction _ 1 ⟨1, 31⟩ [("a", none), ("c", some "b")] (by decide) (by decide)
      (by decide)).1 ⟨27, 30⟩ (by decide)).1
  · exact ((lists_keep_direction _ 1 ⟨1, 31⟩ [("a", none), ("b", some "c")] (by decide) (by decide)
      (by decide)).1 ⟨27, 30⟩ (by decide)).2
  · exact (lists_keep_direction _ 1 ⟨1, 22⟩ [("a", none), ("b", some "c")] (by decide) (by decide)
      (by decide)).2

end State
end ModSplice
