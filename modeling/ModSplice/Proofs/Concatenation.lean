import ModSplice.Proofs.Runs
import ModSplice.Proofs.Shift

/-!
# Texts in pieces

A text may be spliced piece by piece, as long as the temporary names are numbered on. A run over a
piece is matched step by step by a run over the whole text. At the seam the run over the whole text
may still hold text of the first piece back; the first thing that touches the text copies it, since
no declaration does anything before it has copied what comes before it.
-/
namespace ModSplice

open Text

variable {lead tail out : String}

/-- The second state is the first one with text around its source and in front of its output. -/
structure Embedded (lead tail out : String) (s w : State) : Prop where
  sourceEq : w.cursor.source = lead ++ s.cursor.source ++ tail
  positionEq : w.cursor.position = lead.utf8ByteSize + s.cursor.position
  outputEq : w.cursor.output = out ++ s.cursor.output
  namesEq : w.names = s.names
  optionsEq : w.options = s.options
  boundary : isBoundary s.cursor.source s.cursor.position = true

theorem Edit.Quiet.shift {edit : Edit} (h : edit.Quiet) (k : Nat) : (edit.shift k).Quiet := by
  cases edit <;> exact h

namespace Embedded

theorem congr {s t w u : State} (h : Embedded lead tail out s w) (hs : s.SameText t)
    (hw : w.SameText u) : Embedded lead tail out t u := by
  obtain ⟨h₁, h₂, h₃, h₄, h₅, h₆⟩ := h
  constructor <;> simp only [hs.cursor, hs.names, hs.options, hw.cursor, hw.names, hw.options,
    h₁, h₂, h₃, h₄, h₅, h₆]

theorem canReach {s w : State} {offset : Nat} (h : Embedded lead tail out s w)
    (hr : s.cursor.CanReach offset) : w.cursor.CanReach (lead.utf8ByteSize + offset) := by
  constructor
  · rw [h.sourceEq]
    exact isBoundary_embed hr.1 lead tail
  · have := hr.2
    rw [h.positionEq]
    omega

/-- An edit over the piece is matched by the moved edit over the whole. -/
theorem apply {s t w : State} {edit : Edit} (h : Embedded lead tail out s w)
    (ht : s.apply edit = .ok t) :
    ∃ u, w.apply (edit.shift lead.utf8ByteSize) = .ok u ∧ Embedded lead tail out t u := by
  obtain ⟨k, rfl, hr, rfl⟩ | ⟨k, rfl, hr, rfl⟩ | ⟨snippet, rfl, rfl⟩ | ⟨hq, hsame⟩ :=
    State.apply_cases ht
  · refine ⟨_, State.apply_copyTo w (h.canReach hr), h.sourceEq, rfl, ?_, h.namesEq, h.optionsEq,
      hr.1⟩
    have hb := between_embed h.boundary hr.1 hr.2 lead tail
    simp only [Cursor.copied, h.sourceEq, h.positionEq, h.outputEq]
    rw [hb, String.append_assoc]
  · exact ⟨_, State.apply_skipTo w (h.canReach hr), h.sourceEq, rfl, h.outputEq, h.namesEq,
      h.optionsEq, hr.1⟩
  · refine ⟨_, rfl, h.sourceEq, h.positionEq, ?_, ?_, h.optionsEq, h.boundary⟩
    · simp only [State.insert, Cursor.write, h.outputEq, h.namesEq, h.optionsEq,
        String.append_assoc]
    · simp only [State.insert, h.namesEq]
  · obtain ⟨u, hu, hsame'⟩ := w.apply_quiet (hq.shift lead.utf8ByteSize)
    exact ⟨u, hu, h.congr hsame hsame'⟩

theorem runs {s t w : State} {edits : List Edit} (h : Embedded lead tail out s w)
    (ht : s.Runs edits t) :
    ∃ u, w.Runs (edits.map (Edit.shift lead.utf8ByteSize)) u ∧ Embedded lead tail out t u := by
  induction edits generalizing s w with
  | nil =>
    obtain rfl := (State.runs_nil s t).mp ht
    exact ⟨w, (State.runs_nil w w).mpr rfl, h⟩
  | cons edit rest ih =>
    obtain ⟨s', hs', ht'⟩ := (State.runs_cons s t edit rest).mp ht
    obtain ⟨w', hw', h'⟩ := h.apply hs'
    obtain ⟨u, hu, hu'⟩ := ih h' ht'
    exact ⟨u, (State.runs_cons w u _ _).mpr ⟨w', hw', hu⟩, hu'⟩

end Embedded

/-- The first edit that touches the text copies. -/
def LeadsWithCopy : List Edit → Prop
  | [] => True
  | .copyTo _ :: _ => True
  | .skipTo _ :: _ => False
  | .insert _ :: _ => False
  | _ :: rest => LeadsWithCopy rest

namespace LeadsWithCopy

theorem append {a b : List Edit} (ha : LeadsWithCopy a) (hb : LeadsWithCopy b) :
    LeadsWithCopy (a ++ b) := by
  induction a with
  | nil => exact hb
  | cons edit a ih => cases edit <;> simp_all [LeadsWithCopy]

theorem within {edits : List Edit} (h : LeadsWithCopy edits) (node : Node) :
    LeadsWithCopy (ModSplice.within node edits) :=
  append h (b := [.leave]) trivial

theorem settle {inside replacement : List Edit} (v : Verdict) (node : Node)
    (hi : LeadsWithCopy inside) (hr : LeadsWithCopy replacement) :
    LeadsWithCopy (v.settle node inside replacement) := by
  cases v with
  | replace => exact hr
  | descend => exact within hi node
  | note descent =>
    cases descent with
    | onward | led =>
      rw [Verdict.settle_note (by decide)]
      exact within hi node
    | withheld => trivial

theorem of_quiet {edit : Edit} {rest : List Edit} (h : LeadsWithCopy (edit :: rest))
    (hq : edit.Quiet) : LeadsWithCopy rest := by
  cases edit with
  | enter node | leave | note node => exact h
  | copyTo _ | skipTo _ | insert _ | refuse _ => exact hq.elim

end LeadsWithCopy

namespace Node

mutual

/-- No declaration touches the text before it has copied what comes before it. -/
theorem edits_leadsWithCopy (rules : List Rule) : ∀ node : Node,
    LeadsWithCopy (node.edits rules)
  | .importDecl _ | .moduleDecl _ | .exportNothing _ _ | .exportAll _ _ | .exportFrom _ _ _
  | .exportNames _ _ => LeadsWithCopy.settle _ _ trivial trivial
  | .exportValue _ _ value => LeadsWithCopy.settle _ _ (edits_leadsWithCopy rules value) trivial
  | .exportVariables span kind declarators => by
    simp only [edits]
    cases verdict rules (.exportVariables span kind declarators) with
    | replace => trivial
    | descend | note =>
      exact LeadsWithCopy.settle _ _ (valuesEdits_leadsWithCopy rules declarators) trivial
  | .exportDefinition _ _ _ definition _ =>
    LeadsWithCopy.settle _ _ (edits_leadsWithCopy rules definition) trivial
  | .element _ _ children =>
    LeadsWithCopy.settle _ _ (allEdits_leadsWithCopy rules children) trivial

theorem allEdits_leadsWithCopy (rules : List Rule) : ∀ nodes : List Node,
    LeadsWithCopy (allEdits rules nodes)
  | [] => trivial
  | node :: rest =>
    LeadsWithCopy.append (edits_leadsWithCopy rules node) (allEdits_leadsWithCopy rules rest)

theorem valuesEdits_leadsWithCopy (rules : List Rule) : ∀ declarators : List Declarator,
    LeadsWithCopy (valuesEdits rules declarators)
  | [] => trivial
  | .unset _ _ :: rest => valuesEdits_leadsWithCopy rules rest
  | .set _ _ value :: rest =>
    LeadsWithCopy.append (edits_leadsWithCopy rules value) (valuesEdits_leadsWithCopy rules rest)

end

end Node

variable {first done : String}

/-- The run over the second piece has touched nothing yet. The run over the whole has dealt with
the first piece but for the text it holds back, which would make up `done`. -/
structure Seam (first done : String) (s w : State) : Prop where
  sourceEq : w.cursor.source = first ++ s.cursor.source
  position : s.cursor.position = 0
  output : s.cursor.output = ""
  namesEq : w.names = s.names
  optionsEq : w.options = s.options
  boundary : isBoundary first w.cursor.position = true
  held : w.cursor.output ++ between first w.cursor.position first.utf8ByteSize = done

/-- The run over the whole, continued to where the run over the second piece stands, has the first
output and then that run's own. -/
structure Joined (first done : String) (s w : State) : Prop where
  sourceEq : w.cursor.source = first ++ s.cursor.source
  namesEq : w.names = s.names
  boundary : isBoundary s.cursor.source s.cursor.position = true
  boundary' : isBoundary w.cursor.source w.cursor.position = true
  before : w.cursor.position ≤ first.utf8ByteSize + s.cursor.position
  outputEq : w.cursor.output ++
    between w.cursor.source w.cursor.position (first.utf8ByteSize + s.cursor.position) =
      done ++ s.cursor.output

theorem Embedded.joined {s w : State} (h : Embedded first "" done s w) :
    Joined first done s w := by
  have hs : w.cursor.source = first ++ s.cursor.source := by simpa using h.sourceEq
  refine ⟨hs, h.namesEq, h.boundary, ?_, Nat.le_of_eq h.positionEq, ?_⟩
  · rw [hs, h.positionEq]
    exact isBoundary_append_left h.boundary first
  · rw [h.positionEq, between_self, h.outputEq, String.append_empty]

namespace Seam

theorem congr {s t w u : State} (h : Seam first done s w) (hs : s.SameText t)
    (hw : w.SameText u) : Seam first done t u := by
  obtain ⟨h₁, h₂, h₃, h₄, h₅, h₆, h₇⟩ := h
  constructor <;> simp only [hs.cursor, hs.names, hs.options, hw.cursor, hw.names, hw.options,
    h₁, h₂, h₃, h₄, h₅, h₆, h₇]

/-- What is held back, up to an offset of the second piece. -/
theorem held_append {s w : State} {offset : Nat} (h : Seam first done s w)
    (ho : isBoundary s.cursor.source offset = true) :
    w.cursor.output ++
        between (first ++ s.cursor.source) w.cursor.position (first.utf8ByteSize + offset) =
      done ++ between s.cursor.source 0 offset := by
  have hsize := isBoundary_size first
  have hfirst := between_embed h.boundary hsize (isBoundary_le h.boundary) "" s.cursor.source
  have hsecond := between_embed (isBoundary_zero s.cursor.source) ho (Nat.zero_le _) first ""
  simp only [String.utf8ByteSize_empty, Nat.zero_add, String.empty_append, Nat.add_zero,
    String.append_empty] at hfirst hsecond
  rw [← between_append (q := first.utf8ByteSize)
    (isBoundary_append_right h.boundary s.cursor.source)
    (isBoundary_append_right hsize s.cursor.source) (isBoundary_append_left ho first)
    (isBoundary_le h.boundary) (Nat.le_add_right ..), ← String.append_assoc, hfirst, hsecond,
    h.held]

theorem joined {s w : State} (h : Seam first done s w) : Joined first done s w := by
  refine ⟨h.sourceEq, h.namesEq, ?_, ?_, ?_, ?_⟩
  · rw [h.position]
    exact isBoundary_zero _
  · rw [h.sourceEq]
    exact isBoundary_append_right h.boundary _
  · rw [h.position]
    exact isBoundary_le h.boundary
  · rw [h.sourceEq, h.position, h.held_append (isBoundary_zero _), h.output, between_self]

/-- The first copy brings the two runs into step. -/
theorem copyTo {s t w : State} {offset : Nat} (h : Seam first done s w)
    (ht : s.apply (.copyTo offset) = .ok t) :
    ∃ u, w.apply (.copyTo (first.utf8ByteSize + offset)) = .ok u ∧
      Embedded first "" done t u := by
  obtain ⟨hr, rfl⟩ := (State.apply_copyTo_eq_ok s t offset).mp ht
  have hreach : w.cursor.CanReach (first.utf8ByteSize + offset) := by
    refine ⟨?_, Nat.le_trans (isBoundary_le h.boundary) (Nat.le_add_right ..)⟩
    rw [h.sourceEq]
    exact isBoundary_append_left hr.1 first
  refine ⟨_, State.apply_copyTo w hreach, ?_, rfl, ?_, h.namesEq, h.optionsEq, hr.1⟩
  · simpa [Cursor.copied] using h.sourceEq
  · simp only [Cursor.copied, h.sourceEq, h.held_append hr.1, h.output, h.position,
      String.empty_append]

/-- A run over the second piece is matched by a run over the whole. -/
theorem runs {s t w : State} {edits : List Edit} (h : Seam first done s w)
    (hl : LeadsWithCopy edits) (ht : s.Runs edits t) :
    ∃ u, w.Runs (edits.map (Edit.shift first.utf8ByteSize)) u ∧ Joined first done t u := by
  induction edits generalizing s w with
  | nil =>
    obtain rfl := (State.runs_nil s t).mp ht
    exact ⟨w, (State.runs_nil w w).mpr rfl, h.joined⟩
  | cons edit rest ih =>
    obtain ⟨s', hs', ht'⟩ := (State.runs_cons s t edit rest).mp ht
    simp only [List.map_cons, State.runs_cons]
    obtain ⟨k, rfl, -⟩ | ⟨k, rfl, -⟩ | ⟨snippet, rfl, -⟩ | ⟨hq, hsame⟩ := State.apply_cases hs'
    · obtain ⟨w', hw', he⟩ := h.copyTo hs'
      obtain ⟨u, hu, hj⟩ := he.runs ht'
      exact ⟨u, ⟨w', hw', hu⟩, hj.joined⟩
    · exact hl.elim
    · exact hl.elim
    · -- only the path and the notes change, so the two runs still stand at the seam
      obtain ⟨w', hw', hsame'⟩ := w.apply_quiet (hq.shift first.utf8ByteSize)
      obtain ⟨u, hu, hj⟩ := ih (h.congr hsame hsame') (hl.of_quiet hq) ht'
      exact ⟨u, ⟨w', hw', hu⟩, hj⟩

end Seam

/-- Finished, the run over the whole has both outputs. -/
theorem Joined.finish {s w : State} {output : String} (h : Joined first done s w)
    (hs : s.cursor.finish = .ok output) : w.cursor.finish = .ok (done ++ output) := by
  have hsize : isBoundary w.cursor.source w.cursor.source.utf8ByteSize = true :=
    isBoundary_size _
  have hmid : isBoundary w.cursor.source (first.utf8ByteSize + s.cursor.position) = true := by
    rw [h.sourceEq]
    exact isBoundary_append_left h.boundary first
  have hrest := between_embed h.boundary (isBoundary_size _) (isBoundary_le h.boundary) first ""
  rw [s.cursor.finish_eq_ok h.boundary, Except.ok.injEq] at hs
  rw [w.cursor.finish_eq_ok h.boundary', ← between_append h.boundary' hmid hsize h.before
    (isBoundary_le hmid), ← String.append_assoc, h.outputEq, ← hs]
  simp only [h.sourceEq, String.utf8ByteSize_append, String.append_empty] at hrest ⊢
  rw [hrest, String.append_assoc]

namespace Verdict

def inner (inside : List Edit) : Verdict → List Edit
  | .descend | .note .onward | .note .led => inside
  | .replace | .note .withheld => []

theorem inner_append (v : Verdict) (a b : List Edit) :
    v.inner (a ++ b) = v.inner a ++ v.inner b := by
  cases v with
  | replace | descend => rfl
  | note descent => cases descent <;> rfl

theorem inner_map (v : Verdict) (f : Edit → Edit) (a : List Edit) :
    v.inner (a.map f) = (v.inner a).map f := by
  cases v with
  | replace | descend => rfl
  | note descent => cases descent <;> rfl

/-- Around the inner edits there is nothing that touches the text, so whatever they come to is what
the edits of the node come to, and the other way round. -/
theorem runs_inner {v : Verdict} {node : Node} {inside : List Edit} {s t : State}
    (h : s.Runs (v.settle node inside []) t) :
    ∃ t', s.Runs (v.inner inside) t' ∧ t'.SameText t := by
  have hnote : (s.note node).SameText s := ⟨rfl, rfl, rfl⟩
  cases v with
  | replace => exact ⟨t, h, rfl, rfl, rfl⟩
  | descend => exact State.runs_of_within h
  | note descent =>
    cases descent with
    | onward | led =>
      rw [settle_note (by decide)] at h
      obtain ⟨u, hu, ht⟩ := (State.runs_cons s t _ _).mp h
      obtain rfl := Except.ok.inj hu
      obtain ⟨t', ht', hsame⟩ := State.runs_of_within ht
      obtain ⟨t'', ht'', hsame'⟩ := State.runs_congr hnote ht'
      exact ⟨t'', ht'', hsame'.symm.trans hsame⟩
    | withheld =>
      obtain ⟨u, hu, ht⟩ := (State.runs_cons s t _ _).mp h
      obtain rfl := Except.ok.inj hu
      obtain rfl := (State.runs_nil _ t).mp ht
      exact ⟨s, (State.runs_nil s s).mpr rfl, hnote.symm⟩

theorem runs_settle {v : Verdict} {inside : List Edit} {s t : State}
    (h : s.Runs (v.inner inside) t) (node : Node) :
    ∃ t', s.Runs (v.settle node inside []) t' ∧ t.SameText t' := by
  cases v with
  | replace => exact ⟨t, h, rfl, rfl, rfl⟩
  | descend =>
    have henter : s.SameText (s.enter node) := ⟨rfl, rfl, rfl⟩
    obtain ⟨t', ht', hsame⟩ := State.runs_congr henter h
    exact ⟨t'.leave, State.runs_within s t' node inside ht', hsame.trans ⟨rfl, rfl, rfl⟩⟩
  | note descent =>
    cases descent with
    | onward | led =>
      have henter : s.SameText ((s.note node).enter node) := ⟨rfl, rfl, rfl⟩
      obtain ⟨t', ht', hsame⟩ := State.runs_congr henter h
      have hrun := State.runs_within (s.note node) t' node inside ht'
      rw [settle_note (by decide)]
      exact ⟨t'.leave, (State.runs_cons s _ _ _).mpr ⟨_, rfl, hrun⟩, hsame.trans ⟨rfl, rfl, rfl⟩⟩
    | withheld =>
      obtain rfl := (State.runs_nil s t).mp h
      exact ⟨s.note node, (State.runs_cons s _ _ _).mpr ⟨_, rfl, (State.runs_nil _ _).mpr rfl⟩,
        rfl, rfl, rfl⟩

end Verdict

/-- An element is judged by its kind alone. -/
theorem verdict_element (rules : List Rule) (kind : ElementKind) (a b : Span)
    (as bs : List Node) :
    verdict rules (.element kind a as) = verdict rules (.element kind b bs) := by
  have h : Rule.accepts (.element kind a as) = Rule.accepts (.element kind b bs) := by
    funext rule
    cases rule <;> rfl
  simp only [verdict, h]

theorem Node.allEdits_append (rules : List Rule) (a b : List Node) :
    Node.allEdits rules (a ++ b) = Node.allEdits rules a ++ Node.allEdits rules b := by
  induction a with
  | nil => rfl
  | cons node a ih => simp only [List.cons_append, Node.allEdits, ih, List.append_assoc]

theorem Node.allEdits_map_shift_zero (rules : List Rule) (nodes : List Node) :
    (Node.allEdits rules nodes).map (Edit.shift 0) = Node.allEdits rules nodes := by
  rw [← Node.allEdits_shift, Node.shiftAll_zero]

/-- A walk over a program comes to what the edits of its children come to, as far as the rules let
the walk get to them. -/
theorem yields_program {rules : List Rule} {source : String} {options : Options} {n m : Names}
    {span : Span} {children : List Node} {output : String} :
    State.Yields rules source options n (.element .program span children) output m ↔
      ∃ t, { State.start source options with names := n }.Runs
          ((verdict rules (.element .program ⟨0, 0⟩ [])).inner (Node.allEdits rules children)) t ∧
        t.cursor.finish = .ok output ∧ t.names = m := by
  simp only [State.Yields, State.walk, Node.edits,
    verdict_element rules .program span ⟨0, 0⟩ children []]
  constructor
  · rintro ⟨t, hrun, hfinish, hnames⟩
    obtain ⟨t', hrun', hsame⟩ := Verdict.runs_inner hrun
    exact ⟨t', hrun', hsame.cursor ▸ hfinish, hsame.names ▸ hnames⟩
  · rintro ⟨t, hrun, hfinish, hnames⟩
    obtain ⟨t', hrun', hsame⟩ := Verdict.runs_settle hrun (.element .program span children)
    exact ⟨t', hrun', hsame.cursor ▸ hfinish, hsame.names ▸ hnames⟩

theorem LeadsWithCopy.inner {edits : List Edit} (h : LeadsWithCopy edits) (v : Verdict) :
    LeadsWithCopy (v.inner edits) := by
  cases v with
  | replace => trivial
  | descend => exact h
  | note descent =>
    cases descent with
    | onward | led => exact h
    | withheld => trivial

/-- Over a longer text the first piece is dealt with as before, and then the run stands at the
seam. -/
theorem first_reaches_seam {second : String} {options : Options} {n : Names} {t : State}
    {edits : List Edit} (hrun : { State.start first options with names := n }.Runs edits t)
    (hfinish : t.cursor.finish = .ok done) :
    ∃ u, { State.start (first ++ second) options with names := n }.Runs
        (edits.map (Edit.shift 0)) u ∧
      Seam first done { State.start second options with names := t.names } u := by
  have hstart : Embedded "" second "" { State.start first options with names := n }
      { State.start (first ++ second) options with names := n } := by
    refine ⟨?_, ?_, ?_, rfl, rfl, isBoundary_zero first⟩ <;> simp [State.start]
  obtain ⟨u, hu, he⟩ := hstart.runs hrun
  obtain ⟨hsource, hoptions⟩ := State.runs_keeps hrun
  have ht : t.cursor.source = first := hsource
  have hb := he.boundary
  rw [t.cursor.finish_eq_ok hb, ht, Except.ok.injEq] at hfinish
  have hsourceEq := he.sourceEq
  have hpositionEq := he.positionEq
  have houtputEq := he.outputEq
  simp only [ht, String.empty_append, String.utf8ByteSize_empty, Nat.zero_add]
    at hsourceEq hpositionEq houtputEq
  refine ⟨u, by simpa using hu, hsourceEq, rfl, rfl, he.namesEq, he.optionsEq.trans hoptions,
    ?_, ?_⟩
  · rw [hpositionEq, ← ht]
    exact hb
  · rw [hpositionEq, houtputEq, hfinish]

/-- Splicing a text in pieces and keeping the supply of names is splicing it whole: the outputs
follow one another. The trees need not fit their texts, and the rules may be any. -/
theorem yields_append (rules : List Rule) (options : Options) (first second : String)
    (a b whole : Span) (as bs : List Node) (n m k : Names) (x y : String)
    (hfirst : State.Yields rules first options n (.element .program a as) x m)
    (hsecond : State.Yields rules second options m (.element .program b bs) y k) :
    State.Yields rules (first ++ second) options n
      (.element .program whole (as ++ Node.shiftAll first.utf8ByteSize bs)) (x ++ y) k := by
  rw [yields_program] at hfirst hsecond ⊢
  obtain ⟨t, hrun, hfinish, rfl⟩ := hfirst
  obtain ⟨t', hrun', hfinish', rfl⟩ := hsecond
  obtain ⟨u, hu, hseam⟩ := first_reaches_seam hrun hfinish
  obtain ⟨w, hw, hjoined⟩ := hseam.runs ((Node.allEdits_leadsWithCopy rules bs).inner _) hrun'
  refine ⟨w, ?_, hjoined.finish hfinish', hjoined.namesEq⟩
  rw [Node.allEdits_append, Node.allEdits_shift, Verdict.inner_append, Verdict.inner_map,
    ← Node.allEdits_map_shift_zero rules as, Verdict.inner_map, State.runs_append]
  exact ⟨u, hu, hw⟩

/-- A letter is held back at the seam, and the second piece numbers its names on from the first. -/
theorem yields_append_held :
    let first := "import é from 'm';x"
    let second := "import \x7b a \x7d from 'n'"
    let as := [Node.importDecl ⟨⟨0, 19⟩, .default, [⟨"é", none⟩], ⟨⟨15, 18⟩, "'m'"⟩⟩]
    let bs := [Node.importDecl ⟨⟨0, 21⟩, .named, [⟨"a", none⟩], ⟨⟨18, 21⟩, "'n'"⟩⟩]
    let x := "var é = require('m');x"
    let y := "var mod$3 = require('n');\nvar a = mod$3.a;"
    State.Yields Rule.standard first {} ⟨3⟩ (.element .program ⟨0, 20⟩ as) x ⟨3⟩ ∧
      State.Yields Rule.standard second {} ⟨3⟩ (.element .program ⟨0, 21⟩ bs) y ⟨4⟩ ∧
      State.Yields Rule.standard (first ++ second) {} ⟨3⟩
        (.element .program ⟨7, 5⟩ (as ++ Node.shiftAll first.utf8ByteSize bs)) (x ++ y) ⟨4⟩ := by
  intro first second as bs x y
  have hfirst : State.Yields Rule.standard first {} ⟨3⟩ (.element .program ⟨0, 20⟩ as) x ⟨3⟩ :=
    by decide +kernel
  have hsecond : State.Yields Rule.standard second {} ⟨3⟩ (.element .program ⟨0, 21⟩ bs) y ⟨4⟩ :=
    by decide +kernel
  exact ⟨hfirst, hsecond, yields_append _ _ _ _ _ _ _ _ _ _ _ _ _ _ hfirst hsecond⟩

end ModSplice
