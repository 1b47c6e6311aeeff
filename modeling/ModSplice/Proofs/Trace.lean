import ModSplice.Proofs.Runs
import ModSplice.Splice.Session

/-!
# What a cursor leaves behind

Every edit that is carried out leaves a piece: a range of the source that was copied, one that was
left out, or text of its own. The output is made of the pieces in order, and the ranges tile the
source up to the position, over whole sessions and whatever fails on the way.
-/
namespace ModSplice

open Text

inductive Piece where
  | copied (span : Span)
  | skipped (span : Span)
  | written (text : String)
  deriving DecidableEq, Repr

namespace Piece

def text (source : String) : Piece → String
  | .copied span => between source span.start span.stop
  | .skipped _ => ""
  | .written text => text

def render (source : String) : List Piece → String
  | [] => ""
  | piece :: rest => piece.text source ++ render source rest

@[simp] theorem render_nil (source : String) : render source [] = "" := rfl
@[simp] theorem render_cons (source : String) (piece : Piece) (rest : List Piece) :
    render source (piece :: rest) = piece.text source ++ render source rest := rfl

@[simp] theorem render_append (source : String) (a b : List Piece) :
    render source (a ++ b) = render source a ++ render source b := by
  induction a with
  | nil => simp
  | cons piece a ih => simp [ih, String.append_assoc]

end Piece

/-- The ranges of the pieces, copied and left out, follow one another from one offset to the other
without gap or overlap, each ending at a boundary. -/
inductive Tiles (source : String) : Nat → List Piece → Nat → Prop
  | nil (start : Nat) : Tiles source start [] start
  | copied {start mid stop : Nat} {rest : List Piece} (forward : start ≤ mid)
      (boundary : isBoundary source mid = true) (tiles : Tiles source mid rest stop) :
      Tiles source start (.copied ⟨start, mid⟩ :: rest) stop
  | skipped {start mid stop : Nat} {rest : List Piece} (forward : start ≤ mid)
      (boundary : isBoundary source mid = true) (tiles : Tiles source mid rest stop) :
      Tiles source start (.skipped ⟨start, mid⟩ :: rest) stop
  | written {start stop : Nat} {rest : List Piece} (text : String)
      (tiles : Tiles source start rest stop) :
      Tiles source start (.written text :: rest) stop

namespace Tiles

variable {source : String} {p q r : Nat} {a b : List Piece}

theorem append (ha : Tiles source p a q) (hb : Tiles source q b r) :
    Tiles source p (a ++ b) r := by
  induction ha with
  | nil => exact hb
  | copied hle hm _ ih => exact .copied hle hm (ih hb)
  | skipped hle hm _ ih => exact .skipped hle hm (ih hb)
  | written text _ ih => exact .written text (ih hb)

theorem le (h : Tiles source p a q) : p ≤ q := by
  induction h with
  | nil => exact Nat.le_refl _
  | copied hle _ _ ih => omega
  | skipped hle _ _ ih => omega
  | written _ _ ih => exact ih

theorem isBoundary_stop (h : Tiles source p a q) (hp : isBoundary source p = true) :
    isBoundary source q = true := by
  induction h with
  | nil => exact hp
  | copied _ hm _ ih => exact ih hm
  | skipped _ hm _ ih => exact ih hm
  | written _ _ ih => exact ih hp

/-- A tiling of joined pieces meets at some offset. -/
theorem split (h : Tiles source p (a ++ b) r) :
    ∃ q, Tiles source p a q ∧ Tiles source q b r := by
  induction a generalizing p with
  | nil => exact ⟨p, .nil p, h⟩
  | cons piece a ih =>
    cases h with
    | copied hle hm h =>
      obtain ⟨q, ha, hb⟩ := ih h
      exact ⟨q, .copied hle hm ha, hb⟩
    | skipped hle hm h =>
      obtain ⟨q, ha, hb⟩ := ih h
      exact ⟨q, .skipped hle hm ha, hb⟩
    | written text h =>
      obtain ⟨q, ha, hb⟩ := ih h
      exact ⟨q, .written text ha, hb⟩

end Tiles

/-- The second cursor is the first one after the given pieces. -/
structure Cursor.Extends (c : Cursor) (pieces : List Piece) (d : Cursor) : Prop where
  source : d.source = c.source
  output : d.output = c.output ++ Piece.render c.source pieces
  tiles : Tiles c.source c.position pieces d.position

namespace Cursor.Extends

variable {c d e : Cursor} {a b : List Piece}

theorem refl (c : Cursor) : c.Extends [] c :=
  ⟨rfl, by simp, .nil _⟩

theorem trans (h : c.Extends a d) (h' : d.Extends b e) : c.Extends (a ++ b) e where
  source := h'.source.trans h.source
  output := by rw [h'.output, h.output, h.source, Piece.render_append, String.append_assoc]
  tiles := h.tiles.append (h.source ▸ h'.tiles)

theorem isBoundary_position (h : c.Extends a d) (hc : isBoundary c.source c.position = true) :
    isBoundary d.source d.position = true :=
  h.source ▸ h.tiles.isBoundary_stop hc

end Cursor.Extends

namespace State

/-- The piece that an edit leaves behind when it is carried out. -/
def pieces (s : State) : Edit → List Piece
  | .copyTo offset => [.copied ⟨s.cursor.position, offset⟩]
  | .skipTo offset => [.skipped ⟨s.cursor.position, offset⟩]
  | .insert snippet => [.written (snippet.text s.options s.names.next)]
  | _ => []

/-- The pieces that a run leaves behind, up to its first fault. -/
def trace (s : State) : List Edit → List Piece
  | [] => []
  | edit :: rest =>
    match s.apply edit with
    | .ok next => s.pieces edit ++ trace next rest
    | .error _ => []

/-- One edit adds its own piece and nothing else. -/
theorem apply_extends {s t : State} {edit : Edit} (h : s.apply edit = .ok t) :
    s.cursor.Extends (s.pieces edit) t.cursor := by
  obtain ⟨k, rfl, hr, rfl⟩ | ⟨k, rfl, hr, rfl⟩ | ⟨snippet, rfl, rfl⟩ | ⟨hq, hsame⟩ :=
    apply_cases h
  · exact ⟨rfl, by simp [pieces, Piece.text, Cursor.copied], .copied hr.2 hr.1 (.nil _)⟩
  · exact ⟨rfl, by simp [pieces, Piece.text, Cursor.skipped], .skipped hr.2 hr.1 (.nil _)⟩
  · exact ⟨rfl, by simp [pieces, Piece.text, insert, Cursor.write], .written _ (.nil _)⟩
  · cases edit with
    | enter | leave | note =>
      rw [hsame.cursor]
      exact .refl _
    | copyTo | skipTo | insert | refuse => exact hq.elim

/-- The edits that are passed over after a fault leave the cursor alone. -/
theorem foldl_pass_cursor (edits : List Edit) (s : State) :
    (edits.foldl pass s).cursor = s.cursor := by
  induction edits generalizing s with
  | nil => rfl
  | cons edit edits ih =>
    rw [List.foldl_cons, ih]
    cases edit <;> rfl

/-- A run adds the pieces of its trace, also when it ends in a fault. -/
theorem run_extends (edits : List Edit) (s : State) :
    s.cursor.Extends (s.trace edits) (s.run edits).1.cursor := by
  induction edits generalizing s with
  | nil => exact .refl _
  | cons edit edits ih =>
    cases h : s.apply edit with
    | ok next =>
      simp only [trace, run, h]
      exact (apply_extends h).trans (ih next)
    | error fault =>
      simp only [trace, run, h, foldl_pass_cursor]
      exact .refl _

/-- The trace of joined edits, when the first ones are all carried out. -/
theorem trace_append {s t : State} {first : List Edit} (h : s.Runs first t) (last : List Edit) :
    s.trace (first ++ last) = s.trace first ++ t.trace last := by
  induction first generalizing s with
  | nil =>
    obtain rfl := (runs_nil s t).mp h
    rfl
  | cons edit first ih =>
    obtain ⟨u, hu, ht⟩ := (runs_cons s t edit first).mp h
    simp [trace, hu, ih ht]

end State

namespace Step

/-- Steps that stay with the source; only one step goes on to another. -/
def KeepsSource : Step → Prop
  | .next .. => False
  | _ => True

end Step

namespace Session

def pieces (splicer : Splicer) (s : State) : Step → List Piece
  | .copyTo offset => s.trace [.copyTo offset]
  | .skipTo offset => s.trace [.skipTo offset]
  | .write text => [.written text]
  | .walk tree => s.trace (tree.edits splicer.rules)
  | _ => []

def after (s : State) : List (Splicer × Step) → State
  | [] => s
  | (splicer, first) :: rest => after (step splicer s first).2 rest

def history (s : State) : List (Splicer × Step) → List Piece
  | [] => []
  | (splicer, first) :: rest =>
    pieces splicer s first ++ history (step splicer s first).2 rest

/-- A session with one splicer is the case where all steps share it. -/
theorem run_eq_after (splicer : Splicer) (steps : List Step) (s : State) :
    (run splicer s steps).2 = after s (steps.map (splicer, ·)) := by
  induction steps generalizing s with
  | nil => rfl
  | cons first rest ih => exact ih _

theorem move_eq_run_copyTo (s : State) (offset : Nat) :
    (move s (s.cursor.copyTo offset)).2 = (s.run [.copyTo offset]).1 := by
  cases h : s.cursor.copyTo offset <;> simp [move, State.run, State.apply, h, Except.map]

theorem move_eq_run_skipTo (s : State) (offset : Nat) :
    (move s (s.cursor.skipTo offset)).2 = (s.run [.skipTo offset]).1 := by
  cases h : s.cursor.skipTo offset <;> simp [move, State.run, State.apply, h, Except.map]

theorem step_walk (splicer : Splicer) (s : State) (tree : Node) :
    (step splicer s (.walk tree)).2 = (s.run (tree.edits splicer.rules)).1 := by
  simp only [step, State.walk]
  cases h : s.run (tree.edits splicer.rules) with
  | mk t fault => cases fault <;> rfl

theorem step_splice (splicer : Splicer) (s : State) (tree : Node) :
    (step splicer s (.splice tree)).2 = s := by
  simp only [step]
  cases splicer.splice s.cursor.source tree <;> rfl

/-- A step adds the pieces it leaves behind, whether it fails or not. -/
theorem step_extends (splicer : Splicer) (s : State) (x : Step) (hx : x.KeepsSource) :
    s.cursor.Extends (pieces splicer s x) (step splicer s x).2.cursor := by
  cases x with
  | copyTo offset =>
    simp only [step, move_eq_run_copyTo]
    exact s.run_extends [.copyTo offset]
  | skipTo offset =>
    simp only [step, move_eq_run_skipTo]
    exact s.run_extends [.skipTo offset]
  | write text => exact ⟨rfl, by simp [step, pieces, Piece.text, Cursor.write], .written _ (.nil _)⟩
  | walk tree =>
    rw [step_walk]
    exact s.run_extends _
  | splice tree =>
    rw [step_splice]
    exact .refl _
  | next source keepNames => exact absurd hx id
  | draw stem | renumber | setOptions options => exact .refl _

theorem after_extends (steps : List (Splicer × Step)) (s : State)
    (h : ∀ x ∈ steps, x.2.KeepsSource) :
    s.cursor.Extends (history s steps) (after s steps).cursor := by
  induction steps generalizing s with
  | nil => exact .refl _
  | cons x rest ih =>
    have hx := step_extends x.1 s x.2 (h x (by simp))
    exact hx.trans (ih _ (fun y hy => h y (by simp [hy])))

/-- A move that fails changes nothing. -/
theorem move_failed {s : State} {moved : Except Fault Cursor} {fault : Fault}
    (h : (move s moved).1 = .failed fault) : (move s moved).2 = s := by
  cases moved with
  | ok cursor => simp [move] at h
  | error _ => rfl

/-- The cursor over a whole session, at any of its points and over the step that comes next. The
position is a boundary that never decreases and the output only grows, whatever the step does. The
output so far is made of the pieces left behind, whose ranges tile the source up to the position.
A move that fails changes nothing, and the session could be finished there. -/
theorem session_keeps_cursor (source : String) (options : Options)
    (past : List (Splicer × Step)) (splicer : Splicer) (x : Step)
    (hpast : ∀ y ∈ past, y.2.KeepsSource) (hx : x.KeepsSource) :
    let start := State.start source options
    let s := after start past
    let t := (step splicer s x).2
    s.cursor.source = source ∧
      isBoundary source s.cursor.position = true ∧
      s.cursor.position ≤ source.utf8ByteSize ∧
      s.cursor.position ≤ t.cursor.position ∧
      (∃ added, t.cursor.output = s.cursor.output ++ added) ∧
      s.cursor.output = Piece.render source (history start past) ∧
      Tiles source 0 (history start past) s.cursor.position ∧
      (∀ offset fault, x = .copyTo offset ∨ x = .skipTo offset →
        (step splicer s x).1 = .failed fault → t = s) ∧
      s.cursor.finish =
        .ok (s.cursor.output ++ between source s.cursor.position source.utf8ByteSize) := by
  intro start s t
  have hs : start.cursor.Extends (history start past) s.cursor := after_extends past start hpast
  have ht : s.cursor.Extends (pieces splicer s x) t.cursor := step_extends splicer s x hx
  have hsource : s.cursor.source = source := hs.source
  have hb : isBoundary s.cursor.source s.cursor.position = true :=
    hs.isBoundary_position (isBoundary_zero source)
  have hb' : isBoundary source s.cursor.position = true := hsource ▸ hb
  refine ⟨hsource, hb', isBoundary_le hb', ht.tiles.le, ⟨_, ht.output⟩, ?_, hs.tiles, ?_, ?_⟩
  · simpa [start, State.start] using hs.output
  · rintro offset fault (rfl | rfl) hf <;> exact move_failed hf
  · have hf := s.cursor.finish_eq_ok hb
    rwa [hsource] at hf

/-- A move into the middle of a character and a walk that turns back on itself both fail; the walk
has then replaced one of its two declarations. -/
theorem session_keeps_cursor_faults :
    let decl (span : Span) := Node.moduleDecl ⟨span, "é", ⟨⟨0, 0⟩, "'m'"⟩⟩
    let tree := Node.element .program ⟨9, 2⟩ [decl ⟨1, 3⟩, decl ⟨0, 2⟩]
    let past : List (Splicer × Step) :=
      [({}, .copyTo 1), ({}, .skipTo 2), ({}, .write "+"), ({}, .walk tree)]
    let start := State.start "aéb" {}
    let s := after start past
    (∀ y ∈ past, y.2.KeepsSource) ∧ Step.KeepsSource (.copyTo 1) ∧
      history start past = [.copied ⟨0, 1⟩, .written "+", .copied ⟨1, 1⟩,
        .written "var é = require('m');", .skipped ⟨1, 3⟩] ∧
      Tiles "aéb" 0 (history start past) s.cursor.position ∧
      (step {} s (.copyTo 1)).2 = s ∧
      s.cursor.finish = .ok "a+var é = require('m');b" := by
  intro decl tree past start s
  have hpast : ∀ y ∈ past, y.2.KeepsSource := by simp [past, Step.KeepsSource]
  obtain ⟨-, -, -, -, -, -, htiles, hfailed, hfinish⟩ :=
    session_keeps_cursor "aéb" {} past {} (.copyTo 1) hpast trivial
  have hhistory : history start past = [.copied ⟨0, 1⟩, .written "+", .copied ⟨1, 1⟩,
      .written "var é = require('m');", .skipped ⟨1, 3⟩] := by decide +kernel
  have hfault : (step {} s (.copyTo 1)).1 = .failed (.regression 3 1) := by decide +kernel
  refine ⟨hpast, trivial, hhistory, htiles, hfailed 1 _ (.inl rfl) hfault, ?_⟩
  rw [hfinish]
  decide +kernel

end Session
end ModSplice
