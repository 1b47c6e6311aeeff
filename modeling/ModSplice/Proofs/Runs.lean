import ModSplice.Proofs.Boundary
import ModSplice.Splice.State

/-!
# Moves and runs

What one edit does when it is carried out, said once for each kind of edit, and runs that carry out
all of their edits. A run over joined edits is one run after the other.
-/
namespace ModSplice

open Text

namespace Cursor

/-- The offset is a boundary that has not been passed. -/
def CanReach (c : Cursor) (offset : Nat) : Prop :=
  isBoundary c.source offset = true ∧ c.position ≤ offset

def copied (c : Cursor) (offset : Nat) : Cursor :=
  { c with position := offset, output := c.output ++ between c.source c.position offset }

def skipped (c : Cursor) (offset : Nat) : Cursor :=
  { c with position := offset }

theorem obstacle?_eq_none (c : Cursor) (offset : Nat) :
    c.obstacle? offset = none ↔ c.CanReach offset := by
  unfold obstacle? CanReach
  by_cases hb : isBoundary c.source offset = true
  · by_cases hp : offset < c.position
    · simp [hb, hp]
    · simp [hb, hp]; omega
  · simp [hb]

theorem copyTo_eq_ok (c d : Cursor) (offset : Nat) :
    c.copyTo offset = .ok d ↔ c.CanReach offset ∧ d = c.copied offset := by
  rw [← obstacle?_eq_none]
  unfold copyTo
  cases c.obstacle? offset <;> simp [copied, eq_comm]

theorem skipTo_eq_ok (c d : Cursor) (offset : Nat) :
    c.skipTo offset = .ok d ↔ c.CanReach offset ∧ d = c.skipped offset := by
  rw [← obstacle?_eq_none]
  unfold skipTo
  cases c.obstacle? offset <;> simp [skipped, eq_comm]

/-- From a boundary the end can always be reached. -/
theorem finish_eq_ok (c : Cursor) (h : isBoundary c.source c.position = true) :
    c.finish = .ok (c.output ++ between c.source c.position c.source.utf8ByteSize) := by
  have hc : c.copyTo c.size = .ok (c.copied c.size) :=
    (copyTo_eq_ok c _ _).mpr ⟨⟨isBoundary_size c.source, isBoundary_le h⟩, rfl⟩
  rw [finish, hc]
  rfl

end Cursor

namespace Edit

def Quiet : Edit → Prop
  | .enter _ | .leave | .note _ => True
  | _ => False

end Edit

namespace State

/-- Two states that differ at most in the path and the notes. -/
structure SameText (s t : State) : Prop where
  cursor : t.cursor = s.cursor
  names : t.names = s.names
  options : t.options = s.options

namespace SameText

variable {s t u : State}

theorem symm (h : s.SameText t) : t.SameText s :=
  ⟨h.cursor.symm, h.names.symm, h.options.symm⟩

theorem trans (h : s.SameText t) (h' : t.SameText u) : s.SameText u :=
  ⟨h'.cursor.trans h.cursor, h'.names.trans h.names, h'.options.trans h.options⟩

end SameText

theorem apply_copyTo_eq_ok (s t : State) (offset : Nat) :
    s.apply (.copyTo offset) = .ok t ↔
      s.cursor.CanReach offset ∧ t = { s with cursor := s.cursor.copied offset } := by
  constructor
  · intro h
    cases hc : s.cursor.copyTo offset with
    | error fault => simp [apply, hc, Except.map] at h
    | ok d =>
      obtain ⟨hr, rfl⟩ := (Cursor.copyTo_eq_ok _ _ _).mp hc
      simp only [apply, hc, Except.map, Except.ok.injEq] at h
      exact ⟨hr, h.symm⟩
  · rintro ⟨hr, rfl⟩
    have hc := (Cursor.copyTo_eq_ok s.cursor _ offset).mpr ⟨hr, rfl⟩
    simp only [apply, hc, Except.map]

theorem apply_skipTo_eq_ok (s t : State) (offset : Nat) :
    s.apply (.skipTo offset) = .ok t ↔
      s.cursor.CanReach offset ∧ t = { s with cursor := s.cursor.skipped offset } := by
  constructor
  · intro h
    cases hc : s.cursor.skipTo offset with
    | error fault => simp [apply, hc, Except.map] at h
    | ok d =>
      obtain ⟨hr, rfl⟩ := (Cursor.skipTo_eq_ok _ _ _).mp hc
      simp only [apply, hc, Except.map, Except.ok.injEq] at h
      exact ⟨hr, h.symm⟩
  · rintro ⟨hr, rfl⟩
    have hc := (Cursor.skipTo_eq_ok s.cursor _ offset).mpr ⟨hr, rfl⟩
    simp only [apply, hc, Except.map]

theorem apply_copyTo (s : State) {offset : Nat} (h : s.cursor.CanReach offset) :
    s.apply (.copyTo offset) = .ok { s with cursor := s.cursor.copied offset } :=
  (apply_copyTo_eq_ok s _ offset).mpr ⟨h, rfl⟩

theorem apply_skipTo (s : State) {offset : Nat} (h : s.cursor.CanReach offset) :
    s.apply (.skipTo offset) = .ok { s with cursor := s.cursor.skipped offset } :=
  (apply_skipTo_eq_ok s _ offset).mpr ⟨h, rfl⟩

/-- What an edit that is carried out does: it moves the cursor to an offset in reach, inserts a
snippet, or only concerns the path and the notes. -/
theorem apply_cases {s t : State} {edit : Edit} (h : s.apply edit = .ok t) :
    (∃ offset, edit = .copyTo offset ∧ s.cursor.CanReach offset ∧
      t = { s with cursor := s.cursor.copied offset }) ∨
    (∃ offset, edit = .skipTo offset ∧ s.cursor.CanReach offset ∧
      t = { s with cursor := s.cursor.skipped offset }) ∨
    (∃ snippet, edit = .insert snippet ∧ t = s.insert snippet) ∨
    (edit.Quiet ∧ s.SameText t) := by
  cases edit with
  | copyTo offset => exact .inl ⟨offset, rfl, (apply_copyTo_eq_ok s t offset).mp h⟩
  | skipTo offset => exact .inr (.inl ⟨offset, rfl, (apply_skipTo_eq_ok s t offset).mp h⟩)
  | insert snippet =>
    simp only [apply, Except.ok.injEq] at h
    exact .inr (.inr (.inl ⟨snippet, rfl, h.symm⟩))
  | refuse fault => simp [apply] at h
  | enter node | leave | note node =>
    simp only [apply, Except.ok.injEq] at h
    subst h
    exact .inr (.inr (.inr ⟨trivial, rfl, rfl, rfl⟩))

theorem apply_quiet (s : State) {edit : Edit} (h : edit.Quiet) :
    ∃ t, s.apply edit = .ok t ∧ s.SameText t := by
  cases edit with
  | enter node | leave | note node => exact ⟨_, rfl, rfl, rfl, rfl⟩
  | copyTo _ | skipTo _ | insert _ | refuse _ => exact h.elim

/-- The path and the notes have no say in what happens to the text. -/
theorem apply_congr {s s' t : State} {edit : Edit} (hs : s.SameText s')
    (h : s.apply edit = .ok t) : ∃ t', s'.apply edit = .ok t' ∧ t.SameText t' := by
  obtain ⟨k, rfl, hr, rfl⟩ | ⟨k, rfl, hr, rfl⟩ | ⟨snippet, rfl, rfl⟩ | ⟨hq, hsame⟩ := apply_cases h
  · rw [← hs.cursor] at hr
    exact ⟨_, s'.apply_copyTo hr, by simp only [hs.cursor], hs.names, hs.options⟩
  · rw [← hs.cursor] at hr
    exact ⟨_, s'.apply_skipTo hr, by simp only [hs.cursor], hs.names, hs.options⟩
  · refine ⟨_, rfl, ?_, ?_, hs.options⟩
    · simp only [insert, hs.cursor, hs.names, hs.options]
    · simp only [insert, hs.names]
  · obtain ⟨t', ht', hsame'⟩ := s'.apply_quiet hq
    exact ⟨t', ht', (hsame.symm.trans hs).trans hsame'⟩

def Runs (s : State) (edits : List Edit) (t : State) : Prop :=
  s.run edits = (t, none)

@[simp] theorem runs_nil (s t : State) : s.Runs [] t ↔ s = t := by
  simp [Runs, run]

@[simp] theorem runs_cons (s t : State) (edit : Edit) (rest : List Edit) :
    s.Runs (edit :: rest) t ↔ ∃ u, s.apply edit = .ok u ∧ u.Runs rest t := by
  unfold Runs
  cases h : s.apply edit <;> simp [run, h]

theorem runs_append (s t : State) (first last : List Edit) :
    s.Runs (first ++ last) t ↔ ∃ u, s.Runs first u ∧ u.Runs last t := by
  induction first generalizing s with
  | nil => simp
  | cons edit first ih =>
    simp only [List.cons_append, runs_cons, ih, ← exists_and_left, ← exists_and_right, and_assoc]
    rw [exists_comm]

theorem runs_congr {s s' t : State} {edits : List Edit} (hs : s.SameText s')
    (h : s.Runs edits t) : ∃ t', s'.Runs edits t' ∧ t.SameText t' := by
  induction edits generalizing s s' with
  | nil =>
    obtain rfl := (runs_nil s t).mp h
    exact ⟨s', (runs_nil s' s').mpr rfl, hs⟩
  | cons edit rest ih =>
    obtain ⟨u, hu, ht⟩ := (runs_cons s t edit rest).mp h
    obtain ⟨u', hu', hsame⟩ := apply_congr hs hu
    obtain ⟨t', ht', hsame'⟩ := ih hsame ht
    exact ⟨t', (runs_cons s' t' edit rest).mpr ⟨u', hu', ht'⟩, hsame'⟩

/-- A run stays with its source and its options. -/
theorem runs_keeps {s t : State} {edits : List Edit} (h : s.Runs edits t) :
    t.cursor.source = s.cursor.source ∧ t.options = s.options := by
  induction edits generalizing s with
  | nil =>
    obtain rfl := (runs_nil s t).mp h
    exact ⟨rfl, rfl⟩
  | cons edit rest ih =>
    obtain ⟨u, hu, ht⟩ := (runs_cons s t edit rest).mp h
    obtain ⟨hsource, hoptions⟩ := ih ht
    obtain ⟨_, -, -, rfl⟩ | ⟨_, -, -, rfl⟩ | ⟨_, -, rfl⟩ | ⟨-, hsame⟩ := apply_cases hu
    · exact ⟨hsource, hoptions⟩
    · exact ⟨hsource, hoptions⟩
    · exact ⟨hsource, hoptions⟩
    · exact ⟨hsource.trans (by rw [hsame.cursor]), hoptions.trans hsame.options⟩

theorem runs_of_apply {s t : State} {edit : Edit} (h : s.apply edit = .ok t) :
    s.Runs [edit] t := by
  simpa using h

/-- Entering a node and leaving it again shows in nothing but the path. -/
theorem runs_within (s t : State) (node : Node) (edits : List Edit)
    (h : (s.enter node).Runs edits t) : s.Runs (within node edits) t.leave := by
  simp only [within, runs_cons, runs_append, runs_nil]
  exact ⟨_, rfl, t, h, t.leave, rfl, rfl⟩

theorem runs_of_within {s t : State} {node : Node} {edits : List Edit}
    (h : s.Runs (within node edits) t) : ∃ t', s.Runs edits t' ∧ t'.SameText t := by
  simp only [within, runs_cons, runs_append, runs_nil] at h
  obtain ⟨u, hu, v, hv, w, hw, rfl⟩ := h
  obtain rfl := Except.ok.inj hu
  obtain rfl := Except.ok.inj hw
  have hout : (s.enter node).SameText s := ⟨rfl, rfl, rfl⟩
  obtain ⟨t', ht', hsame⟩ := runs_congr hout hv
  exact ⟨t', ht', hsame.symm.trans ⟨rfl, rfl, rfl⟩⟩

/-- A walk over a fresh source, with the given supply of names, carries out all its edits; the
finished output and the supply that is left are the given ones. -/
def Yields (rules : List Rule) (source : String) (options : Options) (names : Names) (tree : Node)
    (output : String) (left : Names) : Prop :=
  ∃ s, { State.start source options with names }.walk rules tree = (s, none) ∧
    s.cursor.finish = .ok output ∧ s.names = left

theorem yields_iff {rules : List Rule} {source : String} {options : Options} {names left : Names}
    {tree : Node} {output : String} :
    Yields rules source options names tree output left ↔
      let walked := { State.start source options with names }.walk rules tree
      walked.2 = none ∧ walked.1.cursor.finish = .ok output ∧ walked.1.names = left := by
  constructor
  · rintro ⟨s, hs, hfinish, hleft⟩
    rw [hs]
    exact ⟨rfl, hfinish, hleft⟩
  · rintro ⟨hnone, hfinish, hleft⟩
    exact ⟨_, Prod.ext rfl hnone, hfinish, hleft⟩

instance (rules : List Rule) (source : String) (options : Options) (names left : Names)
    (tree : Node) (output : String) :
    Decidable (Yields rules source options names tree output left) :=
  decidable_of_iff _ yields_iff.symm

end State
end ModSplice
