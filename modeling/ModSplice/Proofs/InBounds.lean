import ModSplice.Proofs.Boundary
import ModSplice.Proofs.Positions

/-!
# The loop stays in its bounds

A turn of the loop over positions is a stride of the scan. A stride takes a character at least and
no more than there are, and one character opens one brace at most, so no depth is ever above the
position. From what one turn keeps follows what all of them keep: nothing is refused, the end is
reached, and what was seen on the way makes the nodes that the scan gives.
-/
namespace ModSplice.Legacy.Loop

open ModSplice.Text

variable {source : List Char}

/-! ## Open templates -/

theorem fit_eq {n : Int} (hpos : 0 ≤ n) (hle : n ≤ Int32.maxValue.toInt) : fit n = .ok n := by
  have hmin : Int32.minValue.toInt ≤ 0 := by decide
  rw [fit, if_pos ⟨by omega, hle⟩]

def depthsOf (templates : Templates) : List Int :=
  templates.map fun (depth : Nat) => (depth : Int)

@[simp] theorem depthsOf_nil : depthsOf [] = [] := rfl

@[simp] theorem depthsOf_cons (depth : Nat) (outer : Templates) :
    depthsOf (depth :: outer) = (depth : Int) :: depthsOf outer := rfl

theorem toNat_depthsOf (templates : Templates) :
    (depthsOf templates).map Int.toNat = templates := by
  induction templates with
  | nil => rfl
  | cons depth outer ih => simp [ih]

theorem At.handle_eq {i : Nat} {c : Char} {rest : List Char} {templates : Templates}
    (h : At source i (c :: rest)) (hfit : ∀ d ∈ templates, (d : Int) < Int32.maxValue.toInt) :
    handle source i (depthsOf templates) =
      .ok (depthsOf (templates.step (c :: rest)).1, (templates.step (c :: rest)).2) := by
  match templates with
  | [] =>
    by_cases hback : c = '\x60' <;> simp [handle, Templates.step, h.look_eq, hback]
  | 0 :: outer =>
    have hinside : i + 1 < source.length ↔ rest ≠ [] := by
      have hlength := h.tail.length
      rw [← List.length_pos_iff]
      omega
    simp only [depthsOf_cons, handle, Templates.step, h.look_eq, ok_bind, hinside, h.tail.get?]
    by_cases hescape : c = '\\' ∧ rest ≠ []
    · simp [hescape]
    by_cases hcode : c = '$' ∧ rest.head? = some '\x7b'
    · simp [hcode]
    by_cases hback : c = '\x60' <;> simp [hescape, hcode, hback]
  | (depth + 1) :: outer =>
    have hdepth := hfit (depth + 1) (by simp)
    have hup : fit ((depth + 1 : Nat) + 1) = .ok ((depth + 2 : Nat) : Int) :=
      fit_eq (by omega) (by omega)
    have hdown : fit ((depth + 1 : Nat) - 1) = .ok (depth : Int) := by
      rw [show ((depth + 1 : Nat) : Int) - 1 = depth by omega]
      exact fit_eq (by omega) (by omega)
    have hne : ((depth + 1 : Nat) : Int) ≠ 0 := by omega
    simp only [depthsOf_cons, handle, Templates.step, h.look_eq, ok_bind, if_neg hne]
    by_cases hback : c = '\x60'
    · simp [hback]
    by_cases hopen : c = '\x7b'
    · simp only [if_neg hback, if_pos hopen, hup]
      rfl
    by_cases hclose : c = '\x7d'
    · simp only [if_neg hback, if_neg hopen, if_pos hclose, hdown]
      simp
    · simp [hback, hopen, hclose]

/-- Templates that can be open at a position: no depth is above it, and a template around another
one has code open inside. -/
structure Fits (templates : Templates) (i : Nat) : Prop where
  le : ∀ depth ∈ templates, depth ≤ i
  enclosing : ∀ depth ∈ templates.tail, 1 ≤ depth

theorem Fits.mono {templates : Templates} {i j : Nat} (h : Fits templates i) (hij : i ≤ j) :
    Fits templates j :=
  ⟨fun depth hdepth => (h.le depth hdepth).trans hij, h.enclosing⟩

theorem fits_cons {depth : Nat} {outer : Templates} {i : Nat} :
    Fits (depth :: outer) i ↔ depth ≤ i ∧ ∀ d ∈ outer, 1 ≤ d ∧ d ≤ i := by
  constructor
  · intro h
    exact ⟨h.le depth (by simp), fun d hd => ⟨h.enclosing d hd, h.le d (by simp [hd])⟩⟩
  · rintro ⟨hdepth, houter⟩
    refine ⟨fun d hd => ?_, fun d hd => (houter d hd).1⟩
    rcases List.mem_cons.mp hd with rfl | hd
    · exact hdepth
    · exact (houter d hd).2

/-- One character opens one brace at most, and a template inside another only in its code. -/
theorem Fits.step {templates : Templates} {i : Nat} (h : Fits templates i) (cs : List Char) :
    Fits (templates.step cs).1 (i + 1) := by
  have hsame : Fits templates (i + 1) := h.mono (by omega)
  match templates, cs with
  | templates, [] =>
    rw [Templates.step]
    exact hsame
  | [], c :: cs =>
    rw [Templates.step]
    split
    · exact fits_cons.mpr ⟨by omega, by simp⟩
    · exact hsame
  | 0 :: outer, c :: cs =>
    obtain ⟨-, houter⟩ := fits_cons.mp hsame
    rw [Templates.step]
    split
    · exact hsame
    split
    · exact fits_cons.mpr ⟨by omega, houter⟩
    split
    · exact ⟨fun d hd => (houter d hd).2, fun d hd => (houter d (List.mem_of_mem_tail hd)).1⟩
    · exact hsame
  | (depth + 1) :: outer, c :: cs =>
    obtain ⟨hdepth, houter⟩ := fits_cons.mp h
    obtain ⟨-, houter'⟩ := fits_cons.mp hsame
    rw [Templates.step]
    split
    · refine fits_cons.mpr ⟨by omega, fun d hd => ?_⟩
      rcases List.mem_cons.mp hd with rfl | hd
      · omega
      · exact houter' d hd
    split
    · exact fits_cons.mpr ⟨by omega, houter'⟩
    split
    · exact fits_cons.mpr ⟨by omega, houter'⟩
    · exact hsame

/-! ## One turn -/

def Pass.after (s : Pass) (next : Stride) : Pass where
  position := s.position + next.width
  depths := depthsOf next.templates
  sights := s.sights ++ (next.found?.map (sightOf s.position)).toList

theorem Pass.after_position (s : Pass) (next : Stride) :
    (s.after next).position = s.position + next.width := rfl

theorem followsDot_iff (past : List Char) :
    (past.find? fun c => !isBlank c) = some '.' ↔ followsDot past = true := by
  rw [followsDot, beq_iff_eq]

/-- A turn of the loop is a stride of the scan. -/
theorem turn_eq (forms : Forms) {s : Pass} {templates : Templates} {c : Char} {rest : List Char}
    (h : At source s.position (c :: rest)) (hdepths : s.depths = depthsOf templates)
    (hfit : ∀ d ∈ templates, (d : Int) < Int32.maxValue.toInt) :
    turn source forms s =
      .ok (s.after (stride forms templates (source.take s.position).reverse (c :: rest))) := by
  rw [turn, hdepths, h.handle_eq hfit, ok_bind, stride]
  rcases templates.step (c :: rest) with ⟨after, width?⟩
  cases width? with
  | some width => simp [Pass.after]
  | none =>
    simp only [codeStride, h.regionStop?_eq, h.wordBegins_eq, h.lastBefore_eq, h.runStop_eq,
      h.sight?_eq, followsDot_iff, ok_bind]
    cases hregion : regionWidth? (c :: rest) with
    | some width => simp [Pass.after]
    | none =>
      simp only [Option.map_none]
      by_cases hword : beginsWord (source.take s.position).reverse (c :: rest) = true
      · by_cases hdot : followsDot (source.take s.position).reverse = true
        · simp [hword, hdot, Pass.after]
        · cases hfound : ofChars? forms (c :: rest) with
          | some found => simp [hword, hdot, sightOf_stop, Pass.after]
          | none => simp [hword, hdot, Pass.after]
      · simp [hword, Pass.after]

theorem stride_templates (forms : Forms) (templates : Templates) (past cs : List Char) :
    (stride forms templates past cs).templates = (templates.step cs).1 := by
  rw [stride]
  split <;> rename_i hstep <;> rw [hstep]

/-- A stride takes at least one character and no more than there are; a declaration is taken
whole. -/
theorem exists_stride_run (forms : Forms) (templates : Templates) (past : List Char) (c : Char)
    (cs : List Char) :
    ∃ d run rest, c :: cs = d :: run ++ rest ∧
      (stride forms templates past (c :: cs)).width = (d :: run).length ∧
      ∀ found ∈ (stride forms templates past (c :: cs)).found?, found.text = d :: run := by
  obtain ⟨run, rest, flags, hsplit, hne, hwidth, -, -, hcases⟩ :=
    stride_accounts forms templates past c cs
  obtain ⟨d, run, rfl⟩ := List.exists_cons_of_ne_nil hne
  refine ⟨d, run, rest, hsplit, hwidth, fun found hfound => ?_⟩
  rcases hcases with ⟨other, hother, htext, -⟩ | ⟨hnone, -⟩
  · obtain rfl : found = other := Option.some.inj (hfound.symm.trans hother)
    exact htext
  · rw [hnone] at hfound
    cases hfound

/-! ## Runs of the loop -/

/-- The loop and the scan are in step: the loop stands in front of what the scan has left, with the
same templates open, and what it has seen so far makes the nodes that the scan has told so far. -/
structure InStep (source : List Char) (forms : Forms) (s : Pass) (templates : Templates)
    (rest : List Char) : Prop where
  stands : At source s.position rest
  depths : s.depths = depthsOf templates
  fits : Fits templates s.position
  sights : ∃ finds,
    s.sights.mapM (Sight.toNode source) = .ok (finds.map fun x => x.2.toNode x.1) ∧
    scan forms [] [] 0 0 source = finds ++ scan forms templates (source.take s.position).reverse
      (byteSize (source.take s.position)) 0 rest

theorem inStep_start (source : List Char) (forms : Forms) :
    InStep source forms {} [] source :=
  ⟨⟨Nat.zero_le _, rfl⟩, rfl, ⟨by simp, by simp⟩, [], rfl, rfl⟩

/-- A declaration that a stride takes makes the node that the scan gives for it. -/
theorem Pass.after_sights {s : Pass} {next : Stride} {run rest : List Char} {nodes : List Node}
    (h : At source s.position (run ++ rest)) (hfound : ∀ found ∈ next.found?, found.text = run)
    (hnodes : s.sights.mapM (Sight.toNode source) = .ok nodes) :
    (s.after next).sights.mapM (Sight.toNode source) = .ok (nodes ++
      next.found?.toList.map (Legacy.toNode (byteSize (source.take s.position)))) := by
  cases hnext : next.found? with
  | none => simp [Pass.after, hnext, hnodes]
  | some found =>
    rw [← hfound found hnext] at h
    simp [Pass.after, hnext, hnodes, h.toNode_eq]

/-- A turn is not refused, and it leads on, to where the scan is behind its stride. -/
theorem InStep.turn {forms : Forms} {s : Pass} {templates : Templates} {c : Char}
    {rest : List Char} (h : InStep source forms s templates (c :: rest))
    (hsource : source.length < 2 ^ 31) :
    ∃ next later, next = stride forms templates (source.take s.position).reverse (c :: rest) ∧
      Loop.turn source forms s = .ok (s.after next) ∧ 0 < next.width ∧
      InStep source forms (s.after next) next.templates later := by
  -- the position is in front of a character, so there is room for one more brace
  have hfit : ∀ d ∈ templates, (d : Int) < Int32.maxValue.toInt := by
    intro d hd
    have hle := h.fits.le d hd
    have hlt := h.stands.lt_length
    rw [Int32.toInt_maxValue]
    omega
  have hturn := turn_eq forms h.stands h.depths hfit
  have htemplates := stride_templates forms templates (source.take s.position).reverse (c :: rest)
  obtain ⟨d, run, later, hsplit, hwidth, hfound⟩ :=
    exists_stride_run forms templates (source.take s.position).reverse c rest
  have hstands := h.stands
  obtain ⟨finds, hnodes, hscan⟩ := h.sights
  rw [hsplit] at hturn htemplates hwidth hfound hstands hscan ⊢
  rw [scan_stride forms templates _ _ d run later hwidth] at hscan
  generalize stride forms templates (source.take s.position).reverse (d :: run ++ later) = next at *
  have hposition : (s.after next).position = s.position + (d :: run).length := by
    rw [s.after_position, hwidth]
  refine ⟨next, later, rfl, hturn, by simp [hwidth], ?_, rfl, ?_, ?_⟩
  · rw [hposition]
    exact hstands.advance
  · rw [htemplates, hposition, List.length_cons]
    exact (h.fits.step _).mono (by omega)
  · -- what the scan tells is what the loop has seen, the new declaration included
    let offset := byteSize (source.take s.position)
    refine ⟨finds ++ next.found?.toList.map fun found => (offset, found), ?_, ?_⟩
    · rw [Pass.after_sights hstands hfound hnodes]
      simp [offset]
    · rw [hscan, hposition, hstands.take_advance]
      simp [offset]

/-- Each turn takes a character at least, so that as many turns as there are characters lead to the
end. -/
theorem InStep.turns {forms : Forms} {s : Pass} {templates : Templates} {rest : List Char}
    (h : InStep source forms s templates rest) (hsource : source.length < 2 ^ 31) (n : Nat) :
    ∃ t within later, turns source forms n s = .ok t ∧ InStep source forms t within later ∧
      (s.position + n ≤ t.position ∨ t.position = source.length) := by
  induction n generalizing s templates rest with
  | zero => exact ⟨s, templates, rest, rfl, h, .inl (by omega)⟩
  | succ n ih =>
    cases rest with
    | nil =>
      have hend := h.stands.eq_length
      refine ⟨s, templates, [], ?_, h, .inr hend⟩
      rw [Loop.turns, if_neg (by omega)]
      rfl
    | cons c rest =>
      obtain ⟨next, _, -, hturn, hwidth, hnext⟩ := h.turn hsource
      obtain ⟨t, within, later, hturns, ht, hfar⟩ := ih hnext
      have hposition := s.after_position next
      refine ⟨t, within, later, ?_, ht, by omega⟩
      rw [Loop.turns, if_pos h.stands.lt_length, hturn]
      exact hturns

theorem InStep.depths_spec {forms : Forms} {s : Pass} {templates : Templates} {rest : List Char}
    (h : InStep source forms s templates rest) (hsource : source.length < 2 ^ 31) :
    (∀ d ∈ s.depths, 0 ≤ d ∧ d ≤ Int32.maxValue.toInt) ∧ ∀ d ∈ s.depths.tail, 1 ≤ d := by
  rw [h.depths, depthsOf, ← List.map_tail]
  constructor
  · intro d hd
    obtain ⟨depth, hdepth, rfl⟩ := List.mem_map.mp hd
    have hle := h.fits.le depth hdepth
    have hposition := h.stands.le
    rw [Int32.toInt_maxValue]
    omega
  · intro d hd
    obtain ⟨depth, hdepth, rfl⟩ := List.mem_map.mp hd
    have hpos := h.fits.enclosing depth hdepth
    omega

/-- At the end of the source the loop has seen what the scan finds. -/
theorem InStep.nodes {forms : Forms} {s : Pass} {templates : Templates}
    (h : InStep source forms s templates []) :
    s.sights.mapM (Sight.toNode source) = .ok (declarations forms source) := by
  obtain ⟨finds, hnodes, hscan⟩ := h.sights
  rw [scan, List.append_nil] at hscan
  rw [hnodes, declarations, hscan]

/-- The loop always goes on and stays in its bounds. After any number of turns nothing has been
refused, so every look, cut and difference was inside the source. The position is not behind the
end, no depth is below zero or above what 32 bits hold, and a template around another one has code
open inside. A further turn takes the stride of the scan, which goes on and not over the end. So the
end is reached after no more turns than there are characters, and what was seen on the way makes,
again without a refusal, the nodes of the scan. -/
theorem turns_stay_in_bounds (forms : Forms) (source : List Char)
    (hsource : source.length < 2 ^ 31) :
    (∀ n, ∃ s, turns source forms n {} = .ok s ∧ s.position ≤ source.length ∧
      (∀ d ∈ s.depths, 0 ≤ d ∧ d ≤ Int32.maxValue.toInt) ∧ (∀ d ∈ s.depths.tail, 1 ≤ d) ∧
      (s.position < source.length → ∃ t, turn source forms s = .ok t ∧
        s.position < t.position ∧ t.position ≤ source.length ∧
        t = s.after (stride forms (s.depths.map Int.toNat) (source.take s.position).reverse
          (source.drop s.position)))) ∧
    ∃ n ≤ source.length, ∃ s, turns source forms n {} = .ok s ∧ s.position = source.length ∧
      s.sights.mapM (Sight.toNode source) = .ok (declarations forms source) := by
  constructor
  · intro n
    obtain ⟨s, templates, rest, hturns, hs, -⟩ := (inStep_start source forms).turns hsource n
    obtain ⟨hdepths, htail⟩ := hs.depths_spec hsource
    refine ⟨s, hturns, hs.stands.le, hdepths, htail, ?_⟩
    intro hlt
    cases rest with
    | nil =>
      have hend := hs.stands.eq_length
      omega
    | cons c rest =>
      obtain ⟨next, later, hnext, hturn, hwidth, ht⟩ := hs.turn hsource
      have hposition := s.after_position next
      refine ⟨s.after next, hturn, by omega, ht.stands.le, ?_⟩
      rw [hs.depths, toNat_depthsOf, hs.stands.drop, hnext]
  · obtain ⟨s, templates, rest, hturns, hs, hfar⟩ :=
      (inStep_start source forms).turns hsource source.length
    have hend : s.position = source.length := by
      have hle := hs.stands.le
      have hstart : ({} : Pass).position = 0 := rfl
      omega
    have hrest := hs.stands.drop
    rw [hend, List.drop_length] at hrest
    subst hrest
    exact ⟨source.length, le_rfl, s, hturns, hend, hs.nodes⟩

/-- Two templates and a string that are never closed, the string with a backslash at the very end,
and a declaration in the inner template. -/
theorem turns_stay_in_bounds_unclosed :
    let source := "`$\x7b\x7b`$\x7bmodule m from 'm'; \"\\".toList
    let inside : Pass := ⟨7, [1, 2], []⟩
    source.length < 2 ^ 31 ∧ turns source {} 5 {} = .ok inside ∧
      (∃ t, turn source {} inside = .ok t ∧ 7 < t.position ∧ t.position ≤ 28) ∧
      ∃ n ≤ 28, ∃ s, turns source {} n {} = .ok s ∧ s.position = 28 ∧
        s.sights.mapM (Sight.toNode source) =
          .ok [.moduleDecl ⟨⟨7, 25⟩, "m", ⟨⟨21, 24⟩, "'m'"⟩⟩] := by
  intro source inside
  have hlength : source.length = 28 := by decide +kernel
  have hinside : turns source {} 5 {} = .ok inside := by decide +kernel
  have hscan : scan {} [] [] 0 0 source =
      [(7, .moduleFrom "module m from ".toList ['m'] "'m'".toList [';'])] := by decide +kernel
  have hnodes : declarations {} source = [.moduleDecl ⟨⟨7, 25⟩, "m", ⟨⟨21, 24⟩, "'m'"⟩⟩] := by
    rw [declarations, hscan]
    rfl
  have hsource : source.length < 2 ^ 31 := by omega
  obtain ⟨hturns, hend⟩ := turns_stay_in_bounds {} source hsource
  obtain ⟨s, hs, -, -, -, hturn⟩ := hturns 5
  obtain rfl : inside = s := Except.ok.inj (hinside.symm.trans hs)
  have hposition : inside.position = 7 := rfl
  obtain ⟨t, ht, hlt, hle, -⟩ := hturn (by omega)
  rw [hnodes, hlength] at hend
  exact ⟨hsource, hinside, ⟨t, ht, by omega, by omega⟩, hend⟩

end ModSplice.Legacy.Loop
