import ModSplice.Proofs.OwnText

/-!
# Paths that are closed

A path is taken if the string ends in the quote that it began with. In the middle of a text this is
the quote that closes it. A string that runs to the end of the text is not closed, yet it may end in
its quote as well, with a backslash in front. A declaration with such a path is taken all the same.
-/
namespace ModSplice.Legacy

open ModSplice.Text

def IsLiteral (cs : List Char) : Prop :=
  ∃ quote body, isQuote quote = true ∧ StringBody quote body ∧ cs = quote :: body ++ [quote]

/-- A string that stops at an escaped quote. -/
def IsCutShort (cs : List Char) : Prop :=
  ∃ quote body, isQuote quote = true ∧ StringBody quote body ∧ cs = quote :: body ++ ['\\', quote]

/-! ## The inside of a string -/

namespace StringBody

variable {quote : Char} {body later : List Char}

theorem append (h : StringBody quote body) (h' : StringBody quote later) :
    StringBody quote (body ++ later) := by
  induction h with
  | nil => exact h'
  | pair c _ ih => exact .pair c ih
  | single hc hb _ ih => exact .single hc hb ih

theorem of_pair {c : Char} (h : StringBody quote ('\\' :: c :: body)) : StringBody quote body := by
  cases h with
  | pair _ hbody => exact hbody
  | single _ hb _ => exact absurd rfl hb

theorem of_single {c : Char} (hb : c ≠ '\\') (h : StringBody quote (c :: body)) :
    StringBody quote body := by
  generalize hcs : c :: body = cs at h
  cases h with
  | nil => cases hcs
  | pair _ _ => exact absurd (List.cons.inj hcs).1 hb
  | single _ _ hbody =>
    obtain ⟨-, rfl⟩ := List.cons.inj hcs
    exact hbody

/-- Behind whole pairs and single characters no backslash can stand alone. -/
theorem not_append_lone (h : StringBody quote body) : ¬ StringBody quote (body ++ ['\\']) := by
  induction h with
  | nil =>
    intro hlone
    cases hlone with
    | single _ hb _ => exact hb rfl
  | pair c _ ih => exact fun hlone => ih hlone.of_pair
  | single _ hb _ ih => exact fun hlone => ih (hlone.of_single hb)

/-- A quote at the end of the inside is escaped. -/
theorem exists_escaped (h : StringBody quote body) (hlast : body.getLast? = some quote) :
    ∃ front, StringBody quote front ∧ body = front ++ ['\\', quote] := by
  induction h with
  | nil => cases hlast
  | @pair c cs _ ih =>
    cases cs with
    | nil =>
      obtain rfl : c = quote := by simpa using hlast
      exact ⟨[], .nil, rfl⟩
    | cons d cs =>
      obtain ⟨front, hfront, hsplit⟩ := ih (by simpa only [List.getLast?_cons_cons] using hlast)
      exact ⟨'\\' :: c :: front, .pair c hfront, by rw [hsplit]; rfl⟩
  | @single c cs hc hb _ ih =>
    cases cs with
    | nil => exact absurd (by simpa using hlast) hc
    | cons d cs =>
      obtain ⟨front, hfront, hsplit⟩ := ih (by simpa only [List.getLast?_cons_cons] using hlast)
      exact ⟨c :: front, .single hc hb hfront, by rw [hsplit]; rfl⟩

end StringBody

/-! ## Two kinds of paths -/

theorem IsLiteral.not_isCutShort {cs : List Char} (h : IsLiteral cs) : ¬ IsCutShort cs := by
  obtain ⟨quote, body, -, hbody, rfl⟩ := h
  rintro ⟨quote', front, -, hfront, hsplit⟩
  rw [List.cons_append, List.cons_append, List.cons.injEq] at hsplit
  obtain ⟨rfl, hsplit⟩ := hsplit
  have hlone : body = front ++ ['\\'] := by
    have hjoined : body ++ [quote] = (front ++ ['\\']) ++ [quote] := by simpa using hsplit
    exact List.append_cancel_right hjoined
  exact hfront.not_append_lone (hlone ▸ hbody)

/-- A path is a literal, or it is cut short by the end of the text. -/
theorem IsPath.literal_or_cutShort {path rest : List Char} (h : IsPath path rest) :
    IsLiteral path ∨ IsCutShort path ∧ rest = [] := by
  obtain ⟨hregion, hlength, hlast⟩ := h
  cases hregion with
  | string hquote hbody => exact .inl ⟨_, _, hquote, hbody, rfl⟩
  | @openString quote body last hquote hbody hopen =>
    rcases hopen with rfl | rfl
    · have hne : body ≠ [] := by
        rintro rfl
        simp at hlength
      have hbodyLast : body.getLast? = some quote := by
        simpa [List.getLast?_cons, List.getLast?_eq_some_getLast hne] using hlast
      obtain ⟨front, hfront, rfl⟩ := hbody.exists_escaped hbodyLast
      exact .inr ⟨⟨quote, front, hquote, hfront, by simp⟩, rfl⟩
    · -- the last character is the backslash and not the quote
      have hback : '\\' = quote := by
        rw [List.getLast?_append_cons] at hlast
        simpa using hlast
      exact absurd hback.symm (quote_ne_backslash hquote)

theorem IsCutShort.isPath {path : List Char} (h : IsCutShort path) : IsPath path [] := by
  obtain ⟨quote, body, hquote, hbody, rfl⟩ := h
  have hinside : StringBody quote (body ++ ['\\', quote]) := hbody.append (.pair quote .nil)
  have hregion : Region (quote :: (body ++ ['\\', quote]) ++ []) .quoted [] :=
    .openString hquote hinside (.inl rfl)
  rw [List.append_nil] at hregion
  have hlength : 2 ≤ (quote :: body ++ ['\\', quote]).length := by
    simp only [List.cons_append, List.length_cons, List.length_append]
    omega
  have hlast : (quote :: body ++ ['\\', quote]).getLast? = some quote := by
    rw [List.getLast?_append_cons]
    rfl
  exact ⟨hregion, hlength, hlast⟩

theorem Written.isPath {lead name path tail rest : List Char}
    (h : Written (.moduleFrom lead name path tail) rest) : IsPath path (tail ++ rest) := by
  cases h with
  | moduleFrom _ _ _ _ _ _ hpath _ => exact hpath

/-- A declaration with another path, at the end of a text. -/
theorem Written.replace {lead name path tail rest path' : List Char}
    (h : Written (.moduleFrom lead name path tail) rest) (hpath : IsPath path' []) :
    Written (.moduleFrom lead name path' []) [] := by
  cases h with
  | moduleFrom hgap hblanks hname hgap' hblanks' hblanks'' _ _ =>
    refine .moduleFrom hgap hblanks hname hgap' hblanks' hblanks'' hpath (.inr ⟨rfl, ?_⟩)
    intro indent _ hbegins
    simpa using hbegins.length_le

/-- A path that is cut short is taken behind whatever leads a path. -/
theorem IsCutShort.scan_eq {forms : Forms} {lead name path tail rest cut : List Char}
    (h : IsCutShort cut) (hforms : forms.moduleFrom = true)
    (hwritten : Written (.moduleFrom lead name path tail) rest) :
    scan forms [] [] 0 0 (lead ++ cut) = [(0, .moduleFrom lead name cut [])] := by
  have hcut : Written (.moduleFrom lead name cut []) [] := hwritten.replace h.isPath
  have hscan : scan forms [] [] 0 0 (lead ++ cut ++ [] ++ []) = _ :=
    hcut.scan_eq hforms (by decide) rfl rfl 0
  rw [List.append_nil, List.append_nil] at hscan
  exact hscan

/-- The path of each declaration is either a closed literal or cut short at an escaped quote, and
the latter only where the text ends with it. Behind whatever leads a path in a declaration, one that
is cut short by the end of the text is taken. -/
theorem paths_closed_unless_cut_short (forms : Forms) :
    (∀ source decl, Node.moduleDecl decl ∈ (extract forms source).nodes →
      (IsLiteral decl.source.raw.toList ↔ ¬ IsCutShort decl.source.raw.toList) ∧
      (IsCutShort decl.source.raw.toList → decl.source.span.stop = source.utf8ByteSize ∧
        decl.span.stop = source.utf8ByteSize)) ∧
    ∀ lead name path tail rest cut, forms.moduleFrom = true →
      Written (.moduleFrom lead name path tail) rest → IsCutShort cut →
      (extract forms (String.ofList (lead ++ cut))).nodes =
        [(Legacy.moduleFrom lead name cut []).toNode 0] := by
  constructor
  · intro source decl hdecl
    obtain ⟨front, found, rest, hsource, hwritten, hnode⟩ := exists_written_of_mem hdecl
    cases found with
    | bareDefault text => cases hnode
    | moduleFrom lead name path tail =>
      obtain rfl := Node.moduleDecl.inj hnode
      simp only [String.toList_ofList]
      have hsize : source.utf8ByteSize = byteSize (front ++ (lead ++ path ++ tail) ++ rest) := by
        rw [← byteSize_toList, hsource, text]
      rcases hwritten.isPath.literal_or_cutShort with hliteral | ⟨hcut, hend⟩
      · have hnot := hliteral.not_isCutShort
        exact ⟨iff_of_true hliteral hnot, fun hcut => absurd hcut hnot⟩
      · obtain ⟨rfl, rfl⟩ := List.append_eq_nil_iff.mp hend
        have hnot : ¬ IsLiteral path := fun hliteral => hliteral.not_isCutShort hcut
        refine ⟨iff_of_false hnot (not_not_intro hcut), fun _ => ?_⟩
        simp only [hsize, byteSize_append, byteSize_nil]
        omega
  · intro lead name path tail rest cut hforms hwritten hcut
    change declarations forms (String.ofList (lead ++ cut)).toList = _
    rw [String.toList_ofList, declarations, hcut.scan_eq hforms hwritten]
    rfl

/-- An escaped quote in the middle of a path and one at the end of the text. -/
theorem paths_closed_unless_cut_short_pair :
    let source := "module a from \"\\\"\"; module b from 'b\\'"
    let first : ModuleDecl := ⟨⟨0, 19⟩, "a", ⟨⟨14, 18⟩, "\"\\\"\""⟩⟩
    let second : ModuleDecl := ⟨⟨20, 38⟩, "b", ⟨⟨34, 38⟩, "'b\\'"⟩⟩
    (extract {} source).nodes = [.moduleDecl first, .moduleDecl second] ∧
      ¬ IsCutShort first.source.raw.toList ∧ ¬ IsLiteral second.source.raw.toList ∧
      second.source.span.stop = source.utf8ByteSize := by
  intro source first second
  have hscan : scan {} [] [] 0 0 source.toList =
      [(0, .moduleFrom "module a from ".toList ['a'] "\"\\\"\"".toList [';']),
        (20, .moduleFrom "module b from ".toList ['b'] "'b\\'".toList [])] := by decide +kernel
  have hnodes : (extract {} source).nodes = [.moduleDecl first, .moduleDecl second] := by
    change declarations {} source.toList = _
    rw [declarations, hscan]
    rfl
  have hpaths := (paths_closed_unless_cut_short {}).1 source
  rw [hnodes] at hpaths
  obtain ⟨hfirst, -⟩ := hpaths first (by simp)
  obtain ⟨hsecond, hstop⟩ := hpaths second (by simp)
  have hliteral : IsLiteral first.source.raw.toList :=
    ⟨'"', ['\\', '"'], rfl, .pair _ .nil, by decide +kernel⟩
  have hcut : IsCutShort second.source.raw.toList :=
    ⟨'\'', ['b'], rfl, .single (by decide) (by decide) .nil, by decide +kernel⟩
  exact ⟨hnodes, hfirst.mp hliteral, fun h => hsecond.mp h hcut, (hstop hcut).1⟩

/-- A declaration whose path is not closed. -/
theorem path_not_closed_at_end :
    let source := "module a from '\\'"
    let decl : ModuleDecl := ⟨⟨0, 17⟩, "a", ⟨⟨14, 17⟩, "'\\'"⟩⟩
    (extract {} source).nodes = [.moduleDecl decl] ∧ ¬ IsLiteral decl.source.raw.toList := by
  intro source decl
  have hscan : scan {} [] [] 0 0 source.toList =
      [(0, .moduleFrom "module a from ".toList ['a'] "'\\'".toList [])] := by decide +kernel
  have hcut : IsCutShort decl.source.raw.toList := ⟨'\'', [], rfl, .nil, by decide +kernel⟩
  have hnodes : (extract {} source).nodes = [.moduleDecl decl] := by
    change declarations {} source.toList = _
    rw [declarations, hscan]
    rfl
  exact ⟨hnodes, fun h => h.not_isCutShort hcut⟩

end ModSplice.Legacy
