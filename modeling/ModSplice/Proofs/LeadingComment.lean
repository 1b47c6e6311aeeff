import ModSplice.Proofs.Selection
import ModSplice.Proofs.Shift

/-!
# A comment in front of a text

A line comment put in front of a text moves what is found there and changes nothing else, with one
exception. The scan looks back for a dot at the characters as they are, so a dot at the end of the
comment makes a property of the word behind it. The declaration of that word is then lost.
-/
namespace ModSplice.Legacy

open ModSplice.Text

variable {forms : Forms} {templates : Templates} {past past' run rest : List Char}

/-! ## What the scan sees of the text behind it -/

theorem followsDot_append (run past : List Char) (h : ∃ c ∈ run, isBlank c = false) :
    followsDot (run ++ past) = followsDot run := by
  obtain ⟨c, hc, hblank⟩ := h
  have hsome : (run.find? fun c => !isBlank c).isSome = true :=
    List.find?_isSome.mpr ⟨c, hc, by simp [hblank]⟩
  rw [followsDot, followsDot, List.find?_append, Option.or_of_isSome hsome]

theorem followsDot_blanks (h : IsBlanks run) (past : List Char) :
    followsDot (run ++ past) = followsDot past := by
  have hnone : run.find? (fun c => !isBlank c) = none :=
    List.find?_eq_none.mpr fun c hc => by simp [h c hc]
  rw [followsDot, followsDot, List.find?_append, hnone, Option.none_or]

/-- Two texts that are the same to a scan that goes on behind them. -/
structure Alike (past past' : List Char) : Prop where
  word : past.head?.any isWordChar = past'.head?.any isWordChar
  dot : followsDot past = followsDot past'

theorem Alike.cons (h : Alike past past') (c : Char) : Alike (c :: past) (c :: past') := by
  refine ⟨rfl, ?_⟩
  cases hc : isBlank c with
  | true =>
    have hblanks : IsBlanks [c] := by simpa [IsBlanks] using hc
    calc
      followsDot (c :: past) = followsDot past := followsDot_blanks hblanks past
      _ = followsDot past' := h.dot
      _ = followsDot (c :: past') := (followsDot_blanks hblanks past').symm
  | false =>
    have hsome : ∃ d ∈ [c], isBlank d = false := ⟨c, by simp, hc⟩
    exact (followsDot_append [c] past hsome).trans (followsDot_append [c] past' hsome).symm

theorem alike_append (run past past' : List Char) (h : ∃ c ∈ run, isBlank c = false) :
    Alike (run ++ past) (run ++ past') := by
  refine ⟨?_, (followsDot_append run past h).trans (followsDot_append run past' h).symm⟩
  obtain ⟨c, hc, -⟩ := h
  obtain ⟨d, run, rfl⟩ := List.exists_cons_of_ne_nil (List.ne_nil_of_mem hc)
  rfl

theorem Alike.stride_eq (h : Alike past past') (cs : List Char) :
    stride forms templates past cs = stride forms templates past' cs := by
  have hcode : codeStride forms past cs = codeStride forms past' cs := by
    rw [codeStride, codeStride, beginsWord, beginsWord, h.word, h.dot]
  rw [stride, stride, hcode]

/-- Where no declaration begins, it does not matter whether a dot comes before. -/
theorem stride_eq_of_none {cs : List Char}
    (hword : past.head?.any isWordChar = past'.head?.any isWordChar)
    (hnone : ofChars? forms cs = none) :
    stride forms templates past cs = stride forms templates past' cs := by
  have hcode : codeStride forms past cs = codeStride forms past' cs := by
    simp only [codeStride, beginsWord, hword, hnone, ite_self]
  rw [stride, stride, hcode]

def move (k : Nat) (x : Nat × Legacy) : Nat × Legacy :=
  (k + x.1, x.2)

theorem Alike.scan_eq (h : Alike past past') (k offset covered : Nat) (cs : List Char) :
    scan forms templates past (k + offset) covered cs =
      (scan forms templates past' offset covered cs).map (move k) := by
  induction cs generalizing templates past past' offset covered with
  | nil => rfl
  | cons c cs ih =>
    cases covered with
    | succ covered => simpa only [scan, Nat.add_assoc] using ih (h.cons c) _ _
    | zero =>
      rw [scan, scan, h.stride_eq, Nat.add_assoc, ih (h.cons c), List.map_append, List.map_map]
      rfl

/-! ## Texts without a find -/

/-- The scan goes over `run` without a find. -/
def Passes (forms : Forms) (templates : Templates) (past run rest : List Char) : Prop :=
  ∀ offset, scan forms templates past offset 0 (run ++ rest) =
    scan forms templates (run.reverse ++ past) (offset + byteSize run) 0 rest

theorem passes_nil : Passes forms templates past [] rest :=
  fun _ => rfl

theorem Passes.append {later : List Char} (h : Passes forms templates past run (later ++ rest))
    (h' : Passes forms templates (run.reverse ++ past) later rest) :
    Passes forms templates past (run ++ later) rest := by
  intro offset
  rw [List.append_assoc, h, h', List.reverse_append, byteSize_append, List.append_assoc,
    Nat.add_assoc]

theorem passes_of_stride (hne : run ≠ [])
    (h : stride forms templates past (run ++ rest) = ⟨templates, run.length, none⟩) :
    Passes forms templates past run rest := by
  intro offset
  obtain ⟨c, run, rfl⟩ := List.exists_cons_of_ne_nil hne
  rw [scan_stride forms templates past offset c run rest (by rw [h]), h]
  rfl

theorem passes_region {mark : Mark} (hlevel : templates.level ≠ .template)
    (h : Region run mark rest) : Passes forms templates past run rest := by
  have hwidth := h.regionWidth?_eq
  obtain ⟨c, front, rfl, hback, hopen, hclose⟩ := h.head
  refine passes_of_stride (by simp) ?_
  rw [List.cons_append] at hwidth ⊢
  simp [stride, codeStride, step_of_code _ hlevel hback hopen hclose, hwidth]

/-- Where no mark begins anything, a word makes the stride or a single character does. -/
theorem stride_plain {c : Char} (cs : List Char) (hlevel : templates.level ≠ .template)
    (hc : c ∉ special) :
    stride forms templates past (c :: cs) =
      if isWordStart c = true ∧ past.head?.any isWordChar = false then
        match if followsDot past then none else ofChars? forms (c :: cs) with
        | some found => ⟨templates, found.text.length, some found⟩
        | none => ⟨templates, ((c :: cs).takeWhile isWordChar).length, none⟩
      else ⟨templates, 1, none⟩ := by
  obtain ⟨hstep, hregion⟩ := step_plain cs hlevel hc
  simp only [stride, codeStride, hstep, regionWidth?_eq_none hregion]
  by_cases hword : isWordStart c = true ∧ past.head?.any isWordChar = false
  · have hbegins : beginsWord past (c :: cs) = true := by simp [beginsWord, hword]
    cases followsDot past <;> cases ofChars? forms (c :: cs) <;> simp [hbegins, hword]
  · have hbegins : beginsWord past (c :: cs) = false := by simpa [beginsWord] using hword
    rw [hbegins, if_neg hword]
    rfl

theorem passes_plain (hlevel : templates.level ≠ .template) (hplain : ∀ c ∈ run, c ∉ special)
    (hwords : ∀ c ∈ run, isWordChar c = false) : Passes forms templates past run rest := by
  induction run generalizing past with
  | nil => exact passes_nil
  | cons c run ih =>
    have hc : isWordStart c = false := by
      by_contra hstart
      have hword := isWordChar_of_isWordStart c (Bool.not_eq_false _ ▸ hstart)
      rw [hwords c (by simp)] at hword
      cases hword
    have hone : Passes forms templates past [c] (run ++ rest) := by
      refine passes_of_stride (by simp) ?_
      rw [List.singleton_append, stride_plain _ hlevel (hplain c (by simp)), if_neg (by simp [hc])]
      rfl
    exact hone.append (ih (fun d hd => hplain d (by simp [hd])) fun d hd => hwords d (by simp [hd]))

theorem passes_blanks (hlevel : templates.level ≠ .template) (h : IsBlanks run) :
    Passes forms templates past run rest :=
  passes_plain hlevel (fun c hc => isBlank_not_special (h c hc))
    fun c hc => isWordChar_of_isBlank (h c hc)

/-- A word is gone over behind a dot, and where it begins no declaration. -/
theorem passes_word (hlevel : templates.level ≠ .template) (hrun : IsName run)
    (hrest : ∀ c ∈ rest.head?, isWordChar c = false) (hpast : past.head?.any isWordChar = false)
    (hnone : followsDot past = true ∨ ofChars? forms (run ++ rest) = none) :
    Passes forms templates past run rest := by
  have htake := takeWhile_eq_of_stop hrun.isWordChar hrest
  obtain ⟨c, cs, rfl, hstart, -⟩ := hrun
  have hplain := isWordChar_not_special (isWordChar_of_isWordStart c hstart)
  refine passes_of_stride (by simp) ?_
  rw [List.cons_append] at htake hnone ⊢
  have hnone' : (if followsDot past then none else ofChars? forms (c :: (cs ++ rest))) = none := by
    rcases hnone with hdot | hnone
    · rw [if_pos hdot]
    · rw [hnone, ite_self]
  rw [stride_plain _ hlevel hplain, if_pos ⟨hstart, hpast⟩, hnone', htake]

/-! ## Declarations behind a dot -/

theorem ofChars?_eq_none_of_word {cs : List Char}
    (hmodule : cs.takeWhile isWordChar ≠ ['m', 'o', 'd', 'u', 'l', 'e'])
    (hexport : cs.takeWhile isWordChar ≠ ['e', 'x', 'p', 'o', 'r', 't']) :
    ofChars? forms cs = none := by
  simp [ofChars?, hmodule, hexport]

/-- The name in a declaration begins none itself, be it `module` or `export`. -/
theorem ofChars?_name {name gap gap' path : List Char} (hname : IsName name) (hgap : gap ≠ [])
    (hblanks : IsBlanks gap) (hblanks' : IsBlanks gap') (hpath : IsPath path rest) :
    ofChars? forms (name ++ (gap ++ (['f', 'r', 'o', 'm'] ++ (gap' ++ (path ++ rest))))) =
      none := by
  generalize hatFrom : ['f', 'r', 'o', 'm'] ++ (gap' ++ (path ++ rest)) = atFrom
  have hquote : ∀ c ∈ (path ++ rest).head?, isWordChar c = false ∧ isBlank c = false := fun c hc =>
    ⟨isWordChar_of_isQuote (hpath.head rest c hc), isBlank_of_isQuote (hpath.head rest c hc)⟩
  have hnext : afterSomeBlanks? (afterWord (name ++ (gap ++ atFrom))) = some atFrom :=
    (afterSomeBlanks?_afterWord name gap atFrom hname.isWordChar hgap hblanks (by
      simp [← hatFrom, isBlank])).1
  obtain ⟨hbehind, hfrom⟩ := afterBlanks_afterWord _ gap' (path ++ rest)
    (show ∀ c ∈ ['f', 'r', 'o', 'm'], isWordChar c = true from forall_of_all (by decide)) hblanks'
    hquote
  rw [hatFrom] at hbehind hfrom
  rw [Option.eq_none_iff_forall_ne_some]
  intro found hfound
  simp only [ofChars?] at hfound
  split at hfound
  · -- read as a name, `from` has the path behind it and not another `from`
    obtain ⟨atName, again, -, hatName, -, hagain, hword, -⟩ := moduleFrom?_eq_some hfound
    obtain rfl := Option.some.inj (hnext.symm.trans hatName)
    obtain ⟨blanks, -, hall, hsplit, hstop⟩ := afterSomeBlanks?_eq_some hagain
    rw [hsplit, afterBlanks, dropWhile_eq_of_stop hall hstop] at hbehind
    subst hbehind
    obtain ⟨quote, body, rfl, -⟩ := hpath.1.isQuote_head
    rw [List.cons_append, List.takeWhile_cons_of_neg (by simp [(hquote quote rfl).1])] at hword
    cases hword
  · obtain ⟨-, hfound⟩ := Option.ite_none_right_eq_some.mp hfound
    obtain ⟨atDefault, -, hatDefault, hword, -⟩ := bareDefault?_eq_some hfound
    obtain rfl := Option.some.inj (hnext.symm.trans hatDefault)
    rw [hfrom] at hword
    simp at hword

theorem head_behind_blanks {gap : List Char} (run past : List Char) (hne : gap ≠ [])
    (hgap : IsBlanks gap) : ((run ++ gap).reverse ++ past).head?.any isWordChar = false := by
  have hlast : isWordChar (gap.getLast hne) = false :=
    isWordChar_of_isBlank (hgap _ (List.getLast_mem hne))
  simp [List.getLast?_eq_some_getLast hne, hlast]

theorem isWordChar_of_isIndentChar {c : Char} (h : isIndentChar c = true) :
    isWordChar c = false := by
  simp only [isIndentChar, Bool.or_eq_true, beq_iff_eq] at h
  rcases h with rfl | rfl <;> decide

theorem IsTail.not_isWordChar {tail : List Char} (h : IsTail tail rest) :
    ∀ c ∈ tail, isWordChar c = false := by
  rcases h with ⟨indent, hindent, rfl⟩ | ⟨rfl, -⟩
  · rw [List.forall_mem_append]
    exact ⟨fun c hc => isWordChar_of_isIndentChar (hindent c hc), forall_of_all (by decide)⟩
  · simp

/-- A declaration that is not taken, because of a dot in front of it or because of its form, is gone
over as a whole. -/
theorem Written.passes {found : Legacy} (h : Written found rest)
    (hlevel : templates.level ≠ .template) (hpast : past.head?.any isWordChar = false)
    (hnone : followsDot past = true ∨ ofChars? forms (found.text ++ rest) = none) :
    Passes forms templates past found.text rest := by
  cases h with
  | @moduleFrom gap name gap' gap'' path tail _ hgap hblanks hname hgap' hblanks' hblanks'' hpath
      htail =>
    simp only [text]
    have hquote : ∀ c ∈ (path ++ (tail ++ rest)).head?, isWordChar c = false := fun c hc =>
      isWordChar_of_isQuote (hpath.head _ c hc)
    refine
      .append (.append (.append (.append (.append (.append (.append ?_ ?_) ?_) ?_) ?_) ?_) ?_) ?_
    · exact passes_word hlevel (isName_of_all (by decide) (by decide))
        (head_of_blanks _ hgap hblanks) hpast (by simpa [text] using hnone)
    · exact passes_blanks hlevel hblanks
    · exact passes_word hlevel hname (head_of_blanks _ hgap' hblanks')
        (head_behind_blanks _ _ hgap hblanks)
        (.inr (ofChars?_name hname hgap' hblanks' hblanks'' hpath))
    · exact passes_blanks hlevel hblanks'
    · have hstop := head_append_of_blanks hblanks'' hquote
      refine passes_word hlevel (isName_of_all (by decide) (by decide)) hstop
        (head_behind_blanks _ _ hgap' hblanks') (.inr (ofChars?_eq_none_of_word ?_ ?_))
      all_goals
        rw [takeWhile_eq_of_stop (forall_of_all (by decide)) hstop]
        decide
    · exact passes_blanks hlevel hblanks''
    · exact passes_region hlevel hpath.1
    · exact passes_plain hlevel htail.not_special htail.not_isWordChar
  | @bareDefault gap gap' rest hgap hblanks hblanks' =>
    simp only [text]
    refine .append (.append (.append (.append ?_ ?_) ?_) ?_) ?_
    · exact passes_word hlevel (isName_of_all (by decide) (by decide))
        (head_of_blanks _ hgap hblanks) hpast (by simpa [text] using hnone)
    · exact passes_blanks hlevel hblanks
    · have hstop : ∀ c ∈ (gap' ++ ([';'] ++ rest)).head?, isWordChar c = false :=
        head_append_of_blanks hblanks' (by simp; decide)
      refine passes_word hlevel (isName_of_all (by decide) (by decide)) hstop
        (head_behind_blanks _ _ hgap hblanks) (.inr (ofChars?_eq_none_of_word ?_ ?_))
      all_goals
        rw [takeWhile_eq_of_stop (forall_of_all (by decide)) hstop]
        decide
    · exact passes_blanks hlevel hblanks'
    · exact passes_plain hlevel (not_special_of_all (by decide)) (forall_of_all (by decide))

/-! ## The finds behind a comment -/

theorem Written.text_head {found : Legacy} (h : Written found rest) :
    ∃ c cs, found.text = c :: cs ∧ isWordStart c = true := by
  cases h with
  | moduleFrom => exact ⟨'m', _, rfl, by decide⟩
  | bareDefault => exact ⟨'e', _, rfl, by decide⟩

/-- A declaration is taken where no dot comes before. -/
theorem Written.scan_eq {found : Legacy} (h : Written found rest)
    (hsought : isSought forms found = true) (hlevel : templates.level ≠ .template)
    (hpast : past.head?.any isWordChar = false) (hdot : followsDot past = false) (offset : Nat) :
    scan forms templates past offset 0 (found.text ++ rest) =
      (offset, found) :: scan forms templates (found.text.reverse ++ past)
        (offset + byteSize found.text) 0 rest := by
  have hfound : ofChars? forms (found.text ++ rest) = some found :=
    ofChars?_eq_some_iff.mpr ⟨rest, rfl, h, hsought⟩
  obtain ⟨c, cs, htext, hstart⟩ := h.text_head
  have hplain := isWordChar_not_special (isWordChar_of_isWordStart c hstart)
  have hstride : stride forms templates past (found.text ++ rest) =
      ⟨templates, found.text.length, some found⟩ := by
    rw [htext, List.cons_append] at hfound ⊢
    simp [stride_plain _ hlevel hplain, hstart, hpast, hdot, hfound, htext]
  rw [htext] at hstride ⊢
  rw [scan_stride forms templates past offset c cs rest (by rw [hstride]), hstride]
  rfl

theorem head_reverse_blanks (hrun : IsBlanks run) (hpast : past.head?.any isWordChar = false) :
    (run.reverse ++ past).head?.any isWordChar = false := by
  by_cases hne : run = []
  · rwa [hne]
  · exact head_behind_blanks [] past hne hrun

/-- Where no declaration comes first, what comes before does not matter. -/
theorem scan_behind_any (hpast : past.head?.any isWordChar = false) {cs : List Char}
    (h : ¬ Begins forms (afterBlanks cs)) (k : Nat) :
    scan forms [] past k 0 cs = (scan forms [] [] 0 0 cs).map (move k) := by
  obtain ⟨gap, back, rfl, -, hback, hblanks, hstop⟩ := exists_run isBlank cs
  rw [afterBlanks, hback, begins_iff, not_exists, ← Option.eq_none_iff_forall_ne_some] at h
  rw [passes_blanks (by decide) hblanks k, passes_blanks (by decide) hblanks 0]
  cases back with
  | nil => rfl
  | cons c back =>
    have hheads : (gap.reverse ++ past).head?.any isWordChar =
        (gap.reverse ++ []).head?.any isWordChar :=
      (head_reverse_blanks hblanks hpast).trans (head_reverse_blanks hblanks rfl).symm
    have hnext : Alike (c :: (gap.reverse ++ past)) (c :: (gap.reverse ++ [])) :=
      alike_append [c] _ _ ⟨c, by simp, hstop c rfl⟩
    rw [scan, scan, stride_eq_of_none hheads h, List.map_append, List.map_map, ← hnext.scan_eq k]
    simp [Function.comp_def, move, Nat.add_assoc]

/-- Behind another text the same is found further on, unless a dot ends it and a declaration comes
first. -/
theorem scan_behind (hpast : past.head?.any isWordChar = false) {cs : List Char}
    (h : ¬ (followsDot past = true ∧ Begins forms (afterBlanks cs))) (k : Nat) :
    scan forms [] past k 0 cs = (scan forms [] [] 0 0 cs).map (move k) := by
  by_cases hbegins : Begins forms (afterBlanks cs)
  · have hdot : followsDot past = false := by simpa [hbegins] using h
    have halike : Alike past [] := ⟨hpast, hdot⟩
    exact halike.scan_eq k 0 0 cs
  · exact scan_behind_any hpast hbegins k

/-- Behind a dot the first declaration is lost. -/
theorem scan_behind_dot (hpast : past.head?.any isWordChar = false)
    (hdot : followsDot past = true) {cs : List Char} (h : Begins forms (afterBlanks cs)) (k : Nat) :
    ∃ first later, scan forms [] [] 0 0 cs = first :: later ∧
      scan forms [] past k 0 cs = later.map (move k) := by
  obtain ⟨gap, hblanks, hsplit⟩ := exists_blanks cs
  obtain ⟨found, rest, hbegins, hwritten, hsought⟩ := h
  rw [hbegins] at hsplit
  subst hsplit
  have hreverse : IsBlanks gap.reverse := fun c hc => hblanks c (List.mem_reverse.mp hc)
  have hlevel : Templates.level [] ≠ .template := by decide
  have htaken := hwritten.scan_eq hsought hlevel (head_reverse_blanks hblanks rfl)
    (followsDot_blanks hreverse []) (0 + byteSize gap)
  have hpassed : Passes forms [] (gap.reverse ++ past) found.text rest :=
    hwritten.passes hlevel (head_reverse_blanks hblanks hpast)
      (.inl ((followsDot_blanks hreverse past).trans hdot))
  have halike : Alike (found.text.reverse ++ (gap.reverse ++ past))
      (found.text.reverse ++ (gap.reverse ++ [])) := by
    obtain ⟨c, cs, htext, hstart⟩ := hwritten.text_head
    exact alike_append _ _ _ ⟨c, by simp [htext], isBlank_of_isWordStart hstart⟩
  refine ⟨_, _, (passes_blanks hlevel hblanks 0).trans htaken, ?_⟩
  rw [passes_blanks hlevel hblanks k, hpassed, ← halike.scan_eq]
  congr 1
  omega

/-! ## The text behind a comment -/

theorem byteSize_eq (cs : List Char) : byteSize cs = (String.ofList cs).utf8ByteSize := by
  induction cs with
  | nil => simp
  | cons c cs ih =>
    have hcons : String.ofList (c :: cs) = String.singleton c ++ String.ofList cs := by
      rw [String.singleton_eq_ofList, ← String.ofList_append, List.singleton_append]
    rw [byteSize_cons, ih, hcons, String.utf8ByteSize_append, String.utf8ByteSize_singleton]

theorem byteSize_toList (s : String) : byteSize s.toList = s.utf8ByteSize := by
  rw [byteSize_eq, String.ofList_toList]

theorem toNode_move (k offset : Nat) (found : Legacy) :
    found.toNode (k + offset) = (found.toNode offset).shift k := by
  cases found with
  | moduleFrom =>
    simp [toNode, Node.shift, ModuleDecl.shift, Source.shift, Span.shift, Nat.add_assoc]
  | bareDefault => simp [toNode, Node.shift, Span.shift, Nat.add_assoc]

theorem blankOut_shift (spans : List Span) (k offset : Nat) (cs : List Char) :
    blankOut (spans.map (Span.shift k)) (k + offset) cs = blankOut spans offset cs := by
  induction cs generalizing offset with
  | nil => rfl
  | cons c cs ih => simp [blankOut, Nat.add_assoc, ih, Function.comp_def]

theorem blankOut_append (spans : List Span) (offset : Nat) (front rest : List Char) :
    blankOut spans offset (front ++ rest) =
      blankOut spans offset front ++ blankOut spans (offset + byteSize front) rest := by
  induction front generalizing offset with
  | nil => rfl
  | cons c front ih => simp [blankOut, ih, Nat.add_assoc]

/-- Text outside all spans stays. -/
theorem blankOut_outside {spans : List Span} {offset : Nat} {cs : List Char}
    (h : ∀ s ∈ spans, offset + byteSize cs ≤ s.start ∨ s.stop ≤ offset) :
    blankOut spans offset cs = cs := by
  induction cs generalizing offset with
  | nil => rfl
  | cons c cs ih =>
    have hc := c.utf8Size_pos
    simp only [byteSize_cons] at h
    have hfree : (spans.any fun s => s.start ≤ offset && offset < s.stop) = false := by
      rw [List.any_eq_false]
      intro s hs
      have hout := h s hs
      simp only [Bool.and_eq_true, decide_eq_true_eq]
      omega
    have hrest : ∀ s ∈ spans, offset + c.utf8Size + byteSize cs ≤ s.start ∨
        s.stop ≤ offset + c.utf8Size := by
      intro s hs
      have hout := h s hs
      omega
    rw [blankOut, hfree, ih hrest]
    simp

/-- Text in front of all spans stays. -/
theorem blankOut_front {spans : List Span} {offset : Nat} {front : List Char} (rest : List Char)
    (h : ∀ s ∈ spans, offset + byteSize front ≤ s.start) :
    blankOut spans offset (front ++ rest) =
      front ++ blankOut spans (offset + byteSize front) rest := by
  rw [blankOut_append, blankOut_outside fun s hs => .inl (h s hs)]

def commentLine (c : String) : String :=
  "//" ++ c ++ "\n"

/-- The last character that is not blank is a dot. -/
def EndsInDot (c : String) : Prop :=
  (c.toList.filter fun d => !isBlank d).getLast? = some '.'
  deriving Decidable

def Extract.behind (lead : String) (x : Extract) : Extract :=
  ⟨lead ++ x.text, x.nodes.map (Node.shift lead.utf8ByteSize)⟩

def taking (nodes : List Node) (source : String) : Extract :=
  ⟨String.ofList (blankOut (nodes.map Node.span) 0 source.toList), nodes⟩

theorem extract_eq_taking (forms : Forms) (source : String) :
    extract forms source = taking (declarations forms source.toList) source :=
  rfl

theorem taking_behind (nodes : List Node) (lead source : String) :
    taking (nodes.map (Node.shift lead.utf8ByteSize)) (lead ++ source) =
      (taking nodes source).behind lead := by
  have hsize := byteSize_toList lead
  have hspans : (nodes.map (Node.shift lead.utf8ByteSize)).map Node.span =
      (nodes.map Node.span).map (Span.shift lead.utf8ByteSize) := by
    simp
  have hfront : ∀ s ∈ (nodes.map Node.span).map (Span.shift lead.utf8ByteSize),
      0 + byteSize lead.toList ≤ s.start := by
    intro s hs
    obtain ⟨t, -, rfl⟩ := List.mem_map.mp hs
    rw [Span.shift_start, hsize]
    omega
  simp only [taking, Extract.behind, Extract.mk.injEq, and_true]
  rw [hspans, String.toList_append, blankOut_front _ hfront, hsize, Nat.add_comm, blankOut_shift,
    String.ofList_append, String.ofList_toList]

theorem commentLine_toList (c : String) :
    (commentLine c).toList = ('/' :: '/' :: c.toList) ++ ['\n'] := by
  rw [commentLine, String.toList_append, String.toList_append]
  rfl

theorem passes_commentLine {c : String} (h : '\n' ∉ c.toList) :
    Passes forms [] [] (commentLine c).toList rest := by
  have hlevel : Templates.level [] ≠ .template := by decide
  rw [commentLine_toList]
  exact (passes_region hlevel (.line h (by simp))).append
    (passes_plain hlevel (not_special_of_all (by decide)) (forall_of_all (by decide)))

theorem commentLine_head (c : String) :
    (commentLine c).toList.reverse.head?.any isWordChar = false := by
  rw [commentLine_toList, List.reverse_append]
  rfl

theorem followsDot_commentLine (c : String) :
    followsDot (commentLine c).toList.reverse = true ↔ EndsInDot c := by
  have hfilter : ((commentLine c).toList.filter fun d => !isBlank d) =
      '/' :: '/' :: c.toList.filter fun d => !isBlank d := by
    simp [commentLine_toList, isBlank]
  rw [← Bool.not_eq_false, followsDot_reverse, not_ne_iff, hfilter, EndsInDot]
  cases c.toList.filter fun d => !isBlank d with
  | nil => decide
  | cons d ds => simp

theorem extract_of_finds {lead source : String} {finds : List (Nat × Legacy)}
    (h : scan forms [] [] 0 0 (lead ++ source).toList = finds.map (move lead.utf8ByteSize)) :
    extract forms (lead ++ source) =
      (taking (finds.map fun x => x.2.toNode x.1) source).behind lead := by
  have hnodes : declarations forms (lead ++ source).toList =
      (finds.map fun x => x.2.toNode x.1).map (Node.shift lead.utf8ByteSize) := by
    rw [declarations, h, List.map_map, List.map_map]
    exact List.map_congr_left fun x _ => toNode_move _ x.1 x.2
  rw [extract_eq_taking, hnodes, taking_behind]

/-- A comment in front of a text moves what is found there and leaves the rest as it is, if and only
if it does not end in a dot or no declaration comes first behind it. Otherwise that declaration is
lost and stays in the text, and the others are found. -/
theorem extract_behind_comment (forms : Forms) (c source : String) (hc : '\n' ∉ c.toList) :
    (extract forms (commentLine c ++ source) = (extract forms source).behind (commentLine c) ↔
      ¬ (EndsInDot c ∧ Begins forms (source.toList.dropWhile isBlank))) ∧
    (EndsInDot c → Begins forms (source.toList.dropWhile isBlank) →
      ∃ first later, (extract forms source).nodes = first :: later ∧
        extract forms (commentLine c ++ source) =
          (taking later source).behind (commentLine c)) := by
  generalize hlead : commentLine c = lead
  have hpast : lead.toList.reverse.head?.any isWordChar = false := hlead ▸ commentLine_head c
  have hdot : followsDot lead.toList.reverse = true ↔ EndsInDot c :=
    hlead ▸ followsDot_commentLine c
  have hpasses : scan forms [] [] 0 0 (lead ++ source).toList =
      scan forms [] lead.toList.reverse lead.utf8ByteSize 0 source.toList := by
    have h : Passes forms [] [] lead.toList source.toList := hlead ▸ passes_commentLine hc
    rw [String.toList_append, h, List.append_nil, Nat.zero_add, byteSize_toList]
  have hlost : EndsInDot c → Begins forms (source.toList.dropWhile isBlank) →
      ∃ first later, (extract forms source).nodes = first :: later ∧
        extract forms (lead ++ source) = (taking later source).behind lead := by
    intro hends hbegins
    obtain ⟨first, later, hfinds, hmoved⟩ :=
      scan_behind_dot hpast (hdot.mpr hends) hbegins lead.utf8ByteSize
    refine ⟨first.2.toNode first.1, _, ?_, extract_of_finds (hpasses.trans hmoved)⟩
    change declarations forms source.toList = _
    rw [declarations, hfinds, List.map_cons]
  refine ⟨⟨?_, ?_⟩, hlost⟩
  · rintro hsame ⟨hends, hbegins⟩
    obtain ⟨first, later, hnodes, hextract⟩ := hlost hends hbegins
    have hlength := congrArg (fun x : Extract => x.nodes.length) (hsame.symm.trans hextract)
    simp [Extract.behind, taking, hnodes] at hlength
  · intro hkept
    rw [← hdot] at hkept
    rw [extract_of_finds (hpasses.trans (scan_behind hpast hkept lead.utf8ByteSize))]
    rfl

/-- Two declarations behind a comment: both are found, and only the second one where the comment
ends in a dot. -/
theorem extract_behind_comment_pair :
    let source := " module a from 'é'; export default;"
    '\n' ∉ " end. ".toList ∧ '\n' ∉ "end".toList ∧
      extract {} (commentLine "end" ++ source) = (extract {} source).behind (commentLine "end") ∧
      ∃ first later, (extract {} source).nodes = first :: later ∧
        extract {} (commentLine " end. " ++ source) =
          (taking later source).behind (commentLine " end. ") := by
  intro source
  have hdot : '\n' ∉ " end. ".toList := by decide
  have hword : '\n' ∉ "end".toList := by decide
  have hfound : ofChars? {} (source.toList.dropWhile isBlank) =
      some (.moduleFrom "module a from ".toList ['a'] "'é'".toList [';']) := by decide +kernel
  refine ⟨hdot, hword, (extract_behind_comment {} "end" source hword).1.mpr ?_,
    (extract_behind_comment {} " end. " source hdot).2 (by decide +kernel)
      (begins_iff.mpr ⟨_, hfound⟩)⟩
  rintro ⟨hends, -⟩
  exact absurd hends (by decide +kernel)

/-- A dot in a comment makes a difference. -/
theorem extract_behind_dot :
    extract {} (commentLine "." ++ "module a from 'a';") ≠
      (extract {} "module a from 'a';").behind (commentLine ".") := by
  intro hsame
  have hlength := congrArg (fun x : Extract => x.nodes.length) hsame
  exact absurd hlength (by decide +kernel)

end ModSplice.Legacy
