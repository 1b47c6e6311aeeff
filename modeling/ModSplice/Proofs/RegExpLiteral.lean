import ModSplice.Proofs.Greedy
import ModSplice.Proofs.OutOfStep

/-!
# A regular expression in front of a text

The scan has no regular expressions. It reads the inside of one as code, with the strings, templates
and declarations that seem to stand there. If these come to an end in front of the slash that closes
the literal, and no declaration is among them, then the scan is in step again behind it. Otherwise
there is a text behind which it makes a difference that the literal comes first.
-/
namespace ModSplice.Legacy

open ModSplice.Text

variable {forms : Forms} {templates : Templates} {past : List Char}

/-! ## Declarations in front of a slash that is code -/

theorem codeFlags_cons (templates : Templates) (covered : Nat) (c : Char) :
    ∀ cs, ∃ flag after covered',
      codeFlags templates covered (c :: cs) = flag :: codeFlags after covered' cs := by
  intro cs
  cases covered with
  | succ covered => exact ⟨_, _, _, rfl⟩
  | zero =>
    rw [codeFlags]
    split
    · exact ⟨_, _, _, rfl⟩
    · split <;> exact ⟨_, _, _, rfl⟩

/-- At a character of code the flags go on from templates that are open there. -/
theorem codeFlags_split {covered : Nat} {front back : List Char}
    (h : (codeFlags templates covered (front ++ back))[front.length]? = some true) :
    ∃ flags after, flags.length = front.length ∧ Templates.level after ≠ .template ∧
      codeFlags templates covered (front ++ back) = flags ++ codeFlags after 0 back := by
  induction front generalizing templates covered with
  | nil =>
    rw [List.nil_append, List.length_nil] at h
    cases back with
    | nil => simp [codeFlags] at h
    | cons c cs =>
      cases covered with
      | succ covered => simp [codeFlags] at h
      | zero =>
        refine ⟨[], templates, rfl, ?_, rfl⟩
        rw [codeFlags] at h
        split at h
        · simp at h
        · rename_i after hstep
          exact step_none hstep
  | cons c front ih =>
    obtain ⟨flag, after, covered', hcons⟩ := codeFlags_cons templates covered c (front ++ back)
    rw [List.cons_append, hcons] at h ⊢
    obtain ⟨flags, last, hlength, hlevel, hflags⟩ := ih (by simpa using h)
    exact ⟨flag :: flags, last, by simp [hlength], hlevel, by rw [hflags, List.cons_append]⟩

theorem slash_not_mem {cs : List Char} (h : ∀ c ∈ cs, c ∉ special) : '/' ∉ cs :=
  fun hmem => h '/' hmem (by decide)

/-- A slash in a declaration is in its path. -/
theorem Written.slash_not_code {found : Legacy} {rest front back : List Char}
    (h : Written found rest) (hlevel : templates.level ≠ .template)
    (hsplit : found.text = front ++ '/' :: back) :
    (codeFlags templates 0 (found.text ++ rest))[front.length]? = some false := by
  have hslash : found.text[front.length]? = some '/' := by simp [hsplit]
  cases h with
  | @moduleFrom gap name gap' gap'' path tail _ hgap hblanks hname hgap' hblanks' hblanks'' hpath
      htail =>
    have hlead := lead_not_special hblanks hname hblanks' hblanks''
    simp only [text] at hslash ⊢
    generalize ['m', 'o', 'd', 'u', 'l', 'e'] ++ gap ++ name ++ gap' ++ ['f', 'r', 'o', 'm'] ++
      gap'' = lead at hlead hslash ⊢
    rw [List.append_assoc, List.append_assoc, codeFlags_plain _ hlevel hlead,
      codeFlags_region hlevel hpath.1]
    have hbehind : lead.length ≤ front.length := by
      by_contra hin
      rw [List.append_assoc, List.getElem?_append_left (by omega)] at hslash
      exact slash_not_mem hlead (List.mem_of_getElem? hslash)
    have hbefore : front.length < lead.length + path.length := by
      by_contra hout
      rw [List.getElem?_append_right (by simpa using hout)] at hslash
      exact slash_not_mem htail.not_special (List.mem_of_getElem? hslash)
    rw [List.getElem?_append_right (by simpa using hbehind), List.length_replicate,
      List.getElem?_append_left (by simp; omega), List.getElem?_replicate, if_pos (by omega)]
  | bareDefault hgap hblanks hblanks' =>
    exact absurd (List.mem_of_getElem? hslash) (slash_not_mem (bare_not_special hblanks hblanks'))

theorem prefix_of_not_mem {front back cs : List Char} {c : Char} (h : cs <+: front ++ c :: back)
    (hc : c ∉ cs) : cs <+: front := by
  have hfirst : front ++ [c] <+: front ++ c :: back := ⟨back, by simp⟩
  rcases List.prefix_or_prefix_of_prefix h hfirst with hshort | hlong
  · rcases List.prefix_concat_iff.mp hshort with rfl | hfront
    · simp at hc
    · exact hfront
  · exact absurd (hlong.subset (by simp)) hc

/-- It makes no difference to a declaration what comes behind a slash behind it. -/
theorem Written.replace_behind {found : Legacy} {front back : List Char}
    (h : Written found (front ++ '/' :: back)) (back' : List Char) :
    Written found (front ++ '/' :: back') := by
  cases h with
  | @moduleFrom gap name gap' gap'' path tail _ hgap hblanks hname hgap' hblanks' hblanks'' hpath
      htail =>
    have hpath' : IsPath path (tail ++ (front ++ '/' :: back')) :=
      ⟨hpath.1.congr (by simp) (by simp [List.head?_append]), hpath.2⟩
    refine .moduleFrom hgap hblanks hname hgap' hblanks' hblanks'' hpath' ?_
    rcases htail with hsemicolon | ⟨hempty, hnone⟩
    · exact .inl hsemicolon
    · refine .inr ⟨hempty, fun indent hindent hbegins => ?_⟩
      have htail : IsTail (indent ++ [';']) back := .inl ⟨indent, hindent, rfl⟩
      have hfront := prefix_of_not_mem hbegins (slash_not_mem htail.not_special)
      exact hnone indent hindent (hfront.trans (List.prefix_append ..))
  | bareDefault hgap hblanks hblanks' => exact .bareDefault hgap hblanks hblanks'

/-- Of a declaration that begins in front of a slash that is code, all is in front of it. So it is
there whatever comes behind. -/
theorem Candidate.replace_behind {front inside back : List Char}
    (h : Candidate forms (codeFlags templates 0 (front ++ (inside ++ '/' :: back))) past front
      (inside ++ '/' :: back))
    (hcode : (codeFlags templates 0 (front ++ (inside ++ '/' :: back)))[(front ++ inside).length]? =
      some true) (back' : List Char) :
    ∃ found, ofChars? forms (inside ++ '/' :: back') = some found := by
  obtain ⟨flags, after, hlength, hlevel, hflags⟩ := codeFlags_split h.isCode
  rw [hflags, List.getElem?_append_right (by simp [hlength])] at hcode
  obtain ⟨found, hfound⟩ := h.found
  obtain ⟨rest, hsplit, hwritten, hsought⟩ := ofChars?_eq_some_iff.mp hfound
  have hkept : ∀ later, inside = found.text ++ later → rest = later ++ '/' :: back →
      ∃ found, ofChars? forms (inside ++ '/' :: back') = some found := by
    rintro later rfl rfl
    exact ⟨found, ofChars?_eq_some_iff.mpr ⟨later ++ '/' :: back', by simp,
      hwritten.replace_behind back', hsought⟩⟩
  rcases List.append_eq_append_iff.mp hsplit with ⟨beyond, htext, hrest⟩ | ⟨later, hinside, hrest⟩
  · cases beyond with
    | nil => exact hkept [] (by simpa using htext.symm) (by simpa using hrest.symm)
    | cons c beyond =>
      obtain ⟨rfl, -⟩ := List.cons.inj hrest
      have hnot := hwritten.slash_not_code hlevel htext
      rw [← hsplit] at hnot
      simp [hlength, hnot] at hcode
  · exact hkept later hinside hrest

/-- Where no declaration is found, none can be taken. -/
theorem not_candidate_of_scan {cs : List Char} (h : scan forms templates past 0 0 cs = [])
    {front back : List Char} (hsplit : cs = front ++ back) :
    ¬ Candidate forms (codeFlags templates 0 cs) past front back := by
  intro hcandidate
  have hselects := scan_selects forms cs templates past 0 front back hsplit
  rw [h] at hselects
  simpa using hselects.mpr ⟨hcandidate, by simp⟩

/-- If nothing is found where the slash is code, then nothing can be taken in front of it, whatever
comes behind. -/
theorem not_candidate_before_slash {run back back' front rest : List Char} {flags x x' : List Bool}
    (hlength : flags.length = run.length)
    (hflags : codeFlags templates 0 (run ++ '/' :: back) = flags ++ true :: x)
    (hflags' : codeFlags templates 0 (run ++ '/' :: back') = flags ++ true :: x')
    (hnone : scan forms templates past 0 0 (run ++ '/' :: back') = [])
    (hsplit : run ++ '/' :: back = front ++ rest) (hin : front.length ≤ run.length) :
    ¬ Candidate forms (codeFlags templates 0 (run ++ '/' :: back)) past front rest := by
  intro h
  obtain ⟨inside, rfl⟩ := List.prefix_of_prefix_length_le ⟨rest, hsplit.symm⟩
    (List.prefix_append run _) hin
  obtain rfl : rest = inside ++ '/' :: back := by simpa using hsplit.symm
  have hcode := h.isCode
  have hword := h.beginsWord
  have hsame : (flags ++ true :: x)[front.length]? = (flags ++ true :: x')[front.length]? := by
    rcases Nat.lt_or_ge front.length flags.length with hless | hge
    · rw [List.getElem?_append_left hless, List.getElem?_append_left hless]
    · have hlast : front.length - flags.length = 0 := by omega
      rw [List.getElem?_append_right hge, List.getElem?_append_right hge, hlast]
      rfl
  have hhead : (inside ++ '/' :: back').head? = (inside ++ '/' :: back).head? := by
    simp [List.head?_append]
  have hslash : (codeFlags templates 0 (front ++ (inside ++ '/' :: back)))[
      (front ++ inside).length]? = some true := by
    rw [← List.append_assoc, hflags, ← hlength, List.getElem?_append_right le_rfl, Nat.sub_self]
    rfl
  rw [List.append_assoc] at h
  have hfound := h.replace_behind hslash back'
  rw [hflags, hsame, ← hflags'] at hcode
  rw [Legacy.beginsWord, ← hhead] at hword
  exact not_candidate_of_scan hnone (by rw [List.append_assoc])
    ⟨hcode, hword, h.noProperty, hfound⟩

/-! ## The line -/

def regExpLine (b : String) : String :=
  "var r = /" ++ b ++ "/;\n"

/-- What may stand between the slashes, if none is inside. -/
structure IsRegExpBody (b : String) : Prop where
  nonempty : b ≠ ""
  noSlash : '/' ∉ b.toList
  noStar : b.toList.head? ≠ some '*'

/-- Read as code, the text leaves no string and no template open in front of a slash. -/
def IsClosed (b : String) : Prop :=
  ∃ ms, Lexed .outside ms ['/'] ∧ ms.chars = b.toList

def lineStart : List Char :=
  ['v', 'a', 'r', ' ', 'r', ' ', '=', ' ', '/']

theorem regExpLine_toList (b : String) :
    (regExpLine b).toList = lineStart ++ b.toList ++ '/' :: [';', '\n'] := by
  rw [regExpLine, String.toList_append, String.toList_append]
  rfl

/-- The first slash begins no comment. -/
theorem codeFlags_lineStart {b : String} (hb : IsRegExpBody b) (rest : List Char) :
    codeFlags [] 0 (lineStart ++ (b.toList ++ rest)) =
      List.replicate 9 true ++ codeFlags [] 0 (b.toList ++ rest) := by
  have hlevel : Templates.level [] ≠ .template := by decide
  have hplain : ∀ c ∈ ['v', 'a', 'r', ' ', 'r', ' ', '=', ' '], c ∉ special :=
    not_special_of_all (by decide)
  have hhead : (b.toList ++ rest).head? = b.toList.head? :=
    List.head?_append_of_ne_nil _ (by simpa using hb.nonempty)
  have hslash : b.toList.head? ≠ some '/' := fun h => hb.noSlash (List.mem_of_head? h)
  have hregion : ¬ BeginsRegion '/' (b.toList ++ rest) := by
    simp [BeginsRegion, isQuote, hhead, hslash, hb.noStar]
  have hsplit : lineStart ++ (b.toList ++ rest) =
      ['v', 'a', 'r', ' ', 'r', ' ', '=', ' '] ++ '/' :: (b.toList ++ rest) := rfl
  rw [hsplit, codeFlags_plain _ hlevel hplain,
    codeFlags_code (step_of_code _ hlevel (by decide) (by decide) (by decide)) hregion]
  rfl

/-- In front of the slash that closes it, a literal that is closed leaves no template open. -/
theorem codeFlags_closed {b : String} {ms : Marked} (hb : IsRegExpBody b)
    (hlexed : Lexed .outside ms ['/']) (hchars : ms.chars = b.toList) (rest : List Char) :
    codeFlags [] 0 (lineStart ++ b.toList ++ '/' :: ';' :: rest) =
      (List.replicate 9 true ++ ms.flags) ++ true :: codeFlags [] 0 (';' :: rest) := by
  have hread : Lexed .outside ms ('/' :: ';' :: rest) := hlexed.congr (by simp) rfl
  have hstep : Templates.step [] ('/' :: ';' :: rest) = ([], none) := by simp [Templates.step]
  rw [List.append_assoc, codeFlags_lineStart hb, ← hchars, codeFlags_lexed hread [] rfl,
    codeFlags_code hstep (by simp [BeginsRegion, isQuote]), List.append_assoc]

/-- A literal that is closed and in which nothing is found is gone over. -/
theorem passes_regExpLine {b : String} (hb : IsRegExpBody b) (hclosed : IsClosed b)
    (hnone : scan forms [] [] 0 0 (regExpLine b).toList = []) (rest : List Char) :
    Passes forms [] [] (regExpLine b).toList rest := by
  obtain ⟨ms, hlexed, hchars⟩ := hclosed
  have hflags := codeFlags_closed hb hlexed hchars
  have hlength : (List.replicate 9 true ++ ms.flags).length = (lineStart ++ b.toList).length := by
    simp [← hchars, Marked.flags, Marked.chars, lineStart]
  generalize List.replicate 9 true ++ ms.flags = flags at hflags hlength
  rw [regExpLine_toList] at hnone ⊢
  generalize lineStart ++ b.toList = run at hflags hlength hnone ⊢
  -- the slash is code, so nothing that begins in front of it goes beyond it
  have hslashToo : Passes forms [] [] (run ++ ['/']) ([';', '\n'] ++ rest) := by
    have hsplit : ∀ cs, run ++ ['/'] ++ cs = run ++ '/' :: cs := fun cs => by simp
    have hlength' : (flags ++ [true]).length = (run ++ ['/']).length := by simp [hlength]
    refine passes_of_no_candidate (by rw [hsplit]; simpa using hflags ('\n' :: rest)) hlength' ?_
    intro front back hback hin hcandidate
    rw [hsplit] at hback
    refine not_candidate_before_slash hlength (hflags _) (hflags _) hnone hback
      (by simpa [Nat.lt_succ_iff] using hin) ?_
    have hlonger : Candidate forms ((flags ++ [true]) ++ codeFlags [] 0 (';' :: '\n' :: rest)) []
        front back := (candidate_in (hlength' ▸ hin)).mpr hcandidate
    rw [hflags]
    simpa using hlonger
  have hend : Passes forms [] ((run ++ ['/']).reverse ++ []) [';', '\n'] rest :=
    passes_plain (by decide) (not_special_of_all (by decide)) (forall_of_all (by decide))
  simpa using hslashToo.append hend

/-! ## A text that is out of step -/

theorem written_of_ofChars? {found : Legacy} (h : ofChars? {} found.text = some found) :
    Written found [] := by
  obtain ⟨rest, hsplit, hwritten, -⟩ := ofChars?_eq_some_iff.mp h
  obtain rfl : rest = [] := by simpa using hsplit
  exact hwritten

/-- A declaration that is looked for, if any form is. -/
theorem exists_sought (h : ¬ (forms.moduleFrom = false ∧ forms.bareDefault = false)) :
    ∃ found c cs, found.text = c :: cs ∧ c ∉ ending ∧ Written found [] ∧
      isSought forms found = true := by
  by_cases hforms : forms.moduleFrom = true
  · exact ⟨.moduleFrom "module a from ".toList ['a'] "'a'".toList [], 'm', _, rfl, by decide,
      written_of_ofChars? (by decide +kernel), hforms⟩
  · have hbare : forms.bareDefault = true := by simpa [hforms] using h
    exact ⟨.bareDefault "export default;".toList, 'e', _, rfl, by decide,
      written_of_ofChars? (by decide +kernel), hbare⟩

theorem passes_braces (n : Nat) (past rest : List Char) :
    Passes forms [] past (List.replicate n '\x7d') rest := by
  induction n generalizing past with
  | zero => exact passes_nil
  | succ n ih =>
    have hquote : isQuote '\x7d' = false := by decide
    have hstart : isWordStart '\x7d' = false := by decide
    have hone : Passes forms [] past ['\x7d'] (List.replicate n '\x7d' ++ rest) := by
      refine passes_of_stride (by simp) ?_
      simp [stride, codeStride, Templates.step, regionWidth?, beginsWord, hquote, hstart]
    exact hone.append (ih _)

/-- Behind closing braces a declaration is found. -/
theorem scan_behind_braces {found : Legacy} (h : Written found [])
    (hsought : isSought forms found = true) (n : Nat) :
    ∃ x ∈ scan forms [] [] 0 0 (List.replicate n '\x7d' ++ found.text),
      x.1 = byteSize (List.replicate n '\x7d') := by
  have hpast : ((List.replicate n '\x7d').reverse ++ []).head?.any isWordChar = false := by
    cases n with
    | zero => rfl
    | succ n =>
      rw [List.reverse_replicate]
      exact (by decide : isWordChar '\x7d' = false)
  have hdot : followsDot ((List.replicate n '\x7d').reverse ++ []) = false := by
    simp [followsDot, List.find?_replicate]
  have hscan := h.scan_eq hsought (by decide : Templates.level [] ≠ .template) hpast hdot
    (0 + byteSize (List.replicate n '\x7d'))
  rw [← passes_braces, List.append_nil] at hscan
  rw [hscan]
  exact ⟨_, List.mem_cons_self .., by simp⟩

/-- What is found behind another text begins with code there. -/
theorem isCode_behind {lead : String} {front back : List Char}
    (h : extract forms (lead ++ String.ofList (front ++ back)) =
      (extract forms (String.ofList (front ++ back))).behind lead)
    (hfound : ∃ x ∈ scan forms [] [] 0 0 (front ++ back), x.1 = byteSize front) :
    (codeFlags [] 0 (lead.toList ++ front ++ back))[(lead.toList ++ front).length]? =
      some true := by
  have hnodes : declarations forms (lead.toList ++ front ++ back) =
      (declarations forms (front ++ back)).map (Node.shift lead.utf8ByteSize) := by
    have hlists := congrArg Extract.nodes h
    change declarations forms (lead ++ String.ofList (front ++ back)).toList =
      (declarations forms (String.ofList (front ++ back)).toList).map _ at hlists
    rwa [String.toList_append, String.toList_ofList, ← List.append_assoc] at hlists
  obtain ⟨node, hnode, hstart⟩ := (declarations_starts forms _ _).mpr hfound
  have hmoved : ∃ node ∈ declarations forms (lead.toList ++ front ++ back),
      node.span.start = 0 + byteSize (lead.toList ++ front) := by
    refine ⟨node.shift lead.utf8ByteSize, hnodes ▸ List.mem_map_of_mem hnode, ?_⟩
    rw [Node.shift_span, Span.shift_start, hstart, byteSize_append, byteSize_toList, Nat.zero_add]
  rw [declarations_starts] at hmoved
  exact ((scan_selects forms _ [] [] 0 (lead.toList ++ front) back rfl).mp hmoved).1.isCode

/-- Behind a literal that is not closed there is a text in which something is lost. -/
theorem isClosed_of_extract {b : String} (hb : IsRegExpBody b)
    (hforms : ¬ (forms.moduleFrom = false ∧ forms.bareDefault = false))
    (h : ∀ source,
      extract forms (regExpLine b ++ source) = (extract forms source).behind (regExpLine b)) :
    IsClosed b := by
  obtain ⟨found, c, cs, htext, hc, hwritten, hsought⟩ := exists_sought hforms
  rcases decided cs hc hb.noSlash [] with ⟨ms, rest, hchars, hlexed, hrest⟩ | ⟨n, hfalse⟩
  · obtain rfl : rest = [] := hrest
    exact ⟨ms, hlexed, by simpa using hchars.symm⟩
  · -- alone, the text behind the braces is found; behind the literal it does not begin with code
    have hcode := isCode_behind (h _) (scan_behind_braces hwritten hsought n)
    have hsplit : (regExpLine b).toList ++ List.replicate n '\x7d' ++ found.text =
        lineStart ++ (b.toList ++ behindSlash n (c :: cs)) := by
      simp [regExpLine_toList, behindSlash, htext]
    have hplace : ((regExpLine b).toList ++ List.replicate n '\x7d').length =
        9 + (b.toList ++ behindSlash n []).length := by
      simp [regExpLine_toList, behindSlash, lineStart]
      omega
    rw [hsplit, hplace, codeFlags_lineStart hb, List.getElem?_append_right (by simp),
      List.length_replicate, Nat.add_sub_cancel_left, hfalse] at hcode
    cases hcode

/-! ## Both together -/

/-- Where no form is looked for, nothing is found. -/
theorem scan_idle (h : forms.moduleFrom = false ∧ forms.bareDefault = false) (cs : List Char) :
    scan forms [] [] 0 0 cs = [] := by
  rw [List.eq_nil_iff_forall_not_mem]
  intro x hx
  obtain ⟨front, back, -, -, hfound⟩ := scan_found forms cs [] [] 0 0 x hx
  obtain ⟨rest, -, -, hsought⟩ := ofChars?_eq_some_iff.mp hfound
  cases hform : x.2 <;> simp [hform, isSought, h] at hsought

/-- A line with a regular expression moves what is found behind it and changes nothing else, for
every text behind it, if and only if its inside, read as code, is closed and holds no declaration,
or no form is looked for at all. -/
theorem extract_behind_regExp (forms : Forms) (b : String) (hb : IsRegExpBody b) :
    (∀ source,
      extract forms (regExpLine b ++ source) = (extract forms source).behind (regExpLine b)) ↔
    (forms.moduleFrom = false ∧ forms.bareDefault = false) ∨
      IsClosed b ∧ (extract forms (regExpLine b)).nodes = [] := by
  constructor
  · intro h
    by_cases hforms : forms.moduleFrom = false ∧ forms.bareDefault = false
    · exact .inl hforms
    · refine .inr ⟨isClosed_of_extract hb hforms h, ?_⟩
      have hempty := congrArg Extract.nodes (h "")
      rwa [String.append_empty] at hempty
  · intro h source
    have hscan : scan forms [] [] 0 0 (regExpLine b ++ source).toList =
        (scan forms [] [] 0 0 source.toList).map (move (regExpLine b).utf8ByteSize) := by
      rcases h with hidle | ⟨hclosed, hnone⟩
      · rw [scan_idle hidle, scan_idle hidle, List.map_nil]
      · have hline : scan forms [] [] 0 0 (regExpLine b).toList = [] := List.map_eq_nil_iff.mp hnone
        have hpasses := passes_regExpLine hb hclosed hline source.toList 0
        have hpast : Alike ((regExpLine b).toList.reverse ++ []) [] := by
          rw [regExpLine_toList, List.reverse_append]
          exact ⟨rfl, rfl⟩
        rw [String.toList_append, hpasses, byteSize_toList, Nat.add_comm]
        exact hpast.scan_eq _ 0 0 source.toList
    rw [extract_of_finds hscan]
    rfl

/-- A string and a template inside the literal, both of them closed. -/
theorem extract_behind_regExp_closed :
    let b := "'x'|\x60y\x60"
    IsRegExpBody b ∧ ∀ source,
      extract {} (regExpLine b ++ source) = (extract {} source).behind (regExpLine b) := by
  intro b
  have hchars : b.toList = ['\'', 'x', '\'', '|', '\x60', 'y', '\x60'] := by decide +kernel
  have hb : IsRegExpBody b :=
    ⟨by decide +kernel, by rw [hchars]; decide, by rw [hchars]; decide⟩
  have hstring : ∀ rest, Region ('\'' :: ['x'] ++ ['\'']) .quoted rest := fun rest =>
    .string (by decide) (.single (by decide) (by decide) .nil)
  have hbar : ∀ rest, Single .outside '|' .code rest := fun rest =>
    ⟨rfl, by decide, by simp [BeginsRegion, isQuote]⟩
  have hletter : ∀ rest, Single .template 'y' .template rest := fun rest =>
    ⟨rfl, by decide, by simp, by simp⟩
  have hclosed : IsClosed b :=
    ⟨_, .region (by decide) (hstring _) (.single (hbar _)
      (.closed (.template (by decide)) (.single (hletter _) .nil) .nil)), hchars.symm⟩
  have hscan : scan {} [] [] 0 0 (regExpLine b).toList = [] := by decide +kernel
  have hnone : (extract {} (regExpLine b)).nodes = [] := by
    change declarations {} (regExpLine b).toList = []
    rw [declarations, hscan]
    rfl
  exact ⟨hb, (extract_behind_regExp {} b hb).mpr (.inr ⟨hclosed, hnone⟩)⟩

/-- Behind a quote in the literal, code and strings change places. -/
theorem extract_behind_regExp_quote :
    extract {} (regExpLine "'" ++ "var s = 'module a from \"a\";';") ≠
      (extract {} "var s = 'module a from \"a\";';").behind (regExpLine "'") := by
  intro hsame
  have hlength := congrArg (fun x : Extract => x.nodes.length) hsame
  exact absurd hlength (by decide +kernel)

end ModSplice.Legacy
