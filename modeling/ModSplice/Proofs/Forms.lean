import ModSplice.Proofs.Lexical
import ModSplice.Proofs.Scan

/-!
# How the older declarations are written

The two older forms as texts: which words, blanks and marks follow each other. A declaration is
found at the beginning of a text if and only if the text begins with one that is written so, and
what is found is told by the text alone.
-/
namespace ModSplice.Text

def blankCodes : List Nat :=
  List.range' 9 5 ++ [32, 0x85, 0xa0, 0x1680] ++ List.range' 0x2000 11 ++
    [0x2028, 0x2029, 0x202f, 0x205f, 0x3000]

theorem mem_blankCodes {c : Char} (h : isBlank c = true) : c.toNat ∈ blankCodes := by
  simp only [isBlank] at h
  simp only [blankCodes, List.mem_append, List.mem_range'_1, List.mem_cons, List.not_mem_nil,
    or_false]
  split at h <;> simp at h <;> omega

set_option maxRecDepth 10000 in
/-- No character is both white space and part of a word. -/
theorem isWordChar_of_isBlank {c : Char} (h : isBlank c = true) : isWordChar c = false := by
  have hcodes : ∀ n ∈ blankCodes, isWordChar (Char.ofNat n) = false := by decide +kernel
  have hc := hcodes c.toNat (mem_blankCodes h)
  rwa [Char.ofNat_toNat] at hc

end ModSplice.Text

namespace ModSplice.Legacy

open ModSplice.Text

def IsBlanks (cs : List Char) : Prop :=
  ∀ c ∈ cs, isBlank c = true

def IsName (cs : List Char) : Prop :=
  ∃ c rest, cs = c :: rest ∧ isWordStart c = true ∧ ∀ d ∈ rest, isWordChar d = true

def isIndentChar (c : Char) : Bool :=
  c == ' ' || c == '\t'

def IsIndent (cs : List Char) : Prop :=
  ∀ c ∈ cs, isIndentChar c = true

/-- A semicolon on the same line, with what is in front of it, or nothing where there is none. -/
def IsTail (tail rest : List Char) : Prop :=
  (∃ indent, IsIndent indent ∧ tail = indent ++ [';']) ∨
    tail = [] ∧ ∀ indent, IsIndent indent → ¬ indent ++ [';'] <+: rest

/-- A path: a string that ends in its quote, escaped or not. -/
def IsPath (path rest : List Char) : Prop :=
  Region path .quoted rest ∧ 2 ≤ path.length ∧ path.getLast? = path.head?

/-- A declaration as it is written in front of a text. -/
inductive Written : Legacy → List Char → Prop
  | moduleFrom {gap name gap' gap'' path tail rest : List Char} :
    gap ≠ [] → IsBlanks gap → IsName name → gap' ≠ [] → IsBlanks gap' → IsBlanks gap'' →
    IsPath path (tail ++ rest) → IsTail tail rest →
    Written (.moduleFrom (['m', 'o', 'd', 'u', 'l', 'e'] ++ gap ++ name ++ gap' ++
      ['f', 'r', 'o', 'm'] ++ gap'') name path tail) rest
  | bareDefault {gap gap' rest : List Char} :
    gap ≠ [] → IsBlanks gap → IsBlanks gap' →
    Written (.bareDefault (['e', 'x', 'p', 'o', 'r', 't'] ++ gap ++
      ['d', 'e', 'f', 'a', 'u', 'l', 't'] ++ gap' ++ [';'])) rest

def isSought (forms : Forms) : Legacy → Bool
  | .moduleFrom .. => forms.moduleFrom
  | .bareDefault _ => forms.bareDefault

def Begins (forms : Forms) (cs : List Char) : Prop :=
  ∃ found rest, cs = text found ++ rest ∧ Written found rest ∧ isSought forms found = true

/-! ## Runs of characters -/

/-- What holds of all characters of a given text. -/
theorem forall_of_all {p : Char → Bool} {b : Bool} {cs : List Char}
    (h : (cs.all fun c => p c == b) = true) : ∀ c ∈ cs, p c = b := by
  simpa using h

theorem dropWhile_eq_of_stop {α : Type} {p : α → Bool} {front rest : List α}
    (hfront : ∀ x ∈ front, p x = true) (hrest : ∀ x ∈ rest.head?, p x = false) :
    (front ++ rest).dropWhile p = rest := by
  rw [List.dropWhile_append_of_pos hfront]
  cases rest with
  | nil => rfl
  | cons x rest => simp [hrest x rfl]

/-- A text splits into a run of characters and what begins with another one. -/
theorem exists_run {α : Type} (p : α → Bool) (xs : List α) :
    ∃ run rest, xs = run ++ rest ∧ xs.takeWhile p = run ∧ xs.dropWhile p = rest ∧
      (∀ x ∈ run, p x = true) ∧ ∀ x ∈ rest.head?, p x = false := by
  refine ⟨_, _, List.takeWhile_append_dropWhile.symm, rfl, rfl, fun x => List.mem_takeWhile_imp, ?_⟩
  intro x hx
  have hstop := List.head?_dropWhile_not p xs
  rwa [hx] at hstop

theorem afterSomeBlanks?_eq_some {cs rest : List Char} (h : afterSomeBlanks? cs = some rest) :
    ∃ gap, gap ≠ [] ∧ IsBlanks gap ∧ cs = gap ++ rest ∧ ∀ c ∈ rest.head?, isBlank c = false := by
  cases cs with
  | nil => simp [afterSomeBlanks?] at h
  | cons c cs =>
    obtain ⟨hc, h⟩ := Option.ite_none_right_eq_some.mp h
    obtain ⟨run, rest', rfl, -, hdrop, hrun, hstop⟩ := exists_run isBlank cs
    obtain rfl : rest' = rest := hdrop.symm.trans (Option.some.inj h)
    refine ⟨c :: run, by simp, ?_, rfl, hstop⟩
    intro d hd
    rcases List.mem_cons.mp hd with rfl | hd
    · exact hc
    · exact hrun d hd

theorem afterSomeBlanks?_append {gap rest : List Char} (hne : gap ≠ []) (hgap : IsBlanks gap)
    (hrest : ∀ c ∈ rest.head?, isBlank c = false) : afterSomeBlanks? (gap ++ rest) = some rest := by
  obtain ⟨c, gap, rfl⟩ := List.exists_cons_of_ne_nil hne
  have hc : isBlank c = true := hgap c (by simp)
  have hdrop : afterBlanks (gap ++ rest) = rest :=
    dropWhile_eq_of_stop (fun d hd => hgap d (by simp [hd])) hrest
  simp [afterSomeBlanks?, hc, hdrop]

theorem before_append (front rest : List Char) : before (front ++ rest) rest = front := by
  simp [before]

/-! ## Pieces of a declaration -/

theorem IsName.isWordChar {name : List Char} (h : IsName name) :
    ∀ c ∈ name, isWordChar c = true := by
  obtain ⟨c, rest, rfl, hc, hrest⟩ := h
  intro d hd
  rcases List.mem_cons.mp hd with rfl | hd
  · exact isWordChar_of_isWordStart d hc
  · exact hrest d hd

theorem isBlank_of_isWordStart {c : Char} (h : isWordStart c = true) : isBlank c = false := by
  by_contra hblank
  have hword := isWordChar_of_isBlank (Bool.not_eq_false _ ▸ hblank)
  rw [isWordChar_of_isWordStart c h] at hword
  cases hword

theorem isName_of_all {c : Char} {rest : List Char} (hc : isWordStart c = true)
    (hrest : rest.all isWordChar = true) : IsName (c :: rest) :=
  ⟨c, rest, rfl, hc, List.all_eq_true.mp hrest⟩

/-- What blanks begin begins no word. -/
theorem head_of_blanks {gap : List Char} (rest : List Char) (hne : gap ≠ []) (hgap : IsBlanks gap) :
    ∀ c ∈ (gap ++ rest).head?, isWordChar c = false := by
  obtain ⟨d, gap, rfl⟩ := List.exists_cons_of_ne_nil hne
  intro c hc
  obtain rfl : d = c := by simpa using hc
  exact isWordChar_of_isBlank (hgap d (by simp))

theorem head_append_of_blanks {gap rest : List Char} (hgap : IsBlanks gap)
    (hrest : ∀ c ∈ rest.head?, isWordChar c = false) :
    ∀ c ∈ (gap ++ rest).head?, isWordChar c = false := by
  by_cases hne : gap = []
  · rwa [hne, List.nil_append]
  · exact head_of_blanks rest hne hgap

theorem Region.isQuote_head {text rest : List Char} (h : Region text .quoted rest) :
    ∃ quote body, text = quote :: body ∧ isQuote quote = true := by
  cases h with
  | string hquote | openString hquote => exact ⟨_, _, rfl, hquote⟩

/-- The width of a string that begins a text. -/
theorem take_stringRest {quote : Char} {body rest : List Char}
    (h : Region (quote :: body) .quoted rest) (hquote : isQuote quote = true) :
    (quote :: (body ++ rest)).take (stringRest quote (body ++ rest) + 1) = quote :: body := by
  have hwidth := h.regionWidth?_eq
  rw [List.cons_append, regionWidth?_quote _ hquote, Option.some.injEq] at hwidth
  rw [hwidth, ← List.cons_append, List.take_left']
  rfl

theorem path?_eq_some_iff {cs path : List Char} :
    path? cs = some path ↔ ∃ rest, cs = path ++ rest ∧ IsPath path rest := by
  constructor
  · intro h
    cases cs with
    | nil => simp [path?] at h
    | cons quote cs =>
      obtain ⟨hpath, h⟩ := Option.ite_none_right_eq_some.mp h
      simp only [Bool.and_eq_true, decide_eq_true_eq, beq_iff_eq] at hpath
      obtain ⟨⟨hquote, hlength⟩, hlast⟩ := hpath
      obtain ⟨text, rest, hsplit, hne, hregion⟩ := exists_quoted cs hquote
      obtain ⟨first, body, rfl⟩ := List.exists_cons_of_ne_nil hne
      rw [List.cons_append, List.cons.injEq] at hsplit
      obtain ⟨rfl, rfl⟩ := hsplit
      rw [take_stringRest hregion hquote] at h hlength hlast
      obtain rfl := Option.some.inj h
      exact ⟨rest, rfl, hregion, hlength, hlast⟩
  · rintro ⟨rest, rfl, hregion, hlength, hlast⟩
    obtain ⟨quote, body, rfl, hquote⟩ := hregion.isQuote_head
    simp only [path?, List.cons_append, take_stringRest hregion hquote]
    rw [if_pos]
    simp only [hquote, Bool.true_and, Bool.and_eq_true, decide_eq_true_eq, beq_iff_eq]
    exact ⟨hlength, hlast⟩

theorem semicolonTail_run {indent rest : List Char} (hindent : IsIndent indent)
    (hrest : ∀ c ∈ rest.head?, isIndentChar c = false) :
    semicolonTail (indent ++ rest) =
      if rest.head? = some ';' then indent ++ [';'] else [] := by
  have htake : (indent ++ rest).takeWhile (fun c => c == ' ' || c == '\t') = indent :=
    takeWhile_eq_of_stop hindent hrest
  simp only [semicolonTail, htake, List.drop_left]
  cases rest with
  | nil => simp
  | cons c rest =>
    by_cases hc : c = ';'
    · simp [hc]
    · simp [hc]

theorem semicolonTail_append {tail rest : List Char} (h : IsTail tail rest) :
    semicolonTail (tail ++ rest) = tail := by
  rcases h with ⟨indent, hindent, rfl⟩ | ⟨rfl, hnone⟩
  · rw [List.append_assoc, semicolonTail_run hindent (by simp [isIndentChar])]
    simp
  · obtain ⟨run, rest', rfl, -, -, hrun, hstop⟩ := exists_run isIndentChar rest
    rw [List.nil_append, semicolonTail_run hrun hstop, if_neg]
    intro hhead
    obtain ⟨rest'', rfl⟩ := List.head?_eq_some_iff.mp hhead
    exact hnone run hrun ⟨rest'', by simp⟩

theorem exists_tail (cs : List Char) : ∃ tail rest, cs = tail ++ rest ∧ IsTail tail rest := by
  by_cases h : ∃ indent, IsIndent indent ∧ indent ++ [';'] <+: cs
  · obtain ⟨indent, hindent, rest, rfl⟩ := h
    exact ⟨indent ++ [';'], rest, rfl, .inl ⟨indent, hindent, rfl⟩⟩
  · refine ⟨[], cs, rfl, .inr ⟨rfl, ?_⟩⟩
    intro indent hindent hbegins
    exact h ⟨indent, hindent, hbegins⟩

/-! ## What is found is what is written -/

theorem afterWord_append {word rest : List Char} (hword : ∀ c ∈ word, isWordChar c = true)
    (hrest : ∀ c ∈ rest.head?, isWordChar c = false) : afterWord (word ++ rest) = rest :=
  dropWhile_eq_of_stop hword hrest

theorem IsPath.head {path rest : List Char} (h : IsPath path rest) (later : List Char) :
    ∀ c ∈ (path ++ later).head?, isQuote c = true := by
  obtain ⟨quote, body, rfl, hquote⟩ := h.1.isQuote_head
  intro c hc
  obtain rfl : quote = c := by simpa using hc
  exact hquote

theorem isQuote_cases {c : Char} (h : isQuote c = true) : c = '"' ∨ c = '\'' := by
  simpa [isQuote] using h

theorem isWordChar_of_isQuote {c : Char} (h : isQuote c = true) : isWordChar c = false := by
  rcases isQuote_cases h with rfl | rfl <;> decide

theorem isBlank_of_isQuote {c : Char} (h : isQuote c = true) : isBlank c = false := by
  rcases isQuote_cases h with rfl | rfl <;> decide

/-- A word that blanks follow, of which there is one at least. -/
theorem afterSomeBlanks?_afterWord (word gap rest : List Char)
    (hword : ∀ c ∈ word, isWordChar c = true) (hne : gap ≠ []) (hgap : IsBlanks gap)
    (hrest : ∀ c ∈ rest.head?, isBlank c = false) :
    afterSomeBlanks? (afterWord (word ++ (gap ++ rest))) = some rest ∧
      (word ++ (gap ++ rest)).takeWhile isWordChar = word := by
  have hstop := head_of_blanks rest hne hgap
  rw [afterWord_append hword hstop]
  exact ⟨afterSomeBlanks?_append hne hgap hrest, takeWhile_eq_of_stop hword hstop⟩

/-- A word in front of a character that is neither blank nor in a word, with blanks in between or
not. -/
theorem afterBlanks_afterWord (word gap rest : List Char)
    (hword : ∀ c ∈ word, isWordChar c = true) (hgap : IsBlanks gap)
    (hrest : ∀ c ∈ rest.head?, isWordChar c = false ∧ isBlank c = false) :
    afterBlanks (afterWord (word ++ (gap ++ rest))) = rest ∧
      (word ++ (gap ++ rest)).takeWhile isWordChar = word := by
  have hstop := head_append_of_blanks hgap fun c hc => (hrest c hc).1
  rw [afterWord_append hword hstop]
  exact ⟨dropWhile_eq_of_stop hgap fun c hc => (hrest c hc).2, takeWhile_eq_of_stop hword hstop⟩

theorem moduleFrom?_written {gap name gap' gap'' path tail rest : List Char}
    (hgap : gap ≠ []) (hblanks : IsBlanks gap) (hname : IsName name) (hgap' : gap' ≠ [])
    (hblanks' : IsBlanks gap') (hblanks'' : IsBlanks gap'') (hpath : IsPath path (tail ++ rest))
    (htail : IsTail tail rest) :
    let lead :=
      ['m', 'o', 'd', 'u', 'l', 'e'] ++ gap ++ name ++ gap' ++ ['f', 'r', 'o', 'm'] ++ gap''
    let cs := lead ++ path ++ tail ++ rest
    cs.takeWhile isWordChar = ['m', 'o', 'd', 'u', 'l', 'e'] ∧
      moduleFrom? cs = some (.moduleFrom lead name path tail) := by
  intro lead cs
  let atPath := path ++ (tail ++ rest)
  let atFrom := ['f', 'r', 'o', 'm'] ++ (gap'' ++ atPath)
  let atName := name ++ (gap' ++ atFrom)
  have hcs : cs = ['m', 'o', 'd', 'u', 'l', 'e'] ++ (gap ++ atName) := by
    simp [cs, lead, atName, atFrom, atPath]
  have hstart : atName.head?.any isWordStart = true ∧ ∀ c ∈ atName.head?, isBlank c = false := by
    obtain ⟨first, others, rfl, hfirst, -⟩ := hname
    simpa [atName, hfirst] using isBlank_of_isWordStart hfirst
  have hatName : afterSomeBlanks? (afterWord cs) = some atName ∧
      cs.takeWhile isWordChar = ['m', 'o', 'd', 'u', 'l', 'e'] := by
    rw [hcs]
    exact afterSomeBlanks?_afterWord _ gap atName (forall_of_all (by decide)) hgap hblanks hstart.2
  have hatFrom : afterSomeBlanks? (afterWord atName) = some atFrom ∧
      atName.takeWhile isWordChar = name :=
    afterSomeBlanks?_afterWord name gap' atFrom hname.isWordChar hgap' hblanks' (by
      simp [atFrom, isBlank])
  have hatPath : afterBlanks (afterWord atFrom) = atPath ∧
      atFrom.takeWhile isWordChar = ['f', 'r', 'o', 'm'] :=
    afterBlanks_afterWord _ gap'' atPath (forall_of_all (by decide)) hblanks'' fun c hc =>
      ⟨isWordChar_of_isQuote (hpath.head _ c hc), isBlank_of_isQuote (hpath.head _ c hc)⟩
  have hpath? : path? atPath = some path := path?_eq_some_iff.mpr ⟨tail ++ rest, rfl, hpath⟩
  have hbefore : before cs atPath = lead := by
    rw [show cs = lead ++ atPath by simp [cs, atPath]]
    exact before_append lead atPath
  have hsemicolon : semicolonTail (atPath.drop path.length) = tail := by
    rw [List.drop_left]
    exact semicolonTail_append htail
  refine ⟨hatName.2, ?_⟩
  simp [moduleFrom?, hatName, hstart.1, hatFrom, hatPath, hpath?, hbefore, hsemicolon]

theorem bareDefault?_written {gap gap' : List Char} (rest : List Char) (hgap : gap ≠ [])
    (hblanks : IsBlanks gap) (hblanks' : IsBlanks gap') :
    let text := ['e', 'x', 'p', 'o', 'r', 't'] ++ gap ++ ['d', 'e', 'f', 'a', 'u', 'l', 't'] ++
      gap' ++ [';']
    (text ++ rest).takeWhile isWordChar = ['e', 'x', 'p', 'o', 'r', 't'] ∧
      bareDefault? (text ++ rest) = some (.bareDefault text) := by
  intro text
  let atDefault := ['d', 'e', 'f', 'a', 'u', 'l', 't'] ++ (gap' ++ ';' :: rest)
  have hcs : text ++ rest = ['e', 'x', 'p', 'o', 'r', 't'] ++ (gap ++ atDefault) := by
    simp [text, atDefault]
  have hatDefault : afterSomeBlanks? (afterWord (text ++ rest)) = some atDefault ∧
      (text ++ rest).takeWhile isWordChar = ['e', 'x', 'p', 'o', 'r', 't'] := by
    rw [hcs]
    exact afterSomeBlanks?_afterWord _ gap atDefault (forall_of_all (by decide)) hgap hblanks (by
      simp [atDefault, isBlank])
  have hend : afterBlanks (afterWord atDefault) = ';' :: rest ∧
      atDefault.takeWhile isWordChar = ['d', 'e', 'f', 'a', 'u', 'l', 't'] :=
    afterBlanks_afterWord _ gap' (';' :: rest) (forall_of_all (by decide)) hblanks' (by
      simp only [List.head?_cons, Option.mem_some_iff]
      rintro c rfl
      decide)
  refine ⟨hatDefault.2, ?_⟩
  simp [bareDefault?, hatDefault, hend, before_append]

theorem Written.ofChars?_eq {forms : Forms} {found : Legacy} {rest : List Char}
    (h : Written found rest) (hsought : isSought forms found = true) :
    ofChars? forms (found.text ++ rest) = some found := by
  cases h with
  | moduleFrom hgap hblanks hname hgap' hblanks' hblanks'' hpath htail =>
    obtain ⟨hword, hfound⟩ :=
      moduleFrom?_written hgap hblanks hname hgap' hblanks' hblanks'' hpath htail
    have hforms : forms.moduleFrom = true := hsought
    simp only [ofChars?, text, hword, hforms, hfound]
    simp
  | bareDefault hgap hblanks hblanks' =>
    obtain ⟨hword, hfound⟩ := bareDefault?_written rest hgap hblanks hblanks'
    have hforms : forms.bareDefault = true := hsought
    simp only [ofChars?, text, hword, hforms, hfound]
    simp

theorem word_append {cs word : List Char} (h : cs.takeWhile isWordChar = word) :
    cs = word ++ afterWord cs := by
  rw [← h, afterWord, List.takeWhile_append_dropWhile]

theorem exists_blanks (cs : List Char) : ∃ gap, IsBlanks gap ∧ cs = gap ++ afterBlanks cs := by
  obtain ⟨gap, rest, hsplit, -, hdrop, hgap, -⟩ := exists_run isBlank cs
  exact ⟨gap, hgap, by rw [afterBlanks, hdrop]; exact hsplit⟩

theorem isName_takeWhile {cs : List Char} (h : cs.head?.any isWordStart = true) :
    IsName (cs.takeWhile isWordChar) := by
  cases cs with
  | nil => simp at h
  | cons c cs =>
    have hc : isWordStart c = true := by simpa using h
    refine ⟨c, cs.takeWhile isWordChar, ?_, hc, fun d => List.mem_takeWhile_imp⟩
    rw [List.takeWhile_cons, if_pos (isWordChar_of_isWordStart c hc)]

theorem exists_written_moduleFrom {cs : List Char} {found : Legacy}
    (hword : cs.takeWhile isWordChar = ['m', 'o', 'd', 'u', 'l', 'e'])
    (h : moduleFrom? cs = some found) : ∃ rest, cs = found.text ++ rest ∧ Written found rest := by
  obtain ⟨atName, atFrom, path, hname, hstart, hatFrom, hfrom, hpath, rfl⟩ := moduleFrom?_eq_some h
  obtain ⟨gap, hgap, hblanks, hafter, -⟩ := afterSomeBlanks?_eq_some hname
  obtain ⟨gap', hgap', hblanks', hafter', -⟩ := afterSomeBlanks?_eq_some hatFrom
  obtain ⟨gap'', hblanks'', hafter''⟩ := exists_blanks (afterWord atFrom)
  obtain ⟨later, hatPath, hispath⟩ := path?_eq_some_iff.mp hpath
  obtain ⟨tail, rest, rfl, htail⟩ := exists_tail later
  let lead := ['m', 'o', 'd', 'u', 'l', 'e'] ++ gap ++ atName.takeWhile isWordChar ++ gap' ++
    ['f', 'r', 'o', 'm'] ++ gap''
  have hsplit : cs = lead ++ afterBlanks (afterWord atFrom) := by
    calc cs = ['m', 'o', 'd', 'u', 'l', 'e'] ++ (gap ++ atName) := by
          rw [← hafter]; exact word_append hword
      _ = ['m', 'o', 'd', 'u', 'l', 'e'] ++ (gap ++ (atName.takeWhile isWordChar ++
            (gap' ++ atFrom))) := by rw [← hafter', ← word_append rfl]
      _ = ['m', 'o', 'd', 'u', 'l', 'e'] ++ (gap ++ (atName.takeWhile isWordChar ++
            (gap' ++ (['f', 'r', 'o', 'm'] ++ (gap'' ++ afterBlanks (afterWord atFrom)))))) := by
          rw [← hafter'', ← word_append hfrom]
      _ = lead ++ afterBlanks (afterWord atFrom) := by simp only [lead, List.append_assoc]
  have hbefore : before cs (afterBlanks (afterWord atFrom)) = lead := by
    rw [hsplit]
    exact before_append lead _
  have hsemicolon : semicolonTail ((afterBlanks (afterWord atFrom)).drop path.length) = tail := by
    rw [hatPath, List.drop_left]
    exact semicolonTail_append htail
  rw [hbefore, hsemicolon]
  refine ⟨rest, ?_, .moduleFrom hgap hblanks (isName_takeWhile hstart) hgap' hblanks' hblanks''
    hispath htail⟩
  rw [hsplit, hatPath]
  simp only [text, List.append_assoc]

theorem exists_written_bareDefault {cs : List Char} {found : Legacy}
    (hword : cs.takeWhile isWordChar = ['e', 'x', 'p', 'o', 'r', 't'])
    (h : bareDefault? cs = some found) : ∃ rest, cs = found.text ++ rest ∧ Written found rest := by
  obtain ⟨atDefault, rest, hatDefault, hdefault, hrest, rfl⟩ := bareDefault?_eq_some h
  obtain ⟨gap, hgap, hblanks, hafter, -⟩ := afterSomeBlanks?_eq_some hatDefault
  obtain ⟨gap', hblanks', hafter'⟩ := exists_blanks (afterWord atDefault)
  have hsplit : cs = (['e', 'x', 'p', 'o', 'r', 't'] ++ gap ++
      ['d', 'e', 'f', 'a', 'u', 'l', 't'] ++ gap' ++ [';']) ++ rest := by
    calc cs = ['e', 'x', 'p', 'o', 'r', 't'] ++ (gap ++ atDefault) := by
          rw [← hafter]; exact word_append hword
      _ = ['e', 'x', 'p', 'o', 'r', 't'] ++ (gap ++ (['d', 'e', 'f', 'a', 'u', 'l', 't'] ++
            (gap' ++ ';' :: rest))) := by rw [← hrest, ← hafter', ← word_append hdefault]
      _ = _ := by simp
  have hbefore := before_append (['e', 'x', 'p', 'o', 'r', 't'] ++ gap ++
    ['d', 'e', 'f', 'a', 'u', 'l', 't'] ++ gap' ++ [';']) rest
  rw [← hsplit] at hbefore
  rw [hbefore]
  exact ⟨rest, hsplit, .bareDefault hgap hblanks hblanks'⟩

/-- A declaration is found at the beginning of a text if and only if it is written there, in a form
that is looked for. -/
theorem ofChars?_eq_some_iff {forms : Forms} {cs : List Char} {found : Legacy} :
    ofChars? forms cs = some found ↔
      ∃ rest, cs = found.text ++ rest ∧ Written found rest ∧ isSought forms found = true := by
  constructor
  · intro h
    simp only [ofChars?] at h
    split at h
    · rename_i hword
      simp only [Bool.and_eq_true, decide_eq_true_eq] at hword
      obtain ⟨rest, hsplit, hwritten⟩ := exists_written_moduleFrom hword.1 h
      refine ⟨rest, hsplit, hwritten, ?_⟩
      obtain ⟨_, _, _, _, _, _, _, _, rfl⟩ := moduleFrom?_eq_some h
      exact hword.2
    · obtain ⟨hword, h⟩ := Option.ite_none_right_eq_some.mp h
      simp only [Bool.and_eq_true, decide_eq_true_eq] at hword
      obtain ⟨rest, hsplit, hwritten⟩ := exists_written_bareDefault hword.1 h
      refine ⟨rest, hsplit, hwritten, ?_⟩
      obtain ⟨_, _, _, _, _, rfl⟩ := bareDefault?_eq_some h
      exact hword.2
  · rintro ⟨rest, rfl, hwritten, hsought⟩
    exact hwritten.ofChars?_eq hsought

theorem begins_iff {forms : Forms} {cs : List Char} :
    Begins forms cs ↔ ∃ found, ofChars? forms cs = some found := by
  simp only [Begins, ofChars?_eq_some_iff]

end ModSplice.Legacy
