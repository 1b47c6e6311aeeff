import ModSplice.Proofs.LeadingComment

/-!
# The scan by positions

The scan once more, as a loop over positions in one fixed source. Here nothing but the loop itself
keeps a position inside the source: a look at a character, a cut and a difference of positions are
refused where they leave the source, and so is a depth that does not fit 32 bits. A position stands
in front of what is left of the source, and each part of the loop is shown to come, without a
refusal, to what its counterpart makes of that rest.
-/
namespace ModSplice.Legacy.Loop

open ModSplice.Text

inductive Breach where
  /-- A look at a place where no character stands. -/
  | index (i : Nat)
  /-- A cut that runs backwards or over the end. -/
  | cut (start stop : Nat)
  /-- A difference below zero. -/
  | difference (i j : Nat)
  /-- A depth that does not fit 32 bits. -/
  | depth (n : Int)
  deriving DecidableEq, Repr

@[simp] theorem ok_bind {α β : Type} (a : α) (f : α → Except Breach β) :
    (Except.ok a >>= f) = f a := rfl

@[simp] theorem pure_eq_ok {α : Type} (a : α) : (pure a : Except Breach α) = .ok a := rfl

def difference (i j : Nat) : Except Breach Nat :=
  if j ≤ i then .ok (i - j) else .error (.difference i j)

/-- A depth, if 32 bits hold it. -/
def fit (n : Int) : Except Breach Int :=
  if Int32.minValue.toInt ≤ n ∧ n ≤ Int32.maxValue.toInt then .ok n else .error (.depth n)

section

variable (source : List Char)

def look (i : Nat) : Except Breach Char :=
  match source[i]? with
  | some c => .ok c
  | none => .error (.index i)

def cut (start stop : Nat) : Except Breach (List Char) :=
  if start ≤ stop ∧ stop ≤ source.length then .ok ((source.drop start).take (stop - start))
  else .error (.cut start stop)

/-! ## Ends of runs, comments and strings -/

def runStop (p : Char → Bool) (i : Nat) : Except Breach Nat := do
  if i < source.length then
    if p (← look source i) then runStop p (i + 1) else return i
  else return i
termination_by source.length - i

def blockStop (i : Nat) : Except Breach Nat := do
  if i + 1 < source.length then
    if (← look source i) = '*' ∧ (← look source (i + 1)) = '/' then return i + 2
    else blockStop (i + 1)
  else return source.length
termination_by source.length - i

/-- Where the quote that closes a string is looked for and found. A backslash at the very end leads
one behind the end. -/
def quotePosition (quote : Char) (i : Nat) : Except Breach Nat := do
  if i < source.length then
    let c ← look source i
    if c = quote then return i
    else if c = '\\' then quotePosition quote (i + 2)
    else quotePosition quote (i + 1)
  else return i
termination_by source.length - i

def regionStop? (i : Nat) : Except Breach (Option Nat) := do
  if source.length ≤ i then return some source.length
  let c ← look source i
  if c = '/' ∧ source[i + 1]? = some '/' then
    return some (← runStop source (· != '\n') (i + 2))
  if c = '/' ∧ source[i + 1]? = some '*' then
    return some (← blockStop source (i + 2))
  if isQuote c then return some (min ((← quotePosition source c (i + 1)) + 1) source.length)
  return none

/-! ## Words -/

def wordBegins (i : Nat) : Except Breach Bool := do
  match source[i]? with
  | none => return false
  | some c =>
    if !isWordStart c then return false
    if i = 0 then return true
    return !isWordChar (← look source (← difference i 1))

def wordAt (i : Nat) : Except Breach (List Char) := do
  cut source i (← runStop source isWordChar i)

def lastBefore (i : Nat) : Except Breach (Option Char) := do
  return (← cut source 0 i).reverse.find? fun c => !isBlank c

/-! ## Declarations -/

/-- A declaration by the positions of its parts. -/
inductive Sight where
  | moduleFrom (start stop : Nat) (name : List Char) (pathStart pathStop : Nat)
  | bareDefault (start stop : Nat)
  deriving DecidableEq, Repr

def Sight.stop : Sight → Nat
  | .moduleFrom _ stop .. => stop
  | .bareDefault _ stop => stop

def sightOf (i : Nat) : Legacy → Sight
  | .moduleFrom lead name path tail =>
    .moduleFrom i (i + (lead ++ path ++ tail).length) name (i + lead.length)
      (i + lead.length + path.length)
  | .bareDefault text => .bareDefault i (i + text.length)

theorem sightOf_stop (i : Nat) (found : Legacy) :
    (sightOf i found).stop = i + found.text.length := by
  cases found <;> rfl

def statementStop (i : Nat) : Except Breach Nat := do
  let mark ← runStop source isIndentChar i
  return if source[mark]? = some ';' then mark + 1 else i

/-- The word behind the one that begins here, if blanks lie between the two. -/
def nextWord? (i : Nat) : Except Breach (Option Nat) := do
  let stop ← runStop source isWordChar i
  let next ← runStop source isBlank stop
  return if next = stop then none else some next

/-- The end of the quoted path that begins here. It has to end in its quote. -/
def pathStop? (start : Nat) : Except Breach (Option Nat) := do
  let some quote := source[start]? | return none
  if !isQuote quote then return none
  let some stop ← regionStop? source start | return none
  if (← difference stop start) < 2 then return none
  if (← look source (← difference stop 1)) ≠ quote then return none
  return some stop

def moduleFrom? (start : Nat) : Except Breach (Option Sight) := do
  let some nameStart ← nextWord? source start | return none
  if !(← wordBegins source nameStart) then return none
  let some fromStart ← nextWord? source nameStart | return none
  if (← wordAt source fromStart) ≠ ['f', 'r', 'o', 'm'] then return none
  let pathStart ← runStop source isBlank (← runStop source isWordChar fromStart)
  let some pathStop ← pathStop? source pathStart | return none
  let name ← wordAt source nameStart
  return some (.moduleFrom start (← statementStop source pathStop) name pathStart pathStop)

def bareDefault? (start : Nat) : Except Breach (Option Sight) := do
  let some defaultStart ← nextWord? source start | return none
  if (← wordAt source defaultStart) ≠ ['d', 'e', 'f', 'a', 'u', 'l', 't'] then return none
  let mark ← runStop source isBlank (← runStop source isWordChar defaultStart)
  if source[mark]? ≠ some ';' then return none
  return some (.bareDefault start (mark + 1))

def sight? (forms : Forms) (i : Nat) : Except Breach (Option Sight) := do
  let word ← wordAt source i
  if word = ['m', 'o', 'd', 'u', 'l', 'e'] && forms.moduleFrom then moduleFrom? source i
  else if word = ['e', 'x', 'p', 'o', 'r', 't'] && forms.bareDefault then bareDefault? source i
  else return none

def bytesBefore (i : Nat) : Except Breach Nat := do
  return byteSize (← cut source 0 i)

def Sight.toNode : Sight → Except Breach Node
  | .moduleFrom start stop name pathStart pathStop => do
    let span := ⟨← bytesBefore source start, ← bytesBefore source stop⟩
    let path := ⟨← bytesBefore source pathStart, ← bytesBefore source pathStop⟩
    let raw ← cut source pathStart pathStop
    return .moduleDecl ⟨span, String.ofList name, ⟨path, String.ofList raw⟩⟩
  | .bareDefault start stop => do
    return .exportNothing ⟨← bytesBefore source start, ← bytesBefore source stop⟩ "default"

/-! ## The loop -/

/-- The open templates after the character at a position, innermost first with their depths, and
how many characters belong to the template itself. Nothing in the type keeps a depth from falling
below zero. -/
def handle (i : Nat) : List Int → Except Breach (List Int × Option Nat)
  | [] => do
    if (← look source i) = '\x60' then return ([0], some 1) else return ([], none)
  | depth :: outer => do
    let c ← look source i
    if depth = 0 then
      if c = '\\' ∧ i + 1 < source.length then return (depth :: outer, some 2)
      if c = '$' ∧ source[i + 1]? = some '\x7b' then return (1 :: outer, some 2)
      if c = '\x60' then return (outer, some 1)
      return (depth :: outer, some 1)
    if c = '\x60' then return (0 :: depth :: outer, some 1)
    if c = '\x7b' then return ((← fit (depth + 1)) :: outer, none)
    if c = '\x7d' then
      let depth ← fit (depth - 1)
      return (depth :: outer, if depth = 0 then some 1 else none)
    return (depth :: outer, none)

/-- Where the loop is: its position, the depths of the open templates and what it has seen. -/
structure Pass where
  position : Nat := 0
  depths : List Int := []
  sights : List Sight := []
  deriving DecidableEq, Repr

def turn (forms : Forms) (s : Pass) : Except Breach Pass := do
  let (depths, skip?) ← handle source s.position s.depths
  match skip? with
  | some n => return { s with position := s.position + n, depths }
  | none =>
    match ← regionStop? source s.position with
    | some stop => return { s with position := stop, depths }
    | none =>
      if !(← wordBegins source s.position) then
        return { s with position := s.position + 1, depths }
      if (← lastBefore source s.position) = some '.' then
        return { s with position := ← runStop source isWordChar s.position, depths }
      match ← sight? source forms s.position with
      | some sight => return ⟨sight.stop, depths, s.sights ++ [sight]⟩
      | none => return { s with position := ← runStop source isWordChar s.position, depths }

/-- The loop for so many turns; at the end of the source it stands still. -/
def turns (forms : Forms) : Nat → Pass → Except Breach Pass
  | 0, s => return s
  | n + 1, s => do
    if s.position < source.length then turns forms n (← turn source forms s) else return s

end

/-! ## What is left at a position -/

theorem difference_eq {i j : Nat} (h : j ≤ i) : difference i j = .ok (i - j) := by
  rw [difference, if_pos h]

/-- A string in front of a text is a path if it is long enough and ends in its quote. -/
theorem path?_of_quoted {quote last : Char} {rest front later : List Char}
    (hquote : isQuote quote = true) (hsplit : quote :: rest = front ++ [last] ++ later)
    (hwidth : regionWidth? (quote :: rest) = some (front.length + 1)) :
    path? (quote :: rest) =
      if 2 ≤ front.length + 1 ∧ last = quote then some (front ++ [last]) else none := by
  rw [regionWidth?_quote rest hquote, Option.some.injEq] at hwidth
  have htake : (quote :: rest).take (front.length + 1) = front ++ [last] := by
    rw [hsplit, List.take_left' (by simp)]
  simp only [path?, hwidth, htake, hquote]
  simp

variable {source : List Char}

/-- The position stands inside the source or at its end, in front of the given rest. -/
structure At (source : List Char) (i : Nat) (rest : List Char) : Prop where
  le : i ≤ source.length
  drop : source.drop i = rest

namespace At

variable {i : Nat} {rest : List Char}

theorem length (h : At source i rest) : i + rest.length = source.length := by
  have hle := h.le
  rw [← h.drop, List.length_drop]
  omega

/-- Nothing is left at the end only. -/
theorem eq_length (h : At source i []) : i = source.length := by
  have hlength := h.length
  rw [List.length_nil] at hlength
  omega

theorem lt_length {c : Char} (h : At source i (c :: rest)) : i < source.length := by
  have hlength := h.length
  rw [List.length_cons] at hlength
  omega

/-- A position further on. -/
theorem advance {front : List Char} (h : At source i (front ++ rest)) :
    At source (i + front.length) rest := by
  have hlength := h.length
  rw [List.length_append] at hlength
  refine ⟨by omega, ?_⟩
  rw [← List.drop_drop, h.drop, List.drop_left]

/-- What comes before a position further on. -/
theorem take_advance {front : List Char} (h : At source i (front ++ rest)) :
    source.take (i + front.length) = source.take i ++ front := by
  rw [List.take_add, h.drop, List.take_left]

theorem tail {c : Char} (h : At source i (c :: rest)) : At source (i + 1) rest := by
  rw [← List.singleton_append] at h
  exact h.advance

theorem get? (h : At source i rest) : source[i]? = rest.head? := by
  rw [← h.drop, List.head?_drop]

theorem look_eq {c : Char} (h : At source i (c :: rest)) : look source i = .ok c := by
  simp [look, h.get?]

theorem cut_eq {front : List Char} (h : At source i (front ++ rest)) :
    cut source i (i + front.length) = .ok front := by
  have hle := h.advance.le
  rw [cut, if_pos ⟨by omega, hle⟩, h.drop]
  simp

theorem cut_zero_eq (h : At source i rest) : cut source 0 i = .ok (source.take i) := by
  rw [cut, if_pos ⟨by omega, h.le⟩]
  simp

/-! ## Ends of runs, comments and strings -/

theorem runStop_eq (p : Char → Bool) (h : At source i rest) :
    runStop source p i = .ok (i + (rest.takeWhile p).length) := by
  induction rest generalizing i with
  | nil =>
    rw [runStop, if_neg (by rw [h.eq_length]; omega)]
    rfl
  | cons c rest ih =>
    rw [runStop, if_pos h.lt_length, h.look_eq, ok_bind]
    by_cases hc : p c = true
    · rw [if_pos hc, ih h.tail, List.takeWhile_cons, if_pos hc, List.length_cons]
      congr 1
      omega
    · rw [if_neg hc, List.takeWhile_cons, if_neg hc]
      rfl

/-- Behind a run stands the rest without it. -/
theorem run (p : Char → Bool) (h : At source i rest) :
    At source (i + (rest.takeWhile p).length) (rest.dropWhile p) := by
  rw [← List.takeWhile_append_dropWhile (p := p) (l := rest)] at h
  exact h.advance

theorem blockStop_eq (h : At source i rest) :
    blockStop source i = .ok (i + blockRest rest) := by
  induction rest generalizing i with
  | nil =>
    rw [blockStop, if_neg (by rw [h.eq_length]; omega)]
    simp [blockRest, h.eq_length]
  | cons c rest ih =>
    cases rest with
    | nil =>
      have hend := h.tail.eq_length
      rw [blockStop, if_neg (by omega), blockRest_cons, if_neg (by simp), ← hend]
      rfl
    | cons d rest =>
      rw [blockStop, if_pos h.tail.lt_length, h.look_eq, ok_bind, h.tail.look_eq, ok_bind,
        blockRest_cons]
      by_cases hclose : c = '*' ∧ d = '/'
      · rw [if_pos hclose, if_pos (by simpa using hclose)]
        rfl
      · rw [if_neg hclose, if_neg (by simpa using hclose), ih h.tail]
        congr 1
        omega

/-- The clamped end of a string is the end that its width gives. -/
theorem quotePosition_eq {quote : Char} (hquote : isQuote quote = true) (h : At source i rest) :
    ∃ j, quotePosition source quote i = .ok j ∧
      min (j + 1) source.length = i + stringRest quote rest := by
  induction rest using stringRest.induct quote generalizing i with
  | case1 =>
    refine ⟨i, ?_, ?_⟩
    · rw [quotePosition, if_neg (by rw [h.eq_length]; omega)]
      rfl
    · rw [stringRest, ← h.eq_length]
      omega
  | case2 rest =>
    have hlt := h.lt_length
    refine ⟨i, ?_, ?_⟩
    · rw [quotePosition, if_pos hlt, h.look_eq, ok_bind, if_pos rfl]
      rfl
    · rw [stringRest_close]
      omega
  | case3 hne =>
    -- the backslash leads over the end, and the clamp leads back to it
    have hlt := h.lt_length
    have hend := h.tail.eq_length
    refine ⟨i + 2, ?_, ?_⟩
    · rw [quotePosition, if_pos hlt, h.look_eq, ok_bind, if_neg hne, if_pos rfl, quotePosition,
        if_neg (by omega)]
      rfl
    · rw [stringRest_lone hquote]
      omega
  | case4 c rest hne ih =>
    obtain ⟨j, hj, hstop⟩ := ih h.tail.tail
    refine ⟨j, ?_, ?_⟩
    · rw [quotePosition, if_pos h.lt_length, h.look_eq, ok_bind, if_neg hne, if_pos rfl]
      exact hj
    · rw [hstop, stringRest_pair c rest hquote]
      omega
  | case5 c rest hc hb ih =>
    obtain ⟨j, hj, hstop⟩ := ih h.tail
    refine ⟨j, ?_, ?_⟩
    · rw [quotePosition, if_pos h.lt_length, h.look_eq, ok_bind, if_neg hc, if_neg hb]
      exact hj
    · rw [hstop, stringRest_single rest hc hb]
      omega

theorem regionStop?_eq {c : Char} (h : At source i (c :: rest)) :
    regionStop? source i = .ok ((regionWidth? (c :: rest)).map (i + ·)) := by
  have hlt := h.lt_length
  rw [regionStop?, if_neg (by omega), h.look_eq, ok_bind, h.tail.get?]
  by_cases hregion : BeginsRegion c rest
  · rcases hregion with hquote | ⟨rfl, hslash | hstar⟩
    · obtain ⟨j, hj, hstop⟩ := h.tail.quotePosition_eq hquote
      have hc : c ≠ '/' := by
        rintro rfl
        simp [isQuote] at hquote
      rw [if_neg (by simp [hc]), if_neg (by simp [hc]), if_pos hquote, hj, ok_bind, hstop,
        regionWidth?_quote rest hquote, Option.map_some]
      simp only [pure_eq_ok, Except.ok.injEq, Option.some.injEq]
      omega
    · obtain ⟨body, rfl⟩ := List.head?_eq_some_iff.mp hslash
      rw [if_pos (by simp), h.tail.tail.runStop_eq, ok_bind, regionWidth?, Option.map_some]
      simp only [pure_eq_ok, Except.ok.injEq, Option.some.injEq]
      omega
    · obtain ⟨body, rfl⟩ := List.head?_eq_some_iff.mp hstar
      rw [if_neg (by simp), if_pos (by simp), h.tail.tail.blockStop_eq, ok_bind, regionWidth?,
        Option.map_some]
      simp only [pure_eq_ok, Except.ok.injEq, Option.some.injEq]
      omega
  · rw [regionWidth?_eq_none hregion]
    simp only [BeginsRegion, not_or, not_and] at hregion
    rw [if_neg (fun hc => (hregion.2 hc.1).1 hc.2), if_neg (fun hc => (hregion.2 hc.1).2 hc.2),
      if_neg hregion.1]
    rfl

/-! ## Words -/

/-- The character in front of a position. -/
theorem back (h : At source (i + 1) rest) :
    ∃ c, At source i (c :: rest) ∧ (source.take (i + 1)).reverse.head? = some c := by
  have hlt : i < source.length := h.le
  refine ⟨source[i], ⟨hlt.le, ?_⟩, ?_⟩
  · rw [List.drop_eq_getElem_cons hlt, h.drop]
  · rw [List.take_succ_eq_append_getElem hlt, List.reverse_append]
    rfl

theorem wordBegins_eq (h : At source i rest) :
    wordBegins source i = .ok (beginsWord (source.take i).reverse rest) := by
  rw [wordBegins, h.get?, beginsWord]
  cases rest with
  | nil => rfl
  | cons c rest =>
    cases i with
    | zero => cases hc : isWordStart c <;> simp [hc]
    | succ i =>
      obtain ⟨d, hd, hlast⟩ := h.back
      have hbefore : difference (i + 1) 1 = .ok i := difference_eq (by omega)
      cases hc : isWordStart c <;> simp [hc, hlast, hbefore, hd.look_eq]

theorem wordAt_eq (h : At source i rest) :
    wordAt source i = .ok (rest.takeWhile isWordChar) := by
  rw [wordAt, h.runStop_eq, ok_bind]
  rw [← List.takeWhile_append_dropWhile (p := isWordChar) (l := rest)] at h
  exact h.cut_eq

theorem lastBefore_eq (h : At source i rest) :
    lastBefore source i = .ok ((source.take i).reverse.find? fun c => !isBlank c) := by
  rw [lastBefore, h.cut_zero_eq]
  rfl

/-! ## Declarations -/

/-- A word and the blanks behind it. -/
theorem wordAndBlanks (h : At source i rest) :
    ∃ j, (runStop source isWordChar i >>= runStop source isBlank) = .ok j ∧ i ≤ j ∧
      At source j (afterBlanks (afterWord rest)) := by
  have hword : At source _ (afterWord rest) := h.run isWordChar
  refine ⟨_, ?_, ?_, hword.run isBlank⟩
  · rw [h.runStop_eq, ok_bind, hword.runStop_eq]
  · omega

/-- The next word is where the blanks end, and with a blank in front of it it may begin there. -/
theorem nextWord?_cases (h : At source i rest) :
    (nextWord? source i = .ok none ∧ afterSomeBlanks? (afterWord rest) = none) ∨
      ∃ j later, nextWord? source i = .ok (some j) ∧
        afterSomeBlanks? (afterWord rest) = some later ∧ i ≤ j ∧ At source j later ∧
        wordBegins source j = .ok (later.head?.any isWordStart) := by
  have hword : At source _ (afterWord rest) := h.run isWordChar
  obtain ⟨gap, later, hsplit, htake, -, hgap, hstop⟩ := exists_run isBlank (afterWord rest)
  have hnext := hword.runStop_eq isBlank
  rw [htake] at hnext
  rw [hsplit] at hword ⊢
  rw [nextWord?, h.runStop_eq, ok_bind, hnext, ok_bind]
  by_cases hne : gap = []
  · subst hne
    refine .inl ⟨by simp, ?_⟩
    cases later with
    | nil => rfl
    | cons c later =>
      have hc : isBlank c = false := hstop c rfl
      simp [afterSomeBlanks?, hc]
  · have hpos := List.length_pos_iff.mpr hne
    have hlast := head_behind_blanks (source.take (i + (rest.takeWhile isWordChar).length)) []
      hne hgap
    rw [List.append_nil, ← hword.take_advance] at hlast
    refine .inr ⟨_, later, ?_, afterSomeBlanks?_append hne hgap hstop, ?_, hword.advance, ?_⟩
    · rw [if_neg (by omega)]
      rfl
    · omega
    · rw [hword.advance.wordBegins_eq, beginsWord, hlast]
      simp

theorem statementStop_eq (h : At source i rest) :
    statementStop source i = .ok (i + (semicolonTail rest).length) := by
  obtain ⟨indent, later, rfl, htake, -, hindent, hstop⟩ := exists_run isIndentChar rest
  rw [statementStop, h.runStop_eq, htake, ok_bind, h.advance.get?,
    semicolonTail_run hindent hstop]
  by_cases hmark : later.head? = some ';'
  · simp [hmark, Nat.add_assoc]
  · simp [hmark]

theorem pathStop?_eq (h : At source i rest) :
    pathStop? source i = .ok ((path? rest).map fun path => i + path.length) := by
  rw [pathStop?, h.get?]
  cases rest with
  | nil => rfl
  | cons quote rest =>
    by_cases hquote : isQuote quote = true
    · obtain ⟨path, later, hsplit, hne, hregion⟩ := exists_quoted rest hquote
      obtain ⟨front, last, rfl⟩ := (List.eq_nil_or_concat path).resolve_left hne
      rw [List.concat_eq_append] at hsplit hregion
      have hwidth := hregion.regionWidth?_eq
      rw [← hsplit, List.length_append, List.length_singleton] at hwidth
      have hstop : regionStop? source i = .ok (some (i + (front.length + 1))) := by
        rw [h.regionStop?_eq, hwidth]
        rfl
      have hlook : look source (i + front.length) = .ok last := by
        rw [hsplit, List.append_assoc] at h
        exact h.advance.look_eq
      have hbefore : difference (i + (front.length + 1)) 1 = .ok (i + front.length) :=
        difference_eq (by omega)
      have hdifference : difference (i + (front.length + 1)) i = .ok (front.length + 1) := by
        rw [difference_eq (by omega), Nat.add_sub_cancel_left]
      rw [path?_of_quoted hquote hsplit hwidth]
      simp only [List.head?_cons, hquote, hstop, hdifference, hbefore, hlook, ok_bind]
      rw [if_neg (by simp)]
      by_cases hshort : front.length + 1 < 2
      · rw [if_pos hshort, if_neg (fun hlong => by omega)]
        rfl
      · rw [if_neg hshort]
        by_cases hlast : last = quote
        · rw [if_neg (not_not.mpr hlast), if_pos ⟨by omega, hlast⟩]
          simp
        · rw [if_pos hlast, if_neg (fun hlong => hlast hlong.2)]
          rfl
    · simp [path?, hquote]

/-- What lies between a position and a later one has the width between the two. -/
theorem length_before {j : Nat} {later : List Char} (h : At source i rest)
    (hlater : At source j later) (hij : i ≤ j) : i + (before rest later).length = j := by
  have hlength := h.length
  have hlength' := hlater.length
  rw [before, List.length_take]
  omega

theorem moduleFrom?_eq (h : At source i rest) :
    Loop.moduleFrom? source i = .ok ((Legacy.moduleFrom? rest).map (sightOf i)) := by
  rw [Loop.moduleFrom?, Legacy.moduleFrom?]
  -- loop and reader give up at the same places: no name, no `from`, no path
  rcases h.nextWord?_cases with ⟨hnext, hnone⟩ |
    ⟨nameStart, atName, hnext, hsome, hle, hname, hbegins⟩
  · simp [hnext, hnone]
  simp only [hnext, hsome, hbegins, ok_bind, Option.bind_eq_bind, Option.bind_some]
  by_cases hstart : (!atName.head?.any isWordStart) = true
  · simp [hstart]
  rw [if_neg hstart, if_neg hstart]
  rcases hname.nextWord?_cases with ⟨hnext', hnone⟩ |
    ⟨fromStart, atFrom, hnext', hsome', hle', hfrom, -⟩
  · simp [hnext', hnone]
  simp only [hnext', hsome', hfrom.wordAt_eq, ok_bind, Option.bind_some]
  by_cases hkeyword : atFrom.takeWhile isWordChar ≠ ['f', 'r', 'o', 'm']
  · simp [hkeyword]
  rw [if_neg hkeyword, if_neg hkeyword]
  obtain ⟨pathStart, hblanks, hle'', hpath⟩ := hfrom.wordAndBlanks
  have hbefore := h.length_before hpath (by omega)
  rw [← bind_assoc, hblanks, ok_bind, hpath.pathStop?_eq, ok_bind]
  cases hfound : path? (afterBlanks (afterWord atFrom)) with
  | none => simp
  | some path =>
    obtain ⟨later, hsplit, -⟩ := path?_eq_some_iff.mp hfound
    rw [hsplit] at hpath hbefore ⊢
    simp only [hname.wordAt_eq, hpath.advance.statementStop_eq, ok_bind, pure_eq_ok,
      Option.bind_some, Option.map_some, sightOf, List.length_append, List.drop_left,
      ← Nat.add_assoc, hbefore]

theorem bareDefault?_eq (h : At source i rest) :
    Loop.bareDefault? source i = .ok ((Legacy.bareDefault? rest).map (sightOf i)) := by
  rw [Loop.bareDefault?, Legacy.bareDefault?]
  rcases h.nextWord?_cases with ⟨hnext, hnone⟩ |
    ⟨defaultStart, atDefault, hnext, hsome, hle, hdefault, -⟩
  · simp [hnext, hnone]
  simp only [hnext, hsome, hdefault.wordAt_eq, ok_bind, Option.bind_eq_bind, Option.bind_some]
  by_cases hkeyword : atDefault.takeWhile isWordChar ≠ ['d', 'e', 'f', 'a', 'u', 'l', 't']
  · simp [hkeyword]
  rw [if_neg hkeyword, if_neg hkeyword]
  obtain ⟨mark, hblanks, hle', hmark⟩ := hdefault.wordAndBlanks
  rw [← bind_assoc, hblanks, ok_bind, hmark.get?]
  generalize afterBlanks (afterWord atDefault) = atMark at *
  by_cases hsemicolon : atMark.head? = some ';'
  · obtain ⟨later, rfl⟩ := List.head?_eq_some_iff.mp hsemicolon
    have hbefore := h.length_before hmark.tail (by omega)
    simp [sightOf, hbefore]
  · rw [if_pos hsemicolon]
    cases atMark with
    | nil => rfl
    | cons c later =>
      have hc : c ≠ ';' := by simpa using hsemicolon
      simp [hc]

theorem sight?_eq (forms : Forms) (h : At source i rest) :
    sight? source forms i = .ok ((ofChars? forms rest).map (sightOf i)) := by
  rw [sight?, h.wordAt_eq, ok_bind, ofChars?]
  split
  · exact h.moduleFrom?_eq
  · split
    · exact h.bareDefault?_eq
    · rfl

theorem bytesBefore_eq (h : At source i rest) :
    bytesBefore source i = .ok (byteSize (source.take i)) := by
  rw [bytesBefore, h.cut_zero_eq]
  rfl

/-- The bytes in front of a later position. -/
theorem bytesBefore_advance {front : List Char} (h : At source i (front ++ rest)) :
    bytesBefore source (i + front.length) =
      .ok (byteSize (source.take i) + byteSize front) := by
  rw [h.advance.bytesBefore_eq, h.take_advance, byteSize_append]

/-- A declaration is made a node of, told by its positions as by its text. -/
theorem toNode_eq {found : Legacy} (h : At source i (found.text ++ rest)) :
    (sightOf i found).toNode source = .ok (found.toNode (byteSize (source.take i))) := by
  cases found with
  | moduleFrom lead name path tail =>
    have hstop := h.bytesBefore_advance
    have hpath : At source i ((lead ++ path) ++ (tail ++ rest)) := by
      simpa only [Legacy.text, List.append_assoc] using h
    have hpathStop := hpath.bytesBefore_advance
    rw [List.append_assoc] at hpath
    have hpathStart := hpath.bytesBefore_advance
    have hraw := hpath.advance.cut_eq
    simp only [List.length_append, ← Nat.add_assoc, byteSize_append, Legacy.text]
      at hstop hpathStop
    simp [sightOf, Sight.toNode, Legacy.toNode, h.bytesBefore_eq, hstop, hpathStart, hpathStop,
      hraw, ← Nat.add_assoc]
  | bareDefault text =>
    have hstop := h.bytesBefore_advance
    simp only [Legacy.text] at hstop
    simp [sightOf, Sight.toNode, h.bytesBefore_eq, hstop, Legacy.toNode]

end At

end ModSplice.Legacy.Loop
