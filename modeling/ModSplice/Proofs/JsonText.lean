import ModSplice.Json.Printer
import ModSplice.Json.Reader

/-!
# JSON text read back

The text of a value, indented as it is printed, is read back as that value. The tokens of the value
are in between: the lexer finds them in the text whatever the indentation, and the reader builds the
value from them whatever is still open around it.
-/
namespace ModSplice.Json

/-! ## Tokens of a value -/

mutual

def tokens : Json → List Token
  | .arr items => .openArray :: (itemTokens items ++ [.closeArray])
  | .obj fields => .openObject :: (fieldTokens fields ++ [.closeObject])
  | .str s => [.text (some s)]
  | value => [.literal value]

def itemTokens : List Json → List Token
  | [] => []
  | [item] => tokens item
  | item :: items => tokens item ++ .comma :: itemTokens items

def fieldTokens : List (String × Json) → List Token
  | [] => []
  | [(key, value)] => .text (some key) :: .colon :: tokens value
  | (key, value) :: fields =>
    .text (some key) :: .colon :: (tokens value ++ .comma :: fieldTokens fields)

end

/-! ## Digits and words -/

theorem isLiteralChar_of_isDigit {c : Char} (h : c.isDigit = true) : isLiteralChar c = true := by
  simp [isLiteralChar, Char.isAlphanum, h]

theorem isDigit_of_mem_digits {n : Nat} {c : Char} (h : c ∈ Nat.toDigits 10 n) :
    c.isDigit = true :=
  Nat.isDigit_of_mem_toDigits (by decide) (by decide) h

theorem ofDigits_toDigits (n : Nat) : ofDigits (Nat.toDigits 10 n) = n :=
  Nat.ofDigitChars_toDigits (by decide) (by decide)

/-- The digits of a positive number do not begin with a zero. -/
theorem head_toDigits_ne {n : Nat} (h : 0 < n) : (Nat.toDigits 10 n).head? ≠ some '0' := by
  induction n using Nat.strongRecOn with
  | ind n ih =>
    by_cases hlt : n < 10
    · rw [Nat.toDigits_of_lt_base hlt]
      have hdigit : ∀ m < 10, 0 < m → Nat.digitChar m ≠ '0' := by decide
      simpa using hdigit n hlt h
    · have hfront := ih (n / 10) (by omega) (by omega)
      rw [Nat.toDigits_of_base_le (by decide) (by omega)]
      cases hdigits : Nat.toDigits 10 (n / 10) with
      | nil => exact absurd hdigits Nat.toDigits_ne_nil
      | cons c rest =>
        rw [hdigits] at hfront
        exact hfront

theorem isWhole_toDigits (n : Nat) : isWhole (Nat.toDigits 10 n) = true := by
  by_cases h : n = 0
  · subst h
    rfl
  · have hhead := head_toDigits_ne (Nat.pos_of_ne_zero h)
    cases hdigits : Nat.toDigits 10 n with
    | nil => exact absurd hdigits Nat.toDigits_ne_nil
    | cons c rest =>
      rw [hdigits] at hhead
      have hc : c ≠ '0' := by simpa using hhead
      unfold isWhole
      split <;> simp_all

/-- A word that begins with a digit is a number. -/
theorem literal?_of_digit {c : Char} {rest : List Char} (h : c.isDigit = true) :
    literal? (c :: rest) = number? (c :: rest) := by
  have hn : c ≠ 'n' := by rintro rfl; exact absurd h (by decide)
  have ht : c ≠ 't' := by rintro rfl; exact absurd h (by decide)
  have hf : c ≠ 'f' := by rintro rfl; exact absurd h (by decide)
  simp [literal?, hn, ht, hf]

/-- The digits of a number end where no more digit follows. -/
theorem span_toDigits (n : Nat) (rest : List Char) (hrest : ∀ c ∈ rest.head?, c.isDigit = false) :
    (Nat.toDigits 10 n ++ rest).takeWhile Char.isDigit = Nat.toDigits 10 n ∧
      (Nat.toDigits 10 n ++ rest).dropWhile Char.isDigit = rest := by
  have hdigits : ∀ c ∈ Nat.toDigits 10 n, c.isDigit = true := fun c => isDigit_of_mem_digits
  rw [List.takeWhile_append_of_pos hdigits, List.dropWhile_append_of_pos hdigits]
  cases rest with
  | nil => simp
  | cons c rest =>
    have hc : c.isDigit = false := hrest c rfl
    simp [hc]

/-- Digits begin with a digit. -/
theorem exists_head_toDigits (n : Nat) :
    ∃ c rest, Nat.toDigits 10 n = c :: rest ∧ c.isDigit = true := by
  cases hdigits : Nat.toDigits 10 n with
  | nil => exact absurd hdigits Nat.toDigits_ne_nil
  | cons c rest => exact ⟨c, rest, rfl, isDigit_of_mem_digits (by rw [hdigits]; simp)⟩

theorem ne_of_isDigit {c d : Char} (h : c.isDigit = true) (hd : d.isDigit = false) : c ≠ d := by
  rintro rfl
  simp_all

theorem number?_toDigits (n : Nat) : number? (Nat.toDigits 10 n) = some (.nat n) := by
  have hspan : (Nat.toDigits 10 n).takeWhile Char.isDigit = Nat.toDigits 10 n ∧
      (Nat.toDigits 10 n).dropWhile Char.isDigit = [] := by
    simpa using span_toDigits n [] (by simp)
  have hwhole := isWhole_toDigits n
  have hvalue := ofDigits_toDigits n
  obtain ⟨c, rest, hdigits, hc⟩ := exists_head_toDigits n
  have hminus : c ≠ '-' := ne_of_isDigit hc (by decide)
  rw [hdigits] at hspan hwhole hvalue ⊢
  simp [number?, hminus, hspan.1, hspan.2, hwhole, hvalue]

/-- An exponent without a sign, and one with a minus sign. -/
theorem exponent?_toDigits (n : Nat) :
    exponent? (Nat.toDigits 10 n) = some (n : Int) ∧
      exponent? ('-' :: Nat.toDigits 10 n) = some (-(n : Int)) := by
  have hvalue := ofDigits_toDigits n
  have hall : (Nat.toDigits 10 n).all Char.isDigit = true :=
    List.all_eq_true.mpr fun c => isDigit_of_mem_digits
  obtain ⟨c, rest, hdigits, hc⟩ := exists_head_toDigits n
  have hminus : c ≠ '-' := ne_of_isDigit hc (by decide)
  have hplus : c ≠ '+' := ne_of_isDigit hc (by decide)
  rw [hdigits] at hall hvalue ⊢
  exact ⟨by simp [exponent?, hminus, hplus, hvalue, hall], by simp [exponent?, hvalue, hall]⟩

theorem exponent?_written (exponent : Int) :
    exponent? (if exponent < 0 then '-' :: Nat.toDigits 10 (-exponent).toNat
      else Nat.toDigits 10 exponent.toNat) = some exponent := by
  split
  · rw [(exponent?_toDigits _).2]
    congr 1
    omega
  · rw [(exponent?_toDigits _).1]
    congr 1
    omega

theorem number?_decimalChars (negative : Bool) (mantissa : Nat) (exponent : Int) :
    number? (decimalChars negative mantissa exponent) =
      some (.decimal negative mantissa exponent) := by
  have hexponent := exponent?_written exponent
  simp only [decimalChars]
  generalize (if exponent < 0 then '-' :: Nat.toDigits 10 (-exponent).toNat
    else Nat.toDigits 10 exponent.toNat) = power at hexponent ⊢
  have hmark : ∀ c ∈ ('e' :: power).head?, c.isDigit = false := by
    rintro c ⟨⟩
    rfl
  have hspan := span_toDigits mantissa ('e' :: power) hmark
  have hwhole := isWhole_toDigits mantissa
  have hvalue := ofDigits_toDigits mantissa
  obtain ⟨c, rest, hdigits, hc⟩ := exists_head_toDigits mantissa
  have hminus : c ≠ '-' := ne_of_isDigit hc (by decide)
  rw [hdigits] at hspan hwhole hvalue ⊢
  rw [List.cons_append] at hspan
  cases negative <;>
    simp [number?, hminus, hspan.1, hspan.2, hwhole, hvalue, hexponent]

/-! ## From text to tokens -/

namespace Lexer

theorem run_cons {lexer next : Lexer} {c : Char} {found : List Token} (cs : List Char)
    (h : lexer.step c = some (next, found)) :
    run lexer (c :: cs) = (run next cs).map (found ++ ·) := by
  simp only [run, h, Option.bind_eq_bind, Option.bind_some]
  cases run next cs <;> rfl

/-- A character that yields no token. -/
theorem run_cons_nil {lexer next : Lexer} {c : Char} (cs : List Char)
    (h : lexer.step c = some (next, [])) : run lexer (c :: cs) = run next cs := by
  rw [run_cons cs h]
  simp

theorem run_blanks (n : Nat) (cs : List Char) :
    run .between (List.replicate n ' ' ++ cs) = run .between cs := by
  induction n with
  | zero => rfl
  | succ n ih =>
    rw [List.replicate_succ, List.cons_append, run_cons_nil _ rfl, ih]

theorem run_newline (level : Nat) (cs : List Char) :
    run .between (newline level cs) = run .between cs := by
  rw [newline, run_cons_nil _ rfl, run_blanks]

/-- A line break behind the text makes no difference. -/
theorem run_append_newline (lexer : Lexer) (cs : List Char) :
    run lexer (cs ++ ['\n']) = run lexer cs := by
  induction cs generalizing lexer with
  | nil =>
    cases lexer with
    | between | text | escape | hex => rfl
    | word chars =>
      have hstep : (Lexer.word chars).step '\n' =
          (literal? chars.reverse).bind fun value => some (.between, [.literal value]) := rfl
      simp only [List.nil_append, run, hstep, finish]
      cases literal? chars.reverse <;> rfl
  | cons c cs ih => simp only [List.cons_append, run, ih]

/-- The text goes on with a character that no word takes. -/
def Stops (cs : List Char) : Prop :=
  ∀ c ∈ cs.head?, isLiteralChar c = false

theorem start_of_isLiteralChar {c : Char} (h : isLiteralChar c = true) :
    start c = some (.word [c], []) := by
  have hne : ∀ d, isLiteralChar d = false → c ≠ d := by
    rintro d hd rfl
    simp_all
  have hspace := hne ' ' (by decide)
  have htab := hne '\t' (by decide)
  have hline := hne '\n' (by decide)
  have hreturn := hne '\r' (by decide)
  have hquote := hne '"' (by decide)
  have hcomma := hne ',' (by decide)
  have hcolon := hne ':' (by decide)
  have hopen := hne '[' (by decide)
  have hclose := hne ']' (by decide)
  have hbegin := hne '\x7b' (by decide)
  have hend := hne '\x7d' (by decide)
  simp [start, isJsonBlank, *]

/-- A word is gathered character by character. -/
theorem run_word_append {word : List Char} (hword : ∀ c ∈ word, isLiteralChar c = true)
    (chars rest : List Char) :
    run (.word chars) (word ++ rest) = run (.word (word.reverse ++ chars)) rest := by
  induction word generalizing chars with
  | nil => rfl
  | cons c word ih =>
    have hstep : (Lexer.word chars).step c = some (.word (c :: chars), []) := by
      simp [step, hword c (by simp)]
    rw [List.cons_append, run_cons_nil _ hstep, ih fun d hd => hword d (by simp [hd])]
    simp

/-- A word ends where the text stops. -/
theorem run_word_stop {chars rest : List Char} {value : Json}
    (hvalue : literal? chars.reverse = some value) (hrest : Stops rest) :
    run (.word chars) rest = (run .between rest).map (.literal value :: ·) := by
  cases rest with
  | nil => simp [run, finish, hvalue]
  | cons c rest =>
    have hc : isLiteralChar c = false := hrest c rfl
    have hstep : (Lexer.word chars).step c =
        (start c).map fun found => (found.1, .literal value :: found.2) := by
      simp only [step, hc, hvalue]
      cases start c <;> rfl
    have hbetween : Lexer.between.step c = start c := rfl
    cases hstart : start c with
    | none => simp [run, hstep, hbetween, hstart]
    | some found =>
      rw [hstart] at hstep hbetween
      rw [run_cons rest hstep, run_cons rest hbetween, Option.map_map]
      rfl

theorem run_word {word rest : List Char} {value : Json} (hne : word ≠ [])
    (hword : ∀ c ∈ word, isLiteralChar c = true) (hvalue : literal? word = some value)
    (hrest : Stops rest) :
    run .between (word ++ rest) = (run .between rest).map (.literal value :: ·) := by
  cases word with
  | nil => exact absurd rfl hne
  | cons c word =>
    have hstep : Lexer.between.step c = some (.word [c], []) :=
      start_of_isLiteralChar (hword c (by simp))
    rw [List.cons_append, run_cons_nil _ hstep,
      run_word_append fun d hd => hword d (by simp [hd])]
    exact run_word_stop (by simpa using hvalue) hrest

/-- The escape of a control character without a short one. -/
theorem run_hex {n : Nat} (h : n < 32) (units : List TextUnit) (cs : List Char) :
    run (.text units) ('\\' :: 'u' :: '0' :: '0' :: hexDigit (n / 16) :: hexDigit (n % 16) :: cs) =
      run (.text (.code n :: units)) cs := by
  have hdigit : ∀ m < 16, hexValue? (hexDigit m) = some m := by decide
  have hhigh := hdigit (n / 16) (by omega)
  have hlow := hdigit (n % 16) (by omega)
  have hsum : 16 * (n / 16) + n % 16 = n := Nat.div_add_mod n 16
  have hzeros : run (.text units)
        ('\\' :: 'u' :: '0' :: '0' :: hexDigit (n / 16) :: hexDigit (n % 16) :: cs) =
      run (.hex units 2 0) (hexDigit (n / 16) :: hexDigit (n % 16) :: cs) := by
    rw [run_cons_nil _ rfl, run_cons_nil _ rfl, run_cons_nil _ rfl, run_cons_nil _ rfl]
    rfl
  have hfirst : (Lexer.hex units 2 0).step (hexDigit (n / 16)) =
      some (.hex units 3 (n / 16), []) := by simp [step, hhigh]
  have hsecond : (Lexer.hex units 3 (n / 16)).step (hexDigit (n % 16)) =
      some (.text (.code n :: units), []) := by simp [step, hlow, hsum]
  rw [hzeros, run_cons_nil _ hfirst, run_cons_nil _ hsecond]

/-- A character is written by a short escape, by its code, or as it stands. -/
theorem escapeChar_cases (c : Char) :
    (∃ e, escapeChar c = ['\\', e] ∧ e ≠ 'u' ∧ escaped? e = some c) ∨
    (c.toNat < 32 ∧ escapeChar c =
      ['\\', 'u', '0', '0', hexDigit (c.toNat / 16), hexDigit (c.toNat % 16)]) ∨
    (escapeChar c = [c] ∧ c ≠ '"' ∧ c ≠ '\\' ∧ 32 ≤ c.toNat) := by
  by_cases hshort : c ∈ ['"', '\\', '\n', '\r', '\t', '\x08', '\x0c']
  · left
    simp only [List.mem_cons, List.not_mem_nil, or_false] at hshort
    rcases hshort with rfl | rfl | rfl | rfl | rfl | rfl | rfl
    · exact ⟨'"', rfl, by decide, rfl⟩
    · exact ⟨'\\', rfl, by decide, rfl⟩
    · exact ⟨'n', rfl, by decide, rfl⟩
    · exact ⟨'r', rfl, by decide, rfl⟩
    · exact ⟨'t', rfl, by decide, rfl⟩
    · exact ⟨'b', rfl, by decide, rfl⟩
    · exact ⟨'f', rfl, by decide, rfl⟩
  · right
    simp only [List.mem_cons, List.not_mem_nil, or_false, not_or] at hshort
    obtain ⟨hquote, hslash, hline, hreturn, htab, hback, hfeed⟩ := hshort
    by_cases hlt : c.toNat < 32
    · exact .inl ⟨hlt, by simp [escapeChar, *]⟩
    · exact .inr ⟨by simp [escapeChar, *], hquote, hslash, by omega⟩

/-- A character of a string, however it is escaped, is read as one unit that stands for it. -/
theorem run_escapeChar (c : Char) :
    ∃ unit, (∀ units, joinUnits none (unit :: units) = (joinUnits none units).map (c :: ·)) ∧
      ∀ units cs, run (.text units) (escapeChar c ++ cs) = run (.text (unit :: units)) cs := by
  rcases escapeChar_cases c with ⟨e, he, hu, hescaped⟩ | ⟨hlt, he⟩ | ⟨he, hquote, hslash, hle⟩
  · refine ⟨.char c, fun units => by simp [joinUnits], fun units cs => ?_⟩
    have hstep : (Lexer.escape units).step e = some (.text (.char c :: units), []) := by
      simp [step, hu, hescaped]
    rw [he, List.cons_append, run_cons_nil _ rfl, List.cons_append, run_cons_nil _ hstep]
    rfl
  · refine ⟨.code c.toNat, fun units => ?_, fun units cs => ?_⟩
    · have hhigh : isHighSurrogate c.toNat = false := by
        simp only [isHighSurrogate, Bool.and_eq_false_iff, decide_eq_false_iff_not]
        omega
      have hlow : isLowSurrogate c.toNat = false := by
        simp only [isLowSurrogate, Bool.and_eq_false_iff, decide_eq_false_iff_not]
        omega
      simp [joinUnits, hhigh, hlow, Char.ofNat_toNat]
    · rw [he]
      exact run_hex hlt units cs
  · refine ⟨.char c, fun units => by simp [joinUnits], fun units cs => ?_⟩
    have hstep : (Lexer.text units).step c = some (.text (.char c :: units), []) := by
      simp [step, hquote, hslash, Nat.not_lt.mpr hle]
    rw [he, List.singleton_append, run_cons_nil _ hstep]

theorem run_escaped (cs : List Char) :
    ∃ units, joinUnits none units = some cs ∧ ∀ before rest,
      run (.text before) (cs.flatMap escapeChar ++ rest) =
        run (.text (units.reverse ++ before)) rest := by
  induction cs with
  | nil => exact ⟨[], rfl, fun before rest => rfl⟩
  | cons c cs ih =>
    obtain ⟨units, hjoin, hrun⟩ := ih
    obtain ⟨unit, hunit, hstep⟩ := run_escapeChar c
    refine ⟨unit :: units, by rw [hunit, hjoin]; rfl, fun before rest => ?_⟩
    rw [List.flatMap_cons, List.append_assoc, hstep, hrun]
    simp

theorem run_quote (s : String) (rest : List Char) :
    run .between (quote s rest) = (run .between rest).map (.text (some s) :: ·) := by
  obtain ⟨units, hjoin, hrun⟩ := run_escaped s.toList
  have hend : (Lexer.text units.reverse).step '"' = some (.between, [.text (some s)]) := by
    simp [step, textToken, hjoin]
  rw [quote, run_cons_nil _ rfl, hrun, List.append_nil, run_cons _ hend]
  rfl

theorem isLiteralChar_decimalChars {negative : Bool} {mantissa : Nat} {exponent : Int} {c : Char}
    (h : c ∈ decimalChars negative mantissa exponent) : isLiteralChar c = true := by
  have hdigit : ∀ n, c ∈ Nat.toDigits 10 n → isLiteralChar c = true := fun n hn =>
    isLiteralChar_of_isDigit (isDigit_of_mem_digits hn)
  have hsign : c = '-' → isLiteralChar c = true := by
    rintro rfl
    decide
  simp only [decimalChars, List.mem_append, List.mem_singleton] at h
  rcases h with ((h | h) | rfl) | h
  · split at h <;> simp_all
  · exact hdigit _ h
  · decide
  · split at h
    · rcases List.mem_cons.mp h with h | h
      · exact hsign h
      · exact hdigit _ h
    · exact hdigit _ h

theorem literal?_decimalChars (negative : Bool) (mantissa : Nat) (exponent : Int) :
    literal? (decimalChars negative mantissa exponent) =
      some (.decimal negative mantissa exponent) := by
  rw [← number?_decimalChars]
  obtain ⟨c, rest, hdigits, hc⟩ := exists_head_toDigits mantissa
  cases negative with
  | false =>
    simp only [decimalChars, Bool.false_eq_true, if_false, List.nil_append, hdigits,
      List.cons_append]
    exact literal?_of_digit hc
  | true => simp [decimalChars, literal?]

/-- A value without parts is one token. -/
theorem run_scalar {value : Json} {rest : List Char} (hsound : value.isSound = true)
    (harr : ∀ items, value ≠ .arr items) (hobj : ∀ fields, value ≠ .obj fields)
    (hrest : Stops rest) :
    run .between (scalar value rest) = (run .between rest).map (value.tokens ++ ·) := by
  cases value with
  | arr items => exact absurd rfl (harr items)
  | obj fields => exact absurd rfl (hobj fields)
  | malformed => simp [isSound] at hsound
  | null => exact run_word (by simp) (List.all_eq_true.mp rfl) rfl hrest
  | bool b => cases b <;> exact run_word (by simp) (List.all_eq_true.mp rfl) rfl hrest
  | str s => exact run_quote s rest
  | nat n =>
    obtain ⟨c, digits, hdigits, hc⟩ := exists_head_toDigits n
    have hliteral : literal? (Nat.toDigits 10 n) = some (.nat n) := by
      rw [hdigits, literal?_of_digit hc, ← hdigits, number?_toDigits]
    exact run_word Nat.toDigits_ne_nil
      (fun d hd => isLiteralChar_of_isDigit (isDigit_of_mem_digits hd)) hliteral hrest
  | decimal negative mantissa exponent =>
    exact run_word (by simp [decimalChars]) (fun d => isLiteralChar_decimalChars)
      (literal?_decimalChars negative mantissa exponent) hrest

theorem stops_cons {c : Char} (h : isLiteralChar c = false) (cs : List Char) : Stops (c :: cs) := by
  rintro d ⟨⟩
  exact h

theorem stops_newline (level : Nat) (cs : List Char) : Stops (newline level cs) :=
  stops_cons (by decide) _

mutual

/-- The lexer finds the tokens of a value in front of a text that does not carry it on. -/
theorem run_prettyOnto (level : Nat) (value : Json) (rest : List Char)
    (hsound : value.isSound = true) (hrest : Stops rest) :
    run .between (prettyOnto level value rest) = (run .between rest).map (value.tokens ++ ·) := by
  match value with
  | .arr [] =>
    rw [prettyOnto, run_cons _ rfl, run_cons _ rfl, Option.map_map]
    rfl
  | .arr (item :: items) =>
    have hitems := run_prettyItems (level + 1) (item :: items) (newline level (']' :: rest))
      (by simpa [isSound] using hsound) (stops_newline _ _)
    rw [prettyOnto, run_cons _ rfl, hitems, run_newline, run_cons _ rfl, Option.map_map,
      Option.map_map]
    · simp [tokens, Function.comp_def]
    · simp
  | .obj [] =>
    rw [prettyOnto, run_cons _ rfl, run_cons _ rfl, Option.map_map]
    rfl
  | .obj (field :: fields) =>
    have hfields := run_prettyFields (level + 1) (field :: fields) (newline level ('\x7d' :: rest))
      (by simpa [isSound] using hsound) (stops_newline _ _)
    rw [prettyOnto, run_cons _ rfl, hfields, run_newline, run_cons _ rfl, Option.map_map,
      Option.map_map]
    · simp [tokens, Function.comp_def]
    · simp
  | .null | .bool _ | .nat _ | .decimal _ _ _ | .str _ | .malformed =>
    exact run_scalar hsound (by simp) (by simp) hrest

theorem run_prettyItems (level : Nat) (items : List Json) (rest : List Char)
    (hsound : areSoundItems items = true) (hrest : Stops rest) :
    run .between (prettyItems level items rest) =
      (run .between rest).map (itemTokens items ++ ·) := by
  match items with
  | [] => simp [prettyItems, itemTokens]
  | [item] =>
    have hitem : item.isSound = true := by simpa [areSoundItems] using hsound
    rw [prettyItems, run_newline, run_prettyOnto level item rest hitem hrest]
    rfl
  | item :: next :: items =>
    have hboth : item.isSound = true ∧ areSoundItems (next :: items) = true := by
      simpa [areSoundItems] using hsound
    rw [prettyItems, run_newline, run_prettyOnto level item _ hboth.1 (stops_cons (by decide) _),
      run_cons _ rfl, run_prettyItems level (next :: items) rest hboth.2 hrest, Option.map_map,
      Option.map_map]
    · simp [itemTokens, Function.comp_def]
    · simp

theorem run_prettyFields (level : Nat) (fields : List (String × Json)) (rest : List Char)
    (hsound : areSoundFields fields = true) (hrest : Stops rest) :
    run .between (prettyFields level fields rest) =
      (run .between rest).map (fieldTokens fields ++ ·) := by
  match fields with
  | [] => simp [prettyFields, fieldTokens]
  | [(key, value)] =>
    have hvalue : value.isSound = true := by simpa [areSoundFields] using hsound
    rw [prettyFields, run_newline, run_quote, run_cons _ rfl, run_cons_nil _ rfl,
      run_prettyOnto level value rest hvalue hrest, Option.map_map, Option.map_map]
    rfl
  | (key, value) :: next :: fields =>
    have hboth : value.isSound = true ∧ areSoundFields (next :: fields) = true := by
      simpa [areSoundFields] using hsound
    rw [prettyFields, run_newline, run_quote, run_cons _ rfl, run_cons_nil _ rfl,
      run_prettyOnto level value _ hboth.1 (stops_cons (by decide) _), run_cons _ rfl,
      run_prettyFields level (next :: fields) rest hboth.2 hrest, Option.map_map, Option.map_map,
      Option.map_map, Option.map_map]
    · simp [fieldTokens, Function.comp_def]
    · simp

end

end Lexer

/-! ## From tokens to the value -/

/-- What is read back item by item is read back as a list. -/
theorem mapM_map_eq_some {α β : Type} {write : α → β} {read : β → Option α} {xs : List α}
    (h : ∀ x ∈ xs, read (write x) = some x) : (xs.map write).mapM read = some xs := by
  induction xs with
  | nil => rfl
  | cons x xs ih =>
    rw [List.map_cons, List.mapM_cons, h x (by simp), ih fun y hy => h y (by simp [hy])]
    rfl

def keyed (field : String × Json) : Option String × Json :=
  (some field.1, field.2)

theorem ofFields_keyed (fields : List (String × Json)) :
    ofFields (fields.map keyed) = .obj fields := by
  rw [ofFields, mapM_map_eq_some]
  intro field _
  rfl

namespace Reader

/-- In an array that was just opened the first item is read like any other. -/
theorem run_firstItem (frames : List Frame) (item : Json) (items : List Json) (after : List Token) :
    run (.firstItem frames) (itemTokens (item :: items) ++ after) =
      run (.expectValue (.array [] :: frames)) (itemTokens (item :: items) ++ after) := by
  cases items <;> cases item <;> rfl

theorem run_firstKey (frames : List Frame) (field : String × Json) (fields : List (String × Json))
    (after : List Token) :
    run (.firstKey frames) (fieldTokens (field :: fields) ++ after) =
      run (.expectKey [] frames) (fieldTokens (field :: fields) ++ after) := by
  cases fields <;> rfl

mutual

/-- The tokens of a value complete it, whatever is open around it. -/
theorem run_tokens (value : Json) (frames : List Frame) (after : List Token) :
    run (.expectValue frames) (value.tokens ++ after) = run (.complete value frames) after := by
  match value with
  | .arr [] | .obj [] => rfl
  | .arr (item :: items) =>
    have hitems := run_itemTokens (item :: items) (by simp) [] frames after
    have hopen : run (.expectValue frames) ((Json.arr (item :: items)).tokens ++ after) =
        run (.firstItem frames) (itemTokens (item :: items) ++ .closeArray :: after) := by
      simp [tokens, run, step, begin]
    rw [hopen, run_firstItem, hitems]
    rfl
  | .obj (field :: fields) =>
    have hfields := run_fieldTokens (field :: fields) (by simp) [] frames after
    have hopen : run (.expectValue frames) ((Json.obj (field :: fields)).tokens ++ after) =
        run (.firstKey frames) (fieldTokens (field :: fields) ++ .closeObject :: after) := by
      simp [tokens, run, step, begin]
    rw [hopen, run_firstKey]
    exact hfields
  | .null | .bool _ | .nat _ | .decimal _ _ _ | .str _ | .malformed => rfl

theorem run_itemTokens (items : List Json) (hne : items ≠ []) (before : List Json)
    (frames : List Frame) (after : List Token) :
    run (.expectValue (.array before :: frames)) (itemTokens items ++ .closeArray :: after) =
      run (.complete (.arr (before.reverse ++ items)) frames) after := by
  match items with
  | [] => exact absurd rfl hne
  | [item] =>
    rw [itemTokens, run_tokens item]
    simp [run, step, continue?]
  | item :: next :: items =>
    have hitems := run_itemTokens (next :: items) (by simp) (item :: before) frames after
    rw [itemTokens, List.append_assoc, run_tokens item]
    · simpa [run, step, continue?] using hitems
    · simp

theorem run_fieldTokens (fields : List (String × Json)) (hne : fields ≠ [])
    (before : List (String × Json)) (frames : List Frame) (after : List Token) :
    run (.expectKey (before.map keyed) frames) (fieldTokens fields ++ .closeObject :: after) =
      run (.complete (.obj (before.reverse ++ fields)) frames) after := by
  match fields with
  | [] => exact absurd rfl hne
  | [(key, value)] =>
    have hvalue := run_tokens value (.object (before.map keyed) (some key) :: frames)
    have hobject := ofFields_keyed (before.reverse ++ [(key, value)])
    simp_all [fieldTokens, run, step, continue?, keyed]
  | (key, value) :: next :: fields =>
    have hvalue := run_tokens value (.object (before.map keyed) (some key) :: frames)
    have hfields := run_fieldTokens (next :: fields) (by simp) ((key, value) :: before) frames after
    simp_all [fieldTokens, run, step, continue?, keyed]

end

end Reader

/-- The text that a value is printed as, with a line break behind it, spells that value. -/
theorem parse?_pretty {value : Json} (hsound : value.isSound = true) :
    parse? (value.pretty ++ "\n") = some value := by
  have hlexed := Lexer.run_prettyOnto 0 value [] hsound (by simp [Lexer.Stops])
  have hread := Reader.run_tokens value [] []
  have hchars : (value.pretty ++ "\n").toList = prettyOnto 0 value [] ++ ['\n'] := by
    simp [pretty]
  rw [parse?, hchars, Lexer.run_append_newline, hlexed]
  simpa [Lexer.run, Lexer.finish, ofTokens?, Reader.run, Reader.finish] using hread

end ModSplice.Json
