import ModSplice.Json.Basic

/-!
Tokens of JSON text. The lexer reads one character at a time. Words (literals and numbers) are
gathered as a whole and read afterwards; strings are gathered as units, because the escapes of a
surrogate pair make one character out of two units.
-/
namespace ModSplice.Json

inductive Token where
  | openArray
  | closeArray
  | openObject
  | closeObject
  | comma
  | colon
  /-- A string; `none` when a surrogate in it has no partner. -/
  | text (value : Option String)
  /-- A literal or a number. -/
  | literal (value : Json)
  deriving Repr, Inhabited

/-- A piece of a string: a character as it stands, or the code unit of a `\u` escape. -/
inductive TextUnit where
  | char (c : Char)
  | code (n : Nat)
  deriving DecidableEq, Repr

def isHighSurrogate (n : Nat) : Bool := 0xd800 ≤ n && n < 0xdc00

def isLowSurrogate (n : Nat) : Bool := 0xdc00 ≤ n && n < 0xe000

def ofSurrogates (high low : Nat) : Char :=
  Char.ofNat (0x10000 + (high - 0xd800) * 0x400 + (low - 0xdc00))

/-- The characters of a string, where `waiting` is a high surrogate whose partner must come next;
fails on a surrogate without its partner. -/
def joinUnits (waiting : Option Nat) : List TextUnit → Option (List Char)
  | [] => if waiting.isNone then some [] else none
  | .char c :: rest => if waiting.isNone then (joinUnits none rest).map (c :: ·) else none
  | .code n :: rest =>
    match waiting with
    | some high =>
      if isLowSurrogate n then (joinUnits none rest).map (ofSurrogates high n :: ·) else none
    | none =>
      if isHighSurrogate n then joinUnits (some n) rest
      else if isLowSurrogate n then none
      else (joinUnits none rest).map (Char.ofNat n :: ·)

def ofDigits (digits : List Char) : Nat :=
  digits.foldl (fun n c => 10 * n + (c.toNat - 48)) 0

/-- Digits of a whole part: no zero in front of others. -/
def isWhole (digits : List Char) : Bool :=
  match digits with
  | [] => false
  | ['0'] => true
  | c :: _ => c != '0'

/-- The part after an exponent mark: an optional sign and digits. -/
def exponent? (cs : List Char) : Option Int :=
  let (negative, digits) :=
    match cs with
    | '-' :: rest => (true, rest)
    | '+' :: rest => (false, rest)
    | rest => (false, rest)
  if digits.isEmpty || !digits.all Char.isDigit then none
  else some (if negative then -(ofDigits digits : Int) else ofDigits digits)

/-- A number: a whole part, then perhaps a fraction, then perhaps an exponent. -/
def number? (cs : List Char) : Option Json := do
  let (negative, unsigned) :=
    match cs with
    | '-' :: rest => (true, rest)
    | rest => (false, rest)
  let whole := unsigned.takeWhile Char.isDigit
  let rest := unsigned.dropWhile Char.isDigit
  if !isWhole whole then none
  else if rest.isEmpty && !negative then some (.nat (ofDigits whole))
  else
    let (fraction, rest) ←
      match rest with
      | '.' :: rest =>
        let fraction := rest.takeWhile Char.isDigit
        if fraction.isEmpty then none else some (fraction, rest.dropWhile Char.isDigit)
      | rest => some ([], rest)
    let exponent ←
      match rest with
      | [] => some 0
      | mark :: rest => if mark == 'e' || mark == 'E' then exponent? rest else none
    some (.decimal negative (ofDigits (whole ++ fraction)) (exponent - fraction.length))

def literal? (word : List Char) : Option Json :=
  if word = ['n', 'u', 'l', 'l'] then some .null
  else if word = ['t', 'r', 'u', 'e'] then some (.bool true)
  else if word = ['f', 'a', 'l', 's', 'e'] then some (.bool false)
  else number? word

def isLiteralChar (c : Char) : Bool :=
  c.isAlphanum || c == '+' || c == '-' || c == '.'

def isJsonBlank (c : Char) : Bool :=
  c == ' ' || c == '\t' || c == '\n' || c == '\r'

def hexValue? (c : Char) : Option Nat :=
  let n := c.toNat
  if 48 ≤ n && n ≤ 57 then some (n - 48)
  else if 97 ≤ n && n ≤ 102 then some (n - 87)
  else if 65 ≤ n && n ≤ 70 then some (n - 55)
  else none

def escaped? (c : Char) : Option Char :=
  match c with
  | '"' => some '"'
  | '\\' => some '\\'
  | '/' => some '/'
  | 'b' => some '\x08'
  | 'f' => some '\x0c'
  | 'n' => some '\n'
  | 'r' => some '\r'
  | 't' => some '\t'
  | _ => none

/-- Where the lexer stands. What was gathered so far is kept newest first. -/
inductive Lexer where
  | between
  | word (chars : List Char)
  | text (units : List TextUnit)
  | escape (units : List TextUnit)
  | hex (units : List TextUnit) (digits value : Nat)
  deriving DecidableEq, Repr

namespace Lexer

def start (c : Char) : Option (Lexer × List Token) :=
  if isJsonBlank c then some (.between, [])
  else if c == '[' then some (.between, [.openArray])
  else if c == ']' then some (.between, [.closeArray])
  else if c == '\x7b' then some (.between, [.openObject])
  else if c == '\x7d' then some (.between, [.closeObject])
  else if c == ',' then some (.between, [.comma])
  else if c == ':' then some (.between, [.colon])
  else if c == '"' then some (.text [], [])
  else if isLiteralChar c then some (.word [c], [])
  else none

def textToken (units : List TextUnit) : Token :=
  .text ((joinUnits none units.reverse).map String.ofList)

/-- Reads one character; a word ends in front of the first character that is not part of it. -/
def step : Lexer → Char → Option (Lexer × List Token)
  | .between, c => start c
  | .word chars, c =>
    if isLiteralChar c then some (.word (c :: chars), [])
    else do
      let value ← literal? chars.reverse
      let (next, tokens) ← start c
      some (next, .literal value :: tokens)
  | .text units, c =>
    if c == '"' then some (.between, [textToken units])
    else if c == '\\' then some (.escape units, [])
    else if c.toNat < 32 then none
    else some (.text (.char c :: units), [])
  | .escape units, c =>
    if c == 'u' then some (.hex units 0 0, [])
    else (escaped? c).map fun e => (.text (.char e :: units), [])
  | .hex units digits value, c =>
    (hexValue? c).map fun d =>
      if digits = 3 then (.text (.code (16 * value + d) :: units), [])
      else (.hex units (digits + 1) (16 * value + d), [])

def finish : Lexer → Option (List Token)
  | .between => some []
  | .word chars => (literal? chars.reverse).map fun value => [.literal value]
  | _ => none

def run : Lexer → List Char → Option (List Token)
  | lexer, [] => lexer.finish
  | lexer, c :: cs => do
    let (next, tokens) ← lexer.step c
    let rest ← run next cs
    some (tokens ++ rest)

end Lexer
end ModSplice.Json
