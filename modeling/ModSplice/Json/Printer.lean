import ModSplice.Json.Basic

/-!
JSON as text, on one line or indented. Strings escape the quote, the backslash and the control
characters below the space, nothing else. Each writer is given the text that follows, so nothing is
copied on the way out of a nested value.
-/
namespace ModSplice.Json

def hexDigit (n : Nat) : Char :=
  if n < 10 then Char.ofNat (48 + n) else Char.ofNat (87 + n)

def escapeChar (c : Char) : List Char :=
  if c = '"' then ['\\', '"']
  else if c = '\\' then ['\\', '\\']
  else if c = '\n' then ['\\', 'n']
  else if c = '\r' then ['\\', 'r']
  else if c = '\t' then ['\\', 't']
  else if c = '\x08' then ['\\', 'b']
  else if c = '\x0c' then ['\\', 'f']
  else if c.toNat < 32 then
    ['\\', 'u', '0', '0', hexDigit (c.toNat / 16), hexDigit (c.toNat % 16)]
  else [c]

/-- A string in quotes, in front of the text that follows. -/
def quote (s : String) (rest : List Char) : List Char :=
  '"' :: (s.toList.flatMap escapeChar ++ '"' :: rest)

/-- A decimal, spelt with an exponent. -/
def decimalChars (negative : Bool) (mantissa : Nat) (exponent : Int) : List Char :=
  (if negative then ['-'] else []) ++ Nat.toDigits 10 mantissa ++ ['e'] ++
    (if exponent < 0 then '-' :: Nat.toDigits 10 (-exponent).toNat
     else Nat.toDigits 10 exponent.toNat)

/-- The text of a value that is neither an array nor an object, in front of the text that
follows. -/
def scalar (value : Json) (rest : List Char) : List Char :=
  match value with
  | .bool true => ['t', 'r', 'u', 'e'] ++ rest
  | .bool false => ['f', 'a', 'l', 's', 'e'] ++ rest
  | .nat n => Nat.toDigits 10 n ++ rest
  | .decimal negative mantissa exponent => decimalChars negative mantissa exponent ++ rest
  | .str s => quote s rest
  | _ => ['n', 'u', 'l', 'l'] ++ rest

mutual

/-- The value on one line, without blanks, in front of the text that follows. -/
def compactOnto (value : Json) (rest : List Char) : List Char :=
  match value with
  | .arr items => '[' :: compactItems items (']' :: rest)
  | .obj fields => '\x7b' :: compactFields fields ('\x7d' :: rest)
  | value => scalar value rest

def compactItems (items : List Json) (rest : List Char) : List Char :=
  match items with
  | [] => rest
  | [item] => compactOnto item rest
  | item :: items => compactOnto item (',' :: compactItems items rest)

def compactFields (fields : List (String × Json)) (rest : List Char) : List Char :=
  match fields with
  | [] => rest
  | [(key, value)] => quote key (':' :: compactOnto value rest)
  | (key, value) :: fields =>
    quote key (':' :: compactOnto value (',' :: compactFields fields rest))

end

def newline (level : Nat) (rest : List Char) : List Char :=
  '\n' :: (List.replicate (2 * level) ' ' ++ rest)

mutual

/-- The value over several lines, two blanks a level, in front of the text that follows; empty
arrays and objects stay closed. -/
def prettyOnto (level : Nat) (value : Json) (rest : List Char) : List Char :=
  match value with
  | .arr [] => '[' :: ']' :: rest
  | .arr items => '[' :: prettyItems (level + 1) items (newline level (']' :: rest))
  | .obj [] => '\x7b' :: '\x7d' :: rest
  | .obj fields => '\x7b' :: prettyFields (level + 1) fields (newline level ('\x7d' :: rest))
  | value => scalar value rest

def prettyItems (level : Nat) (items : List Json) (rest : List Char) : List Char :=
  match items with
  | [] => rest
  | [item] => newline level (prettyOnto level item rest)
  | item :: items =>
    newline level (prettyOnto level item (',' :: prettyItems level items rest))

def prettyFields (level : Nat) (fields : List (String × Json)) (rest : List Char) : List Char :=
  match fields with
  | [] => rest
  | [(key, value)] => newline level (quote key (':' :: ' ' :: prettyOnto level value rest))
  | (key, value) :: fields =>
    newline level (quote key (':' :: ' ' ::
      prettyOnto level value (',' :: prettyFields level fields rest)))

end

def compact (value : Json) : String := String.ofList (compactOnto value [])

def pretty (value : Json) : String := String.ofList (prettyOnto 0 value [])

end ModSplice.Json
