/-!
Regions that are not code: comments and quoted strings. A region is known by its width, the number
of characters from its first one on; one that is never closed runs to the end of the text.
Templates are not among them, since code may stand inside.
-/
namespace ModSplice.Legacy

/-- The width of the rest of a block comment, its closing mark included. -/
def blockRest : List Char → Nat
  | [] => 0
  | c :: rest =>
    match c, rest with
    | '*', '/' :: _ => 2
    | _, _ => blockRest rest + 1

/-- The width of the rest of a string, its closing quote included. A backslash takes the next
character with it. -/
def stringRest (quote : Char) : List Char → Nat
  | [] => 0
  | c :: rest =>
    if c = quote then 1
    else if c = '\\' then
      match rest with
      | [] => 1
      | _ :: rest => stringRest quote rest + 2
    else stringRest quote rest + 1

def isQuote (c : Char) : Bool :=
  c == '"' || c == '\''

/-- The width of the comment or string that begins the text, if one does. A line comment ends in
front of the line break. -/
def regionWidth? : List Char → Option Nat
  | '/' :: '/' :: rest => some ((rest.takeWhile (· != '\n')).length + 2)
  | '/' :: '*' :: rest => some (blockRest rest + 2)
  | c :: rest => if isQuote c then some (stringRest c rest + 1) else none
  | [] => none

end ModSplice.Legacy
