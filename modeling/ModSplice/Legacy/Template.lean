/-!
Templates that are open at a point of the text, innermost first. Each is known by the number of
braces that are open in the code inside it; none are open in the template's own text.
-/
namespace ModSplice.Legacy

abbrev Templates := List Nat

/-- The templates open after the first character of the text, and how many characters belong to
the template itself; `none` when the character is code. -/
def Templates.step : Templates → List Char → Templates × Option Nat
  | templates, [] => (templates, none)
  | [], c :: _ => if c = '\x60' then ([0], some 1) else ([], none)
  | 0 :: outer, c :: rest =>
    if c = '\\' && !rest.isEmpty then (0 :: outer, some 2)
    else if c = '$' && rest.head? = some '\x7b' then (1 :: outer, some 2)
    else if c = '\x60' then (outer, some 1)
    else (0 :: outer, some 1)
  | (depth + 1) :: outer, c :: _ =>
    if c = '\x60' then (0 :: (depth + 1) :: outer, some 1)
    else if c = '\x7b' then ((depth + 2) :: outer, none)
    else if c = '\x7d' then (depth :: outer, if depth = 0 then some 1 else none)
    else ((depth + 1) :: outer, none)

end ModSplice.Legacy
