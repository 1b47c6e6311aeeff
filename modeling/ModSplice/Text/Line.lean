/-! Lines of a text. A line feed ends a line, and a carriage return right before it is not part of
the line. -/
namespace ModSplice.Text

def withoutReturn (line : List Char) : List Char :=
  if line.getLast? = some '\r' then line.dropLast else line

/-- The lines of a text that is printed with a line feed behind it. -/
def lines (text : String) : List String :=
  (text.splitOn "\n").map fun line => String.ofList (withoutReturn line.toList)

end ModSplice.Text
