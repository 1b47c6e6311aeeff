import ModSplice.Legacy.Region
import ModSplice.Options
import ModSplice.Text.Blank
import ModSplice.Text.Utf8
import ModSplice.Text.Word
import ModSplice.Tree.Node

/-!
Declarations in the two older forms, `module name from "m"` and `export default;`, as they stand at
the beginning of a text. A declaration keeps its own text, in pieces, so that spans can be told
without a second look at the source.
-/
namespace ModSplice

inductive Legacy where
  /-- `lead` is the text up to the quoted path and `tail` a semicolon on the same line, with the
  blanks in front of it, if there is one. -/
  | moduleFrom (lead name path tail : List Char)
  | bareDefault (text : List Char)
  deriving DecidableEq, Repr

namespace Legacy

open ModSplice.Text

def text : Legacy → List Char
  | .moduleFrom lead _ path tail => lead ++ path ++ tail
  | .bareDefault text => text

/-- The declaration as a node, where `offset` bytes come before it. -/
def toNode (offset : Nat) : Legacy → Node
  | .moduleFrom lead name path tail =>
    let start := offset + byteSize lead
    .moduleDecl {
      span := ⟨offset, offset + byteSize (lead ++ path ++ tail)⟩
      name := String.ofList name
      source := ⟨⟨start, start + byteSize path⟩, String.ofList path⟩ }
  | .bareDefault text => .exportNothing ⟨offset, offset + byteSize text⟩ "default"

def before (cs rest : List Char) : List Char :=
  cs.take (cs.length - rest.length)

def afterWord (cs : List Char) : List Char :=
  cs.dropWhile isWordChar

def afterBlanks (cs : List Char) : List Char :=
  cs.dropWhile isBlank

/-- The text behind the blanks at its beginning, of which there must be one. -/
def afterSomeBlanks? (cs : List Char) : Option (List Char) :=
  match cs with
  | c :: rest => if isBlank c then some (afterBlanks rest) else none
  | [] => none

/-- The quoted path at the beginning of the text. It has to end in its quote; whether that one is
escaped is not asked. -/
def path? (cs : List Char) : Option (List Char) :=
  match cs with
  | quote :: rest =>
    let path := cs.take (stringRest quote rest + 1)
    if isQuote quote && 2 ≤ path.length && path.getLast? == some quote then some path else none
  | [] => none

/-- A semicolon after spaces and tabs, these included. -/
def semicolonTail (cs : List Char) : List Char :=
  let blanks := cs.takeWhile fun c => c == ' ' || c == '\t'
  match cs.drop blanks.length with
  | ';' :: _ => blanks ++ [';']
  | _ => []

/-- `module name from "m"` behind its first word. -/
def moduleFrom? (cs : List Char) : Option Legacy := do
  let atName ← afterSomeBlanks? (afterWord cs)
  if !(atName.head?.any isWordStart) then none
  else
    let atFrom ← afterSomeBlanks? (afterWord atName)
    if atFrom.takeWhile isWordChar ≠ ['f', 'r', 'o', 'm'] then none
    else
      let atPath := afterBlanks (afterWord atFrom)
      let path ← path? atPath
      some (.moduleFrom (before cs atPath) (atName.takeWhile isWordChar) path
        (semicolonTail (atPath.drop path.length)))

/-- `export default;` behind its first word. -/
def bareDefault? (cs : List Char) : Option Legacy := do
  let atDefault ← afterSomeBlanks? (afterWord cs)
  if atDefault.takeWhile isWordChar ≠ ['d', 'e', 'f', 'a', 'u', 'l', 't'] then none
  else
    match afterBlanks (afterWord atDefault) with
    | ';' :: rest => some (.bareDefault (before cs rest))
    | _ => none

/-- The declaration that begins the text, in a form that is looked for. -/
def ofChars? (forms : Forms) (cs : List Char) : Option Legacy :=
  let word := cs.takeWhile isWordChar
  if word = ['m', 'o', 'd', 'u', 'l', 'e'] && forms.moduleFrom then moduleFrom? cs
  else if word = ['e', 'x', 'p', 'o', 'r', 't'] && forms.bareDefault then bareDefault? cs
  else none

end Legacy
end ModSplice
