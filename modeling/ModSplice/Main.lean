import ModSplice.Command.Run
import ModSplice.Parsed.Decoding

/-!
The command line program. It reads the files that a request names, and from standard input the
parser's report on the input file, unless the request brings a tree of its own.
-/
namespace ModSplice.Command

def treeFile? (request : Request) : Option String :=
  match request.action with
  | .transform _ tree? _ _ => tree?
  | _ => none

/-- The fault with a number of the operating system, which may come negated. -/
def faultOfNumber (code : UInt32) (details : String) : AccessFault :=
  let number := min code.toNat (0 - code).toNat
  match number with
  | 2 => .missing
  | 13 => .denied
  | 20 => .notDirectory
  | 21 => .isDirectory
  | 36 => .nameTooLong
  | number => .other details number

def faultOf : IO.Error → AccessFault
  | .noFileOrDirectory _ code details => faultOfNumber code details
  | .inappropriateType _ code details => faultOfNumber code details
  | .invalidArgument _ code details => faultOfNumber code details
  | .permissionDenied _ code details => faultOfNumber code details
  | error => .other (toString error) 0

def readNamed (names : List String) : IO (List (String × Except AccessFault String)) :=
  names.mapM fun (name : String) => do
    try
      match String.fromUTF8? (← IO.FS.readBinFile name) with
      | some text => pure (name, .ok text)
      | none => pure (name, .error .notText)
    catch error => pure (name, .error (faultOf error))

def readReport (request : Request) : IO Parsed.Report := do
  if (treeFile? request).isSome then pure .fatal
  else
    let text ← (← IO.getStdin).readToEnd
    pure (((Json.parse? text).bind Parsed.Report.ofJson?).getD .fatal)

def complain (lines : List String) : IO Unit :=
  for line in lines do
    IO.eprintln line

def fail (failure : Failure) : IO UInt32 := do
  complain failure.report
  pure 1

def deliver : Product → IO UInt32
  | .printed text => do
    IO.print text
    pure 0
  | .noted lines => do
    complain lines
    pure 0
  | .saved (path : String) text => do
    try
      IO.FS.writeFile path text
      pure 0
    catch error => fail (.outputUnwritable path (faultOf error))

def carryOut (request : Request) : IO UInt32 := do
  let found ← readNamed ([some request.input, request.config?, treeFile? request].filterMap id)
  let read : Reading := fun path => (found.lookup path).getD (.error .missing)
  match perform read (← readReport request) request with
  | .ok product => deliver product
  | .error failure => fail failure

def usage (_ : List String) : Notice :=
  { code := 2, stderr := ["usage: transform FILE, check FILE or parse FILE, with --name=value"] }

def tell (notice : Notice) : IO UInt32 := do
  IO.print notice.stdout
  complain notice.stderr
  pure notice.code.toUInt32

end ModSplice.Command

open ModSplice.Command in
def main (words : List String) : IO UInt32 :=
  match Request.ofWords? none false words with
  | none => tell (usage words)
  | some request => carryOut request
