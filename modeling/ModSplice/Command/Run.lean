import ModSplice.Command.Arguments
import ModSplice.Command.Files
import ModSplice.Json.Printer
import ModSplice.Json.Reader
import ModSplice.Program
import ModSplice.Splice.State
import ModSplice.Text.Line
import ModSplice.Tree.Encoding

/-!
What a command line does to the files of a directory, and what it prints. The parser's report on the
input file is given, since the parser is not part of this; neither are the texts that explain how
the program is used, nor those that explain what is wrong with a configuration or a tree.
-/
namespace ModSplice.Command

inductive Failure where
  | configUnreadable (path : String) (fault : AccessFault)
  | configInvalid (path : String)
  | inputUnreadable (path : String) (fault : AccessFault)
  | treeUnreadable (path : String) (fault : AccessFault)
  | treeInvalid (path : String)
  | parse (filename : String) (failure : ParseFailure)
  | splice (filename : String) (fault : Fault)
  | outputUnwritable (path : String) (fault : AccessFault)
  deriving DecidableEq, Repr

namespace Failure

/-- What was being done. -/
def context : Failure → String
  | .configUnreadable path _ => "failed to read config " ++ path
  | .configInvalid path => "invalid config " ++ path
  | .inputUnreadable path _ => "failed to read " ++ path
  | .treeUnreadable path _ => "failed to read tree " ++ path
  | .treeInvalid path => "invalid tree " ++ path
  | .parse filename failure => failure.context filename
  | .splice filename _ => "cannot rewrite " ++ filename
  | .outputUnwritable path _ => "failed to write " ++ path

def cause? : Failure → Option String
  | .configUnreadable _ fault => some fault.message
  | .inputUnreadable _ fault => some fault.message
  | .treeUnreadable _ fault => some fault.message
  | .outputUnwritable _ fault => some fault.message
  | .parse _ failure => failure.cause?
  | .splice _ fault => some fault.message
  | .configInvalid _ => none
  | .treeInvalid _ => none

/-- Whether a file was read but makes no sense. Of its report only the first line is told here; the
reader of the format explains itself below it. -/
def isInvalid : Failure → Bool
  | .configInvalid _ => true
  | .treeInvalid _ => true
  | _ => false

def report (f : Failure) : List String :=
  let head := Text.lines ("Error: " ++ f.context)
  if f.isInvalid then head.take 1
  else
    match f.cause? with
    | some cause => head ++ ["", "Caused by:"] ++ (Text.lines cause).map ("    " ++ ·)
    | none => head

end Failure

/-- How the files that a request names can be read. -/
abbrev Reading := String → Except AccessFault String

def loadConfig (read : Reading) : Option String → Except Failure Config
  | none => .ok {}
  | some path =>
    match read path with
    | .error fault => .error (.configUnreadable path fault)
    | .ok text =>
      match (Json.parse? text).bind Config.ofJson? with
      | some config => .ok config
      | none => .error (.configInvalid path)

def loadTree (read : Reading) (path : String) : Except Failure Node :=
  match read path with
  | .error fault => .error (.treeUnreadable path fault)
  | .ok text =>
    match (Json.parseSound? text).bind Node.ofJson? with
    | some tree => .ok tree
    | none => .error (.treeInvalid path)

def readInput (read : Reading) (path : String) : Except Failure String :=
  (read path).mapError (.inputUnreadable path)

def parseInput (forms : Forms) (filename source : String) (report : Parsed.Report) :
    Except Failure Program :=
  (Program.ofReport forms source report).mapError (.parse filename)

def spliceInput (options : Options) (filename source : String) (tree : Node) :
    Except Failure String :=
  (Splicer.splice { options } source tree).mapError (.splice filename)

inductive Product where
  | printed (text : String)
  | noted (lines : List String)
  /-- A text that is to be written to a file. -/
  | saved (path text : String)
  deriving DecidableEq, Repr

/-- Carries out a request, up to writing files. -/
def perform (read : Reading) (report : Parsed.Report) (request : Request) :
    Except Failure Product := do
  let config ← loadConfig read request.config?
  let filename := request.input
  let source ← readInput read filename
  match request.action with
  | .transform output? tree? exportsObject? loader? =>
    let options : Options := {
      exportsObject := exportsObject?.getD config.options.exportsObject
      loader := loader?.getD config.options.loader }
    let tree ←
      match tree? with
      | some path => loadTree read path
      | none => (parseInput config.forms filename source report).map Program.tree
    let output ← spliceInput options filename source tree
    match output? with
    | some path => .ok (.saved path output)
    | none => .ok (.printed output)
  | .check =>
    let program ← parseInput config.forms filename source report
    let _ ← spliceInput config.options filename source program.tree
    .ok (.noted (Text.lines ("OK: " ++ filename)))
  | .parse =>
    let program ← parseInput config.forms filename source report
    .ok (.printed (program.tree.toJson.pretty ++ "\n"))

structure Outcome where
  code : Nat
  stdout : String := ""
  stderr : List String := []
  files : Files
  deriving DecidableEq, Repr

namespace Outcome

/-- The outcome of a failure, which leaves the files as they are. -/
def ofFailure (files : Files) (failure : Failure) : Outcome :=
  { code := 1, stderr := failure.report, files }

def ofProduct (files : Files) : Product → Outcome
  | .printed text => { code := 0, stdout := text, files }
  | .noted lines => { code := 0, stderr := lines, files }
  | .saved path text =>
    match files.write path text with
    | .ok files => { code := 0, files }
    | .error fault => ofFailure files (.outputUnwritable path fault)

end Outcome

/-- What is said to a command line that makes no request: how the program is used, as an error or
because it was asked for. -/
structure Notice where
  code : Nat
  stdout : String := ""
  stderr : List String := []
  deriving DecidableEq, Repr

/-- Carries out a command line. What is said to one that makes no request is up to `usage`. -/
def run (usage : List String → Notice) (files : Files) (report : Parsed.Report)
    (words : List String) : Outcome :=
  match Request.ofWords? none false words with
  | none =>
    let notice := usage words
    { code := notice.code, stdout := notice.stdout, stderr := notice.stderr, files }
  | some request =>
    match perform files.read report request with
    | .ok product => .ofProduct files product
    | .error failure => .ofFailure files failure

end ModSplice.Command
