/-
The command line: which files a request reads, and what is written for it. A
program is run and its value shown, listed, or checked together with others.
-/
import Ecma.Code.Listing
import Ecma.Engine.Configuration
import Ecma.Engine.Library

namespace Ecma.CommandLine

/-! ## Requests -/

inductive Command where
  | run (file : String)
  | disasm (file : String)
  /-- Compiles programs and tells which of them fail. -/
  | check (files : List String)
  deriving DecidableEq, Repr

/-- A command and the file with the choices for it. -/
structure Request where
  config : Option String
  command : Command
  deriving DecidableEq, Repr

structure Arguments where
  config : Option String := none
  words : List String := []

/-- The path in an argument that also names the file with the choices. -/
def attachedConfig? (argument : String) : Option String :=
  match argument.dropPrefix? "--config=" with
  | some path => some path.toString
  | none =>
    match argument.dropPrefix? "-c=" with
    | some path => some path.toString
    | none => (argument.dropPrefix? "-c").map (·.toString)

/-- Reads arguments: switches may stand anywhere before two dashes. -/
def Arguments.read? (read : Arguments) : List String → Option Arguments
  | [] => some read
  | "--" :: rest => some { read with words := read.words ++ rest }
  | ["-c"] | ["--config"] => none
  | "-c" :: path :: rest | "--config" :: path :: rest =>
    { read with config := some path }.read? rest
  | "-v" :: rest | "--verbose" :: rest => read.read? rest
  | argument :: rest =>
    if argument.startsWith "-" && argument ≠ "-" then
      match attachedConfig? argument with
      | some path => { read with config := some path }.read? rest
      | none => none
    else { read with words := read.words ++ [argument] }.read? rest

def Request.ofArguments? (arguments : List String) : Option Request := do
  let read ← Arguments.read? {} arguments
  match read.words with
  | ["run", file] => some ⟨read.config, .run file⟩
  | ["disasm", file] => some ⟨read.config, .disasm file⟩
  | "check" :: file :: files => some ⟨read.config, .check (file :: files)⟩
  | _ => none

/-- The file with choices that is read without being asked for, if there is one. -/
def standardConfig : String := "brisk.toml"

def Command.files : Command → List String
  | run file | disasm file => [file]
  | check files => files

def Request.files (request : Request) : List String :=
  request.config.getD standardConfig :: request.command.files

/-! ## Answers -/

/-- What a request comes to. -/
structure Outcome where
  code : Nat := 0
  stdout : String := ""
  stderr : String := ""
  deriving DecidableEq, Repr

def white (text : String) : String := "\x1b[97m" ++ text ++ "\x1b[39m"

def bold (colour text : String) : String :=
  "\x1b[1m\x1b[" ++ colour ++ "m" ++ text ++ "\x1b[39m\x1b[0m"

def red (text : String) : String := bold "31" text

def green (text : String) : String := bold "32" text

def dimmed (text : String) : String := "\x1b[2m" ++ text ++ "\x1b[0m"

def linesText (lines : List String) : String :=
  lines.foldl (fun text line => text ++ line ++ "\n") ""

/-- A request that failed before it had anything to write. -/
def failed (message : String) : Outcome :=
  { code := 1, stderr := linesText [red "Error" ++ ": " ++ message] }

def failedAt (point : String) (failure : Failure) : Outcome :=
  failed (point ++ ": " ++ failure.fullMessage)

/-- The answer to arguments that are no request. -/
def usage : Outcome :=
  { code := 2, stderr := linesText
      ["Usage: brisk [-c FILE] [-v] run FILE | disasm FILE | check FILES"] }

def Request.options (request : Request) (files : Files) : Except Outcome Options :=
  match request.config with
  | some path => (Options.load files path).mapError (failedAt s!"failed to load config '{path}'")
  | none =>
    (Options.loadOrStandard files standardConfig).mapError
      (failedAt s!"failed to load '{standardConfig}'")

def runFile (fuel : Nat) (options : Options) (files : Files) (file : String) : Outcome :=
  let execution := Execution.completeFile fuel (files.script options.compile file)
  let (result, machine) := execution.onMachine (.new options.limits)
  let printed := linesText machine.output.toList
  match result with
  | some (.ok .undefined) => { stdout := printed }
  | some (.ok value) =>
    let (text, _) := Execution.displayOn fuel value machine
    { stdout := printed ++ linesText [white text] }
  | some (.error (.uncaught value suppressed)) =>
    let notes := suppressed.map fun text => "  " ++ dimmed "suppressed:" ++ " " ++ text
    { code := 1, stdout := printed
      stderr := linesText ((red "Uncaught" ++ ": " ++ value) :: notes) }
  | some (.error failure) =>
    { failedAt s!"failed to run '{file}'" failure with stdout := printed }
  | none => { failed s!"failed to run '{file}': out of fuel" with stdout := printed }

def listFile (options : Options) (files : Files) (file : String) : Outcome :=
  match files.program file with
  | .error failure => failedAt s!"failed to read '{file}'" failure
  | .ok program =>
    match Compile.compile options.compile program with
    | .error refusal => failed refusal.message
    | .ok script => { stdout := script.template.listing }

def errorLine (file message : String) : String := red "error" ++ " " ++ file ++ ": " ++ message

def unreadLine? (files : Files) (file : String) : Option String :=
  match files.program file with
  | .error failure => some (errorLine file failure.message)
  | .ok _ => none

/-- The line for a program, and whether it compiles. -/
def checkLine? (options : Options) (files : Files) (file : String) : Option (Bool × String) :=
  match files.program file with
  | .error _ => none
  | .ok program =>
    match Compile.compile options.compile program with
    | .ok script =>
      some (true, green "ok" ++ s!" {file} ({script.template.size} instructions)")
    | .error refusal => some (false, errorLine file refusal.message)

/-- Compiles programs and tells which of them fail; files without a program come
first. -/
def checkFiles (options : Options) (files : Files) (paths : List String) : Outcome :=
  let unread := paths.filterMap (unreadLine? files)
  let checked := paths.filterMap (checkLine? options files)
  let failures := unread.length + (checked.filter (!·.1)).length
  let lines := unread ++ checked.map (·.2)
  if failures = 0 then { stdout := linesText lines }
  else
    { code := 1
      stdout := linesText (lines ++ [s!"{failures} of {paths.length} files failed"]) }

def Request.answer (fuel : Nat) (request : Request) (files : Files) : Outcome :=
  match request.options files with
  | .error outcome => outcome
  | .ok options =>
    match request.command with
    | .run file => runFile fuel options files file
    | .disasm file => listFile options files file
    | .check paths => checkFiles options files paths

def answer (fuel : Nat) (arguments : List String) (files : Files) : Outcome :=
  match Request.ofArguments? arguments with
  | some request => request.answer fuel files
  | none => usage

end Ecma.CommandLine
