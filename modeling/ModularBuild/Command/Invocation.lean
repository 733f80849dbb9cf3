import ModularBuild.Command.Archiving
import ModularBuild.Command.Arguments
import ModularBuild.Command.Coverage
import ModularBuild.Command.Listings

/-! What a command line asks for. Shared options may stand before and after the name of the
command; where both have one, the later place counts. -/

namespace ModularBuild

inductive Action
  | modules (format : ListingFormat)
  | coverage (request : CoverageRequest)
  | archive (request : ArchiveRequest)
  | notice (file : Option Path)
  | flags (format : ListingFormat)
  deriving DecidableEq, Repr

/-- A command line that is understood: a command to run, or something to be told. -/
inductive Invocation
  | run (settings : Settings) (action : Action)
  | version (program : String)
  | help
  deriving DecidableEq, Repr

/-- The names of the commands. -/
inductive CommandName
  | modules
  | coverage
  | archive
  | notice
  | flags
  deriving DecidableEq, Repr

namespace CommandName

def text : CommandName → String
  | modules => "modules"
  | coverage => "coverage"
  | archive => "archive"
  | notice => "notice"
  | flags => "flags"

def named : List (String × CommandName) :=
  [modules, coverage, archive, notice, flags].map fun c => (c.text, c)

def value (long : String) : OptionSpec := ⟨long, none, .value⟩
def switch (long : String) : OptionSpec := ⟨long, none, .nothing⟩
def output : OptionSpec := ⟨"output", some 'o', .value⟩

/-- The options of a command besides the shared ones. -/
def options : CommandName → List OptionSpec
  | modules | flags => [value "format"]
  | coverage => [output, value "jacoco-cli", value "java", switch "dry-run", value "format"]
  | archive => [output, switch "gzip", switch "sign", value "module"]
  | notice => []

/-- How many operands a command takes at most. -/
def maxOperands : CommandName → Nat
  | archive | notice => 1
  | modules | coverage | flags => 0

end CommandName

namespace Invocation

def program : String := "forjador"

def sharedOptions : List OptionSpec :=
  [⟨"verbose", some 'v', .nothing⟩, ⟨"quiet", some 'q', .nothing⟩, ⟨"color", none, .value⟩,
   ⟨"property", some 'P', .value⟩, ⟨"project", none, .value⟩, ⟨"help", some 'h', .halt⟩,
   ⟨"version", some 'V', .halt⟩]

/-- Options that may be given more than once. -/
def repeatable : List String := ["verbose", "property"]

/-- Options whose value is a path, which is never empty. -/
def pathOptions : List String := ["project", "output", "jacoco-cli", "java"]

def colors : List (String × ColorChoice) :=
  [("auto", .auto), ("always", .always), ("never", .never)]

def listingFormats : List (String × ListingFormat) :=
  [("text", .text), ("json", .json), ("yaml", .yaml)]

def reportFormats : List (String × ReportFormat) := [("html", .html), ("xml", .xml)]

/-- Whether an option takes the value. The values of `format` depend on the command. -/
def takes (command : Option CommandName) (use : OptionUse) : Bool :=
  if pathOptions.contains use.long then use.value ≠ ""
  else if use.long = "color" then (colors.lookup use.value).isSome
  else if use.long = "format" then
    if command = some .coverage then (reportFormats.lookup use.value).isSome
    else (listingFormats.lookup use.value).isSome
  else true

/-- The options and operands of one place in the command line. -/
structure Part where
  uses : List OptionUse
  operands : List String

namespace Part

def has (p : Part) (long : String) : Bool := p.uses.any (·.long == long)

def values (p : Part) (long : String) : List String :=
  (p.uses.filter (·.long == long)).map (·.value)

def value? (p : Part) (long : String) : Option String := (p.values long).head?

def path? (p : Part) (long : String) : Option Path := (p.value? long).map Path.mk

end Part

/-- What the arguments of one place amount to. -/
inductive Reading
  | part (p : Part)
  | version
  | help

/-- Goes through arguments in their order, so the first thing wrong, or the first request to
be told something, ends it. -/
def collect (command : Option CommandName) (maxOperands : Nat) :
    Part → List Argument → Option Reading
  | p, [] => some (.part p)
  | p, .operand s :: rest =>
    if p.operands.length < maxOperands && s ≠ "" then
      collect command maxOperands { p with operands := p.operands ++ [s] } rest
    else none
  | p, .option use :: rest =>
    if use.long = "version" then some .version
    else if use.long = "help" then some .help
    else if !takes command use then none
    else if p.has use.long && !repeatable.contains use.long then none
    else collect command maxOperands { p with uses := p.uses ++ [use] } rest

/-- What the later place says about an option, or else what the earlier one says. -/
def either (before after : Part) (long : String) : List String :=
  if after.has long then after.values long else before.values long

def settings (before after : Part) : Settings where
  verbosity := .ofFlags (!(either before after "quiet").isEmpty)
    (either before after "verbose").length
  color := ((either before after "color").head?.bind fun s => colors.lookup s).getD .auto
  project := ((either before after "project").head?.map Path.mk).getD standardProjectFile
  properties := either before after "property"

def listingFormat (p : Part) : ListingFormat :=
  ((p.value? "format").bind fun s => listingFormats.lookup s).getD .text

def action (p : Part) : CommandName → Option Action
  | .modules => some (.modules (listingFormat p))
  | .flags => some (.flags (listingFormat p))
  | .notice => some (.notice (p.operands.head?.map Path.mk))
  | .coverage => some (.coverage {
      output := (p.path? "output").getD standardReportDir
      jacocoCli := p.path? "jacoco-cli"
      java := (p.path? "java").getD Jacoco.standardJava
      dryRun := p.has "dry-run"
      format := (p.value? "format").bind fun s => reportFormats.lookup s })
  | .archive => p.operands.head?.map fun spec => .archive {
      spec := ⟨spec⟩
      output := p.path? "output"
      gzip := p.has "gzip"
      sign := p.has "sign"
      module := p.value? "module" }

/-- Reads what follows the name of the command. -/
def ofCommand (before : Part) (c : CommandName) (args : List String) : Option Invocation := do
  let (args, _) ← Argument.read (sharedOptions ++ c.options) false args
  match ← collect (some c) c.maxOperands ⟨[], []⟩ args with
  | .version => return .version (program ++ "-" ++ c.text)
  | .help => return .help
  | .part p => return .run (settings before p) (← action p c)

/-- Understands a command line, or not. -/
def ofArguments (args : List String) : Option Invocation := do
  let (args, left) ← Argument.read sharedOptions true args
  match ← collect none 0 ⟨[], []⟩ args with
  | .version => return .version program
  | .help => return .help
  | .part before =>
    match left with
    | [] => none
    | name :: rest =>
      match CommandName.named.lookup name with
      | some c => ofCommand before c rest
      | none =>
        if name = "help" && rest.all fun r => (CommandName.named.lookup r).isSome then
          return .help
        else none

end Invocation
end ModularBuild
