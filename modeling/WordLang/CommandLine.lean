import WordLang.CommandLine.Arguments
import WordLang.CommandLine.Toolkit
import WordLang.Compilation

/-! The command: a program in, assembly or something about the program out. It is a function of its
arguments, of the library that reads them and of what the system answers. -/
namespace WordLang

/-! ### Work and troubles -/

/-- What breaks off work: trouble that is still to be told, or the exit behind trouble that was told.
-/
inductive Break where
  | trouble (t : Trouble)
  | exit (code : ExitCode)

/-- Work of the command. What it has put out stays, also when it is broken off. -/
abbrev Work (α : Type) := EStateM Break Output α

/-- Work in which every trouble is told. -/
abbrev Handled (α : Type) := EStateM ExitCode Output α

/-- Shows the place of a fault of the tool itself, if asked to. -/
def Trouble.showPlace (t : Trouble) (verbose : Bool) : Handled Unit :=
  if verbose ∧ t.exitCode = .internalError then
    modify fun o => { o with stderr := o.stderr ++ innerPlace }
  else pure ()

/-- Tells a trouble and exits. -/
def Toolkit.handle {α : Type} (kit : Toolkit) (verbose : Bool) (title : Option String)
    (t : Trouble) : Handled α := do
  kit.echoError (t.message title ++ "\n")
  t.showPlace verbose
  throw t.exitCode

/-- Leaves work by an exit. -/
def Handled.exits {α : Type} (work : Handled α) : Work α := fun o =>
  match work o with
  | .ok a o' => .ok a o'
  | .error code o' => .error (.exit code) o'

/-- Work whose trouble is told when it is broken off. -/
def Work.handled {α : Type} (work : Work α) (kit : Toolkit) (verbose : Bool) : Handled α := fun o =>
  match work o with
  | .ok a o' => .ok a o'
  | .error (.exit code) o' => .error code o'
  | .error (.trouble t) o' => kit.handle verbose none t o'

def Handled.report (work : Handled Unit) : Report :=
  match work .nothing with
  | .ok _ o => ⟨o, .success⟩
  | .error code o => ⟨o, code⟩

/-! ### Requests -/

/-- What a request comes down to. -/
inductive Goal where
  | tokens
  | outline
  | value
  | file (path : String)
  | text

/-- The output with notes in it, if the journal is shown. -/
def Output.logged (o : Output) (verbose : Bool) (notes : List Note) : Output :=
  if verbose then { o with stderr := o.stderr ++ String.join (notes.map Note.render) } else o

namespace Request

def options (r : Request) : Options := { comments := r.comments }

def input (r : Request) : Source := r.options.source r.source none

/-- Of all that is asked for, a token list comes before a tree, a tree before a value, a value
before a file, and a file before a text. -/
def goal (r : Request) : Goal :=
  if r.tokens then .tokens
  else if r.outline then .outline
  else if r.run then .value
  else r.output.elim .text .file

def note (r : Request) (n : Note) : Work Unit := fun o => .ok () (o.logged r.verbose [n])

/-- A stage of the compiler. Its journal is kept also when it fails. -/
def stage {α : Type} (r : Request) (work : Stage α) : Work α := fun o =>
  match work [] with
  | .ok a notes => .ok a (o.logged r.verbose notes)
  | .error e notes => .error (.trouble (.ofFailure e)) (o.logged r.verbose notes)

def compiled (r : Request) : Work Compilation := do
  let c ← r.stage (r.options.compile r.input)
  r.note (.layout c.slots.slots)
  pure c

/-- The value of an assembly text. A fault is told as what went wrong in the program. -/
def value (r : Request) (kit : Toolkit) (assembly : String) : Work (Option Int) :=
  let faulted (f : Fault) : Work (Option Int) :=
    (kit.handle r.verbose (some "Runtime") (.fault f)).exits
  match runAssembly assembly Machine.defaultStepLimit with
  | .error f => faulted f
  | .ok run =>
    match run.outcome with
    | .error (.fault f) => faulted f
    | .error .outOfRange => throw (.trouble (.unexpected Failure.outOfRangeMessage))
    | .ok none => pure none
    | .ok (some v) => do
      r.note (.halted run.state.steps v)
      pure (some v)

def write (r : Request) (fs : FileSystem) (path assembly : String) : Work Unit :=
  match fs.write path assembly with
  | some e => throw (.trouble (.ofWriteError e path))
  | none => do
    modify fun o => { o with written := o.written ++ [(path, assembly)] }
    r.note (.wrote assembly.length path)

end Request

def Goal.pursue (r : Request) (kit : Toolkit) (fs : FileSystem) : Goal → Work Unit
  | .tokens => do
    let tokens ← r.stage (r.options.tokenize r.input)
    tokens.forM fun t => kit.echo (t.render ++ "\n")
  | .outline => do
    let program ← r.stage (r.options.parseSource r.input)
    kit.echo (program.node.outline ++ "\n")
  | .value => do
    let c ← r.compiled
    let v ← r.value kit c.assembly
    kit.echo (Text.showDetail (v.map Text.decimal) ++ "\n")
  | .file path => do
    let c ← r.compiled
    r.write fs path c.assembly
  | .text => do
    let c ← r.compiled
    kit.echo c.assembly

def Request.perform (r : Request) (kit : Toolkit) (fs : FileSystem) : Handled Unit :=
  (r.goal.pursue r kit fs).handled kit r.verbose

def runCommand (kit : Toolkit) (fs : FileSystem) (args : List String) : Report :=
  match kit.read fs.isDirectory (routeSource args) with
  | .ended report => report
  | .request r => (r.perform kit fs).report

end WordLang
