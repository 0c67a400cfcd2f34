import RepoAtlas.CommandLine
import RepoAtlas.Dialogue
import RepoAtlas.Run

/-!
# The command

What the program does with the words behind its name and its input
(`Command.perform`): it looks at the root, asks whether to go on, and runs. The
code it ends with is 0 if all went well or the question was answered with no, 2
if the words are wrong, and 1 if anything else is.
-/

namespace RepoAtlas.Command

/-- How the program ends. -/
structure Result (σ : Type) where
  code : UInt32
  /-- What it says. -/
  output : String := ""
  /-- What it complains about. -/
  complaint : String := ""
  /-- The run, if there was one. -/
  run : Option Run := none
  fs : FileSystem
  state : σ

/-- The end of a command that asks for something other than a run. -/
def refuse {σ : Type} (fs : FileSystem) (state : σ) (e : CommandLine.UsageError) : Result σ :=
  match e with
  | .helpAsked | .versionAsked => { code := 0, output := e.message ++ "\n", fs, state }
  | _ => { code := 2, complaint := e.message ++ "\n", fs, state }

/-- A run, and the end of the program with it. -/
def start {σ : Type} (send : Chat.Transport σ) (fs : FileSystem) (o : CommandLine.Options)
    (key : Option String) (said : String) (state : σ) : Option (Result σ) :=
  (Run.withEndpoint send fs o.repository (o.config key) state).map fun outcome =>
    match outcome.result with
    | .ok run =>
      { code := 0, output := said, run := some run, fs := outcome.fs, state := outcome.describer }
    | .error e =>
      { code := 1, output := said, complaint := e.message ++ "\n"
        fs := outcome.fs, state := outcome.describer }

/-- The program. There is no result if a wait for the describer overflows. -/
def perform {σ : Type} (send : Chat.Transport σ) (fs : FileSystem) (words : List String)
    (key : Option String) (input : Bytes) (state : σ) : Option (Result σ) :=
  match CommandLine.parse words with
  | .error e => some (refuse fs state e)
  | .ok o =>
    match validateRoot fs o.repository with
    | .error e => some { code := 1, complaint := e.message ++ "\n", fs, state }
    | .ok _ =>
      if o.yes then start send fs o key "" state
      else
        let dialogue := Dialogue.run input
        match dialogue.verdict with
        | .accepted => start send fs o key dialogue.output state
        | .declined => some { code := 0, output := dialogue.output, fs, state }
        | .notText => some { code := 1, output := dialogue.output, fs, state }

end RepoAtlas.Command
