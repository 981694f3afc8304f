import Preflight.Command.Models
/-!
The commands, once the words of the command line are read.
-/

namespace Preflight.Command

/-- A command. -/
inductive Invocation where
  | run (isDry : Bool) (options : CheckOptions)
  | check (options : CheckOptions)
  | models (options : ModelsOptions)
  deriving DecidableEq, Repr

/-- What a command does. Only dry runs are carried out. -/
def Invocation.outcome (s : Surroundings) : Invocation → Except Crash Outcome
  | .run true options | .check options => dryRun s options
  | .run false _ =>
    .ok ⟨exitUsage, "", "live execution is not available in this build; pass --dry-run"⟩
  | .models options => .ok (listModels s options)

end Preflight.Command
