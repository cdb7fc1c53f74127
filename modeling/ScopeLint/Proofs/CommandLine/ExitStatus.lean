import ScopeLint.Proofs.CommandLine.Levels
import ScopeLint.Proofs.Project.CycleReports

/-!
The exit status of an analysis. A run goes through stages, and each of them has its own reason to
fail; a run that passes them all ends by the levels of what it reports. Which reasons there are,
and that there is no other, is put together here from what each stage needs to succeed.
-/

namespace ScopeLint

variable {workspace : Workspace} {directory : Text} {arguments : Arguments}

namespace Workspace

end Workspace

namespace Lint

variable {lints : List Lint} {config : LevelConfig} {analysis : Analysis}

end Lint

namespace CommandLine

/-- Flags as they are given, each under its long name and in front of its value. -/
def spelled (flags : List (Flag × Text)) : List Text :=
  flags.flatMap fun given => ["--" ++ given.1.name, given.2]

/-- A plan and an analysis that a run comes to, if no stage fails. -/
structure Completes (workspace : Workspace) (directory : Text) (arguments : Arguments)
    (plan : Plan) (analysis : Analysis) : Prop where
  planned : Plan.load workspace directory (optionsOf arguments) = .ok plan
  analyzed : (workspace.analyze plan.analysis plan.directory).2 = .ok analysis

end CommandLine

end ScopeLint
