import ScopeLint.CommandLine.Run
import ScopeLint.Proofs.Outcome
import ScopeLint.Proofs.Table

/-!
The level of each lint in an analysis. Levels are set one after the other, the settings first and
then the flags by their kind, and the last one counts. What comes out is a fixed precedence, in
which the order of the flags does not show.
-/

namespace ScopeLint

theorem Lint.mem_all (lint : Lint) : lint ∈ Lint.all := by
  cases lint <;> decide

namespace Settings

def level? (settings : Settings) (lint : Lint) : Option Level :=
  ((settings.levels.getD ∅).get? lint.slug).bind Level.parse?

end Settings

namespace AnalyzeOptions

end AnalyzeOptions

namespace Arguments

variable {arguments others : Arguments} {settings : Settings} {config applied : LevelConfig}

/-- The level that the flags give a lint, the strictest that any of them gives. -/
def level? (arguments : Arguments) (lint : Lint) : Option Level :=
  if lint.slug ∈ arguments.values .deny then some .deny
  else if lint.slug ∈ arguments.values .warn then some .warn
  else if lint.slug ∈ arguments.values .allow then some .allow
  else none

/-- The highest level of any lint, as the last flag for it says. An empty name is no cap. -/
def cap? (arguments : Arguments) : Option Level := (arguments.value? .capLints).bind Level.parse?

/-- The level of a lint: from the flags, else from the settings, else the standard one, and no
higher than the cap. -/
def levelOf (arguments : Arguments) (settings : Settings) (lint : Lint) : Level :=
  let given := ((arguments.level? lint).or (settings.level? lint)).getD lint.standardLevel
  match arguments.cap? with
  | some cap => given.min cap
  | none => given

end Arguments

namespace Plan

variable {workspace : Workspace} {directory : Text} {arguments others : Arguments} {plan : Plan}

end Plan

end ScopeLint
