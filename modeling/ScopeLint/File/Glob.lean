import ScopeLint.File.Glob.Arrange

/-!
Lists of glob patterns that tell which paths to leave out. A pattern covers whole paths only.
-/

namespace ScopeLint

abbrev Excludes := List Matcher

namespace Excludes

/-- Reads patterns up to the first bad one. -/
def parse : List Text → Except (Text × GlobError) Excludes
  | [] => .ok []
  | pattern :: rest =>
      match Glob.parse pattern with
      | .error error => .error (pattern, error)
      | .ok parts => (parse rest).map (Matcher.ofParts parts :: ·)

def covers (excludes : Excludes) (path : Text) : Bool :=
  excludes.any fun matcher => matcher.accepts path

end Excludes

end ScopeLint
