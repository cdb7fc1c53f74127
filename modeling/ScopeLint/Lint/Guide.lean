import ScopeLint.Text.Basic

/-!
The reference of all lints, of the settings file and of allow comments, as users can print it.
-/

namespace ScopeLint.Lint

def guideLines : List String := [
  "# Shelly lints",
  "",
  "Every lint has a slug, used in \x60shelly.toml\x60, on the command line and in",
  "allow comments, and a default level.",
  "",
  "| slug                          | default | reports                                                        |",
  "|-------------------------------|---------|----------------------------------------------------------------|",
  "| \x60syntax-errors\x60               | deny    | files that cannot be tokenized                                 |",
  "| \x60nonexisting-imports\x60         | deny    | dot-imports of files that do not exist                         |",
  "| \x60unrecognized-imports\x60        | warn    | dot-imports in an unsupported form, and duplicate imports      |",
  "| \x60unknown-functions\x60           | deny    | functions and classes that are neither in scope nor builtins   |",
  "| \x60indirect-imports\x60            | warn    | items only reachable through an import of an import            |",
  "| \x60invalid-letter-casing\x60       | warn    | usages spelled with different casing than the definition      |",
  "| \x60unused-imports\x60              | warn    | imports from which nothing is used                             |",
  "| \x60no-strict-mode\x60              | warn    | entry scripts that never call \x60Set-StrictMode\x60                 |",
  "| \x60invalid-testname-characters\x60 | warn    | Pester test names with characters not allowed in file names    |",
  "",
  "## Imports",
  "",
  "Two forms of dot-sourcing are understood:",
  "",
  "\x60\x60\x60powershell",
  ". $PSScriptRoot\\Lib\\Utils.ps1",
  ". \"$here\\$sut\"",
  "\x60\x60\x60",
  "",
  "The second form imports the file under test: \x60Foo.Tests.ps1\x60 imports",
  "\x60Foo.ps1\x60. Anything else is an unrecognized import and its items are not in",
  "scope.",
  "",
  "A file defining no functions or classes is an *import bag*: it only exists to",
  "import other files. Items reached through a bag are not indirect, and bags are",
  "never reported as unused.",
  "",
  "## Levels",
  "",
  "Levels are \x60allow\x60, \x60warn\x60 (or \x60warning\x60) and \x60deny\x60 (or \x60error\x60). Set them in",
  "\x60shelly.toml\x60 at the root of the analyzed directory:",
  "",
  "\x60\x60\x60toml",
  "exclude = [\"vendor/**\", \"**/*.Generated.ps1\"]",
  "",
  "[levels]",
  "unused-imports = \"allow\"",
  "indirect-imports = \"deny\"",
  "",
  "[extras]",
  "cmdlets = [\"Invoke-Build\", \"New-AzResourceGroup\"]",
  "\x60\x60\x60",
  "",
  "or on the command line with \x60-A\x60, \x60-W\x60 and \x60-D\x60. \x60--cap-lints warn\x60 keeps any",
  "lint from failing the run.",
  "",
  "## Allow comments",
  "",
  "A finding about a name is suppressed by a comment on the same line that",
  "contains \x60allow\x60 and either the name or the lint slug:",
  "",
  "\x60\x60\x60powershell",
  "Invoke-Legacy   # allow Invoke-Legacy",
  "Get-Thing       # allow indirect-imports",
  "\x60\x60\x60",
  "",
  "The comment covers its own line only. A later use of the same name without a",
  "comment is still reported.",
  "",
  "## Exit codes",
  "",
  "\x600\x60 when nothing is denied, \x601\x60 when at least one deny-level finding was",
  "reported, \x602\x60 for bad invocations, unreadable configuration and recursive",
  "imports."]

def guide : Text := guideLines.flatMap fun line => Text.ofString line ++ [Text.lineFeed]

end ScopeLint.Lint
