import ScopeLint.Table
import ScopeLint.Text.Blank
import ScopeLint.Text.Case

/-!
Sets of command names. Membership ignores case: a set holds lowercase spellings, in byte order.
-/

namespace ScopeLint

/-- A set of command names in lowercase. -/
structure NameSet where
  members : Table Unit

namespace NameSet

def empty : NameSet := ⟨∅⟩

instance : Inhabited NameSet := ⟨empty⟩

def insert (set : NameSet) (name : Text) : NameSet := ⟨set.members.insert name.lower ()⟩

def insertAll (set : NameSet) (names : List Text) : NameSet := names.foldl insert set

def ofNames (names : List Text) : NameSet := empty.insertAll names

def parse (text : Text) : NameSet := ofNames text.words

def contains (set : NameSet) (name : Text) : Bool := set.members.contains name.lower

def names (set : NameSet) : List Text := set.members.keys

def size (set : NameSet) : Nat := set.members.size

def shellCommands : List String :=
  ["Add-Content", "Add-Member", "Add-Type", "Clear-Content", "Clear-Host", "Clear-Item",
   "Clear-Variable", "Compare-Object", "Convert-Path", "ConvertFrom-Csv", "ConvertFrom-Json",
   "ConvertFrom-SecureString", "ConvertFrom-StringData", "ConvertTo-Csv", "ConvertTo-Html",
   "ConvertTo-Json", "ConvertTo-SecureString", "ConvertTo-Xml", "Copy-Item", "Copy-ItemProperty",
   "Disable-PSBreakpoint", "Enable-PSBreakpoint", "Enter-PSSession", "Exit-PSSession",
   "Export-Alias", "Export-Clixml", "Export-Csv", "Export-ModuleMember", "ForEach-Object",
   "Format-Custom", "Format-List", "Format-Table", "Format-Wide", "Get-Acl", "Get-Alias",
   "Get-ChildItem", "Get-Command", "Get-Content", "Get-Credential", "Get-Culture", "Get-Date",
   "Get-Event", "Get-ExecutionPolicy", "Get-FileHash", "Get-Help", "Get-History", "Get-Host",
   "Get-Item", "Get-ItemProperty", "Get-ItemPropertyValue", "Get-Job", "Get-Location",
   "Get-Member", "Get-Module", "Get-PSBreakpoint", "Get-PSCallStack", "Get-PSDrive",
   "Get-PSProvider", "Get-Process", "Get-Random", "Get-Service", "Get-TimeZone", "Get-TypeData",
   "Get-Unique", "Get-Variable", "Get-WinEvent", "Get-WmiObject", "Group-Object",
   "Import-Clixml", "Import-Csv", "Import-LocalizedData", "Import-Module",
   "Import-PowerShellDataFile", "Invoke-Command", "Invoke-Expression", "Invoke-Item",
   "Invoke-RestMethod", "Invoke-WebRequest", "Join-Path", "Measure-Command", "Measure-Object",
   "Move-Item", "Move-ItemProperty", "New-Alias", "New-Event", "New-Guid", "New-Item",
   "New-ItemProperty", "New-Module", "New-Object", "New-PSDrive", "New-PSSession",
   "New-TemporaryFile", "New-TimeSpan", "New-Variable", "Out-Default", "Out-File",
   "Out-GridView", "Out-Host", "Out-Null", "Out-String", "Pop-Location", "Push-Location",
   "Read-Host", "Receive-Job", "Register-ObjectEvent", "Remove-Item", "Remove-ItemProperty",
   "Remove-Job", "Remove-Module", "Remove-PSDrive", "Remove-PSSession", "Remove-Variable",
   "Rename-Item", "Rename-ItemProperty", "Resolve-Path", "Restart-Service", "Select-Object",
   "Select-String", "Select-Xml", "Set-Acl", "Set-Alias", "Set-Content", "Set-Date",
   "Set-ExecutionPolicy", "Set-Item", "Set-ItemProperty", "Set-Location", "Set-PSBreakpoint",
   "Set-PSDebug", "Set-StrictMode", "Set-Variable", "Sort-Object", "Split-Path", "Start-Job",
   "Start-Process", "Start-Service", "Start-Sleep", "Start-Transcript", "Stop-Job",
   "Stop-Process", "Stop-Service", "Stop-Transcript", "Tee-Object", "Test-Connection",
   "Test-Json", "Test-Path", "Trace-Command", "Update-TypeData", "Wait-Event", "Wait-Job",
   "Wait-Process", "Where-Object", "Write-Debug", "Write-Error", "Write-Host",
   "Write-Information", "Write-Output", "Write-Progress", "Write-Verbose", "Write-Warning"]

def testCommands : List String :=
  ["AfterAll", "AfterEach", "Assert-MockCalled", "Assert-VerifiableMock", "BeforeAll",
   "BeforeEach", "Context", "Describe", "Get-MockDynamicParameter", "In", "InModuleScope",
   "Invoke-Mock", "Invoke-Pester", "It", "Mock", "New-Fixture", "New-MockObject", "Set-ItResult",
   "Set-TestInconclusive", "Setup", "Should"]

def standard : NameSet := ofNames ((shellCommands ++ testCommands).map Text.ofString)

end NameSet

end ScopeLint
