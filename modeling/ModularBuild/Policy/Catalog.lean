import ModularBuild.Data
import ModularBuild.Policy.Tool
import ModularBuild.Table

/-! The tool versions that a policy may pin. -/

namespace ModularBuild

structure Catalog where
  known : PerTool (Option (Table String Unit))

namespace Catalog

def empty : Catalog := ⟨.const none⟩

def versions (c : Catalog) (tool : Tool) : List String := ((c.known.get tool).getD ∅).keys

/-- Adds versions of a tool; the tool has an entry from then on, also without any version. -/
def addVersions (c : Catalog) (tool : Tool) (versions : List String) : Catalog :=
  let table := (c.known.get tool).getD ∅
  ⟨c.known.set tool (some (table.insertMany (versions.map fun v => (v, ()))))⟩

/-- The released versions that are known without being told. -/
def builtin : Catalog :=
  let c := empty.addVersions .checkstyle ["8.18", "8.19", "8.20", "8.21", "8.22", "8.23"]
  let c := c.addVersions .spotbugs ["3.1.10", "3.1.11", "3.1.12", "4.0.0"]
  c.addVersions .jacoco ["0.8.2", "0.8.3", "0.8.4", "0.8.5"]

def isKnown (c : Catalog) (tool : Tool) (version : String) : Bool :=
  (c.known.get tool).any (·.contains version)

def check (c : Catalog) (tool : Tool) (version : String) : Except BuildError Unit :=
  if c.isKnown tool version then .ok ()
  else .error (.unknownToolchain tool.name version (c.versions tool))

def data (c : Catalog) : Data :=
  .object [("known", .object (c.known.present.map fun (tool, table) =>
    (tool.name, .texts table.keys)))]

end Catalog
end ModularBuild
