import ModularBuild.Module
import ModularBuild.Policy.Tool

/-! The settings and plugins that every module of a project receives. -/

namespace ModularBuild

/-- One value of a policy. With a required plugin it is meant only for modules with that
plugin. -/
structure Setting where
  key : String
  value : String
  requiredPlugin : Option String
  deriving DecidableEq, Repr

def Setting.appliesTo (s : Setting) (m : Module) : Bool := s.requiredPlugin.all m.hasPlugin

structure PolicyBundle where
  group : Option String
  encoding : String
  toolchains : PerTool (Option String)
  manifest : Table String String
  plugins : List String
  deriving DecidableEq

namespace PolicyBundle

def default : PolicyBundle where
  group := none
  encoding := "UTF-8"
  toolchains := .const none
  manifest := ∅
  plugins := ["checkstyle", "signing", "spotbugs"]

/-- The plugin of modules that compile sources. -/
def sourcePlugin : String := "java"

def toolSettings (b : PolicyBundle) : List Setting :=
  b.toolchains.present.map fun (tool, version) =>
    ⟨tool.settingKey, version, tool.requiredPlugin?⟩

def manifestSettings (b : PolicyBundle) : List Setting :=
  b.manifest.rows.map fun row => ⟨"manifest." ++ row.1, row.2, some sourcePlugin⟩

/-- The settings that the bundle stands for, in the order of propagation. -/
def settings (b : PolicyBundle) : List Setting :=
  (b.group.map fun group => Setting.mk "group" group none).toList ++
  ⟨"encoding", b.encoding, some sourcePlugin⟩ :: b.toolSettings ++ b.manifestSettings

def data (b : PolicyBundle) : Data :=
  .object [("group", .ofOption b.group), ("encoding", .text b.encoding),
    ("toolchains", .object (b.toolchains.present.map fun (tool, v) => (tool.name, .text v))),
    ("manifest", .rows .text b.manifest.rows), ("plugins", .texts b.plugins)]

end PolicyBundle
end ModularBuild
