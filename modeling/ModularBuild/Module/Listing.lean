import ModularBuild.Data.Format
import ModularBuild.Module

/-! Modules as a listing, with their plugins and effective settings. -/

namespace ModularBuild

def Module.listing (m : Module) : String :=
  let settings := m.effective.rows.map fun row =>
    "  " ++ row.1 ++ " = " ++ row.2.value ++ " (" ++ row.2.provenance.name ++ ")\n"
  m.name ++ " (" ++ m.dir.text ++ ")\n" ++
  "  plugins: " ++ ", ".intercalate m.plugins.toList ++ "\n" ++ String.join settings

def renderModules (format : ListingFormat) (modules : List Module) : String :=
  format.render (.list (modules.map (·.data))) (String.join (modules.map (·.listing)))

end ModularBuild
