import ModularBuild.Data.Json
import ModularBuild.Data.Yaml

/-! The formats in which a listing can be asked for. -/

namespace ModularBuild

inductive ListingFormat
  | text
  | json
  | yaml
  deriving DecidableEq, Repr

/-- Writes the value, or the text that stands for it. -/
def ListingFormat.render (format : ListingFormat) (data : Data) (text : String) : String :=
  match format with
  | .text => text
  | .json => data.json ++ "\n"
  | .yaml => data.yaml

end ModularBuild
