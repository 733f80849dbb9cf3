import ModularBuild.Data.Format
import ModularBuild.Flag.Resolver

/-! Resolved flags as a listing. The columns of the text form are as wide as the longest
name counted in bytes, while padding counts characters. -/

namespace ModularBuild

def FlagSource.describe : FlagSource → String
  | property name => "property " ++ name
  | environment name => "env " ++ name
  | default => "default"

/-- Fills up with spaces to a number of characters. -/
def padRight (width : Nat) (s : String) : String :=
  s ++ String.ofList (List.replicate (width - s.length) ' ')

def Resolution.line (width : Nat) (r : Resolution) : String :=
  padRight width r.name ++ "  " ++ padRight 5 (toString r.value) ++ "  " ++ r.source.describe ++
    "\n"

def renderFlags (format : ListingFormat) (resolutions : List Resolution) : String :=
  let width := (resolutions.map (·.name.utf8ByteSize)).foldl max 0
  format.render (.list (resolutions.map (·.data)))
    (String.join (resolutions.map (·.line width)))

end ModularBuild
