import Coalesce.Directory
import Coalesce.Settings.Json
import Coalesce.Settings.Yaml
/-! # Settings from a file

The text is read before the path's extension says how. -/
namespace Coalesce.Settings

abbrev FileReader := String → Except String String

/-- The text after the last dot of a path's last name, unless the name has no dot after its first
character. -/
def pathExtension? (path : String) : Option String :=
  let name := (path.splitOn "/").getLastD ""
  match (name.splitOn ".").reverse with
  | [] => none
  | [_] => none
  | [_, ""] => none
  | last :: _ => some last

def extensionText : Option String → String
  | none => "None"
  | some e => "Some(" ++ Text.quoted e ++ ")"

def ofFileText (path text : String) : Except Error Settings :=
  match pathExtension? path with
  | some "json" => (ofJsonText text).mapError .json
  | some "yaml" => (ofYamlText text).elim (.error .yaml) .ok
  | some "yml" => (ofYamlText text).elim (.error .yaml) .ok
  | other =>
    .error (.configuration "unsupported settings file extension"
      { fieldPath := some path
        details := some ("extension: " ++ extensionText other)
        source := some "settings" })

def ofFile (read : FileReader) (path : String) : Except Error Settings :=
  match read path with
  | .error fault => .error (.io fault)
  | .ok text => ofFileText path text

end Coalesce.Settings
