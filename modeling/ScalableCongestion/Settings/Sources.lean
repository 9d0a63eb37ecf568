import ScalableCongestion.Directory
import ScalableCongestion.Settings.Place

/-! Settings from several sources. Each source gives entries, first a document
and then the environment, and all of them go into one table. The last value for
a setting wins, and a setting without one has its default. Values that do not
win are never converted. -/
namespace ScalableCongestion

namespace Settings

/-- A key, whose case does not matter, and a value for the place it names. -/
abbrev Entry := String × SettingValue

/-! ## Sources -/

def documentEntries? : Json → Option (List Entry)
  | .object members =>
    if (Json.object members).storable 0 then some (SettingValue.ofMembers members) else none
  | _ => none

def environmentStart : List Char := "prague_".toList

def variableEntry? (name value : String) : Option Entry :=
  let cs := (lowercase name).toList
  if environmentStart.isPrefixOf cs then
    some (String.ofList (cs.drop environmentStart.length), .ofText value)
  else none

def environmentEntries (environment : List (String × String)) : List Entry :=
  environment.filterMap fun (name, value) => variableEntry? name value

/-! ## The winning values -/

/-- The table of all entries, each over the ones before it. There is none if an
entry has no place in what is there before it. -/
def collect? (entries : List Entry) : Option SettingValue :=
  entries.foldlM (fun whole (key, value) => value.put? (.ofKey (lowercase key)) (some whole))
    (.table [])

def choose (whole : SettingValue) (name : String) (convert : SettingValue → Option α)
    (missing : α) : Option α :=
  match (SettingValue.partsOf (some whole)).lookup name with
  | none => some missing
  | some value => convert value

def ofTable? (whole : SettingValue) : Option Settings := do
  let algorithm ← choose whole "algorithm" SettingValue.toAlgorithm? default.algorithm
  let gain ← choose whole "gain" SettingValue.toFloat? default.gain
  let initialAlpha ← choose whole "initial_alpha" SettingValue.toFloat? default.initialAlpha
  let useEct0 ← choose whole "use_ect0" SettingValue.toBool? default.useEct0
  let segmentSize ← choose whole "segment_size" SettingValue.toCount? default.segmentSize
  let initialSegments ←
    choose whole "initial_cwnd_segments" SettingValue.toCount? default.initialSegments
  return ⟨algorithm, gain, initialAlpha, useEct0, segmentSize, initialSegments⟩

def resolve (whole : SettingValue) : Except Fault Settings :=
  match ofTable? whole with
  | none => .error (.settings .unconvertible)
  | some s => s.validated

/-! ## Files -/

structure Format where
  extensions : List String
  entries? : String → Option (List Entry)

def extension : String := "json"

def json : Format := ⟨[extension], fun text => (Json.parse? text).bind documentEntries?⟩

/-- The texts of files, and the formats besides JSON that settings can have. -/
structure Files where
  read : String → Option String
  others : List Format

namespace Files

def formats (files : Files) : List Format := json :: files.others

/-- The format and the text of a settings file. If there is no file at the path,
one with an extension behind it is taken. -/
def find? (files : Files) (path : String) : Option (Format × String) :=
  match files.read path with
  | some text =>
    (files.formats.find? fun format => format.extensions.any (hasExtension path)).map (·, text)
  | none =>
    files.formats.findSome? fun format => format.extensions.findSome? fun extension =>
      ((withExtension? path extension).bind files.read).map (format, ·)

theorem find?_json {files : Files} {path text : String} (hread : files.read path = some text)
    (hextension : hasExtension path extension = true) :
    files.find? path = some (json, text) := by
  have hjson : (json.extensions.any fun extension => hasExtension path extension) = true := by
    rw [json, List.any_cons, hextension, Bool.true_or]
  simp only [find?, hread, formats, List.find?_cons_of_pos, hjson, Option.map_some]

end Files

/-- A byte order mark in front of a text is not part of it. -/
def withoutMark (text : String) : String :=
  match text.toList with
  | '\uFEFF' :: cs => String.ofList cs
  | _ => text

theorem withoutMark_eq_self {text : String} (h : text.toList.head? ≠ some '\uFEFF') :
    withoutMark text = text := by
  unfold withoutMark
  split
  · rename_i hmark
    rw [hmark] at h
    exact absurd rfl h
  · rfl

/-! ## Loading and saving -/

/-- Settings from a file and the environment. There is no answer, not even a
fault, if the entries do not make a table. -/
def load? (files : Files) (path : String) (environment : List (String × String)) :
    Option (Except Fault Settings) :=
  match (files.find? path).bind fun (format, text) => format.entries? (withoutMark text) with
  | none => some (.error (.settings .unreadable))
  | some entries => (collect? (entries ++ environmentEntries environment)).map resolve

def loadEnvironment? (environment : List (String × String)) : Option (Except Fault Settings) :=
  (collect? (environmentEntries environment)).map resolve

def save (s : Settings) (d : Directory) (path : String) : Except Fault Directory :=
  match d.write? path s.savedText with
  | some d => .ok d
  | none => .error (.settings .unwritable)

end Settings

end ScalableCongestion
