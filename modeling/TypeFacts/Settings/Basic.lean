import TypeFacts.Checked.Field
import TypeFacts.Table
import TypeFacts.Text.Case

/-!
# Settings

The settings of an analysis. Each has a default; a value may be given by hand, by a variable of the
environment or by a line of a file of such variables, and the first of these that gives one counts.
-/

namespace TypeFacts

/-- The settings of an analysis. -/
structure Settings where
  /-- The wildcard for the files of a directory. -/
  fileGlob : String := "*.php"
  /-- The encoding of source files. -/
  sourceEncoding : String := "utf-8"
  /-- Are faults in the syntax reported? -/
  collectFaults : Bool := true
  /-- Is the source file of a reflected class read? -/
  followSource : Bool := true
  /-- Are members kept that only reflection knows? -/
  keepReflected : Bool := true
  /-- The most faults that are reported for one file. -/
  maxFaults : Nat := 100
  deriving DecidableEq, Repr, Inhabited

namespace Settings

/-- The stored form of settings. -/
def toJson (s : Settings) : Json :=
  .obj [("file_glob", .str s.fileGlob), ("source_encoding", .str s.sourceEncoding),
    ("collect_parse_errors", .bool s.collectFaults),
    ("follow_source_for_entities", .bool s.followSource),
    ("include_reflection_only_members", .bool s.keepReflected),
    ("max_error_count", .int s.maxFaults)]

/-- Reads settings from values by name; values that are left out have their defaults. -/
def check (values : List (String × Json)) : Checked Settings :=
  Settings.mk <$> .optional "file_glob" "*.php" .nonEmptyText values <*>
    .optional "source_encoding" "utf-8" .text values <*>
    .optional "collect_parse_errors" true .bool values <*>
    .optional "follow_source_for_entities" true .bool values <*>
    .optional "include_reflection_only_members" true .bool values <*>
    .optional "max_error_count" 100 (.intBetween 1 10000) values

/-- The names of all settings. -/
def names : List String :=
  ["file_glob", "source_encoding", "collect_parse_errors", "follow_source_for_entities",
    "include_reflection_only_members", "max_error_count"]

/-- The value given by hand for a setting, the first one where several spellings are given; letter
case does not matter. -/
def givenFor? (given : List (String × Json)) (name : String) : Option Json :=
  (given.find? fun g => Text.asciiLower g.1 == name).map (·.2)

/-- The value that the last variable for a setting has; letter case does not matter. -/
def variableFor? (bindings : List (String × Option String)) (name : String) : Option Json :=
  let wanted := "apishape_" ++ name
  ((bindings.reverse.find? fun v => Text.asciiLower v.1 == wanted).bind (·.2)).map .str

/-- Settings from values given by hand, from the environment and from a file of variables. -/
def load (given : List (String × Json)) (environment : Table String)
    (fileVariables : Table (Option String)) : Checked Settings :=
  check <| names.filterMap fun name =>
    (((givenFor? given name).orElse fun _ =>
        variableFor? (environment.entries.map fun v => (v.1, some v.2)) name).orElse fun _ =>
      variableFor? fileVariables.entries name).map (name, ·)

end Settings

end TypeFacts
