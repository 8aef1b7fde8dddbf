import TypeFacts.Memo
import TypeFacts.Settings.Basic
import TypeFacts.Settings.VariableFile
import TypeFacts.Table

/-!
# The settings in effect

The environment, the file of variables, and the settings made from them the last time they were
asked for. They are made anew only on request.
-/

namespace TypeFacts

/-- Why a variable of the environment cannot be set. -/
inductive VariableFault where
  /-- The name or the value has the character that ends texts for the operating system. -/
  | nullCharacter
  /-- The name has an equals sign. -/
  | equalsSign
  /-- The name is empty. -/
  | noName
  deriving DecidableEq, Repr

namespace VariableFault

/-- The wording of a fault. -/
def message : VariableFault → String
  | nullCharacter => "embedded null byte"
  | equalsSign => "illegal environment variable name"
  | noName => "[Errno 22] Invalid argument"

/-- The word for the kind of a fault. -/
def kind : VariableFault → String
  | nullCharacter | equalsSign => "ValueError"
  | noName => "OSError"

end VariableFault

/-- Where settings come from, and those in effect. -/
structure SettingsStore where
  environment : Table String := .empty
  /-- The text of the file of variables, where there is one. -/
  variableFile : Option String := none
  memo : Memo Unit Settings := .empty

namespace SettingsStore

/-- The variables of the file. -/
def fileVariables (s : SettingsStore) : Table (Option String) :=
  (s.variableFile.map (VariableFile.read s.environment)).getD .empty

/-- Sets a variable of the environment. -/
def setVariable (s : SettingsStore) (name value : String) : Except VariableFault SettingsStore :=
  if (name ++ value).toList.any fun c => c.toNat == 0 then .error .nullCharacter
  else if name.toList.contains '=' then .error .equalsSign
  else if name.isEmpty then .error .noName
  else .ok { s with environment := s.environment.insert name value }

/-- Removes a variable of the environment. -/
def removeVariable (s : SettingsStore) (name : String) : SettingsStore :=
  { s with environment := Table.ofList (s.environment.entries.filter (·.1 != name)) }

/-- New settings with the given values. -/
def new (s : SettingsStore) (given : List (String × Json)) : Checked Settings :=
  Settings.load given s.environment s.fileVariables

/-- The settings in effect; they are made where there are none yet. -/
def current (s : SettingsStore) : Checked (Stored Settings) × SettingsStore :=
  match s.memo.find? () with
  | some stored => (.ok stored, s)
  | none =>
    match s.new [] with
    | .faulty cs => (.faulty cs, s)
    | .ok settings =>
      let (stored, memo) := s.memo.store () settings
      (.ok stored, { s with memo := memo })

/-- Makes the settings in effect anew. -/
def reload (s : SettingsStore) : Checked (Stored Settings) × SettingsStore :=
  { s with memo := s.memo.clear }.current

end SettingsStore

end TypeFacts
