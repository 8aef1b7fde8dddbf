import TypeFacts.Table
import TypeFacts.Ty.Basic

/-!
# Result types of library functions

The functions of the language's own library whose results have a known type, by name in lower case.
-/

namespace TypeFacts.Infer

/-- The functions that give a string. -/
def stringFunctions : List String :=
  ["strval", "trim", "ltrim", "rtrim", "substr", "strtolower", "strtoupper", "ucfirst", "lcfirst",
    "str_repeat", "str_replace", "sprintf", "implode", "join", "json_encode", "md5",
    "sha1", "nl2br",
    "htmlspecialchars", "number_format", "date", "uniqid"]

/-- The functions that give an integer. -/
def intFunctions : List String :=
  ["count", "sizeof", "strlen", "mb_strlen", "intval", "time", "abs", "strpos"]

/-- The functions that give a floating point number. -/
def floatFunctions : List String :=
  ["floatval", "doubleval", "microtime", "round", "floor", "ceil"]

/-- The functions that give a truth value. -/
def boolFunctions : List String :=
  ["boolval", "is_array", "is_string", "is_int", "is_integer", "is_float", "is_bool", "is_numeric",
    "is_null", "is_object", "is_callable", "isset", "empty", "in_array", "array_key_exists",
    "method_exists", "property_exists", "class_exists", "file_exists", "str_contains",
    "str_starts_with", "str_ends_with"]

/-- The functions that give an array. -/
def arrayFunctions : List String :=
  ["array_merge", "array_filter", "array_map", "array_keys", "array_values", "array_slice",
    "array_unique", "array_reverse", "array_combine", "array_fill", "explode", "compact", "range",
    "str_split", "func_get_args"]

/-- The result types of functions, by name in lower case. -/
abbrev FunctionTypes := List (String × Ty)

/-- The result types of the library functions. -/
def builtinFunctions : FunctionTypes :=
  stringFunctions.map (·, .scalar .string false) ++ intFunctions.map (·, .scalar .int false) ++
    floatFunctions.map (·, .scalar .float false) ++ boolFunctions.map (·, .scalar .bool false) ++
    arrayFunctions.map (·, .anyArray)

/-- The result types with further functions, whose names may be written in any letter case; they
come before library functions of the same name, and the last of several spellings counts. -/
def functionTypes (further : Table Ty) : FunctionTypes :=
  (further.entries.map fun f => (Text.lower f.1, f.2)).reverse ++ builtinFunctions

end TypeFacts.Infer
