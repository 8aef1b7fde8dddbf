import TypeFacts.Checked.Field
import TypeFacts.Json.Literal
import TypeFacts.Ty.Basic

/-!
# Descriptors as JSON

A descriptor is stored as an object whose field `variant` says which form it has. `Ty.toJson` writes
it, `Ty.check` reads it back and complains about everything that is wrong with it.
-/

namespace TypeFacts

namespace Ty

mutual

/-- The stored form of a descriptor. -/
def toJson : Ty → Json
  | scalar k n => .obj [("nullable", .bool n), ("variant", .str "scalar"), ("kind", .str k.word)]
  | named s n => .obj [("nullable", .bool n), ("variant", .str "named"), ("type_name", .str s)]
  | array v n =>
    .obj [("nullable", .bool n), ("variant", .str "array"), ("key_type", .null),
      ("value_type", v.toJson)]
  | keyed k v n =>
    .obj [("nullable", .bool n), ("variant", .str "array"), ("key_type", k.toJson),
      ("value_type", v.toJson)]
  | union ms n =>
    .obj [("nullable", .bool n), ("variant", .str "union"), ("members", .arr (toJsonAll ms))]

/-- The stored forms of several descriptors. -/
def toJsonAll : List Ty → List Json
  | [] => []
  | t :: ts => t.toJson :: toJsonAll ts

end

/-- The stored form of a descriptor, or null where there is none. -/
def toJson? : Option Ty → Json
  | some t => t.toJson
  | none => .null

/-- A union of the members, which have to be at least two, neither unions nor nullable. -/
def checkUnion (ms : List Ty) (n : Bool) : Checked Ty :=
  let set := memberSet ms
  if set.length < 2 then .complain .fewMembers
  else if set.any isUnion then .complain .nestedUnion
  else if set.any nullable then .complain .nullableMember
  else .ok (union set n)

private theorem sizeOf_get?_lt_fields {name : String} {fields : List (String × Json)} {j : Json}
    (h : Pairs.get? name fields = some j) : sizeOf j < sizeOf fields := by
  induction fields with
  | nil => simp [Pairs.get?] at h
  | cons f fs ih =>
    obtain ⟨n, v⟩ := f
    simp only [Pairs.get?] at h
    split at h
    · simp only [Option.some.injEq] at h
      subst h
      simp only [List.cons.sizeOf_spec, Prod.mk.sizeOf_spec]
      omega
    · have := ih h
      simp only [List.cons.sizeOf_spec]
      omega

/-- A field of an object is smaller than the object. -/
theorem sizeOf_get?_lt {name : String} {fields : List (String × Json)} {j : Json}
    (h : Pairs.get? name fields = some j) : sizeOf j < sizeOf (Json.obj fields) := by
  have := sizeOf_get?_lt_fields h
  simp only [Json.obj.sizeOf_spec]
  omega

/-! ### Reading

How deep descriptors may be nested is not settled here. It depends on the forms of a descriptor and
of those around it: a chain of forms has that of the descriptor first, and then those around it from
the inside out. -/

/-- The forms that a descriptor may have. -/
inductive Form where
  | scalar
  | named
  | array
  | union
  deriving DecidableEq, Repr

mutual

/-- The chains of a descriptor that stands in others, and of all that it holds. -/
def chains (around : List Form) : Ty → List (List Form)
  | scalar _ _ => [.scalar :: around]
  | named _ _ => [.named :: around]
  | array v _ => (.array :: around) :: v.chains (.array :: around)
  | keyed k v _ =>
    (.array :: around) :: (k.chains (.array :: around) ++ v.chains (.array :: around))
  | union ms _ => (.union :: around) :: chainsOfAll (.union :: around) ms

/-- The chains of several descriptors that stand in others. -/
def chainsOfAll (around : List Form) : List Ty → List (List Form)
  | [] => []
  | t :: ts => t.chains around ++ chainsOfAll around ts

end

end Ty

/-- How deep values may be nested in values of their own sort. -/
structure Limits where
  /-- May a descriptor with this chain be read? -/
  reads : List Ty.Form → Bool := fun _ => true
  /-- May a descriptor with this chain be written? -/
  writes : List Ty.Form → Bool := fun _ => true
  /-- May a reflected type be read in so many others, in a record or alone? -/
  reflects : (inRecord : Bool) → Nat → Bool := fun _ _ => true

namespace Ty

/-- Reads the fields of a descriptor in others, unless it is too deep. -/
def enter (limits : Limits) (around : List Form) (form : Form)
    (check : List Form → Checked Ty) : Checked Ty :=
  if limits.reads (form :: around) then check (form :: around) else .complain .tooDeep

mutual

/-- Reads the stored form of a descriptor that stands in others. -/
def checkAt (limits : Limits) (around : List Form) : Json → Checked Ty
  | .obj fields =>
    match Pairs.get? "variant" fields with
    | none => .complain .noTag
    | some (.str "scalar") => .within "scalar" <| enter limits around .scalar fun _ =>
      (fun n k => scalar k n) <$> .optional "nullable" false .bool fields <*>
        .required "kind" (.word ["int", "float", "string", "bool"] ScalarKind.ofWord?) fields
    | some (.str "named") => .within "named" <| enter limits around .named fun _ =>
      (fun n s => named s n) <$> .optional "nullable" false .bool fields <*>
        .required "type_name" .nonEmptyText fields
    | some (.str "array") => .within "array" <| enter limits around .array fun inner =>
      (fun n k v => arrayOf k v n) <$> .optional "nullable" false .bool fields <*>
        (match _h : Pairs.get? "key_type" fields with
          | none => .ok none
          | some .null => .ok none
          | some j => .within "key_type" (.map some (checkAt limits inner j))) <*>
        (match _h : Pairs.get? "value_type" fields with
          | none => .ok mixed
          | some j => .within "value_type" (checkAt limits inner j))
    | some (.str "union") => .within "union" <| enter limits around .union fun inner =>
      Checked.andThen
        (Prod.mk <$> .optional "nullable" false .bool fields <*>
          (.within "members" <|
            match _h : Pairs.get? "members" fields with
            | none => .complain .missing
            | some (.arr xs) => .all (checkItems limits inner 0 xs)
            | some _ => .complain .notSet))
        fun (n, ms) => checkUnion ms n
    | some tag => .complain (.unknownTag tag.plainText)
  | _ => .complain .notTagged
termination_by j => sizeOf j
decreasing_by
  · exact sizeOf_get?_lt _h
  · exact sizeOf_get?_lt _h
  · have := sizeOf_get?_lt _h
    simp only [Json.arr.sizeOf_spec] at this
    omega

/-- Reads the stored forms of several descriptors, each at its index. -/
def checkItems (limits : Limits) (around : List Form) (i : Nat) (items : List Json) :
    List (Checked Ty) :=
  match items with
  | [] => []
  | x :: xs =>
    .within (Number.natText i) (checkAt limits around x) :: checkItems limits around (i + 1) xs
termination_by sizeOf items

end

/-- Reads the stored form of a descriptor. -/
def check (j : Json) (limits : Limits := {}) : Checked Ty :=
  checkAt limits [] j

end Ty

end TypeFacts
