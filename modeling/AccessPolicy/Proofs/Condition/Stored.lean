/-
Conditions that come back from the store.

Conditions are stored as a text and read again with their values in canonical form and
with the numbers in them as they come back.  Nothing that is checked about a condition
is changed by that.
-/
import AccessPolicy.Condition.Format
import AccessPolicy.Proofs.Condition.Encoding
import AccessPolicy.Proofs.Json.Records
import AccessPolicy.Proofs.Json.Texts

namespace AccessPolicy
namespace Condition

mutual

/-- A condition as it comes back from its text. -/
def reread : Condition → Condition
  | .field text operator value => .field text operator value.reread.canonical
  | .container type conditions => .container type (rereadAll conditions)

def rereadAll : List Condition → List Condition
  | [] => []
  | c :: rest => reread c :: rereadAll rest

end

/-- The conditions are written with numbers of the engine and nest less deeply than the
reader allows. -/
structure Storable (conditions : List Condition) : Prop where
  numbers : (Json.array (toItems conditions)).HasValidNumbers
  nesting : (Json.array (toItems conditions)).nesting < Json.Reader.nestingLimit

/-! ## Texts -/

theorem rereadAll_eq_map (conditions : List Condition) :
    rereadAll conditions = conditions.map reread := by
  induction conditions with
  | nil => rfl
  | cons c rest ih => rw [rereadAll, ih, List.map_cons]

theorem ofItems?_of_forall {nested : Bool} {conditions : List Condition}
    (h : ∀ c ∈ conditions, ofJson? nested c.toJson.reread = some c.reread) :
    ofItems? nested (Json.rereadItems (toItems conditions)) = some (rereadAll conditions) := by
  rw [Json.rereadItems_eq_map, rereadAll_eq_map]
  exact ofItems?_map h

theorem ofJson?_reread (c : Condition) (nested : Bool) :
    ofJson? nested c.toJson.reread = some c.reread := by
  induction c generalizing nested with
  | field text operator value =>
    have hjson : (toJson (.field text operator value)).reread =
        .object [("type", .string "field"), ("field", .string text),
          ("operator", .string operator.key), ("value", value.reread)] := rfl
    rw [hjson, ofJson?_object_iff, reread]
    exact ⟨rfl, rfl, Operator.ofKey?_key operator, rfl⟩
  | container type conditions ih =>
    have hjson : (toJson (.container type conditions)).reread =
        .object [("type", .string "container"), ("resourceType", .string type),
          ("conditions", .array (Json.rereadItems (toItems conditions)))] := rfl
    rw [hjson, ofJson?_object_iff, reread]
    exact ⟨rfl, rfl, _, rfl, ofItems?_of_forall fun c hc => ih c hc true⟩

/-- Stored conditions are read back. -/
theorem listOfText?_listText {conditions : List Condition} (h : Storable conditions) :
    listOfText? (listText conditions) = some (rereadAll conditions) := by
  have hitems := ofItems?_of_forall fun c (_ : c ∈ conditions) =>
    ofJson?_reread c false
  rw [listOfText?, listText, Json.ofDocument?_text h.numbers h.nesting, Option.bind_some,
    listOfDraft?, Json.reread, Json.Shape.read_list_verbatim]
  exact hitems

/-! ## Checks -/

theorem isArray_reread_canonical (v : Json) : v.reread.canonical.isArray = v.isArray := by
  cases v <;> rfl

section

variable {registry : Registry}

theorem validateAll_of_forall {conditions : List Condition}
    (h : ∀ c ∈ conditions, ∀ type, c.reread.validate registry type = c.validate registry type)
    (type : ResourceType) :
    validateAll registry (rereadAll conditions) type = validateAll registry conditions type := by
  induction conditions with
  | nil => rfl
  | cons c rest ih =>
    rw [List.forall_mem_cons] at h
    rw [rereadAll, validateAll, validateAll, h.1, ih h.2]

theorem validate_reread (c : Condition) (type : ResourceType) :
    c.reread.validate registry type = c.validate registry type := by
  induction c generalizing type with
  | field text operator value =>
    rw [reread, validate, validate, isArray_reread_canonical]
  | container name conditions ih =>
    have hall := validateAll_of_forall ih
    rw [reread, validate, validate]
    simp only [hall]

theorem validateAll_reread (conditions : List Condition) (type : ResourceType) :
    validateAll registry (rereadAll conditions) type = validateAll registry conditions type :=
  validateAll_of_forall (fun c _ => validate_reread c) type

end

end Condition
end AccessPolicy
