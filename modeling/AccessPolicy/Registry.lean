/-
What the engine knows about resource kinds: the kinds, the relations that
conditions follow from one kind to another, and the loaders that fetch entities.
-/
import AccessPolicy.AuthorizationError
import AccessPolicy.FieldPath
import AccessPolicy.Principal

namespace AccessPolicy

/-- The pair of types that a relation joins. -/
structure RelationKey where
  source : ResourceType
  target : ResourceType
deriving DecidableEq, Repr

/-- Entities of `source` are joined to the entities of `target` whose
`targetField` equals their `sourceField`. -/
structure Relation where
  source : ResourceType
  target : ResourceType
  sourceField : FieldPath
  targetField : FieldPath
deriving DecidableEq

namespace Relation

def key (r : Relation) : RelationKey := ⟨r.source, r.target⟩

/-- The relation of two fields given as texts, the source field read first. -/
def ofTexts (source target : ResourceType) (sourceField targetField : String) :
    Except ConfigurationError Relation :=
  match FieldPath.parse sourceField with
  | .error e => .error e
  | .ok s =>
    match FieldPath.parse targetField with
    | .error e => .error e
    | .ok t => .ok ⟨source, target, s, t⟩

end Relation

/-- Fetches the attributes of the entities of one type whose field equals a
value.  It is told the ambient context in which it is asked. -/
def EntityLoader : Type := Ambient → FieldPath → Json → Except StoreError (List Json)

/-- Kinds are held by name, relations by the types they join and loaders by
type.  A later entry takes the place of an earlier one. -/
structure Registry where
  kinds : List ResourceKind
  relations : List Relation
  loaders : List (ResourceType × EntityLoader)

namespace Registry

def empty : Registry := ⟨[], [], []⟩

def withKind (r : Registry) (kind : ResourceKind) : Registry :=
  { r with kinds := kind :: r.kinds.filter fun k => k.type.name != kind.type.name }

def withRelation (r : Registry) (relation : Relation) : Registry :=
  { r with relations := relation :: r.relations.filter fun q => q.key != relation.key }

def withLoader (r : Registry) (type : ResourceType) (loader : EntityLoader) : Registry :=
  { r with loaders := (type, loader) :: r.loaders.filter fun l => l.1 != type }

/-- The registered types. -/
def resourceTypes (r : Registry) : List ResourceType := r.kinds.map (·.type)

/-- The type registered under a name. -/
def resourceType (r : Registry) (name : String) : Except ConfigurationError ResourceType :=
  match r.kinds.find? fun k => k.type.name == name with
  | some kind => .ok kind.type
  | none => .error (.unknownResourceType name)

/-- The kind of a type.  A type is registered only when its name leads to this
very type. -/
def registered (r : Registry) (type : ResourceType) : Except ConfigurationError ResourceKind :=
  match r.kinds.find? fun k => k.type.name == type.name with
  | some kind => if kind.type = type then .ok kind else .error (.missingActionProvider type.name)
  | none => .error (.missingActionProvider type.name)

def ensureRegistered (r : Registry) (type : ResourceType) : Except ConfigurationError Unit :=
  (r.registered type).map fun _ => ()

def availableActions (r : Registry) (type : ResourceType) :
    Except ConfigurationError (List Action) :=
  (r.registered type).map (·.actions)

def identifierField (r : Registry) (type : ResourceType) : Except ConfigurationError String :=
  (r.registered type).map (·.identifierField)

/-- A dotted path is valid only below a document field. -/
def checkField (r : Registry) (type : ResourceType) (field : FieldPath) :
    Except ConfigurationError Unit :=
  match r.registered type with
  | .error e => .error e
  | .ok kind =>
    if field.nested.isEmpty || kind.documentFields.contains field.root then .ok ()
    else .error (.invalidFieldPath field.text)

/-- The action of a key, if permissions may grant it on the type.  `deny` is
never granted. -/
def parseAction (r : Registry) (type : ResourceType) (key : String) :
    Except ConfigurationError Action :=
  match Action.ofKey? key with
  | none => .error (.unknownAction key)
  | some action =>
    match r.availableActions type with
    | .error e => .error e
    | .ok actions =>
      if actions.contains action then .ok action
      else .error (.unsupportedAction type.name action.key)

def relation (r : Registry) (source target : ResourceType) : Except ConfigurationError Relation :=
  match r.relations.find? fun q => q.key == ⟨source, target⟩ with
  | some relation => .ok relation
  | none => .error (.missingRelation source.name target.name)

def loader (r : Registry) (type : ResourceType) : Except ConfigurationError EntityLoader :=
  match r.loaders.find? fun l => l.1 == type with
  | some l => .ok l.2
  | none => .error (.missingEntityLoader type.name)

end Registry
end AccessPolicy
