/-
The service over HTTP.

A request passes the same stations whatever it asks for: the token, the route,
the principal, the type of the body, its size and the body.  The first station
that objects answers it.
-/
import AccessPolicy.Availability
import AccessPolicy.Database.Entities
import AccessPolicy.Database.Roles
import AccessPolicy.Http.BearerToken
import AccessPolicy.Http.MediaType
import AccessPolicy.Http.Target
import AccessPolicy.ServiceError

namespace AccessPolicy
namespace Http

/-- A request with the headers that matter. -/
structure Message where
  method : String
  target : String
  authorization : List String
  contentType : Option String
  body : String

/-- An answer with its JSON body, if it has one. -/
structure Response where
  status : Nat
  body : Option Json

namespace Response

def ofError (e : ServiceError) : Response := ⟨e.status, some e.body⟩

def withoutBody (status : Nat) : Response := ⟨status, none⟩

end Response

inductive Route where
  | health
  | permissions
deriving DecidableEq, Repr

namespace Route

/-- The route of a path, which has to be written exactly so. -/
def ofPath? (path : List Char) : Option Route :=
  if path = "/api/health".toList then some health
  else if path = "/api/v1/permissions".toList then some permissions
  else none

/-- A route that is read may also be asked for its headers alone. -/
def allows : Route → String → Bool
  | health, method => method == "GET" || method == "HEAD"
  | permissions, method => method == "POST"

end Route

/-- The store behind the service, the decoder for tokens and the time in
seconds. -/
structure Server where
  store : Database
  decode : TokenDecoder
  now : Nat

namespace Server

def registry (s : Server) : Registry := s.store.registry

def service (s : Server) : AuthorizationService :=
  ⟨s.registry, s.store.repository s.registry, .ambient⟩

/-- The context in which a request is handled: that of its token, or the
surrounding one when it carries none. -/
def authenticate (s : Server) (ambient : Ambient) (m : Message) : Except ServiceError Ambient :=
  match bearerToken? m.authorization with
  | none => .ok ambient
  | some text =>
    match s.decode.subject s.now text with
    | .error e => .error (.token e.message)
    | .ok user =>
      match s.service.roles.rolesOfUser user with
      | .error e => .error (.ofStore e)
      | .ok roles => .ok (ambient.actingAs ⟨user, roles⟩)

/-- Whether the store can be reached. -/
def health (s : Server) : Json :=
  let (status, ok, error) := match s.store.require [] with
    | .ok _ => ("ok", true, Json.null)
    | .error e => ("degraded", false, Json.string e.message)
  .object [("status", .string status), ("db_ok", .bool ok), ("db_error", error)]

/-- The size of the largest body that is read, in bytes. -/
def bodyLimit : Nat := 2097152

/-- Answers which permissions the principal has.  A body that is too large is not
read.  A body at fault is told apart from one that holds something else, and
whatever follows its first value is ignored. -/
def permissions (s : Server) (ambient : Ambient) (m : Message) : Response :=
  match ambient.principal with
  | none => .ofError (.unauthorized "Authorization header missing")
  | some _ =>
    if (m.contentType.bind MediaType.ofText?).any MediaType.isJson then
      if bodyLimit < m.body.utf8ByteSize then .withoutBody 413
      else
        match AvailabilityItem.listOfDraft (Json.Draft.ofText m.body).1 with
        | .error .malformed => .withoutBody 400
        | .error .mismatched => .withoutBody 422
        | .ok items => ⟨200, some (.array (s.service.availability ambient items))⟩
    else .withoutBody 415

/-- The answer to a request.  Browsers ask for the options of a path before they
send a request from another site, and every such question is granted. -/
def respond (s : Server) (ambient : Ambient) (m : Message) : Response :=
  if m.method = "OPTIONS" then .withoutBody 200
  else
    match s.authenticate ambient m with
    | .error e => .ofError e
    | .ok ambient =>
      match Route.ofPath? (Target.path m.target) with
      | none => .withoutBody 404
      | some route =>
        if !route.allows m.method then .withoutBody 405
        else
          match route with
          | .health => if m.method = "HEAD" then .withoutBody 200 else ⟨200, some s.health⟩
          | .permissions => s.permissions ambient m

end Server
end Http
end AccessPolicy
