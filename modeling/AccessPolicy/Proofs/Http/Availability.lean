/-
Permissions asked for over HTTP.

A post of items with a token that holds for a user is answered item by item under the
principal of that user.  What is answered to an item depends on nothing but the item and
the store, and is a yes only where the check that the item stands for says yes.  Every list
of items can be posted whose text is no larger than a body may be, and whoever gets entries
where nobody acts already has posted items with such a token.
-/
import AccessPolicy.Http.Server
import AccessPolicy.Proofs.Database.Attributes
import AccessPolicy.Proofs.Database.Listing
import AccessPolicy.Proofs.Json.Texts

namespace AccessPolicy

/-! ## Items -/

namespace AvailabilityItem

/-- The entry repeats the item and says whether it is available. -/
structure AnsweredBy (item : AvailabilityItem) (entry : Json) (available : Bool) : Prop where
  resource : entry.get? "resource" = some (.string item.resource)
  action : entry.get? "action" = some (.string item.action)
  context : entry.get? "context" = some (.object [("resource", .string item.contextResource),
    ("identifier", .string item.contextIdentifier)])
  available : entry.get? "available" = some (.bool available)

theorem answeredBy_answered (item : AvailabilityItem) (available : Bool) :
    item.AnsweredBy (item.answered available) available :=
  ⟨rfl, rfl, rfl, rfl⟩

end AvailabilityItem

namespace AuthorizationService

/-- The item names one of the workflow kinds, an action that the kind offers or `deny`, and
a registered type for its context, and the check of that action by way of the entity of the
context says yes. -/
def GrantsItem (s : AuthorizationService) (ambient : Ambient) (item : AvailabilityItem) : Prop :=
  ∃ (kind : WorkflowKind) (action : Action) (related : ResourceType)
    (accepted : kind.resource.accepts action = true),
    kind.name = item.resource ∧ action.key = item.action ∧
    (action ∈ kind.actions ∨ action = .deny) ∧
    s.registry.resourceType item.contextResource = .ok related ∧
    s.hasPermission ambient
      ⟨kind.resource, action, accepted, .related related item.contextIdentifier, none⟩ = .ok true

variable {s : AuthorizationService} {ambient : Ambient} {item : AvailabilityItem}

theorem isAvailable_iff_exists :
    s.isAvailable ambient item = true ↔ ∃ request, item.request s.registry = .ok request ∧
      s.hasPermission ambient request = .ok true := by
  rw [isAvailable]
  cases item.request s.registry with
  | error e => simp
  | ok request => cases hchecked : s.hasPermission ambient request <;> simp [hchecked]

/-- An item is available when its check can be made and says yes. -/
theorem isAvailable_iff : s.isAvailable ambient item = true ↔ s.GrantsItem ambient item := by
  rw [isAvailable_iff_exists]
  constructor
  · rintro ⟨request, hrequest, hgranted⟩
    rw [AvailabilityItem.request] at hrequest
    split at hrequest
    · cases hrequest
    rename_i kind hkind
    split at hrequest
    · cases hrequest
    rename_i action haction
    split at hrequest
    · cases hrequest
    rename_i related hrelated
    rw [Request.make] at hrequest
    split at hrequest
    · rename_i accepted
      cases hrequest
      refine ⟨kind, action, related, accepted, ?_, Action.key_of_ofKey? haction, ?_, hrelated,
        hgranted⟩
      · simpa using List.find?_some hkind
      · simpa [ResourceKind.accepts, Action.isDeny, WorkflowKind.resource, or_comm] using accepted
    · cases hrequest
  · rintro ⟨kind, action, related, accepted, hname, hkey, _, hrelated, hgranted⟩
    refine ⟨_, ?_, hgranted⟩
    rw [AvailabilityItem.request, ← hname, ← hkey, WorkflowKind.ofName?_name, Action.ofKey?_key]
    simp only [hrelated, Request.make, accepted]
    rfl

end AuthorizationService

/-! ## Posts -/

namespace Http

/-- The message posts JSON to the route for permissions. -/
structure Message.AsksForPermissions (m : Message) : Prop where
  method : m.method = "POST"
  route : Route.ofPath? (Target.path m.target) = some .permissions
  contentType : (m.contentType.bind MediaType.ofText?).any MediaType.isJson = true

/-- The message has a token that holds for the user. -/
def Message.SignedFor (m : Message) (server : Server) (user : String) : Prop :=
  ∃ text, bearerToken? m.authorization = some text ∧
    server.decode.subject server.now text = .ok user

/-- The body has no more than two mebibytes, and it is read as the items. -/
structure Message.Carries (m : Message) (items : List AvailabilityItem) : Prop where
  fits : m.body.utf8ByteSize ≤ 2097152
  body : AvailabilityItem.listOfDraft (Json.Draft.ofText m.body).1 = .ok items

/-- The message posts the items to the route for permissions, with a token that holds for
the user. -/
structure Message.Posts (m : Message) (server : Server) (user : String)
    (items : List AvailabilityItem) : Prop where
  asks : m.AsksForPermissions
  token : m.SignedFor server user
  carries : m.Carries items

namespace Server

variable {server : Server} {ambient : Ambient} {m : Message} {user : String}
  {items : List AvailabilityItem}

theorem authenticate_of_signedFor (h : m.SignedFor server user) :
    server.authenticate ambient m =
      ((server.service.roles.rolesOfUser user).mapError ServiceError.ofStore).map fun roles =>
        ambient.actingAs ⟨user, roles⟩ := by
  obtain ⟨text, htext, huser⟩ := h
  rw [authenticate]
  simp only [htext, huser]
  cases server.service.roles.rolesOfUser user <;> rfl

theorem respond_of_asks (h : m.AsksForPermissions) :
    server.respond ambient m =
      match server.authenticate ambient m with
      | .error e => .ofError e
      | .ok inside => server.permissions inside m := by
  have hmethod : m.method ≠ "OPTIONS" := by
    rw [h.method]
    decide
  rw [respond, if_neg hmethod]
  cases server.authenticate ambient m with
  | error e => rfl
  | ok inside =>
    simp only [h.route, Route.allows, h.method, beq_self_eq_true, Bool.not_true, Bool.false_eq_true,
      if_false]

/-- What is answered to a signed message once it is known whether the roles of the user can
be read. -/
theorem respond_of_signedFor (h : m.AsksForPermissions) (htoken : m.SignedFor server user) :
    server.respond ambient m =
      match server.service.roles.rolesOfUser user with
      | .error e => .ofError (.ofStore e)
      | .ok roles => server.permissions (ambient.actingAs ⟨user, roles⟩) m := by
  rw [respond_of_asks h, authenticate_of_signedFor htoken]
  cases server.service.roles.rolesOfUser user <;> rfl

/-- Whoever acts is answered item by item. -/
theorem permissions_of_carries {principal : Principal} (hprincipal : ambient.principal = some principal)
    (h : m.AsksForPermissions) (hcarries : m.Carries items) :
    server.permissions ambient m =
      ⟨200, some (.array (server.service.availability ambient items))⟩ := by
  have hfits : ¬ bodyLimit < m.body.utf8ByteSize := Nat.not_lt.mpr hcarries.fits
  rw [permissions]
  simp only [hprincipal, h.contentType, if_true, hfits, if_false, hcarries.body]

theorem permissions_of_oversized {principal : Principal}
    (hprincipal : ambient.principal = some principal) (h : m.AsksForPermissions)
    (hsize : 2097152 < m.body.utf8ByteSize) :
    server.permissions ambient m = .withoutBody 413 := by
  have hlimit : bodyLimit < m.body.utf8ByteSize := hsize
  rw [permissions]
  simp only [hprincipal, h.contentType, if_true, hlimit]

/-- Entries are answered where somebody acts and the body is read as items. -/
theorem carries_of_entries {entries : List Json}
    (h : (server.permissions ambient m).body = some (.array entries)) :
    ∃ principal items, ambient.principal = some principal ∧
      (m.contentType.bind MediaType.ofText?).any MediaType.isJson = true ∧ m.Carries items := by
  rw [permissions] at h
  split at h
  · cases h
  rename_i principal hprincipal
  split at h
  · rename_i hcontentType
    split at h
    · cases h
    rename_i hfits
    split at h
    · cases h
    · cases h
    · rename_i items hbody
      exact ⟨principal, items, hprincipal, hcontentType, Nat.not_lt.mp hfits, hbody⟩
  · cases h

/-- No other route answers entries, and no other method. -/
theorem routed_of_entries {entries : List Json}
    (h : (server.respond ambient m).body = some (.array entries)) :
    m.method = "POST" ∧ Route.ofPath? (Target.path m.target) = some .permissions ∧
      ∃ inside, server.authenticate ambient m = .ok inside ∧
        (server.permissions inside m).body = some (.array entries) := by
  rw [respond] at h
  split at h
  · cases h
  cases hauthenticated : server.authenticate ambient m with
  | error e =>
    rw [hauthenticated] at h
    cases h
  | ok inside =>
    rw [hauthenticated] at h
    simp only at h
    split at h
    · cases h
    rename_i route hroute
    split at h
    · cases h
    rename_i hallows
    cases route with
    | health =>
      simp only at h
      split at h
      · cases h
      · cases h
    | permissions =>
      have hmethod : m.method = "POST" := by simpa [Route.allows] using hallows
      exact ⟨hmethod, hroute, inside, rfl, h⟩

/-- Without a token the context is the surrounding one. -/
theorem signedFor_of_authenticate (hambient : ambient.principal = none) {inside : Ambient}
    (h : server.authenticate ambient m = .ok inside) {principal : Principal}
    (hprincipal : inside.principal = some principal) : ∃ user, m.SignedFor server user := by
  rw [authenticate] at h
  split at h
  · cases h
    rw [hambient] at hprincipal
    cases hprincipal
  · rename_i text htext
    split at h
    · cases h
    · rename_i user huser
      exact ⟨user, text, htext, huser⟩

/-- Where nobody acts, entries are answered to posts alone. -/
theorem posts_of_entries (hambient : ambient.principal = none) {entries : List Json}
    (h : (server.respond ambient m).body = some (.array entries)) :
    ∃ user items, m.Posts server user items := by
  obtain ⟨hmethod, hroute, inside, hauthenticated, hentries⟩ := routed_of_entries h
  obtain ⟨principal, items, hprincipal, hcontentType, hcarries⟩ := carries_of_entries hentries
  obtain ⟨user, htoken⟩ := signedFor_of_authenticate hambient hauthenticated hprincipal
  exact ⟨user, items, ⟨hmethod, hroute, hcontentType⟩, htoken, hcarries⟩

end Server

/-! ## Lists that can be posted -/

end Http

namespace AvailabilityItem

open Json (Draft Shape)

/-- The item as it is posted. -/
def toJson (item : AvailabilityItem) : Json :=
  .object [("resource", .string item.resource), ("action", .string item.action),
    ("context", .object [("resource", .string item.contextResource),
      ("identifier", .string item.contextIdentifier)])]

theorem readItems_toJson (items : List AvailabilityItem) :
    Shape.readItems true (Draft.ofItems (items.map toJson)) shape = .ok (items.map toJson) := by
  induction items with
  | nil => rfl
  | cons item rest ih =>
    have hitem : Shape.read (.ofJson item.toJson) shape = .ok item.toJson := by rfl
    rw [List.map_cons, Draft.ofItems, Shape.readItems, hitem, ih]
    rfl

theorem mapM_ofRecord?_toJson (items : List AvailabilityItem) :
    (items.map toJson).mapM ofRecord? = some items := by
  induction items with
  | nil => rfl
  | cons item rest ih =>
    rw [List.map_cons, List.mapM_cons, ih]
    rfl

theorem listOfDraft_toJson (items : List AvailabilityItem) :
    listOfDraft (.ofJson (.array (items.map toJson))) = .ok items := by
  have hread : Shape.read (.ofJson (.array (items.map toJson))) (.list shape) =
      .ok (.array (items.map toJson)) := by
    rw [Draft.ofJson, Shape.read, readItems_toJson]
    rfl
  rw [listOfDraft, hread]
  simp only [mapM_ofRecord?_toJson]

theorem rereadItems_toJson (items : List AvailabilityItem) :
    Json.rereadItems (items.map toJson) = items.map toJson := by
  induction items with
  | nil => rfl
  | cons item rest ih =>
    rw [List.map_cons, Json.rereadItems, ih]
    rfl

theorem writable_toJson (items : List AvailabilityItem) :
    Json.ItemsHaveValidNumbers (items.map toJson) ∧ Json.nestingItems (items.map toJson) ≤ 2 := by
  induction items with
  | nil => exact ⟨trivial, Nat.zero_le _⟩
  | cons item rest ih =>
    refine ⟨⟨⟨trivial, trivial, ⟨trivial, trivial, trivial⟩, trivial⟩, ih.1⟩, ?_⟩
    exact Nat.max_le.mpr ⟨Nat.le_refl 2, ih.2⟩

end AvailabilityItem

namespace Http

theorem bearerToken?_bearer {token : String} (h : isHeaderText ("Bearer " ++ token) = true) :
    bearerToken? ["Bearer " ++ token] = some token := by
  have htext : ("Bearer " ++ token).toList = bearerScheme ++ token.toList := String.toList_append
  rw [bearerToken?, h, htext, List.drop_left, String.ofList_toList,
    List.isPrefixOf_iff_prefix.mpr (List.prefix_append _ _)]
  rfl

/-- The message that posts items with a token. -/
def Message.posting (token : String) (items : List AvailabilityItem) : Message where
  method := "POST"
  target := "/api/v1/permissions"
  authorization := ["Bearer " ++ token]
  contentType := some "application/json"
  body := (Json.array (items.map AvailabilityItem.toJson)).text

theorem Message.asks_posting (token : String) (items : List AvailabilityItem) :
    (posting token items).AsksForPermissions where
  method := rfl
  route := by
    show Route.ofPath? (Target.path "/api/v1/permissions") = some .permissions
    decide
  contentType := by
    show (MediaType.ofText? "application/json").any MediaType.isJson = true
    decide +kernel

theorem Message.signedFor_posting {server : Server} {user token : String}
    (htext : isHeaderText ("Bearer " ++ token) = true)
    (huser : server.decode.subject server.now token = .ok user)
    (items : List AvailabilityItem) : (posting token items).SignedFor server user :=
  ⟨token, bearerToken?_bearer htext, huser⟩

theorem Message.carries_posting {token : String} {items : List AvailabilityItem}
    (hfits : (posting token items).body.utf8ByteSize ≤ 2097152) :
    (posting token items).Carries items where
  fits := hfits
  body := by
    obtain ⟨hnumbers, hnesting⟩ := AvailabilityItem.writable_toJson items
    have hread := Json.ofDocument?_text (v := .array (items.map AvailabilityItem.toJson)) hnumbers
      (by rw [Json.nesting, Json.Reader.nestingLimit]; omega)
    have hdraft : (Json.Draft.ofText (posting token items).body).1 =
        .ofJson (.array (items.map AvailabilityItem.toJson)) := by
      rw [Json.Draft.ofDocument?, Json.reread, AvailabilityItem.rereadItems_toJson] at hread
      split at hread
      · rename_i hdraft
        split at hread
        · cases hread
          exact congrArg Prod.fst hdraft
        · cases hread
      · cases hread
    rw [hdraft, AvailabilityItem.listOfDraft_toJson]

/-- Every list of items can be posted whose text is no larger than a body may be. -/
theorem Message.posts_posting {server : Server} {user token : String}
    {items : List AvailabilityItem} (htext : isHeaderText ("Bearer " ++ token) = true)
    (huser : server.decode.subject server.now token = .ok user)
    (hfits : (posting token items).body.utf8ByteSize ≤ 2097152) :
    (posting token items).Posts server user items :=
  ⟨asks_posting token items, signedFor_posting htext huser items, carries_posting hfits⟩

/-! ## Answers -/

namespace Server

/-- Every list whose text fits into a body can be posted.  The answers to posts of a user
whose roles can be read are item by item those of the service under the principal of the
user: as many and in the order of the items, each with its item, available exactly where the
check of the item says yes.  The answers to a list do not depend on what else is posted, so
those to two lists together are those to one and the other.  A body that is too large is not
read.  Where the roles of the user cannot be read, the post is answered by that error.  In a
context in which nobody acts no message without a token is answered by entries. -/
theorem permissions_pointwise (server : Server) (ambient : Ambient) (user : String) :
    (∀ token items, isHeaderText ("Bearer " ++ token) = true →
      server.decode.subject server.now token = .ok user →
      (Json.array (items.map AvailabilityItem.toJson)).text.utf8ByteSize ≤ 2097152 →
      (Message.posting token items).Posts server user items) ∧
    (∀ roles, server.service.roles.rolesOfUser user = .ok roles →
      let inside := ambient.actingAs ⟨user, roles⟩
      (∀ item, server.service.isAvailable inside item = true ↔
        server.service.GrantsItem inside item) ∧
      (∀ (m : Message) items, m.Posts server user items → ∃ entries,
        server.respond ambient m = ⟨200, some (.array entries)⟩ ∧
        List.Forall₂ (fun (item : AvailabilityItem) entry =>
          item.AnsweredBy entry (server.service.isAvailable inside item)) items entries) ∧
      (∀ (m m' whole : Message) items items', m.Posts server user items →
        m'.Posts server user items' → whole.Posts server user (items ++ items') →
        ∃ entries entries', server.respond ambient m = ⟨200, some (.array entries)⟩ ∧
          server.respond ambient m' = ⟨200, some (.array entries')⟩ ∧
          server.respond ambient whole = ⟨200, some (.array (entries ++ entries'))⟩) ∧
      ∀ m : Message, m.AsksForPermissions → m.SignedFor server user →
        2097152 < m.body.utf8ByteSize → server.respond ambient m = .withoutBody 413) ∧
    (∀ e, server.service.roles.rolesOfUser user = .error e →
      ∀ m : Message, m.AsksForPermissions → m.SignedFor server user →
        server.respond ambient m = .ofError (.ofStore e)) ∧
    (ambient.principal = none → ∀ m : Message, bearerToken? m.authorization = none →
      ∀ entries, (server.respond ambient m).body ≠ some (.array entries)) := by
  refine ⟨fun token items htext huser hfits => Message.posts_posting htext huser hfits,
    fun roles hroles => ?_, fun e he m hasks htoken => ?_, fun hambient m hnone entries h => ?_⟩
  · have hinside : ∀ m : Message, m.AsksForPermissions → m.SignedFor server user →
        server.respond ambient m = server.permissions (ambient.actingAs ⟨user, roles⟩) m := by
      intro m hasks htoken
      rw [respond_of_signedFor hasks htoken, hroles]
    have hanswered : ∀ (m : Message) items, m.Posts server user items →
        server.respond ambient m = ⟨200, some (.array
          (server.service.availability (ambient.actingAs ⟨user, roles⟩) items))⟩ := by
      intro m items hposts
      rw [hinside m hposts.asks hposts.token, permissions_of_carries rfl hposts.asks hposts.carries]
    refine ⟨fun item => AuthorizationService.isAvailable_iff, fun m items hposts => ?_, ?_, ?_⟩
    · refine ⟨_, hanswered m items hposts, ?_⟩
      rw [AuthorizationService.availability, List.forall₂_map_right_iff]
      exact List.forall₂_same.mpr fun item _ => item.answeredBy_answered _
    · intro m m' whole items items' hposts hposts' hwhole
      refine ⟨_, _, hanswered m items hposts, hanswered m' items' hposts', ?_⟩
      rw [hanswered whole _ hwhole, AuthorizationService.availability, List.map_append]
      rfl
    · intro m hasks htoken hsize
      rw [hinside m hasks htoken, permissions_of_oversized rfl hasks hsize]
  · rw [respond_of_signedFor hasks htoken, he]
  · obtain ⟨_, _, hposts⟩ := posts_of_entries hambient h
    obtain ⟨text, htext, _⟩ := hposts.token
    rw [hnone] at htext
    cases htext

open Database.Filed (deployed northern)

/-- The store with the tasks of the north, of which the user is a reader. -/
def staffed : Database := { deployed northern with assignments := [⟨"user", .issued 1⟩] }

/-- A server to which every token is one of the user. -/
def trusting (store : Database) : Server :=
  ⟨store, fun _ => some ⟨SignedToken.requiredAlgorithm, true, "user", 0⟩, 0⟩

theorem rolesOfUser_staffed :
    (trusting staffed).service.roles.rolesOfUser "user" = .ok (.ofList [⟨"reader"⟩]) := by cbv

/-- To view a task, with the task itself for a context. -/
def viewing (id : String) : AvailabilityItem := ⟨"task", "view", "task", id⟩

theorem posts_trusting (store : Database) {items : List AvailabilityItem}
    (hfits : (Message.posting "token" items).body.utf8ByteSize ≤ 2097152) :
    (Message.posting "token" items).Posts (trusting store) "user" items :=
  Message.posts_posting (by decide) rfl hfits

/-- A task that does not exist and a resource without kind are not available to the user,
and they do not keep the task of the north from being answered. -/
theorem permissions_pointwise_northern :
    (deployed northern).assignRole "user" ⟨"reader"⟩ = .ok staffed ∧
    ∃ entries,
      (trusting staffed).respond .fresh (.posting "token"
        [viewing "t9", ⟨"gadget", "view", "task", "t1"⟩, viewing "t1"]) =
          ⟨200, some (.array entries)⟩ ∧
      entries.map (fun entry => entry.get? "available") =
        [some (.bool false), some (.bool false), some (.bool true)] := by
  obtain ⟨hposts, hreadable, _⟩ := permissions_pointwise (trusting staffed) .fresh "user"
  obtain ⟨_, hanswered, _⟩ := hreadable _ rolesOfUser_staffed
  obtain ⟨entries, hrespond, hentries⟩ := hanswered _ [viewing "t9",
    ⟨"gadget", "view", "task", "t1"⟩, viewing "t1"]
      (hposts "token" _ (by decide) rfl (by decide +kernel))
  refine ⟨by cbv, entries, hrespond, ?_⟩
  rw [Outcome.map_forall₂ (fun _ _ h => h.available) hentries]
  cbv

/-! ## Posts without entries, and entries without a token -/

/-- The store after the table of assignments was dropped. -/
def unstaffed : Database := { staffed with present := staffed.present.filter (· != "user_roles") }

/-- The message of one item with a token. -/
def signed : Message := .posting "token" [viewing "t1"]

theorem signed_fits : signed.body.utf8ByteSize ≤ 2097152 := by decide +kernel

theorem respond_unstaffed :
    (trusting unstaffed).respond .fresh signed =
      .ofError (.internal "store backend error: no such table: user_roles") := by
  have hposts := posts_trusting unstaffed signed_fits
  have hroles : (trusting unstaffed).service.roles.rolesOfUser "user" =
      .error (.backend "no such table: user_roles") := by cbv
  rw [signed, respond_of_signedFor hposts.asks hposts.token, hroles]
  rfl

/-- To view the task of the north, more often than a body has room for. -/
def crowd : List AvailabilityItem := List.replicate 2097152 (viewing "t1")

theorem oversized_crowd : 2097152 < (Message.posting "token" crowd).body.utf8ByteSize := by
  have hlength : (crowd.map AvailabilityItem.toJson).length = 2097152 := by
    rw [List.length_map, crowd, List.length_replicate]
  exact hlength ▸ Json.length_lt_utf8ByteSize_text (crowd.map AvailabilityItem.toJson)

theorem signedFor_crowd : (Message.posting "token" crowd).SignedFor (trusting staffed) "user" :=
  Message.signedFor_posting (by decide) rfl crowd

theorem respond_crowd :
    (trusting staffed).respond .fresh (.posting "token" crowd) = .withoutBody 413 := by
  have hasks := Message.asks_posting "token" crowd
  rw [respond_of_signedFor hasks signedFor_crowd, rolesOfUser_staffed]
  exact permissions_of_oversized rfl hasks oversized_crowd

/-- The context of a reader who acts before any token is looked at. -/
def acting : Ambient := Ambient.fresh.actingAs ⟨"user", .ofList [⟨"reader"⟩]⟩

/-- The same message without its token. -/
def unsigned : Message := { signed with authorization := [] }

theorem respond_unsigned :
    (trusting staffed).respond acting unsigned =
      ⟨200, some (.array [(viewing "t1").answered true])⟩ := by
  have hcarries := Message.carries_posting signed_fits
  have hsigned : signed.AsksForPermissions := Message.asks_posting "token" [viewing "t1"]
  have hasks : unsigned.AsksForPermissions := ⟨rfl, hsigned.route, hsigned.contentType⟩
  have havailable : (trusting staffed).service.availability acting [viewing "t1"] =
      [(viewing "t1").answered true] := by cbv
  rw [respond_of_asks hasks]
  show (trusting staffed).permissions acting unsigned = _
  rw [permissions_of_carries rfl hasks ⟨hcarries.fits, hcarries.body⟩, havailable]

/-- A list that is posted with a token that holds is not answered by entries where the roles
of the user cannot be read, nor where its text is too large.  And an entry is answered
without a token where somebody acts already. -/
theorem entries_not_of_posts_alone :
    (staffed.dropTable "user_roles" = .ok unstaffed ∧
      signed.Posts (trusting unstaffed) "user" [viewing "t1"] ∧
      ∀ entries, ((trusting unstaffed).respond .fresh signed).body ≠ some (.array entries)) ∧
    ((Message.posting "token" crowd).AsksForPermissions ∧
      (Message.posting "token" crowd).SignedFor (trusting staffed) "user" ∧
      (Message.posting "token" crowd).body =
        (Json.array (crowd.map AvailabilityItem.toJson)).text ∧
      ∀ entries, ((trusting staffed).respond .fresh (.posting "token" crowd)).body ≠
        some (.array entries)) ∧
    (bearerToken? unsigned.authorization = none ∧
      ((trusting staffed).respond acting unsigned).body =
        some (.array [(viewing "t1").answered true])) := by
  refine ⟨⟨by cbv, posts_trusting unstaffed signed_fits, fun entries h => ?_⟩,
    ⟨Message.asks_posting "token" crowd, signedFor_crowd, rfl, fun entries h => ?_⟩, rfl, ?_⟩
  · rw [respond_unstaffed] at h
    cases h
  · rw [respond_crowd] at h
    cases h
  · rw [respond_unsigned]

end Server
end Http
end AccessPolicy
