/-
The command line of the administration tool.

Arguments are read before anything else, so a slip in them is reported whatever
the state of the store.
-/
import AccessPolicy.Condition.Format
import AccessPolicy.Database.Entities
import AccessPolicy.Database.Location
import AccessPolicy.Database.Migration
import AccessPolicy.Deployment
import AccessPolicy.EnvironmentFile

namespace AccessPolicy
namespace CommandLine

/-! ## Arguments -/

inductive Command where
  | migrateRun
  | migrateStatus
  | deploy (file : String)
  | assignRole (user role : String)
  | roles (user : String)
  | permissions
deriving DecidableEq, Repr

/-- A command by name, with what it is for and the names of its arguments. -/
structure Entry where
  name : String
  purpose : String
  arguments : List String
  command : List String → Option Command

/-- The commands in the order in which they are listed.  A file has a name. -/
def entries : List Entry :=
  [⟨"migrate-run", "Apply pending migrations", [], fun _ => some .migrateRun⟩,
    ⟨"migrate-status", "Show migration status against the current database", [],
      fun _ => some .migrateStatus⟩,
    ⟨"deploy", "Replace the stored permissions with the definitions in a JSON file", ["FILE"],
      fun
        | [file] => if file.isEmpty then none else some (.deploy file)
        | _ => none⟩,
    ⟨"assign-role", "Grant a role to a user", ["USER", "ROLE"],
      fun
        | [user, role] => some (.assignRole user role)
        | _ => none⟩,
    ⟨"roles", "List the roles held by a user", ["USER"],
      fun
        | [user] => some (.roles user)
        | _ => none⟩,
    ⟨"permissions", "List every stored permission", [], fun _ => some .permissions⟩]

/-- A text with blanks after it up to a number of characters. -/
def padded (width : Nat) (s : String) : String :=
  String.ofList (s.toList ++ List.replicate (width - s.length) ' ')

def version : String := "workflow-authz 0.1.0\n"

def lines (ls : List String) : String := String.join (ls.map (· ++ "\n"))

def helpPurpose : String := "Print this message or the help of the given subcommand(s)"

/-- What the tool is and which commands it has. -/
def help : String :=
  lines (["workflow authorization admin tool", "", "Usage: authz-cli <COMMAND>", "", "Commands:"] ++
    (entries.map fun e => "  " ++ padded 16 e.name ++ e.purpose) ++
    ["  " ++ padded 16 "help" ++ helpPurpose, "", "Options:",
      "  -h, --help     Print help", "  -V, --version  Print version"])

/-- What a command is for and which arguments it takes. -/
def Entry.help (e : Entry) : String :=
  let places := e.arguments.map fun a => "<" ++ a ++ ">"
  let usage := "Usage: " ++ String.intercalate " " ("authz-cli" :: e.name :: places)
  lines ([e.purpose, "", usage, ""] ++
    (if places.isEmpty then [] else "Arguments:" :: places.map ("  " ++ · ++ "  ") ++ [""]) ++
    ["Options:", "  -h, --help  Print help"])

/-- What asking for help is for.  It has no options of its own. -/
def helpOnHelp : String :=
  lines [helpPurpose, "", "Usage: authz-cli help [COMMAND]...", "", "Arguments:",
    "  [COMMAND]...  Print help for the subcommand(s)"]

/-- A cluster of short options is taken from the left, so what follows an `h` in
it is not looked at. -/
def asksForHelp (arg : String) : Bool := arg == "--help" || "-h".toList.isPrefixOf arg.toList

def asksForVersion (arg : String) : Bool :=
  arg == "--version" || "-V".toList.isPrefixOf arg.toList

/-- What arguments ask for. -/
inductive Request where
  | run (command : Command)
  | print (text : String)
  | usage

/-- The command with all of its values, if they are as many as it takes. -/
def Entry.complete (e : Entry) (values : List String) : Request :=
  if values.length = e.arguments.length then
    match e.command values with
    | some command => .run command
    | none => .usage
  else .usage

/-- Reads the values of a command.  After two hyphens everything is a value, and
before them only what does not start with a hyphen, the single hyphen apart. -/
def readValues (e : Entry) : List String → List String → Request
  | values, [] => e.complete values
  | values, arg :: rest =>
    if arg = "--" then e.complete (values ++ rest)
    else if asksForHelp arg then .print e.help
    else if arg ≠ "-" ∧ "-".toList.isPrefixOf arg.toList then .usage
    else if values.length < e.arguments.length then readValues e (values ++ [arg]) rest
    else .usage

def entry? (name : String) : Option Entry := entries.find? fun e => e.name == name

/-- What the arguments after the name of the tool ask for. -/
def read : List String → Request
  | [] => .usage
  | arg :: rest =>
    if asksForHelp arg then .print help
    else if asksForVersion arg then .print version
    else if arg = "help" then
      match rest with
      | [] => .print help
      | [name] =>
        if name = "help" then .print helpOnHelp
        else
          match entry? name with
          | some e => .print e.help
          | none => .usage
      | _ => .usage
    else
      match entry? arg with
      | some e => readValues e [] rest
      | none => .usage

/-! ## Running -/

/-- What is printed and how the tool ends. -/
structure Outcome where
  code : Nat
  output : String
deriving DecidableEq, Repr

namespace Outcome

def success (output : String) : Outcome := ⟨0, output⟩

def failure : Outcome := ⟨1, ""⟩

def misuse : Outcome := ⟨2, ""⟩

end Outcome

/-- Every migration with its status. -/
def statusTable (db : Database) : String :=
  let row (status version name : String) : String :=
    padded 8 status ++ " " ++ padded 20 version ++ " " ++ name
  lines (row "Status" "Version" "Name" :: Migration.all.map fun m =>
    row (if m.isApplied db then "applied" else "pending") (toString m.version) m.name)

/-- A line of the table of permissions. -/
def permissionLine (role resource action conditions : String) : String :=
  padded 20 role ++ " " ++ padded 20 resource ++ " " ++ padded 12 action ++ " " ++ conditions

def permissionHeader : String :=
  lines [permissionLine "Role" "Resource" "Action" "Conditions"]

def permissionTable (ps : List Permission) : String :=
  lines (ps.map fun p =>
    permissionLine p.role.key p.resourceType.name p.action.key (Condition.listText p.conditions))

/-- A directory of this name in the working directory is where migrations are
looked for first. -/
def migrationsName : String := "migrations"

/-- The files that a command reads if they are there. -/
def Command.files : Command → List String
  | .migrateRun | .migrateStatus => [migrationsName]
  | .deploy file => [file]
  | .assignRole .. | .roles _ | .permissions => []

/-- Whether a command changes the store. -/
def Command.writes : Command → Bool
  | .migrateRun | .deploy _ | .assignRole .. => true
  | .migrateStatus | .roles _ | .permissions => false

/-- Runs a command on the store, with the texts of the files that there are.  A
plain file in the place of the directory of migrations cannot be read as one.
The header of the permissions is printed before the store is asked. -/
def run (files : String → Option String) (db : Database) : Command → Outcome × Database
  | .migrateRun =>
    if db.closed || (files migrationsName).isSome then (.failure, db)
    else (.success "Migrations applied\n", db.migrate)
  | .migrateStatus =>
    if db.closed || (files migrationsName).isSome then (.failure, db)
    else (.success (statusTable db), db)
  | .deploy file =>
    match Deployment.deployText db.registry db (files file) with
    | .error _ => (.failure, db)
    | .ok (summary, db) =>
      (.success (lines ["Deployed " ++ toString summary.permissions ++ " permissions for " ++
        toString summary.roles ++ " roles"]), db)
  | .assignRole user role =>
    match db.assignRole user ⟨role⟩ with
    | .error _ => (.failure, db)
    | .ok db => (.success (lines ["Assigned " ++ role ++ " to " ++ user]), db)
  | .roles user =>
    match (db.repository db.registry).rolesOfUser user with
    | .error _ => (.failure, db)
    | .ok roles => (.success (lines roles.keys), db)
  | .permissions =>
    match db.allPermissions db.registry with
    | .error _ => (⟨1, permissionHeader⟩, db)
    | .ok ps => (.success (permissionHeader ++ permissionTable ps), db)

/-! ## Workspace -/

/-- Where the tool runs: the environment variables, the texts of the files and
the stores that are kept in files, both by name. -/
structure Workspace where
  environment : List (String × String)
  texts : String → Option String
  stores : List (String × Database)

namespace Workspace

/-- The name under which a file of the working directory is known. -/
def fileName (path : String) : String :=
  match path.splitOn "/" with
  | "." :: rest => String.intercalate "/" (rest.dropWhile fun part => part = "." || part.isEmpty)
  | _ => path

def text? (w : Workspace) (path : String) : Option String := w.texts (fileName path)

/-- The file that the environment is extended by, if it is there. -/
def environmentName : String := ".env"

/-- The value of an environment variable. -/
def setting? (w : Workspace) (name : String) : Option String :=
  match w.text? environmentName with
  | some text => (EnvironmentFile.load w.environment text).lookup name
  | none => w.environment.lookup name

/-- The location of the store. -/
def location? (w : Workspace) : Option Database.Location :=
  (w.setting? "DATABASE_URL").bind Database.Location.ofUrl?

/-- The store at a location, if it can be opened.  A text in its place is found
out later: it is opened, but nothing can be done with it. -/
def open? (w : Workspace) (l : Database.Location) : Option Database :=
  if l.isTransient then some .blank
  else
    let name := fileName l.file
    match w.stores.lookup name, w.texts name with
    | some db, _ => some db
    | none, some text => some (if text.isEmpty then .blank else Database.blank.close)
    | none, none =>
      if l.access.create && !l.access.readOnly && !name.toList.contains '/' && name != "." &&
        name != ".." then some .blank
      else none

/-- Keeps the store under its name. -/
def keep (w : Workspace) (l : Database.Location) (db : Database) : Workspace :=
  if l.isTransient || l.access.readOnly then w
  else { w with stores := (fileName l.file, db) :: w.stores }

end Workspace

/-- Runs the tool with arguments.  A command needs a store. -/
def execute (w : Workspace) (arguments : List String) : Outcome × Workspace :=
  match read arguments with
  | .usage => (.misuse, w)
  | .print text => (.success text, w)
  | .run command =>
    match w.location? with
    | none => (.failure, w)
    | some l =>
      match w.open? l with
      | none => (.failure, w)
      | some db =>
        if command.writes && l.access.readOnly then (.failure, w)
        else
          let (outcome, db) := run w.text? db command
          (outcome, w.keep l db)

end CommandLine
end AccessPolicy
