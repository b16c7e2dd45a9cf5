/-
The target of a request.

A target is a path, or a URL with a scheme and an authority before the path.  A
query or a fragment may follow.
-/
namespace AccessPolicy
namespace Http
namespace Target

def endsPath (c : Char) : Bool := c = '?' || c = '#'

def endsAuthority (c : Char) : Bool := c = '/' || endsPath c

/-- The characters after the first `://`, if there is one. -/
def afterScheme? : List Char → Option (List Char)
  | [] => none
  | ':' :: '/' :: '/' :: rest => some rest
  | _ :: rest => afterScheme? rest

/-- The path of a target.  A URL without a path asks for the root, and an
authority by itself has no path. -/
def path (target : String) : List Char :=
  match target.toList with
  | '/' :: rest => '/' :: rest.takeWhile fun c => !endsPath c
  | cs =>
    match afterScheme? cs with
    | none => []
    | some rest =>
      match (rest.dropWhile fun c => !endsAuthority c).takeWhile fun c => !endsPath c with
      | [] => ['/']
      | path => path

end Target
end Http
end AccessPolicy
