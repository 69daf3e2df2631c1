import ApiDocs.Text.Pieces
/-!
# Path texts

A path is a text of names with slashes between them. Empty names and single dots say nothing, except
for a dot at the front, which stands for the folder that relative paths start from.
-/
namespace ApiDocs.Path

/-- The pieces of a path between its slashes. -/
def pieces (path : String) : List String :=
  (Text.splitAt '/' path.toList).map String.ofList

def isAbsolute (path : String) : Bool :=
  Text.startsWith path "/"

/-- The path of a name below a folder; an absolute path stands alone. -/
def join (folder name : String) : String :=
  if isAbsolute name then name
  else if folder.isEmpty || Text.endsWith folder "/" then folder ++ name
  else folder ++ "/" ++ name

/-- Whether a piece of a path, or its first piece, says nothing. -/
def isIdle (first : Bool) (piece : String) : Bool :=
  piece.isEmpty || (piece == "." && !first)

/-- The pieces without those at the end that say nothing. -/
def trimIdle : List String → List String
  | [] => []
  | p :: rest =>
    if rest.all (isIdle false) then if isIdle true p then [] else [p]
    else p :: trimRest rest
where
  /-- The same for pieces none of which is the first. -/
  trimRest (ps : List String) : List String :=
    (ps.reverse.dropWhile (isIdle false)).reverse

/-- The path without its last name; none if it has no name. -/
def parent? (path : String) : Option String :=
  match trimIdle (pieces path) with
  | [] => none
  | named =>
    let above := Text.join "/" (trimIdle named.dropLast)
    some (if above.isEmpty && isAbsolute path then "/" else above)

/-- A path, the path of its folder, and so on. -/
def ancestors (path : String) : List String :=
  go path.length path
where
  go : Nat → String → List String
    | 0, p => [p]
    | fuel + 1, p =>
      match parent? p with
      | some above => p :: go fuel above
      | none => [p]

/-- The last name of a path, unless it is of dots. -/
def fileName? (path : String) : Option String :=
  match (trimIdle (pieces path)).getLast? with
  | some name => if name == "." || name == ".." then none else some name
  | none => none

/-- The name before its last dot and what follows it. A dot at the front belongs to the name. -/
def splitName (name : String) : String × Option String :=
  let cs := name.toList
  let after := Text.afterLast '.' cs
  let before := cs.take (cs.length - after.length - 1)
  if before.isEmpty then (name, none) else (String.ofList before, some (String.ofList after))

end ApiDocs.Path
