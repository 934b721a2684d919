namespace ArchiveOverlay.HostPath

/-- Drops slashes and `.` pieces at the end of a path, which is given backwards and without the
slash of the root. Only in a path from the root may the last `.` go too. -/
def trimBackwards (rooted : Bool) : List Char → List Char
  | '/' :: rest => trimBackwards rooted rest
  | ['.'] => if rooted then [] else ['.']
  | '.' :: '/' :: rest => trimBackwards rooted ('/' :: rest)
  | s => s

/-- A path taken apart: whether it starts at the root, and the rest backwards without what may be
dropped at the end. -/
def takeApart (path : String) : Bool × List Char :=
  match path.toList with
  | '/' :: rest => (true, trimBackwards true rest.reverse)
  | s => (false, trimBackwards false s.reverse)

/-- The last name of a path, unless it goes up or stays. -/
def fileName? (path : String) : Option String :=
  let name := String.ofList ((takeApart path).2.takeWhile (· ≠ '/')).reverse
  if name = "" ∨ name = "." ∨ name = ".." then none else some name

/-- The path without its last name. The root and the empty path have no parent. -/
def parent? (path : String) : Option String :=
  match takeApart path with
  | (_, []) => none
  | (rooted, s) =>
    let rest := (trimBackwards rooted (s.dropWhile (· ≠ '/'))).reverse
    some (String.ofList (if rooted then '/' :: rest else rest))

/-- What follows the last dot of the file name, if the dot is not its first character. -/
def extension? (path : String) : Option String :=
  (fileName? path).bind fun name =>
    let backwards := name.toList.reverse
    match backwards.dropWhile (· ≠ '.') with
    | _ :: _ :: _ => some (String.ofList (backwards.takeWhile (· ≠ '.')).reverse)
    | _ => none

def isAbsolute (path : String) : Bool :=
  path.toList.head? = some '/'

/-- A path as seen from a directory. An absolute path stays what it is. -/
def join (dir path : String) : String :=
  if isAbsolute path || dir = "" then path
  else if dir.toList.getLast? = some '/' then dir ++ path
  else dir ++ "/" ++ path

/-- The path itself, its parent, and so on outwards. -/
def ancestorsFrom : (fuel : Nat) → String → List String
  | 0, path => [path]
  | fuel + 1, path =>
    match parent? path with
    | none => [path]
    | some outer => path :: ancestorsFrom fuel outer

def ancestors (path : String) : List String :=
  ancestorsFrom path.length path

/-- The pieces between slashes, empty ones included. -/
def pieces : List Char → List (List Char)
  | [] => [[]]
  | c :: rest =>
    if c = '/' then [] :: pieces rest
    else
      match pieces rest with
      | [] => [[c]]
      | piece :: more => (c :: piece) :: more

end ArchiveOverlay.HostPath
