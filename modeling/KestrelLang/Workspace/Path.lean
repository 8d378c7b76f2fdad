/-! # Paths

* `Path.clean` — the shortest path that names the same place.
* `Path.join`, `Path.extension`, `Path.baseName`, `Path.directory` — parts of paths.
* `Path.relativeTo?` — a path as seen from a directory.
* `Path.shown` — how a message shows a path: paths below the working directory are shortened.

A path is text with slashes between its components; a leading slash makes it absolute. -/

namespace KestrelLang.Path

def isAbsolute (path : String) : Bool := path.toList.head? = some '/'

def components (path : String) : List String :=
  (path.splitOn "/").filter (· ≠ "")

/-- Resolves `.` and `..`, given the components before in reverse order. At the root there is
    nothing above; a relative path keeps the `..` that lead out of it. -/
def resolve (absolute : Bool) : List String → List String → List String
  | before, [] => before.reverse
  | before, c :: cs =>
    if c = "." then resolve absolute before cs
    else if c = ".." then
      match before with
      | [] => if absolute then resolve absolute [] cs else resolve absolute [".."] cs
      | b :: bs =>
        if b = ".." then resolve absolute (".." :: before) cs else resolve absolute bs cs
    else resolve absolute (c :: before) cs

def cleanComponents (path : String) : List String :=
  resolve (isAbsolute path) [] (components path)

def ofComponents (absolute : Bool) (cs : List String) : String :=
  let body := "/".intercalate cs
  if absolute then "/" ++ body else if body = "" then "." else body

def clean (path : String) : String :=
  ofComponents (isAbsolute path) (cleanComponents path)

/-- `name` as seen from `dir`, cleaned; an absolute `name` stays below `dir` all the same. -/
def join (dir name : String) : String :=
  if dir = "" then (if name = "" then "" else clean name)
  else if name = "" then clean dir
  else clean (dir ++ "/" ++ name)

def baseName (path : String) : String :=
  match (components path).getLast? with
  | some name => name
  | none => if isAbsolute path then "/" else "."

def directory (path : String) : String :=
  let parts := path.splitOn "/"
  clean ("/".intercalate parts.dropLast ++ if parts.length ≤ 1 then "" else "/")

def extension (path : String) : String :=
  let name := ((path.splitOn "/").getLast?).getD ""
  match (name.splitOn ".").reverse with
  | last :: _ :: _ => "." ++ last
  | _ => ""

def dropShared : List String → List String → List String × List String
  | a :: as, b :: bs => if a = b then dropShared as bs else (a :: as, b :: bs)
  | as, bs => (as, bs)

/-- `path` as seen from `dir`; nothing if one is absolute and the other is not, or if `dir` leads out
    of what is known. -/
def relativeTo? (dir path : String) : Option String :=
  if isAbsolute dir ≠ isAbsolute path then none
  else
    let (up, down) := dropShared (cleanComponents dir) (cleanComponents path)
    if up.head? = some ".." then none
    else
      let parts := up.map (fun _ => "..") ++ down
      some (if parts.isEmpty then "." else "/".intercalate parts)

/-- How a message shows a path: an absolute path is given as seen from the working directory, unless
    that would lead upwards. -/
def shown (workingDir path : String) : String :=
  if isAbsolute path then
    match relativeTo? workingDir path with
    | some short => if short.startsWith ".." then path else short
    | none => path
  else path

end KestrelLang.Path
