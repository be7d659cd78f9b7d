/-!
# Paths

A path is a list of names to follow from a directory. An empty name or `.` stays where it is, `..`
goes one directory up. Such names are kept, because they take room and tell what a path may lead to.
-/

namespace GridCircuit

structure Path where
  /-- Whether the path starts at the top of all files. -/
  absolute : Bool
  /-- What stands between the slashes; empty in front of the first slash of an absolute path. -/
  names : List String
deriving DecidableEq, Repr

namespace Path

def ofString (text : String) : Path := ⟨text.startsWith "/", text.splitOn "/"⟩

def size (p : Path) : Nat := p.names.foldl (fun n name => n + (name.utf8ByteSize + 1)) 0 - 1

def hasNul (p : Path) : Bool := p.names.any fun name => name.toList.contains '\x00'

def isIdle (name : String) : Bool := name = "" || name = "."

/-- The names that lead to the directory above the end of a path, the last one first. -/
def namesAbove (p : Path) : List String := (p.names.reverse.dropWhile isIdle).drop 1

def endsInSlash (p : Path) : Bool := p.names.getLast? = some ""

/-- The names that lead to the directory in which the last name of a path is looked up. A last `.` or
`..` is not looked up; it leads to a directory itself. -/
def namesOfDirectory (p : Path) : List String :=
  let names := p.names.filter (· ≠ "")
  if names.getLast? = some "." || names.getLast? = some ".." then names else names.dropLast

end Path

end GridCircuit
