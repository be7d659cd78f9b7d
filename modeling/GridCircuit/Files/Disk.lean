import GridCircuit.Document
import GridCircuit.Files.Basic
import GridCircuit.Files.Path

/-!
# Files below a directory

A disk is a table of directories. One of them is the root, where relative paths start; apart from the
directories that lead to it, there is nothing outside the root at first. Writing a file first makes
the directories above it.
-/

namespace GridCircuit

/-- What a name in a directory stands for; a directory is given by its place in the table. -/
inductive DiskEntry where
  | file (bytes : ByteArray)
  | directory (id : Nat)
deriving Inhabited

structure Directory where
  /-- The directory that `..` leads to. -/
  above : Nat := 0
  entries : KeyMap String DiskEntry := ∅
deriving Inhabited

structure Disk where
  /-- All directories; the first one is the top. -/
  directories : Array Directory := #[{}]
  root : Nat := 0
  /-- The bytes that the path of the root takes in front of a relative path. -/
  rootSize : Nat := 1

/-- Where a path leads. -/
inductive Place where
  | directory (id : Nat)
  | file (parent : Nat) (name : String) (bytes : ByteArray)
  | missing (parent : Nat) (name : String)

namespace Disk

def notFound : IoError := ⟨.notFound, "No such file or directory (os error 2)"⟩
def alreadyExists : IoError := ⟨.alreadyExists, "File exists (os error 17)"⟩
def notADirectory : IoError := ⟨.notADirectory, "Not a directory (os error 20)"⟩
def isADirectory : IoError := ⟨.isADirectory, "Is a directory (os error 21)"⟩
def nameTooLong : IoError := ⟨.nameTooLong, "File name too long (os error 36)"⟩
def invalidData : IoError := ⟨.invalidData, "stream did not contain valid UTF-8"⟩
def invalidInput : IoError := ⟨.invalidInput, "file name contained an unexpected NUL byte"⟩

/-- The longest name in bytes. -/
def maxName : Nat := 255

/-- The longest path from the top in bytes. -/
def maxPath : Nat := 4095

def entry? (d : Disk) (id : Nat) (name : String) : Option DiskEntry :=
  d.directories[id]?.bind (·.entries.get? name)

/-- Let a name in a directory stand for something. -/
def setEntry (d : Disk) (id : Nat) (name : String) (e : DiskEntry) : Disk :=
  { d with directories := d.directories.modify id fun dir =>
      { dir with entries := dir.entries.insert name e } }

def addDirectory (d : Disk) (parent : Nat) (name : String) : Disk :=
  let id := d.directories.size
  { d with directories := d.directories.push { above := parent } }.setEntry parent name (.directory id)

/-- A disk whose root is reached from the top by the given names. -/
def below (names : List String) : Disk :=
  names.foldl (fun d name =>
    { d.addDirectory d.root name with
      root := d.directories.size
      rootSize := d.rootSize + name.utf8ByteSize + 1 }) {}

/-- What makes a path unusable, whatever there is on the disk. -/
def checkPath (d : Disk) (p : Path) : Except IoError Unit :=
  if p.hasNul then .error invalidInput
  else if (if p.absolute then 0 else d.rootSize) + p.size > maxPath then .error nameTooLong
  else .ok ()

/-- Follow one name. Only a directory can be entered, and a name is looked at only after that. -/
def enter (d : Disk) (place : Place) (name : String) : Except IoError Place :=
  match place with
  | .directory id =>
    if Path.isIdle name then .ok place
    else if name = ".." then .ok (.directory (d.directories[id]?.elim 0 (·.above)))
    else if name.utf8ByteSize > maxName then .error nameTooLong
    else
      match d.entry? id name with
      | some (.directory id) => .ok (.directory id)
      | some (.file bytes) => .ok (.file id name bytes)
      | none => .ok (.missing id name)
  | .file .. => .error notADirectory
  | .missing .. => .error notFound

def startOf (d : Disk) (p : Path) : Place := .directory (if p.absolute then 0 else d.root)

def locate (d : Disk) (p : Path) : Except IoError Place := do
  d.checkPath p
  p.names.foldlM d.enter (d.startOf p)

def readBytes (d : Disk) (path : String) : Except IoError ByteArray := do
  match ← d.locate (.ofString path) with
  | .file _ _ bytes => return bytes
  | .directory _ => throw isADirectory
  | .missing .. => throw notFound

def read (d : Disk) (path : String) : Except IoError String := do
  let bytes ← d.readBytes path
  match String.fromUTF8? bytes with
  | some text => return text
  | none => throw invalidData

/-- Write the bytes of a file in a directory that is there. A path that ends in a slash is none of a
file. Its last name is not looked up, but the directory for that has to be there. -/
def writeBytes (d : Disk) (path : String) (bytes : ByteArray) : Except IoError Disk := do
  let p := Path.ofString path
  d.checkPath p
  if p.endsInSlash then
    let _ ← (p.namesOfDirectory ++ ["."]).foldlM d.enter (d.startOf p)
    throw isADirectory
  match ← d.locate p with
  | .directory _ => throw isADirectory
  | .file parent name _ => return d.setEntry parent name (.file bytes)
  | .missing parent name => return d.setEntry parent name (.file bytes)

def makeDirectory (d : Disk) (p : Path) : Except IoError Disk := do
  match ← d.locate p with
  | .missing parent name => return d.addDirectory parent name
  | _ => throw alreadyExists

def isDirectory (d : Disk) (p : Path) : Bool :=
  match d.locate p with
  | .ok (.directory _) => true
  | _ => false

/-- Make a directory and, if they are missing, those above it. Directories that are there already do
no harm. The names come last one first; what was made before an error stays. -/
def makeDirectories (absolute : Bool) : List String → Disk → Disk × Option IoError
  | [], d => (d, none)
  | name :: above, d =>
    if Path.isIdle name then makeDirectories absolute above d
    else
      let p : Path := ⟨absolute, (name :: above).reverse⟩
      let tolerate (d : Disk) (e : IoError) : Disk × Option IoError :=
        (d, if d.isDirectory p then none else some e)
      match d.makeDirectory p with
      | .ok d => (d, none)
      | .error e =>
        if e.kind = .notFound then
          match makeDirectories absolute above d with
          | (d, some e) => (d, some e)
          | (d, none) =>
            match d.makeDirectory p with
            | .ok d => (d, none)
            | .error e => tolerate d e
        else
          tolerate d e

/-- Write a text and first make the directories above it. The disk is given back also when the file
itself could not be written. -/
def write (d : Disk) (path text : String) : Disk × Except IoError Unit :=
  let p := Path.ofString path
  match makeDirectories p.absolute p.namesAbove d with
  | (d, some e) => (d, .error e)
  | (d, none) =>
    match d.writeBytes path text.toUTF8 with
    | .ok d => (d, .ok ())
    | .error e => (d, .error e)

/-- The names of parts in every document on the disk. -/
def mentioned (d : Disk) : List String :=
  d.directories.toList.flatMap fun dir =>
    dir.entries.entries.flatMap fun e =>
      match e.2 with
      | .file bytes =>
        match String.fromUTF8? bytes with
        | some text => (Document.parse text).components.entries.map (·.2)
        | none => []
      | .directory _ => []

/-- The disk as files that a loader may read: a path has endless spellings, and these are the ones
that can come up when loading starts from the given names. -/
def source (d : Disk) (starts : List String) : FileSource where
  names := starts ++ d.mentioned
  read name := if name ∈ starts ++ d.mentioned then d.read name else .error notFound
  mem_names {name text} h := by
    split at h
    · assumption
    · cases h

end Disk

end GridCircuit
