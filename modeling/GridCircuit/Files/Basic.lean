import GridCircuit.KeyMap

/-!
# Files

Documents and script sources are texts under names. What a name means is up to the storage.
-/

namespace GridCircuit

inductive IoErrorKind where
  | notFound
  | notADirectory
  | isADirectory
  | alreadyExists
  | invalidData
  | invalidInput
  | nameTooLong
  | other
deriving DecidableEq, Repr

/-- Why a file cannot be read or written. -/
structure IoError where
  kind : IoErrorKind
  text : String
deriving DecidableEq, Repr

/-- What can be read: finitely many names, and a text or an error for each. -/
structure FileSource where
  names : List String
  read : String → Except IoError String
  mem_names : ∀ {name text}, read name = .ok text → name ∈ names

/-- Files kept in memory. -/
structure MemoryFiles where
  texts : KeyMap String String := ∅

namespace MemoryFiles

def write (m : MemoryFiles) (name text : String) : MemoryFiles := ⟨m.texts.insert name text⟩

def contains (m : MemoryFiles) (name : String) : Bool := m.texts.contains name

def read (m : MemoryFiles) (name : String) : Except IoError String :=
  match m.texts.get? name with
  | some text => .ok text
  | none => .error ⟨.notFound, s!"{name} not found"⟩

def source (m : MemoryFiles) : FileSource where
  names := m.texts.entries.map (·.1)
  read := m.read
  mem_names {name text} h := by
    unfold read at h
    split at h
    · rename_i text' hget
      exact KeyMap.mem_keys_of_get? hget
    · cases h

end MemoryFiles

end GridCircuit
