import GridCircuit.Grid.Code
import GridCircuit.Script.Basic

/-!
# Custom parts

A registry lists the custom parts of a drawing by name. The position of a name in the list is its
code and never changes. The same list serves for drawings of any form, the type `φ`.
-/

namespace GridCircuit

/-- What a custom part is made of. -/
inductive Source (φ : Type) where
  | script (script : Script)
  | circuit (drawing : φ)
  /-- The name could not be resolved; its cells stay out of circuits. -/
  | unresolved (reason : String)

def Source.isResolved {φ : Type} : Source φ → Bool
  | unresolved _ => false
  | _ => true

structure Entry (φ : Type) where
  name : String
  source : Source φ

/-- Take a resolved source in place of an unresolved one. -/
def Entry.upgrade {φ : Type} (e : Entry φ) (source : Source φ) : Entry φ :=
  if !e.source.isResolved && source.isResolved then { e with source } else e

structure Registry (φ : Type) where
  entries : List (Entry φ) := []

namespace Registry

variable {φ : Type}

instance : Inhabited (Registry φ) := ⟨{}⟩

def indexOf? (r : Registry φ) (name : String) : Option Nat := r.entries.findIdx? (·.name = name)

def codeOf? (r : Registry φ) (name : String) : Option Code := (r.indexOf? name).map .custom

def lookup? (r : Registry φ) (c : Code) : Option (Entry φ) :=
  c.customIndex?.bind (r.entries[·]?)

def coded (r : Registry φ) : List (Code × Entry φ) :=
  r.entries.zipIdx.map fun (e, i) => (.custom i, e)

/-- Add a part under a name. A known name keeps its code, and its source unless that was unresolved
and the new one is not. -/
def register (r : Registry φ) (name : String) (source : Source φ) : Registry φ × Code :=
  match r.indexOf? name with
  | some i => (⟨r.entries.modify i (Entry.upgrade · source)⟩, .custom i)
  | none => (⟨r.entries ++ [⟨name, source⟩]⟩, .custom r.entries.length)

/-- Add all parts of another registry, in its order. Gives the code of each here. -/
def absorb (r src : Registry φ) : Registry φ × List Code :=
  src.entries.foldl (fun (r, codes) e =>
    let (r, code) := r.register e.name e.source
    (r, codes ++ [code])) (r, [])

/-- What becomes of a code when the parts of its registry get the given codes; a custom code without
a part becomes empty. -/
def recode (codes : List Code) (c : Code) : Code :=
  match c.customIndex? with
  | some i => codes[i]?.getD .empty
  | none => c

end Registry

end GridCircuit
