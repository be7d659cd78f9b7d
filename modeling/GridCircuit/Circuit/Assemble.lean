import GridCircuit.Circuit.Basic

/-!
# Putting a circuit together

A circuit is given by its parts, one per group of cells, and by its sites, one per connection: where
a connection sits and which parts it has on its wire side and on its other side. The role of a site
decides which side drives. A part has one clock; a later clock connection to it is left without sink.
-/

namespace GridCircuit

structure Part where
  code : Code
  kind : Kind
  cells : List Pos

/-- A connection with the parts next to it. -/
structure Site where
  pos : Pos
  kind : ConnectionKind
  wire : Option Nat
  other : Option Nat
deriving DecidableEq, Repr

namespace Site

def clocks (part : Nat) (s : Site) : Bool := s.kind = .clockInput && s.other = some part

/-- The site whose clock connection a part takes. -/
def clockOf? (sites : List Site) (part : Nat) : Option Nat := sites.findIdx? (clocks part)

def driver (s : Site) : Option Nat :=
  match s.kind with
  | .output => s.other
  | .input | .clockInput => s.wire
  | .cross => none

def sink (sites : List Site) (id : Nat) (s : Site) : Option Nat :=
  match s.kind with
  | .output => s.wire
  | .input => s.other
  | .clockInput => s.other.filter fun part => clockOf? sites part = some id
  | .cross => none

def connections (sites : List Site) : Bus :=
  (sites.zipIdx.map fun (s, id) =>
    { pos := s.pos, kind := s.kind, driver := s.driver, sink := s.sink sites id : Connection }).toArray

end Site

/-- The component made of the `id`-th part. It reads the connections that end in it and writes those
that start from it. -/
def Part.toComponent (bus : Bus) (id : Nat) (p : Part) : Component where
  code := p.code
  kind := p.kind
  level := false
  cells := p.cells
  inputs := Circuit.connectionsWhere bus fun k => k.sink = some id && k.kind ≠ .clockInput
  outputs := Circuit.connectionsWhere bus fun k => k.driver = some id
  clock := bus.findIdx? fun k => k.sink = some id && k.kind = .clockInput

def Circuit.assemble (name : String) (parts : List Part) (sites : List Site) : Circuit :=
  let bus := Site.connections sites
  ⟨name, parts.zipIdx.map fun (p, id) => p.toComponent bus id, bus, 0⟩

end GridCircuit
