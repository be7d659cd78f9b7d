import GridCircuit.Circuit.Assemble
import GridCircuit.Config
import GridCircuit.Field.Load
import GridCircuit.Field.Loader
import GridCircuit.Files.Disk
import GridCircuit.Script.OneLine
import GridCircuit.Simulation.Basic
import GridCircuit.Proofs.Rectangles
import GridCircuit.Proofs.Cells
import GridCircuit.Proofs.Connectivity
import GridCircuit.Proofs.Labelling
import GridCircuit.Proofs.Classes
import GridCircuit.Proofs.Components
import GridCircuit.Proofs.Assembly
import GridCircuit.Proofs.Fields
import GridCircuit.Proofs.Wiring
import GridCircuit.Proofs.Locality
import GridCircuit.Proofs.Orders
import GridCircuit.Proofs.Timeless
import GridCircuit.Proofs.TickOrder
import GridCircuit.Proofs.Ports
import GridCircuit.Proofs.Words
import GridCircuit.Proofs.Mirror
import GridCircuit.Proofs.Run
import GridCircuit.Proofs.Depth
import GridCircuit.Proofs.Settling
import GridCircuit.Proofs.Copies
import GridCircuit.Proofs.Following
import GridCircuit.Proofs.Runs
import GridCircuit.Proofs.Embedding
import GridCircuit.Proofs.Embedded
import GridCircuit.Proofs.SideBySide
import GridCircuit.Proofs.Renaming
import GridCircuit.Proofs.Paste
import GridCircuit.Proofs.Merging
import GridCircuit.Proofs.PastedCodes
import GridCircuit.Proofs.Sheets
import GridCircuit.Proofs.Desks
import GridCircuit.Proofs.Moves
import GridCircuit.Proofs.Holes
import GridCircuit.Proofs.JsonRoundTrip
import GridCircuit.Proofs.Maps
import GridCircuit.Proofs.Documents
import GridCircuit.Proofs.SaveOpen
import GridCircuit.Proofs.Inlining
import GridCircuit.Proofs.Inlined
import GridCircuit.Proofs.InPlace
import GridCircuit.Proofs.Schedules
import GridCircuit.Proofs.Handoff
import GridCircuit.Proofs.Failures
import GridCircuit.Proofs.Histories
import GridCircuit.Proofs.Upgrades
import GridCircuit.Proofs.Buttons
import GridCircuit.Proofs.Deliveries
import GridCircuit.Proofs.Toggles
import GridCircuit.Proofs.Moments
import GridCircuit.Proofs.Writers
import GridCircuit.Proofs.Invocations
import GridCircuit.Proofs.Instants
import GridCircuit.Proofs.Undriven
import GridCircuit.Proofs.Convergence
import GridCircuit.Proofs.Loading
import GridCircuit.Proofs.Inclusion
import GridCircuit.Proofs.Described
import GridCircuit.Proofs.Accesses
import GridCircuit.Proofs.Ranges
import GridCircuit.Proofs.Crossings
import GridCircuit.Proofs.Edges
import GridCircuit.Proofs.EdgeRuns
import GridCircuit.Proofs.Clocks
import GridCircuit.Proofs.Interruptions
import GridCircuit.Proofs.NestingDepth
