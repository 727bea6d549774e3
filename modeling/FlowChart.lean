import FlowChart.Build
import FlowChart.Graph.Adjacency
import FlowChart.Graph.Export
import FlowChart.Overlay.Basic
import FlowChart.Route.PathData
import FlowChart.Title
import FlowChart.Proofs.Builds
import FlowChart.Proofs.Route.Clearance
import FlowChart.Proofs.Graph.Partition
import FlowChart.Proofs.Layout.Ranks
import FlowChart.Proofs.Graph.AddressOrder
import FlowChart.Proofs.Descent
import FlowChart.Proofs.Graph.Outline
import FlowChart.Proofs.Spelling
import FlowChart.Proofs.Layout.Outlined
import FlowChart.Proofs.Relocation
import FlowChart.Proofs.Graph.Coherence
import FlowChart.Proofs.Graph.Exchange
import FlowChart.Proofs.Layout.Sums
import FlowChart.Proofs.Imports
import FlowChart.Proofs.Namesakes
import FlowChart.Proofs.Number.Order
import FlowChart.Proofs.View.Zoom
import FlowChart.Proofs.Layout.Recurrence
import FlowChart.Proofs.Layout.Subtrees
import FlowChart.Proofs.Layout.Strips
import FlowChart.Proofs.Layout.Widths
import FlowChart.Proofs.Layout.Coverage
import FlowChart.Proofs.Layout.Pushing
import FlowChart.Proofs.Layout.Centring
import FlowChart.Proofs.Layout.Spread
import FlowChart.Proofs.Layout.Siblings
import FlowChart.Proofs.Distances
import FlowChart.Proofs.Layout.Depths
import FlowChart.Proofs.Graph.Leaders
import FlowChart.Proofs.Graph.Records
import FlowChart.Proofs.Route.Orthogonal
import FlowChart.Proofs.Layout.Lineage
import FlowChart.Proofs.Route.Ports
import FlowChart.Proofs.Route.Downward
import FlowChart.Proofs.Route.Detours
import FlowChart.Proofs.Graph.Insertion
import FlowChart.Proofs.Graph.Restriction
import FlowChart.Proofs.View.Anchoring
import FlowChart.Proofs.Minimaps
import FlowChart.Proofs.View.Marking
import FlowChart.Proofs.Graph.Merging
import FlowChart.Proofs.Graph.Arcs
import FlowChart.Proofs.Registries
import FlowChart.Proofs.Route.PathReading
import FlowChart.Proofs.Addresses
import FlowChart.Proofs.Literals
