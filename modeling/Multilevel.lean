import Multilevel.Grid
import Multilevel.Decimal.Reader
import Multilevel.Json.Reader
import Multilevel.Json.Writer
import Multilevel.Json.Record
import Multilevel.Hypergraph.Adjacency
import Multilevel.Hypergraph.Parallel
import Multilevel.Hypergraph.Cut
import Multilevel.Hypergraph.Overview
import Multilevel.Level.Transfer
import Multilevel.Hmetis.Partition
import Multilevel.Snapshot.Text
import Multilevel.Hypergraph.Digest
import Multilevel.Random.Generate
import Multilevel.Main
import Multilevel.Proofs.Hypergraph.WellFormed
import Multilevel.Proofs.Level.Owner
import Multilevel.Proofs.Hypergraph.Construction
import Multilevel.Proofs.Hypergraph.Reachable
import Multilevel.Proofs.Hypergraph.Quotient
import Multilevel.Proofs.Hypergraph.Cut
import Multilevel.Proofs.Level.Placement
import Multilevel.Proofs.Level.Coarsen
import Multilevel.Proofs.Level.CoarsenByBlock
import Multilevel.Proofs.Level.Reachable
import Multilevel.Proofs.Level.Cut
import Multilevel.Proofs.Exact
import Multilevel.Proofs.Level.Composition
import Multilevel.Proofs.Provenance
import Multilevel.Proofs.Level.Boundary
import Multilevel.Proofs.Distinct
import Multilevel.Proofs.Hypergraph.Parallel
import Multilevel.Proofs.Level.Compression
import Multilevel.Proofs.Level.Roots
import Multilevel.Proofs.Level.Transfer
import Multilevel.Proofs.Level.Conservation
import Multilevel.Proofs.Level.Fixed
import Multilevel.Proofs.Hmetis.Grammar
import Multilevel.Proofs.Hmetis.RoundTrip
import Multilevel.Proofs.Decimal.Parts
import Multilevel.Proofs.Decimal.Scientific
import Multilevel.Proofs.Decimal.Shortest
import Multilevel.Proofs.Snapshot.Bytes
import Multilevel.Proofs.Hypergraph.Digest
import Multilevel.Proofs.Level.Induced
import Multilevel.Proofs.Level.Refusal
import Multilevel.Proofs.Level.Blocks
import Multilevel.Proofs.Hypergraph.NormalForm
import Multilevel.Proofs.Hypergraph.Adjacency
import Multilevel.Proofs.Hypergraph.Balance
import Multilevel.Proofs.Hypergraph.Compression
import Multilevel.Proofs.Level.Balance
import Multilevel.Proofs.Decimal.Addition
import Multilevel.Proofs.Folder
import Multilevel.Proofs.Hmetis.Partition
import Multilevel.Proofs.CommandLine.Layout
import Multilevel.Proofs.CommandLine.Pipeline
import Multilevel.Proofs.Hypergraph.Layers
import Multilevel.Proofs.Level.Distance
import Multilevel.Proofs.Hypergraph.Queries
import Multilevel.Proofs.Hypergraph.Strict
import Multilevel.Proofs.Hypergraph.Lookups
import Multilevel.Proofs.Snapshot.RoundTrip
import Multilevel.Proofs.Decimal.Nearest
import Multilevel.Proofs.Json.Literal
import Multilevel.Proofs.Json.Tokens
import Multilevel.Proofs.Json.Reader
import Multilevel.Proofs.Json.Record
import Multilevel.Proofs.Json.Number
import Multilevel.Proofs.Json.Float
import Multilevel.Proofs.Snapshot.Text
import Multilevel.Proofs.Hypergraph.Breadth
import Multilevel.Proofs.Hypergraph.Connection
import Multilevel.Proofs.Hypergraph.Metrics
import Multilevel.Proofs.Hypergraph.Move
import Multilevel.Proofs.Hypergraph.Renaming
import Multilevel.Proofs.Level.Slots
import Multilevel.Proofs.Level.WriteBack
import Multilevel.Proofs.Level.Adjacency
import Multilevel.Proofs.Level.Reordering
import Multilevel.Proofs.Text.Lines
import Multilevel.Proofs.Alike
import Multilevel.Proofs.Dictionary
import Multilevel.Proofs.Hmetis.Layout
import Multilevel.Proofs.Hmetis.Objections
import Multilevel.Proofs.Hmetis.Sections
import Multilevel.Proofs.Hmetis.Misread
import Multilevel.Proofs.Hmetis.Located
import Multilevel.Proofs.Hmetis.WideBlocks
import Multilevel.Proofs.Random.Draw
import Multilevel.Proofs.Random.Choice
import Multilevel.Proofs.Random.Strict
import Multilevel.Proofs.Level.Covering
import Multilevel.Proofs.Random.Clustering
import Multilevel.Proofs.Random.Graph
import Multilevel.Proofs.Hypergraph.Factors
import Multilevel.Proofs.Word
import Multilevel.Proofs.Grid.Index
import Multilevel.Proofs.Grid.Box
import Multilevel.Proofs.Sample
import Multilevel.Proofs.CommandLine.Totals
import Multilevel.Proofs.Hypergraph.Heaviest
