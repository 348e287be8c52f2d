import CopyPatch.Blueprint
import CopyPatch.Blueprint.Patch
import CopyPatch.Build.Arguments
import CopyPatch.Build.Cache
import CopyPatch.Build.CommandLine
import CopyPatch.Build.Config
import CopyPatch.Build.Error
import CopyPatch.Build.Session
import CopyPatch.Build.Workers
import CopyPatch.Bytes
import CopyPatch.CodeBuffer
import CopyPatch.Compile
import CopyPatch.Digest.Sha256
import CopyPatch.Extraction
import CopyPatch.Extraction.Padding
import CopyPatch.Fault
import CopyPatch.Files.Cause
import CopyPatch.Files.Operation
import CopyPatch.Files.Path
import CopyPatch.Files.Tree
import CopyPatch.Fixup
import CopyPatch.Fixup.Placeholder
import CopyPatch.Frame.Operands
import CopyPatch.Frame.Planner
import CopyPatch.Index
import CopyPatch.Index.Build
import CopyPatch.Index.Placement
import CopyPatch.Index.Size
import CopyPatch.Json.Printer
import CopyPatch.Json.Reader
import CopyPatch.Json.Value
import CopyPatch.Main
import CopyPatch.Manifest.Basic
import CopyPatch.Manifest.Check
import CopyPatch.Manifest.Issue
import CopyPatch.Manifest.Template
import CopyPatch.Manifest.Written
import CopyPatch.Object.Basic
import CopyPatch.Object.Elf
import CopyPatch.Object.Format
import CopyPatch.Object.LoadMap
import CopyPatch.Object.Reader
import CopyPatch.Parameter.Axis
import CopyPatch.Parameter.Enumeration
import CopyPatch.Parameter.TypeId
import CopyPatch.Random.Keystream
import CopyPatch.Record.Basic
import CopyPatch.Record.Codec
import CopyPatch.Registration
import CopyPatch.Sample.Arithmetic
import CopyPatch.Sample.Machine
import CopyPatch.Source.Fragments
import CopyPatch.Source.Library
import CopyPatch.Source.Names
import CopyPatch.Text.Blank
import CopyPatch.Text.Capital
import CopyPatch.Text.Numeral
import CopyPatch.Text.Split
import CopyPatch.ThreadLocal
import CopyPatch.Toml.Document
import CopyPatch.Toml.Scalar
import CopyPatch.Toml.Value
import CopyPatch.Proofs.Frame.Separation
import CopyPatch.Proofs.Frame.Operands
import CopyPatch.Proofs.Index.Placement
import CopyPatch.Proofs.Index.Size
import CopyPatch.Proofs.Index.Construction
import CopyPatch.Proofs.Index.FalseHits
import CopyPatch.Proofs.Index.Verification
import CopyPatch.Proofs.Index.Chains
import CopyPatch.Proofs.Enumeration
import CopyPatch.Proofs.Enumeration.Order
import CopyPatch.Proofs.Enumeration.Trace
import CopyPatch.Proofs.Manifest.Check
import CopyPatch.Proofs.Manifest.Constraints
import CopyPatch.Proofs.Manifest.Template
import CopyPatch.Proofs.Toml.Extent
import CopyPatch.Proofs.Manifest.WellFormed
import CopyPatch.Proofs.Manifest.Rendering
import CopyPatch.Proofs.Parameter.TypeNames
import CopyPatch.Proofs.Source.VariantNames
import CopyPatch.Proofs.Source.Passages
import CopyPatch.Proofs.Source.ItemNames
import CopyPatch.Proofs.Source.SymbolLiterals
import CopyPatch.Proofs.Extraction.Basic
import CopyPatch.Proofs.Registration
import CopyPatch.Proofs.Compile.Failures
import CopyPatch.Proofs.Compile.Selection
import CopyPatch.Proofs.Blueprint.Patching
import CopyPatch.Proofs.Blueprint.FailedCopy
import CopyPatch.Proofs.Stitching
import CopyPatch.Proofs.Extraction.Baking
import CopyPatch.Proofs.Extraction.Packing
import CopyPatch.Proofs.Extraction.Tables
import CopyPatch.Proofs.Extraction.Sections
import CopyPatch.Proofs.Extraction.Fidelity
import CopyPatch.Proofs.Fixup.Placeholder
import CopyPatch.Proofs.Extraction.Accounting
import CopyPatch.Proofs.Loading
import CopyPatch.Proofs.Loading.Addresses
import CopyPatch.Proofs.Extraction.Faults
import CopyPatch.Proofs.Linking
import CopyPatch.Proofs.Workers.Books
import CopyPatch.Proofs.Workers.Answer
import CopyPatch.Proofs.Workers.Images
import CopyPatch.Proofs.Json.RoundTrip
import CopyPatch.Proofs.Record.RoundTrip
import CopyPatch.Proofs.Files.Places
import CopyPatch.Proofs.Files.Directories
import CopyPatch.Proofs.Build.Plan
import CopyPatch.Proofs.Build.Outputs
import CopyPatch.Proofs.Build.CacheFiles
import CopyPatch.Proofs.Build.CacheConsistency
import CopyPatch.Proofs.Build.CacheHistory
import CopyPatch.Proofs.Build.Reload
import CopyPatch.Proofs.Build.Reuse
import CopyPatch.Proofs.Build.Reproducibility
