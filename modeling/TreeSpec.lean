import TreeSpec.Config
import TreeSpec.Main
import TreeSpec.Pattern.Language
import TreeSpec.Session
import TreeSpec.Proofs.Spec.Evaluation
import TreeSpec.Proofs.Walk.Inspection
import TreeSpec.Proofs.Walk.Encounters
import TreeSpec.Proofs.Walk.Faults
import TreeSpec.Proofs.Service.History
import TreeSpec.Proofs.Service.Memory
import TreeSpec.Proofs.Service.Faults
import TreeSpec.Proofs.Session.Requests
import TreeSpec.Proofs.Session.Isolation
import TreeSpec.Proofs.Spec.Tokens
import TreeSpec.Proofs.Spec.Grammar
import TreeSpec.Proofs.Spec.Compilation
import TreeSpec.Proofs.Spec.Pipe
import TreeSpec.Proofs.Service.Completion
import TreeSpec.Proofs.Walk.Calls
import TreeSpec.Proofs.Service.Calls
import TreeSpec.Proofs.Walk.Debug
import TreeSpec.Proofs.Session.Debug
import TreeSpec.Proofs.Registry.Lookup
import TreeSpec.Proofs.Registry.Registration
import TreeSpec.Proofs.Spec.Labels
import TreeSpec.Proofs.Data.Dictionary
import TreeSpec.Proofs.Walk.Alike
import TreeSpec.Proofs.Walk.LastEntry
import TreeSpec.Proofs.Walk.Edits
import TreeSpec.Proofs.Data.Texts
import TreeSpec.Proofs.Service.Alike
import TreeSpec.Proofs.Registry.Views
import TreeSpec.Proofs.Session.Atomicity
import TreeSpec.Proofs.Session.SharedMaps
import TreeSpec.Proofs.Builtin.Probes
import TreeSpec.Proofs.Walk.Probes
import TreeSpec.Proofs.Session.Probes
import TreeSpec.Proofs.CommandLine.Arguments
import TreeSpec.Proofs.CommandLine.Output
import TreeSpec.Proofs.CommandLine.TypeOptions
import TreeSpec.Proofs.CommandLine.Validation
import TreeSpec.Proofs.Spec.Stream
import TreeSpec.Proofs.Spec.Layout
import TreeSpec.Proofs.Spec.FirstMisfit
import TreeSpec.Proofs.Spec.Clauses
import TreeSpec.Proofs.Pattern.Texts
import TreeSpec.Proofs.Spec.Single
import TreeSpec.Proofs.Registry.Negation
import TreeSpec.Proofs.Text.Numerals
import TreeSpec.Proofs.Builtin.Numbers
import TreeSpec.Proofs.Builtin.Addresses
import TreeSpec.Proofs.Text.Decimals
import TreeSpec.Proofs.Pattern.Forms
import TreeSpec.Proofs.Builtin.Quads
import TreeSpec.Proofs.Builtin.MixedAddresses
import TreeSpec.Proofs.Builtin.HostNames
import TreeSpec.Proofs.Builtin.OtherScripts
import TreeSpec.Proofs.Pattern.Counts
import TreeSpec.Proofs.Builtin.Inclusions
import TreeSpec.Proofs.Walk.Carrying
import TreeSpec.Proofs.Walk.Steps
import TreeSpec.Proofs.Walk.Collisions
import TreeSpec.Proofs.Walk.Keeping
import TreeSpec.Proofs.Service.Warnings
import TreeSpec.Proofs.Walk.Translation
import TreeSpec.Proofs.Spec.MissingValues
import TreeSpec.Proofs.Builtin.Variables
import TreeSpec.Proofs.Builtin.Accounts
import TreeSpec.Proofs.Service.Trace
import TreeSpec.Proofs.Spec.Arguments
import TreeSpec.Proofs.Spec.Gaps
