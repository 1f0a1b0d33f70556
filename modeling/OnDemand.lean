import OnDemand.Command
import OnDemand.CommandLine.Arguments
import OnDemand.CommandLine.Run
import OnDemand.Descriptor.Basic
import OnDemand.Descriptor.Identities
import OnDemand.Descriptor.Keyword
import OnDemand.Descriptor.Name
import OnDemand.Descriptor.Parameters
import OnDemand.Descriptor.Reader
import OnDemand.Descriptor.Stripping
import OnDemand.Diagnostics
import OnDemand.Disk.Basic
import OnDemand.Disk.Changes
import OnDemand.Dispatch.Catalogue
import OnDemand.Dispatch.Concurrent
import OnDemand.Dispatch.Entry
import OnDemand.Dispatch.Error
import OnDemand.Dispatch.Registries
import OnDemand.Main
import OnDemand.Native.Builder
import OnDemand.Native.Compiler
import OnDemand.Native.Error
import OnDemand.Native.Host
import OnDemand.Native.Site
import OnDemand.Operations
import OnDemand.Path
import OnDemand.Plugin.Generation
import OnDemand.Plugin.Layout
import OnDemand.Proofs.Descriptor.Carrying
import OnDemand.Proofs.Descriptor.ContextChildren
import OnDemand.Proofs.Descriptor.ContextSpellings
import OnDemand.Proofs.Descriptor.Continuation
import OnDemand.Proofs.Descriptor.Decoration
import OnDemand.Proofs.Descriptor.Erasure
import OnDemand.Proofs.Descriptor.Grammar
import OnDemand.Proofs.Descriptor.Idempotence
import OnDemand.Proofs.Descriptor.Induction
import OnDemand.Proofs.Descriptor.JoinedWords
import OnDemand.Proofs.Descriptor.Openers
import OnDemand.Proofs.Descriptor.PlainNames
import OnDemand.Proofs.Descriptor.ReadBack
import OnDemand.Proofs.Descriptor.ReadingsSpelled
import OnDemand.Proofs.Descriptor.Rereading
import OnDemand.Proofs.Descriptor.Spacing
import OnDemand.Proofs.Descriptor.Spellings
import OnDemand.Proofs.Descriptor.SpellingsRead
import OnDemand.Proofs.Descriptor.Steps
import OnDemand.Proofs.Descriptor.Tokens
import OnDemand.Proofs.Descriptor.TypeNames
import OnDemand.Proofs.Descriptor.UniqueNames
import OnDemand.Proofs.Descriptor.Words
import OnDemand.Proofs.Disk.Effects
import OnDemand.Proofs.Disk.Paths
import OnDemand.Proofs.Disk.Places
import OnDemand.Proofs.Dispatch.Answers
import OnDemand.Proofs.Dispatch.Contexts
import OnDemand.Proofs.Dispatch.Effects
import OnDemand.Proofs.Dispatch.Entries
import OnDemand.Proofs.Dispatch.Failures
import OnDemand.Proofs.Dispatch.Flights
import OnDemand.Proofs.Dispatch.Handles
import OnDemand.Proofs.Dispatch.Interleaving
import OnDemand.Proofs.Dispatch.Openings
import OnDemand.Proofs.Dispatch.Records
import OnDemand.Proofs.Dispatch.Sequence
import OnDemand.Proofs.Dispatch.Shortfalls
import OnDemand.Proofs.Dispatch.SingleFlight
import OnDemand.Proofs.Fallible
import OnDemand.Proofs.Native.Atomicity
import OnDemand.Proofs.Native.Freshness
import OnDemand.Proofs.Native.HostCalls
import OnDemand.Proofs.Native.Inventory
import OnDemand.Proofs.Native.Leftovers
import OnDemand.Proofs.Native.Plant
import OnDemand.Proofs.Native.RenderedCommands
import OnDemand.Proofs.Native.ReportLines
import OnDemand.Proofs.Native.Staging
import OnDemand.Proofs.Native.Temporaries
import OnDemand.Proofs.Native.Turns
import OnDemand.Proofs.Native.Workers
import OnDemand.Proofs.Plugin.Alphabets
import OnDemand.Proofs.Plugin.PrefixFree
import OnDemand.Proofs.Plugin.Registrations
import OnDemand.Proofs.Plugin.Seats
import OnDemand.Proofs.Plugin.Segments
import OnDemand.Proofs.Plugin.SharedPlaces
import OnDemand.Proofs.Plugin.SourceLines
import OnDemand.Proofs.Positions
import OnDemand.Proofs.Repetitions
import OnDemand.Proofs.Settings.Files
import OnDemand.Proofs.Settings.Layers
import OnDemand.Proofs.Source.Fragments
import OnDemand.Proofs.Source.Identifiers
import OnDemand.Proofs.Source.Imports
import OnDemand.Proofs.Source.Laying
import OnDemand.Proofs.Source.Layout
import OnDemand.Proofs.Source.Refusals
import OnDemand.Proofs.Source.TypeTexts
import OnDemand.Proofs.Tables
import OnDemand.Proofs.Text.Occurrences
import OnDemand.Proofs.Text.Pieces
import OnDemand.Proofs.Text.Quoted
import OnDemand.Proofs.Text.Sizes
import OnDemand.Proofs.Text.Trimming
import OnDemand.Settings.Basic
import OnDemand.Settings.Loading
import OnDemand.Settings.Moment
import OnDemand.Settings.Statement
import OnDemand.Settings.Token
import OnDemand.Signature
import OnDemand.Source.Algorithm
import OnDemand.Source.Rendering
import OnDemand.Source.Sheet
import OnDemand.Source.Vocabulary
import OnDemand.Table
import OnDemand.Text.Basic
import OnDemand.Text.Blank
import OnDemand.Text.Combining
import OnDemand.Text.Printable
import OnDemand.Text.Quoted
import OnDemand.Trial.Session
import OnDemand.Trial.StandIn
import OnDemand.Trial.Tools
import OnDemand.Value
