import PixelTree.Build
import PixelTree.Catalog.Basic
import PixelTree.Catalog.Rehearsal
import PixelTree.Catalog.Standard
import PixelTree.Chase
import PixelTree.Color.Basic
import PixelTree.Color.Hue
import PixelTree.Color.Parser
import PixelTree.CommandLine.Failure
import PixelTree.CommandLine.Grammar
import PixelTree.CommandLine.Host
import PixelTree.CommandLine.Invocation
import PixelTree.CommandLine.Task
import PixelTree.Configuration
import PixelTree.Decimal.Binary
import PixelTree.Decimal.Nearest
import PixelTree.Decimal.Reader
import PixelTree.Decimal.Shortest
import PixelTree.Descriptor.Nesting
import PixelTree.Descriptor.Pipeline
import PixelTree.Descriptor.Split
import PixelTree.Device.Fault
import PixelTree.Device.Memory
import PixelTree.Device.Rehearsal
import PixelTree.Device.Strip
import PixelTree.Discovery.Answers
import PixelTree.Discovery.Scan
import PixelTree.Discovery.Settings
import PixelTree.Discovery.Supply
import PixelTree.Json.Printer
import PixelTree.Json.Reader
import PixelTree.Json.Value
import PixelTree.Kinet.Address
import PixelTree.Kinet.Frame
import PixelTree.Kinet.Link
import PixelTree.Kinet.Output
import PixelTree.Kinet.Packet
import PixelTree.Kinet.Reply
import PixelTree.Kinet.Request
import PixelTree.Main
import PixelTree.Net.Ipv4
import PixelTree.Net.Offline
import PixelTree.Node.Basic
import PixelTree.Node.Flush
import PixelTree.Numeral
import PixelTree.OperatingSystem
import PixelTree.Random.Generator
import PixelTree.Random.Normal
import PixelTree.Random.Shuffle
import PixelTree.Remap.Rule
import PixelTree.Remap.Table
import PixelTree.Sparkle
import PixelTree.Surroundings
import PixelTree.SystemFault
import PixelTree.Text.Blank
import PixelTree.Text.Letters
import PixelTree.Text.Quoted
import PixelTree.Text.Reader
import PixelTree.Text.Utf8
import PixelTree.Time
import PixelTree.Toml.Number
import PixelTree.Toml.Quoted
import PixelTree.Toml.Reader
import PixelTree.Toml.Table
import PixelTree.Toml.Value
import PixelTree.Proofs.Digits
import PixelTree.Proofs.Text.Trimming
import PixelTree.Proofs.Text.Utf8
import PixelTree.Proofs.Text.Fitting
import PixelTree.Proofs.Text.Reading
import PixelTree.Proofs.Json.Tokens
import PixelTree.Proofs.Json.ReadBack
import PixelTree.Proofs.Descriptor.Pieces
import PixelTree.Proofs.Descriptor.Nested
import PixelTree.Proofs.Descriptor.Printing
import PixelTree.Proofs.Descriptor.Grammar
import PixelTree.Proofs.Decimal.MachineBits
import PixelTree.Proofs.Decimal.ReadBack
import PixelTree.Proofs.Color.Written
import PixelTree.Proofs.Color.Grammar
import PixelTree.Proofs.Color.Blending
import PixelTree.Proofs.Net.Dotted
import PixelTree.Proofs.Net.Subnet
import PixelTree.Proofs.Kinet.Header
import PixelTree.Proofs.Kinet.Replies
import PixelTree.Proofs.Descriptor.Plain
import PixelTree.Proofs.Kinet.Written
import PixelTree.Proofs.Remap.Permutation
import PixelTree.Proofs.Remap.Onward
import PixelTree.Proofs.Remap.Machine
import PixelTree.Proofs.Node.Rounded
import PixelTree.Proofs.Build.Filters
import PixelTree.Proofs.Build.Fresh
import PixelTree.Proofs.Build.Composition
import PixelTree.Proofs.Node.Memory
import PixelTree.Proofs.Build.Descriptions
import PixelTree.Proofs.Build.RoundTrip
import PixelTree.Proofs.Discovery.Driving
import PixelTree.Proofs.Kinet.Delivery
import PixelTree.Proofs.Node.Cells
import PixelTree.Proofs.Node.PlainArray
import PixelTree.Proofs.Node.Painting
import PixelTree.Proofs.Node.Margins
import PixelTree.Proofs.Node.Locating
import PixelTree.Proofs.Node.Leaves
import PixelTree.Proofs.Node.Flushing
import PixelTree.Proofs.Node.Reachable
import PixelTree.Proofs.Node.Session
import PixelTree.Proofs.Node.Calm
import PixelTree.Proofs.Node.EveryLeaf
import PixelTree.Proofs.Node.Delivered
import PixelTree.Proofs.Build.Tables
import PixelTree.Proofs.Kinet.InStep
import PixelTree.Proofs.Node.Outline
import PixelTree.Proofs.Descriptor.Spelling
import PixelTree.Proofs.Build.Registering
import PixelTree.Proofs.Build.Depth
import PixelTree.Proofs.Build.Offsets
import PixelTree.Proofs.Descriptor.Splitting
import PixelTree.Proofs.Descriptor.Resplitting
import PixelTree.Proofs.Descriptor.Arguments
import PixelTree.Proofs.Kinet.Checks
import PixelTree.Proofs.Kinet.Decoding
import PixelTree.Proofs.Kinet.Naming
import PixelTree.Proofs.Kinet.Layout
import PixelTree.Proofs.Kinet.Receiving
import PixelTree.Proofs.Kinet.Grammar
import PixelTree.Proofs.Discovery.Ports
import PixelTree.Proofs.Discovery.FirstReplies
import PixelTree.Proofs.Discovery.ReadBack
import PixelTree.Proofs.Node.Masking
import PixelTree.Proofs.Node.Redirecting
import PixelTree.Proofs.Build.Reflections
import PixelTree.Proofs.Node.Grouping
import PixelTree.Proofs.Remap.Bounce
import PixelTree.Proofs.Remap.Interleaving
import PixelTree.Proofs.Node.Requests
import PixelTree.Proofs.Sparkle.Twinkling
import PixelTree.Proofs.Chase.Picture
import PixelTree.Proofs.Chase.Rounds
