import TextureLoom.Text.Quoted
import TextureLoom.Pixel
import TextureLoom.Bytes
import TextureLoom.Fingerprint
import TextureLoom.Source.Lexer
import TextureLoom.Pipeline.Parser
import TextureLoom.Bytecode.Listing
import TextureLoom.Compile.Layout
import TextureLoom.Bytecode.Reach
import TextureLoom.Image.Adjust
import TextureLoom.Image.Compose
import TextureLoom.Image.Frame
import TextureLoom.Program
import TextureLoom.Recipe
import TextureLoom.Json
import TextureLoom.Text.Real
import TextureLoom.Table
import TextureLoom.Atlas.Bin
import TextureLoom.Atlas.Staging
import TextureLoom.Atlas.Entry
import TextureLoom.Atlas.Device
import TextureLoom.Atlas.Queue
import TextureLoom.Atlas.Slot
import TextureLoom.Atlas.Packing
import TextureLoom.Atlas.Basic
import TextureLoom.Atlas.Data
import TextureLoom.Atlas.Frame
import TextureLoom.Atlas.Flush
import TextureLoom.Failure
import TextureLoom.Cache.Animation
import TextureLoom.Cache.Basic
import TextureLoom.CommandLine.Arguments
import TextureLoom.CommandLine.Path
import TextureLoom.CommandLine.Request
import TextureLoom.CommandLine.Run
import TextureLoom.CommandLine.Disk
import TextureLoom.Png.Encode
import TextureLoom.Main
import TextureLoom.Proofs.Compile.Soundness
import TextureLoom.Proofs.Atlas.Submitting
import TextureLoom.Proofs.Atlas.Tiling
import TextureLoom.Proofs.Bake.Acceptance
import TextureLoom.Proofs.Cache.Invalidating
import TextureLoom.Proofs.Atlas.Rows
import TextureLoom.Proofs.Atlas.Buffers
import TextureLoom.Proofs.Atlas.Tabling
import TextureLoom.Proofs.Atlas.Calling
import TextureLoom.Proofs.Atlas.Matching
import TextureLoom.Proofs.Atlas.Draining
import TextureLoom.Proofs.Atlas.Filling
import TextureLoom.Proofs.Atlas.Heeding
import TextureLoom.Proofs.Atlas.Carrying
import TextureLoom.Proofs.Atlas.Catching
import TextureLoom.Proofs.Atlas.Flagging
import TextureLoom.Proofs.Atlas.Describing
import TextureLoom.Proofs.Atlas.Shelving
import TextureLoom.Proofs.Atlas.Numbering
import TextureLoom.Proofs.Atlas.Accounting
import TextureLoom.Proofs.Atlas.Owning
import TextureLoom.Proofs.Cache.Handing
import TextureLoom.Proofs.Cache.Presenting
import TextureLoom.Proofs.Atlas.Overlooking
import TextureLoom.Proofs.Pipeline.Accepting
import TextureLoom.Proofs.Compile.Relinking
import TextureLoom.Proofs.Compile.Remapping
import TextureLoom.Proofs.Atlas.Isolating
import TextureLoom.Proofs.Atlas.Planning
import TextureLoom.Proofs.Atlas.Retrying
import TextureLoom.Proofs.Atlas.Crowding
import TextureLoom.Proofs.Cache.Sparing
import TextureLoom.Proofs.Pipeline.Nesting
import TextureLoom.Proofs.Bake.Guarding
import TextureLoom.Proofs.Image.Blending
import TextureLoom.Proofs.Image.Framing
import TextureLoom.Proofs.Atlas.Checking
import TextureLoom.Proofs.Atlas.Merging
import TextureLoom.Proofs.Pipeline.Respacing
import TextureLoom.Proofs.Compile.Blaming
import TextureLoom.Proofs.Compile.Printing
import TextureLoom.Proofs.Bake.Ordering
import TextureLoom.Proofs.Atlas.Allotting
import TextureLoom.Proofs.Atlas.Enlisting
import TextureLoom.Proofs.Compile.Sequencing
import TextureLoom.Proofs.Bytecode.Confining
import TextureLoom.Proofs.Image.Resampling
