import Citations.Command.Arguments
import Citations.Command.Files
import Citations.Command.Rendering
import Citations.Command.Run
import Citations.Command.Switch
import Citations.Command.Usage
import Citations.Json.Printer
import Citations.Json.Reader
import Citations.Log.Base
import Citations.Log.Factory
import Citations.Log.Level
import Citations.Log.Logbook
import Citations.Log.Message
import Citations.Log.Name
import Citations.Log.Note
import Citations.Log.Record
import Citations.Log.Stamp
import Citations.Main
import Citations.Named
import Citations.Number.Binary64
import Citations.Number.Digits
import Citations.Number.Places
import Citations.Number.Power
import Citations.Number.Reading
import Citations.Number.Shortest
import Citations.Options
import Citations.Placeholder.Catalog
import Citations.Placeholder.Error
import Citations.Placeholder.Fill
import Citations.Placeholder.Kind
import Citations.Placeholder.Layout
import Citations.Placeholder.Thing
import Citations.Proofs.Acceptance
import Citations.Proofs.Brackets
import Citations.Proofs.Capped
import Citations.Proofs.Collapse
import Citations.Proofs.Combined
import Citations.Proofs.Composition
import Citations.Proofs.Configuration
import Citations.Proofs.Decimals
import Citations.Proofs.Delivery
import Citations.Proofs.Depth
import Citations.Proofs.Ending
import Citations.Proofs.Endings
import Citations.Proofs.Escapes
import Citations.Proofs.Exposure
import Citations.Proofs.Faults
import Citations.Proofs.Files
import Citations.Proofs.Forest
import Citations.Proofs.Fragments
import Citations.Proofs.Gating
import Citations.Proofs.Innermost
import Citations.Proofs.Inputs
import Citations.Proofs.Insertion
import Citations.Proofs.Keys
import Citations.Proofs.Layers
import Citations.Proofs.Memory
import Citations.Proofs.Naming
import Citations.Proofs.Nesting
import Citations.Proofs.Notes
import Citations.Proofs.Outcomes
import Citations.Proofs.Outline
import Citations.Proofs.Passes
import Citations.Proofs.Placeholders
import Citations.Proofs.Positions
import Citations.Proofs.Printed
import Citations.Proofs.Progress
import Citations.Proofs.Quoting
import Citations.Proofs.Reading
import Citations.Proofs.Records
import Citations.Proofs.Rendering
import Citations.Proofs.Replacing
import Citations.Proofs.RoundTrip
import Citations.Proofs.Segments
import Citations.Proofs.Specials
import Citations.Proofs.Standstill
import Citations.Proofs.Suspension
import Citations.Proofs.Verbatim
import Citations.Render.Citation
import Citations.Render.Pass
import Citations.Render.Resolve
import Citations.Render.Session
import Citations.Results
import Citations.Template.Check
import Citations.Template.Escape
import Citations.Template.Sign
import Citations.Template.Span
import Citations.Template.Token
import Citations.Text.Basic
import Citations.Text.Blank
import Citations.Text.Class
import Citations.Text.CodePoint
import Citations.Text.Lines
import Citations.Text.Numeral
import Citations.Text.Printable
import Citations.Text.Quoted
import Citations.Text.Replace
import Citations.Text.Utf8
import Citations.Text.Word
import Citations.Value.Basic
import Citations.Value.Written
