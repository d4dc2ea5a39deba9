import GoEnum.Disk.Contents
import GoEnum.Main
import GoEnum.Proofs.Constant.Memo
import GoEnum.Proofs.Constant.Unfolding
import GoEnum.Proofs.Constant.BigStep
import GoEnum.Proofs.Constant.Outcome
import GoEnum.Proofs.Constant.Typing
import GoEnum.Proofs.Constant.Bits
import GoEnum.Proofs.Constant.Denotation
import GoEnum.Proofs.Constant.Exactness
import GoEnum.Proofs.Text.Digits
import GoEnum.Proofs.Token.Quotation
import GoEnum.Proofs.Token.Scan
import GoEnum.Proofs.Token.Atom
import GoEnum.Proofs.Token.Number
import GoEnum.Proofs.Emit.Reading
import GoEnum.Proofs.Enum.Reduction
import GoEnum.Proofs.Emit.Decoding
import GoEnum.Proofs.Parse.Const
import GoEnum.Proofs.Parse.ArrayParam
import GoEnum.Proofs.Parse.Position
import GoEnum.Proofs.Parse.Skipped
import GoEnum.Proofs.Enum.Discovery
import GoEnum.Proofs.Command.Generation
import GoEnum.Proofs.Emit.Capture
import GoEnum.Proofs.Emit.Encoding
import GoEnum.Proofs.Emit.Session
import GoEnum.Proofs.Disk.Path
import GoEnum.Proofs.Package.Agreement
import GoEnum.Proofs.Package.Sources
import GoEnum.Proofs.Enum.Agreement
import GoEnum.Proofs.Emit.FileOrder
import GoEnum.Proofs.Command.Regeneration
import GoEnum.Proofs.Token.Cut
import GoEnum.Proofs.Token.Literal
import GoEnum.Proofs.Token.Quoted
import GoEnum.Proofs.Token.Spelled
import GoEnum.Proofs.Token.Apart
import GoEnum.Proofs.Token.Enclosed
import GoEnum.Proofs.Token.LineEnd
import GoEnum.Proofs.Token.Lossless
import GoEnum.Proofs.Token.Print
import GoEnum.Proofs.Layout.Tidy
import GoEnum.Proofs.Parse.Strip
import GoEnum.Proofs.Parse.StripFile
import GoEnum.Proofs.Enum.Canonical
import GoEnum.Proofs.Disk.Contents
import GoEnum.Proofs.Layout.Format
import GoEnum.Proofs.Package.Load
import GoEnum.Proofs.Command.Run
import GoEnum.Proofs.Build.Grammar
import GoEnum.Proofs.Token.Outcome
import GoEnum.Proofs.Emit.Provenance
import GoEnum.Proofs.Token.Gaps
import GoEnum.Proofs.Build.Header
import GoEnum.Proofs.Command.Imports
import GoEnum.Proofs.Package.Repetition
import GoEnum.Proofs.Enum.Tracking
import GoEnum.Proofs.Package.Chain
import GoEnum.Proofs.Token.Numeral
import GoEnum.Proofs.Token.Imaginary
import GoEnum.Proofs.Token.ByteEscape
import GoEnum.Proofs.Layout.Arrangement
import GoEnum.Proofs.Package.Assembly
import GoEnum.Proofs.Diagnostic.Report
import GoEnum.Proofs.Parse.OutlineFile
import GoEnum.Proofs.Parse.Display
