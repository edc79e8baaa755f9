import RomImage.Advisory
import RomImage.Bytes
import RomImage.Command.Argument
import RomImage.Command.FileSystem
import RomImage.Command.Invocation
import RomImage.Command.Path
import RomImage.Command.Place
import RomImage.Command.Session
import RomImage.Log
import RomImage.Main
import RomImage.Object.Builder
import RomImage.Object.Header
import RomImage.Object.File
import RomImage.Rom.CodeRange
import RomImage.Rom.CompatTable
import RomImage.Rom.Final
import RomImage.Symbol.Table
import RomImage.Symbol.Listing
import RomImage.Text.Basic
import RomImage.Text.Quoted
import RomImage.Text.Terminal
import RomImage.Text.Utf8
import RomImage.Proofs.ByteTotal
import RomImage.Proofs.EditedBytes
import RomImage.Proofs.Balancing
import RomImage.Proofs.EditRuns
import RomImage.Proofs.CodeWindow
import RomImage.Proofs.AmendedTable
import RomImage.Proofs.ShippedImage
import RomImage.Proofs.Refusals
import RomImage.Proofs.CheckedScans
import RomImage.Proofs.VersionStrings
import RomImage.Proofs.Faultless
import RomImage.Proofs.StaleFields
import RomImage.Proofs.RunEffects
import RomImage.Proofs.Numerals
import RomImage.Proofs.TextPieces
import RomImage.Proofs.ListingEntries
import RomImage.Proofs.TableContents
import RomImage.Proofs.ListingReading
import RomImage.Proofs.LineEnds
import RomImage.Proofs.ListingRoundTrip
import RomImage.Proofs.FinishedPayload
import RomImage.Proofs.Relocation
import RomImage.Proofs.SizeRequests
import RomImage.Proofs.SeparatedScans
import RomImage.Proofs.Surroundings
import RomImage.Proofs.DatePlaces
import RomImage.Proofs.FinalizeLog
import RomImage.Proofs.LandmarkAgreement
import RomImage.Proofs.Utf8Coding
import RomImage.Proofs.ObjectRecords
import RomImage.Proofs.ObjectRoundTrip
import RomImage.Proofs.SourceAgreement
import RomImage.Proofs.Utf8Flaws
import RomImage.Proofs.LineDecoding
import RomImage.Proofs.NameOrder
import RomImage.Proofs.TableRuns
import RomImage.Proofs.TableReordering
import RomImage.Proofs.ObjectReading
import RomImage.Proofs.UsageFigures
import RomImage.Proofs.ShownFindings
import RomImage.Proofs.WordTexts
import RomImage.Proofs.CommandLines
import RomImage.Proofs.ArgumentOrder
