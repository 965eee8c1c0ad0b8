import Ferry.ByteSize
import Ferry.Console.Printer
import Ferry.ContentType
import Ferry.Files.Slice
import Ferry.Part.Ranges
import Ferry.Proofs.ByteSize.Reading
import Ferry.Proofs.Files.Change
import Ferry.Proofs.Files.Relative
import Ferry.Proofs.Part.Choice
import Ferry.Proofs.Part.Doubling
import Ferry.Proofs.Part.Words
import Ferry.Proofs.Json.Members
import Ferry.Proofs.Settings
import Ferry.Proofs.Request.Together
import Ferry.Proofs.Store.Demand
import Ferry.Proofs.Transfer.Directories
import Ferry.Proofs.Transfer.Ending
import Ferry.Proofs.WorkQueue.Drain
import Ferry.Proofs.WorkQueue.Failure
import Ferry.Proofs.WorkQueue.Service
import Ferry.Request.Parameters
import Ferry.SettingsFile
import Ferry.Transfer.Inspect
import Ferry.Transfer.World
import Ferry.Proofs.Files.Times
import Ferry.Proofs.Transfer.Restoration
import Ferry.Proofs.Files.Checksum
import Ferry.Proofs.Files.EmptySlice
import Ferry.Proofs.Files.Growth
import Ferry.Proofs.Console.Charset
import Ferry.Proofs.Console.Printing
import Ferry.Proofs.Store.Address
import Ferry.Proofs.ByteSize.Display
import Ferry.Proofs.Json.Change
import Ferry.Proofs.Tolerance
