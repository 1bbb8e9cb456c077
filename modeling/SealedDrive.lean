import SealedDrive.Activity
import SealedDrive.Cipher.Aead
import SealedDrive.Cipher.ChaCha20
import SealedDrive.Cipher.Poly1305
import SealedDrive.Config
import SealedDrive.Config.File
import SealedDrive.Crowd
import SealedDrive.Deadline
import SealedDrive.Desk
import SealedDrive.Dialogue
import SealedDrive.Digest.Blake3
import SealedDrive.Double
import SealedDrive.Drive.Arena
import SealedDrive.Drive.Link
import SealedDrive.Drive.Path
import SealedDrive.Drive.Resolve
import SealedDrive.Drive.Volume
import SealedDrive.Entries
import SealedDrive.Error
import SealedDrive.Json.Access
import SealedDrive.Json.Basic
import SealedDrive.Json.Form
import SealedDrive.Json.Octets
import SealedDrive.Json.Reader
import SealedDrive.Json.Writer
import SealedDrive.KeyPass
import SealedDrive.Keyring
import SealedDrive.Line
import SealedDrive.Listing.CancelToken
import SealedDrive.Listing.Config
import SealedDrive.Listing.Fetch
import SealedDrive.Listing.Gathered
import SealedDrive.Listing.Round
import SealedDrive.Proofs.Arena
import SealedDrive.Proofs.Discipline
import SealedDrive.Record.Account
import SealedDrive.Record.Link
import SealedDrive.Record.Share
import SealedDrive.Record.Status
import SealedDrive.Request
import SealedDrive.Server.Account
import SealedDrive.Server.Bench
import SealedDrive.Server.Serve
import SealedDrive.Server.State
import SealedDrive.Server.World
import SealedDrive.Session.Basic
import SealedDrive.Session.LoginRequest
import SealedDrive.Session.Manager
import SealedDrive.Store.Accounts
import SealedDrive.Store.Basic
import SealedDrive.Store.Credentials
import SealedDrive.Store.Disk
import SealedDrive.Store.DiskPath
import SealedDrive.Text.Base64
import SealedDrive.Text.Bytes
import SealedDrive.Text.Hex
import SealedDrive.Text.Printable
import SealedDrive.Text.Quoted
import SealedDrive.Text.Slashed
import SealedDrive.Text.Span
import SealedDrive.Together
import SealedDrive.Toml.Basic
import SealedDrive.Toml.Number
import SealedDrive.Toml.Reader
import SealedDrive.Toml.Sheet
import SealedDrive.Toml.Text
import SealedDrive.Toml.Tree
import SealedDrive.Proofs.Use
import SealedDrive.Proofs.Traffic
import SealedDrive.Proofs.Moves
import SealedDrive.Proofs.Listing
import SealedDrive.Proofs.Loading
import SealedDrive.Proofs.Sealing
import SealedDrive.Proofs.Vouched
import SealedDrive.Proofs.Ascent
import SealedDrive.Proofs.Fixed
import SealedDrive.Proofs.Walk
import SealedDrive.Proofs.Plan
import SealedDrive.Proofs.Built
import SealedDrive.Proofs.Served
import SealedDrive.Proofs.Shown
import SealedDrive.Proofs.Complete
import SealedDrive.Proofs.Ring
import SealedDrive.Proofs.Resolving
import SealedDrive.Proofs.Positions
import SealedDrive.Proofs.Accounts
import SealedDrive.Proofs.Ending
import SealedDrive.Proofs.Attendance
import SealedDrive.Proofs.Progress
import SealedDrive.Proofs.Patience
import SealedDrive.Proofs.Pool
import SealedDrive.Proofs.Replies
import SealedDrive.Proofs.Sequential
import SealedDrive.Proofs.Schedules
import SealedDrive.Proofs.Asked
import SealedDrive.Proofs.Handles
import SealedDrive.Proofs.Strict
import SealedDrive.Proofs.Finding
import SealedDrive.Proofs.Scanning
import SealedDrive.Proofs.Spelling
import SealedDrive.Proofs.Files
import SealedDrive.Proofs.Tables
import SealedDrive.Proofs.Stores
import SealedDrive.Proofs.Sessions
import SealedDrive.Proofs.Revocation
import SealedDrive.Proofs.Responses
import SealedDrive.Proofs.Ledger
import SealedDrive.Proofs.SecondFactor
import SealedDrive.Proofs.Keeping
import SealedDrive.Proofs.Custody
import SealedDrive.Proofs.Restoring
import SealedDrive.Proofs.Standstill
import SealedDrive.Proofs.Legible
import SealedDrive.Proofs.Belonging
import SealedDrive.Proofs.SideBySide
import SealedDrive.Proofs.Canonical
import SealedDrive.Proofs.Opening
import SealedDrive.Proofs.Letters
import SealedDrive.Proofs.Forms
import SealedDrive.Proofs.Segments
import SealedDrive.Proofs.Retracing
import SealedDrive.Proofs.Firsts
import SealedDrive.Proofs.Unlocking
import SealedDrive.Proofs.Verdicts
import SealedDrive.Proofs.Clock
import SealedDrive.Proofs.Intake
import SealedDrive.Proofs.ById
import SealedDrive.Proofs.Silence
import SealedDrive.Proofs.Passers
import SealedDrive.Proofs.Cancelling
import SealedDrive.Proofs.Reauthentication
import SealedDrive.Proofs.LoginSteps
import SealedDrive.Proofs.Attributes
import SealedDrive.Proofs.Visits
import SealedDrive.Proofs.Quoting
import SealedDrive.Proofs.Numerals
import SealedDrive.Proofs.Sheets
import SealedDrive.Proofs.Settings
import SealedDrive.Proofs.KeyPass
