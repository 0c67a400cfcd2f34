import RepoAtlas.Main
import RepoAtlas.Proofs.Cache.Failure
import RepoAtlas.Proofs.Run.Frame
import RepoAtlas.Proofs.Run.OffLimits
import RepoAtlas.Proofs.History
import RepoAtlas.Proofs.Migration.Interruption
import RepoAtlas.Proofs.Snapshot
import RepoAtlas.Proofs.Run.Series
import RepoAtlas.Proofs.Walk.Accounts
import RepoAtlas.Proofs.Walk.Locality
import RepoAtlas.Proofs.Run.Faults
import RepoAtlas.Proofs.Scan.Comment
import RepoAtlas.Proofs.Scan.Outline
import RepoAtlas.Proofs.Scan.Documentation
import RepoAtlas.Proofs.Describe.Accounts
import RepoAtlas.Proofs.Ignore.Escaped
import RepoAtlas.Proofs.Ignore.Files
import RepoAtlas.Proofs.Describe.Reply
import RepoAtlas.Proofs.Describe.Erasure
import RepoAtlas.Proofs.Python.Content
import RepoAtlas.Proofs.Python.Layout
import RepoAtlas.Proofs.Cache.Rows
import RepoAtlas.Proofs.Python.LineEnds
import RepoAtlas.Proofs.Scan.LineEnds
import RepoAtlas.Proofs.TreeMap
import RepoAtlas.Proofs.Language.Suffix
import RepoAtlas.Proofs.Ignore.Layers
import RepoAtlas.Proofs.Python.Outline
import RepoAtlas.Proofs.Python.Imports
import RepoAtlas.Proofs.Python.Parse
import RepoAtlas.Proofs.Describe.Retry
import RepoAtlas.Proofs.Bytes.Sha256
import RepoAtlas.Proofs.Json.Numerals
import RepoAtlas.Proofs.Json.Skipping
import RepoAtlas.Proofs.Describe.Records
import RepoAtlas.Proofs.Describe.Content
import RepoAtlas.Proofs.Describe.Completion
import RepoAtlas.Proofs.Dialogue
import RepoAtlas.Proofs.Outline
import RepoAtlas.Proofs.Python.Literal
import RepoAtlas.Proofs.Python.Faults
import RepoAtlas.Proofs.Bytes.Boundary
import RepoAtlas.Proofs.Describe.Endpoint
import RepoAtlas.Proofs.Describe.Quotation
import RepoAtlas.Proofs.Python.Constants
