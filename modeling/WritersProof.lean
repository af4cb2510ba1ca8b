import WritersProof.Mmr.StoreRefinement
import WritersProof.Mmr.RangeCompleteness
import WritersProof.Mmr.Torn
import WritersProof.Mmr.Total
import WritersProof.Wal.Cursor
import WritersProof.Wal.Failures
import WritersProof.Swf.Binding
import WritersProof.Posme.Total
import WritersProof.Posme.Completeness
import WritersProof.Checkpoint.Binding
import WritersProof.Checkpoint.Commit
import WritersProof.Checkpoint.Timing
import WritersProof.Checkpoint.BatchVerifier
import WritersProof.Store.Interrupted
import WritersProof.Store.Tampered
import WritersProof.Store.Spanning
import WritersProof.Store.FragmentSync
import WritersProof.Store.AccessLog
import WritersProof.War.TrustBundle
import WritersProof.War.Ephemeral
import WritersProof.War.ProtocolRoundTrip
import WritersProof.Evidence.Cosigned
import WritersProof.Evidence.Exported
import WritersProof.Evidence.WireLinks
import WritersProof.Evidence.EntangledHash
import WritersProof.Evidence.FullVerification
import WritersProof.Protocol.Finalized
import WritersProof.Protocol.DepthLoop
import WritersProof.C2pa.PdfBinding
import WritersProof.C2pa.Zeroed
import WritersProof.C2pa.Nesting
import WritersProof.C2pa.PdfUpdate
import WritersProof.Content.Derivation
import WritersProof.Content.Splitting
import WritersProof.SealedIdentity.Authentic
import WritersProof.Wire.Binding
import WritersProof.Declaration.Payload
import WritersProof.Ipc.Refused
import WritersProof.Ipc.SecureChannel
import WritersProof.Jitter.Current
import WritersProof.Jitter.Engine
import WritersProof.Jitter.Codec
import WritersProof.Anchors.Nonce
import WritersProof.Anchors.Signed
import WritersProof.Anchors.BlockPow
import WritersProof.Anchors.Upgrade
import WritersProof.Collaboration.Coverage
import WritersProof.CpoeJitter.Session
import WritersProof.CpoeJitter.Tampered
import WritersProof.Snapshot.History
import WritersProof.Offline.Schedule
