import EntitlementAuthority.Fault
import EntitlementAuthority.Text.Fields
import EntitlementAuthority.Text.Integer
import EntitlementAuthority.Text.Lower
import EntitlementAuthority.Text.Percent
import EntitlementAuthority.Text.Sorted
import EntitlementAuthority.Oid
import EntitlementAuthority.Catalog.Arch
import EntitlementAuthority.Bytes.Base64
import EntitlementAuthority.Der.ExtensionValue
import EntitlementAuthority.Time.Rfc3339
import EntitlementAuthority.Digest.Sha256
import EntitlementAuthority.Zlib.Inflate
import EntitlementAuthority.Zlib.Store
import EntitlementAuthority.PathTree.Decode
import EntitlementAuthority.Table
import EntitlementAuthority.Catalog.Content
import EntitlementAuthority.Catalog.Pool
import EntitlementAuthority.Registry.Consumer
import EntitlementAuthority.Registry.Environment
import EntitlementAuthority.Registry.Owner
import EntitlementAuthority.Promotion.ContentPath
import EntitlementAuthority.Promotion.Drift
import EntitlementAuthority.Payload.Key
import EntitlementAuthority.Json.Basic
import EntitlementAuthority.Json.Lexer
import EntitlementAuthority.Json.Reader
import EntitlementAuthority.Json.Record
import EntitlementAuthority.Body.Assembly
import EntitlementAuthority.Body.Codec
import EntitlementAuthority.Extension.Basic
import EntitlementAuthority.Extension.Compact
import EntitlementAuthority.Extension.Legacy
import EntitlementAuthority.Payload.Frame
import EntitlementAuthority.Signature.KeyPair
import EntitlementAuthority.Certificate.KeyIdentifier
import EntitlementAuthority.Certificate.Name
import EntitlementAuthority.Certificate.Pem
import EntitlementAuthority.Certificate.X509
import EntitlementAuthority.Certificate.Authority
import EntitlementAuthority.Anonymous.Cache
import EntitlementAuthority.Issuance.CertificateStore
import EntitlementAuthority.Issuance.SerialLedger
import EntitlementAuthority.Payload.Cache
import EntitlementAuthority.Registry.Directory
import EntitlementAuthority.Signature.KeyRing
import EntitlementAuthority.Decimal.Binary64
import EntitlementAuthority.Decimal.Layout
import EntitlementAuthority.Certificate.Inspection
import EntitlementAuthority.Issuance.AnonymousAccess
import EntitlementAuthority.Issuance.ContentAccess
import EntitlementAuthority.Issuance.Requests
import EntitlementAuthority.Config.Codec
import EntitlementAuthority.Config.Layers
import EntitlementAuthority.Json.Indented
import EntitlementAuthority.Certificate.Listing
import EntitlementAuthority.CommandLine.Arguments
import EntitlementAuthority.CommandLine.Command
import EntitlementAuthority.CommandLine.Help
import EntitlementAuthority.Issuance.Sample
import EntitlementAuthority.CommandLine.Report
import EntitlementAuthority.Main
import EntitlementAuthority.Proofs.Body.Views
import EntitlementAuthority.Proofs.Promotion.DriftSoundness
import EntitlementAuthority.Proofs.Text.Separated
import EntitlementAuthority.Proofs.Payload.KeyInput
import EntitlementAuthority.Proofs.Issuance.Signing
import EntitlementAuthority.Proofs.Payload.Sharing
import EntitlementAuthority.Proofs.Issuance.Effect
import EntitlementAuthority.Proofs.Issuance.RequestEffects
import EntitlementAuthority.Proofs.Issuance.Failure
import EntitlementAuthority.Proofs.Issuance.Interleaving
import EntitlementAuthority.Proofs.Catalog.Arch
import EntitlementAuthority.Proofs.Issuance.Succession
import EntitlementAuthority.Proofs.PathTree.Roundtrip
import EntitlementAuthority.Proofs.Body.Roundtrip
import EntitlementAuthority.Proofs.Payload.Framing
import EntitlementAuthority.Proofs.Promotion.Change
import EntitlementAuthority.Proofs.Payload.Snapshot
import EntitlementAuthority.Proofs.Outcomes
import EntitlementAuthority.Proofs.Promotion.ContentPath
import EntitlementAuthority.Proofs.PathTree.ContentTree
import EntitlementAuthority.Proofs.Payload.AccessRun
import EntitlementAuthority.Proofs.Payload.Coherence
import EntitlementAuthority.Proofs.Promotion.Agreement
import EntitlementAuthority.Proofs.Issuance.Flagging
import EntitlementAuthority.Proofs.Issuance.OneCertificate
import EntitlementAuthority.Proofs.Issuance.Upkeep
import EntitlementAuthority.Proofs.Issuance.EagerRenewal
import EntitlementAuthority.Proofs.Payload.Racing
import EntitlementAuthority.Proofs.Issuance.Steps
import EntitlementAuthority.Proofs.Issuance.Concurrency
import EntitlementAuthority.Proofs.Issuance.Acts
import EntitlementAuthority.Proofs.Issuance.Prediction
import EntitlementAuthority.Proofs.Der.Element
import EntitlementAuthority.Proofs.Der.Identifier
import EntitlementAuthority.Proofs.Certificate.Artifact
import EntitlementAuthority.Proofs.Body.Clean
import EntitlementAuthority.Proofs.Issuance.CleanRecords
import EntitlementAuthority.Proofs.Issuance.Artifacts
import EntitlementAuthority.Proofs.Text.Percent
import EntitlementAuthority.Proofs.Promotion.Container
import EntitlementAuthority.Proofs.Body.Placement
import EntitlementAuthority.Proofs.Issuance.GrantedProducts
import EntitlementAuthority.Proofs.Extension.LegacyLookup
import EntitlementAuthority.Proofs.Promotion.Reordering
import EntitlementAuthority.Proofs.Issuance.DriftFlags
import EntitlementAuthority.Proofs.PathTree.Reading
import EntitlementAuthority.Proofs.PathTree.Cycles
import EntitlementAuthority.Proofs.Signature.KeyRing
import EntitlementAuthority.Proofs.Issuance.KeyPairs
import EntitlementAuthority.Proofs.PathTree.Declared
import EntitlementAuthority.Proofs.Certificate.KeyIdentifier
import EntitlementAuthority.Proofs.Issuance.ChangeProbe
import EntitlementAuthority.Proofs.Text.Escapes
import EntitlementAuthority.Proofs.Promotion.PathBuilding
import EntitlementAuthority.Proofs.Catalog.Merging
import EntitlementAuthority.Proofs.Anonymous.Recency
import EntitlementAuthority.Proofs.Anonymous.ProductSets
import EntitlementAuthority.Proofs.Anonymous.Sharing
import EntitlementAuthority.Proofs.Extension.LegacyLimit
import EntitlementAuthority.Proofs.Registry.Deletion
import EntitlementAuthority.Proofs.Body.GrantedContents
import EntitlementAuthority.Proofs.PrefixCode.Inverse
import EntitlementAuthority.Proofs.PrefixCode.Optimality
import EntitlementAuthority.Proofs.PathTree.Maximality
