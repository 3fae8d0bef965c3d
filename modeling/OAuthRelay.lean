import OAuthRelay.Async.Store
import OAuthRelay.Async.Machine
import OAuthRelay.RefreshHandle
import OAuthRelay.Rotation.Record
import OAuthRelay.Rotation.Protocol
import OAuthRelay.Async.History
import OAuthRelay.Async.Chain
import OAuthRelay.Rotation.Steps
import OAuthRelay.Rotation.Calls
import OAuthRelay.Rotation.Records
import OAuthRelay.Rotation.Past
import OAuthRelay.Rotation.Successor
import OAuthRelay.Rotation.Claims
import OAuthRelay.Rotation.Stale
import OAuthRelay.Rotation.Family
import OAuthRelay.Rotation.Marker
import OAuthRelay.Rotation.Revoked
import OAuthRelay.Codes.Envelope
import OAuthRelay.Codes.Separation
import OAuthRelay.Codes.Exchange
import OAuthRelay.Codes.Redemption
import OAuthRelay.Rotation.Lease
import OAuthRelay.Codes.Soundness
import OAuthRelay.Rotation.Lifetime
import OAuthRelay.Rotation.Replay
import OAuthRelay.Rotation.Chain
import OAuthRelay.Rotation.Reuse
import OAuthRelay.Rotation.Recovery
import OAuthRelay.Rotation.Head
import OAuthRelay.Rotation.Drift
import OAuthRelay.Wire.Framing
import OAuthRelay.Wire.Json
import OAuthRelay.Assertions.Presentation
import OAuthRelay.Assertions.KeySets
import OAuthRelay.Assertions.SingleUse
import OAuthRelay.Config.Registry
import OAuthRelay.Responses.Modes
import OAuthRelay.Wire.Object
import OAuthRelay.Responses.Sealing
import OAuthRelay.Async.Objects
import OAuthRelay.Kubernetes.Store
import OAuthRelay.Kubernetes.Reports
import OAuthRelay.Binding.Fingerprint
import OAuthRelay.Binding.AssociatedData
import OAuthRelay.Binding.Fleet
import OAuthRelay.Kubernetes.Swaps
import OAuthRelay.Async.Interleaving
import OAuthRelay.DynamoDb.Store
import OAuthRelay.DynamoDb.Writes
import OAuthRelay.Memory.Store
import OAuthRelay.Memory.Refinement
import OAuthRelay.Kubernetes.Sweeps
import OAuthRelay.Kubernetes.Watermark
import OAuthRelay.Async.Memo
import OAuthRelay.Config.Documents
import OAuthRelay.Config.Compile
import OAuthRelay.Async.Steps
import OAuthRelay.Config.Merge
import OAuthRelay.Config.Updater
import OAuthRelay.Config.Invocations
import OAuthRelay.Config.Parameters
import OAuthRelay.Cluster.Discovery
import OAuthRelay.Cluster.Updates
import OAuthRelay.Redirects.Matchers
import OAuthRelay.Redirects.Authority
import OAuthRelay.Redirects.Options
import OAuthRelay.Redirects.Serialization
import OAuthRelay.Responses.Lens
import OAuthRelay.Routes.Layout
import OAuthRelay.Redirects.Loopback
import OAuthRelay.Redirects.Cors
import OAuthRelay.Wire.Form
import OAuthRelay.Flows.Requests
import OAuthRelay.Flows.Authorize
import OAuthRelay.Flows.Callback
import OAuthRelay.Flows.Refresh
import OAuthRelay.Policies.Wildcards
import OAuthRelay.Policies.Claims
import OAuthRelay.Policies.Admission
import OAuthRelay.Wire.Radix
import OAuthRelay.Kubernetes.Names
import OAuthRelay.Wire.Base64
import OAuthRelay.Flows.Credentials
import OAuthRelay.Flows.Authentication
import OAuthRelay.DynamoDb.Expiry
import OAuthRelay.Wire.Aead
import OAuthRelay.Flows.Handles
import OAuthRelay.Schemas.Syntax
import OAuthRelay.Schemas.Meaning
import OAuthRelay.Schemas.Adaptation
import OAuthRelay.Schemas.Copies
import OAuthRelay.Schemas.Rules
import OAuthRelay.Schemas.Hoisting
import OAuthRelay.Schemas.Lifting
import OAuthRelay.Schemas.Agreement
import OAuthRelay.Schemas.Soundness
import OAuthRelay.Schemas.Adapted
import OAuthRelay.Schemas.Validity
import OAuthRelay.Upstreams.Metadata
import OAuthRelay.Upstreams.Description
import OAuthRelay.Codes.Journey
import OAuthRelay.Flows.Transparency
import OAuthRelay.Async.Projections
import OAuthRelay.Wire.Calendar
import OAuthRelay.Kubernetes.Selectors
import OAuthRelay.Kubernetes.Layout
import OAuthRelay.Kubernetes.Client
import OAuthRelay.Rotation.Erasure
