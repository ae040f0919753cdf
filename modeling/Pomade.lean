import Pomade.Lib.Bytes
import Pomade.Lib.Hex
import Pomade.Lib.Prog
import Pomade.Lib.Table
import Pomade.Frost.Scalar
import Pomade.Frost.Curve
import Pomade.Frost.Signing
import Pomade.Frost.ScalarCurve
import Pomade.Signer.Schema
import Pomade.Signer.Store
import Pomade.Signer.Handlers
import Pomade.Signer.RateLimit
import Pomade.Signer.Revocation
import Pomade.Lib.Window
import Pomade.Go.Handlers
import Pomade.Go.Refinement
import Pomade.Go.Runs
import Pomade.Go.Sessions
import Pomade.Lib.Pool
import Pomade.Signer.Footprint
import Pomade.Signer.Pools
import Pomade.Signer.OneTime
import Pomade.Go.OneTime
import Pomade.Frost.Shares
import Pomade.Lib.Interpolation
import Pomade.Frost.Points
import Pomade.Frost.Recovery
import Pomade.Frost.Refresh
import Pomade.Frost.Ecdh
import Pomade.Core.Storage
import Pomade.Core.Queue
import Pomade.Core.Transactions
import Pomade.Go.Packages
import Pomade.Go.Taproot
import Pomade.Lib.Bits
import Pomade.Go.ConstantTime
import Pomade.Lib.ExpandMessage
import Pomade.Go.Hashes
import Pomade.Go.PartialSignatures
import Pomade.Go.PointStates
import Pomade.Go.SignComplete
import Pomade.Frost.SessionId
import Pomade.Frost.SignSession
import Pomade.Frost.Verification
import Pomade.Frost.NonceOrder
import Pomade.Frost.Dkg
import Pomade.Frost.Fallible
import Pomade.Frost.DkgPanics
import Pomade.Signer.Binding
import Pomade.Go.SignAgreement
import Pomade.Go.Verification
import Pomade.Go.FinalSignature
import Pomade.Lib.SquareRoot
import Pomade.Go.Field
import Pomade.Go.Coordinates
import Pomade.Signer.Exactness
import Pomade.Signer.Challenge
import Pomade.Signer.Ownership
import Pomade.Signer.Spelling
import Pomade.Frost.Panics
import Pomade.Signer.Logs
import Pomade.Signer.Panics
import Pomade.Signer.Responses
import Pomade.Core.Sqlite
import Pomade.Core.Isolation
import Pomade.Core.Signer
import Pomade.Core.Accounts
import Pomade.Core.Permutations
import Pomade.Core.Prefixes
import Pomade.Core.EmailHash
import Pomade.Lib.Memo
import Pomade.Core.HashCache
import Pomade.Lib.Positions
import Pomade.Core.Register
import Pomade.Core.EmailIndex
import Pomade.Signer.Commitments
import Pomade.Signer.NonceUse
import Pomade.Signer.SignerSet
import Pomade.Frost.Abort
import Pomade.Frost.SigningComplete
import Pomade.Signer.TwoRounds
import Pomade.Frost.DkgSound
import Pomade.Frost.DkgGroup
import Pomade.Frost.DkgComplete
import Pomade.Signer.Expiry
import Pomade.Signer.Release
import Pomade.Signer.Replacement
import Pomade.Signer.Stale
import Pomade.Lib.Simulation
import Pomade.Lib.Ordered
import Pomade.Signer.Storage
import Pomade.Signer.Disk
import Pomade.Frost.EcdhPackages
import Pomade.Lib.Lockstep
import Pomade.Signer.Enumeration
import Pomade.Signer.Honoured
