import SuiPq.Proof.Sha2128s.Separation
import SuiPq.Proof.Agreement128s
import SuiPq.Proof.WotsReduction
import SuiPq.Proof.Forgery
import SuiPq.Proof.Verifier
import SuiPq.Proof.LiteInterop
import SuiPq.Proof.SecretReuse
import SuiPq.Proof.Replay
import SuiPq.Proof.ClassicalKey
import SuiPq.Proof.Payout
import SuiPq.Proof.Accounting
import SuiPq.Proof.OneSignature
import SuiPq.Proof.Payment
import SuiPq.Proof.Isolation
import SuiPq.Proof.Identities
import SuiPq.Proof.ForsReuse
import SuiPq.Proof.DigestSeparation
import SuiPq.Proof.NativeWire
import SuiPq.Proof.SponsorServer
import SuiPq.Proof.MoveVm.Termination
import SuiPq.Proof.MoveVm.Sized
import SuiPq.Proof.MoveVm.Fuel
import SuiPq.Proof.MoveVm.Calls
import SuiPq.Proof.MoveVm.Source.Standard
import SuiPq.Proof.MoveVm.Assembled.Composition
import SuiPq.Proof.SealDemo
import SuiPq.Proof.Indexer
import SuiPq.Proof.DigestBits
import SuiPq.Proof.WotsAgreement
import SuiPq.Proof.UnlockMessage
import SuiPq.Proof.Hybrid
import SuiPq.Proof.ZkLoginWrap
import SuiPq.Proof.OffChain
import SuiPq.Proof.CoSigning
import SuiPq.Proof.Membership
import SuiPq.Proof.PqAttestation
