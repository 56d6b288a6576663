import Erbie.Lib.BalanceList
import Erbie.Lib.Fold
import Erbie.Lib.Upsert
import Erbie.Lib.Quorum
import Erbie.Lib.Conserve
import Erbie.Lib.Journal
import Erbie.Lib.Rlp
import Erbie.Lib.Codec
import Erbie.Lib.Keccak
import Erbie.Lib.Sampling
import Erbie.Spec.Types
import Erbie.Spec.Common
import Erbie.Spec.State
import Erbie.Spec.Staking
import Erbie.Spec.Evm
import Erbie.Spec.Istanbul
import Erbie.Spec.EmptyBlock
import Erbie.Spec.Finalize
import Erbie.Spec.Ibft
import Erbie.Spec.Transition
import Erbie.Spec.Miner
import Erbie.Spec.Journal
import Erbie.Spec.Selection
import Erbie.Spec.Ethapi
import Erbie.Spec.TxPool
import Erbie.Spec.Coefficients
import Erbie.Spec.RandomDrop
import Erbie.Spec.Genesis
import Erbie.Spec.Committee
import Erbie.Spec.RlpDecode
import Erbie.Spec.ExtraData
import Erbie.Spec.TxCodec
import Erbie.Spec.Signer
import Erbie.Proofs.ValidatorList
import Erbie.Proofs.EmptyVote
import Erbie.Proofs.Seals
import Erbie.Proofs.Agreement
import Erbie.Proofs.Frame
import Erbie.Proofs.Ledger
import Erbie.Proofs.Atomicity
import Erbie.Proofs.Validators
import Erbie.Proofs.Conservation
import Erbie.Proofs.Exchangers
import Erbie.Proofs.Slashing
import Erbie.Proofs.Revert
import Erbie.Proofs.Proxies
import Erbie.Proofs.AddressRange
import Erbie.Proofs.Rewards
import Erbie.Proofs.Refinement
import Erbie.Proofs.Admission
import Erbie.Proofs.NftFrame
import Erbie.Proofs.Ownership
import Erbie.Proofs.Coefficients
import Erbie.Proofs.RandomDrop
import Erbie.Proofs.MakeUp
import Erbie.Proofs.Genesis
import Erbie.Proofs.Beneficiaries
import Erbie.Proofs.Committee
import Erbie.Proofs.RlpDecode
import Erbie.Proofs.ExtraData
import Erbie.Proofs.Safety
import Erbie.Proofs.TxCodec
import Erbie.Proofs.Signer
