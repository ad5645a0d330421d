import Fantom.Script.Combine
import Fantom.Script.NormalPayment
import Fantom.Script.Limits
import Fantom.Script.DerEncoding
import Fantom.Script.CompactSig
import Fantom.Chain.Minting
import Fantom.Chain.Verdict
import Fantom.Chain.MerkleRoot
import Fantom.Chain.Retarget
import Fantom.Chain.FindBlock
import Fantom.Chain.StakeModifier
import Fantom.Pool.Conflicts
import Fantom.Pool.Resurrect
import Fantom.Blocks.OrphanStakes
import Fantom.Blocks.Restart
import Fantom.Blocks.ExternalFile
import Fantom.Blanknode.WinnerText
import Fantom.Blanknode.Winner
import Fantom.Blanknode.Ranks
import Fantom.Blanknode.Removal
import Fantom.Blanknode.CacheRead
import Fantom.InstantX.OneVote
import Fantom.InstantX.Expiry
import Fantom.InstantX.Completion
import Fantom.InstantX.LockHeight
import Fantom.InstantX.ValueCap
import Fantom.Spork.SignedText
import Fantom.Zerosend.Inputs
import Fantom.Zerosend.Signatures
import Fantom.Zerosend.Client
import Fantom.Miner.TemplateLocks
import Fantom.Wallet.KeyPool
import Fantom.Wallet.Stealth
import Fantom.Wallet.CoinAgeSound
import Fantom.Wallet.CoinStake
import Fantom.Wallet.PrepareDenominate
import Fantom.Wallet.Aligned
import Fantom.Net.Alert
import Fantom.Net.Saved
import Fantom.Net.Eviction
import Fantom.Net.SpecialAddr
import Fantom.Smsg.BucketHash
import Fantom.Smsg.RoundTrip
import Fantom.Smsg.PayloadBounds
import Fantom.Market.Authority
import Fantom.Market.Listings
import Fantom.Market.Restart
import Fantom.Script.NumberBytes
import Fantom.Script.FindAndDelete
import Fantom.Pool.Equality
import Fantom.Smsg.Bunch
import Fantom.Smsg.SendQueue
import Fantom.Market.Escrow
