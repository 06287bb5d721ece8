import Agama.Price
import Agama.Layers
import Agama.Absorption
import Agama.Keeper
import Agama.Recovery
import Agama.Transactions
import Agama.Authority
import Agama.Sessions
import Agama.Exits
import Agama.Accrual
import Agama.Shares
import Agama.Admission
import Agama.PaymentFormat
import Agama.Privacy
import Agama.RoundTrip
import Agama.Splitting
import Agama.Approval
import Agama.EntryPrice
import Agama.Balance
import Agama.Alike
import Agama.Cap
import Agama.ExitPasses
import Agama.TransferFormat
import Agama.Narrowing
import Agama.Funding
import Agama.Publication
import Agama.Format
import Agama.Marks
import Agama.Powers
import Agama.Usdc
import Agama.Panics
import Agama.Recycling
import Agama.Settlement
import Agama.Migration
import Agama.Lockout
import Agama.Report
import Agama.Solvency
