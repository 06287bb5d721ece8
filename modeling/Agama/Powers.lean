import Agama.Deployment
import Agama.Holdings

/-!
# What a session key may do

A key that is not the owner's acts on a position only by the owner's word: a wallet transaction on
Solana (`authorize_session`) or a signed message (`rotate_session`). Whatever happens in between, it
is the last word that counts, so naming another key takes the power of the one before it away, and
the power ends by itself with the session that was named.
-/

namespace Agama

namespace World

variable {rt : Runtime} {w w' : World} {tx : Tx} {a : Action} {o key : Pubkey} {expiry : ℤ}

end World

/-! ## The law -/

end Agama
