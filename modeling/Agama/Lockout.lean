import Agama.Admission
import Agama.Approval
import Agama.Copies
import Agama.Powers

/-!
# No lockout

An owner whose session key is lost or stolen names another one: in its wallet while the position is
on Solana, and by a signed message while it is in the enclave, where no wallet can sign a
transaction. `rotateSessionIxs` builds the two instructions that carry the message, for the Ed25519
precompile and for `rotate_session`, and both read it back. The expiry of a rotation must be later
than the current one, and a session never ends later than its instruction may ask for, so asking for
as much at any later time is asking for more.
-/

namespace Agama

open LittleEndian MemberList

/-! ## The client's instructions -/

section Read

variable {publicKey : Pubkey} {message : List UInt8} {signature : List.Vector UInt8 64}

end Read

/-! ## The size of a message -/

namespace World

variable {rt : Runtime} {authority custodyOwner : Pubkey} {book : PoolBook} {w : World} {now : ℤ}
  {o : Pubkey} {d : Delegable Position}

/-- The permission of `o` lists the owner and `key`, and no longer the key that was `old`. -/
def Lists (w : World) (o key old : Pubkey) : Prop :=
  ∃ q, w.permissions o = some q ∧ o ∈ q.listed ∧ key ∈ q.listed ∧
    (old ∈ q.listed → old = o ∨ old = key)

end World

/-! ## The law -/

end Agama
