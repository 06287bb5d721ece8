import Agama.Exits
import Agama.Price
import Agama.Shares

/-!
# What holders pay and receive

The two public flows as their user sees them: the USDC and the agYLD that each moves in the user's
accounts and at the mint, next to the price that the flow found and the ledger that it left.
-/

namespace Agama

open TokenLedger

namespace World

/-- A deposit of `amount` USDC that brings its user `shares` agYLD, at the price it finds. -/
structure Buys (w : World) (user : Pubkey) (amount nav supply shares : U64) (w' : World) :
    Prop where
  positive : 0 < amount.val ∧ 0 < shares.val
  price : w.ledger.pricing = .ok (nav, supply)
  quoted : sharesFor nav supply amount = .ok shares
  paid : debit (w.usdc user) amount = some (w'.usdc user)
  received : credit (w.agyld user) shares = some (w'.agyld user)
  minted : credit w.agyldSupply shares = some w'.agyldSupply
  ledger : w'.ledger = { w.ledger with vault := w.vault.deposited shares amount }

/-- A redemption of `shares` agYLD that pays its user `assets` USDC, at the price it finds. -/
structure Sells (w : World) (user : Pubkey) (shares nav supply assets : U64) (w' : World) :
    Prop where
  positive : 0 < shares.val
  covered : shares.val ≤ w.vault.shares.val
  price : w.ledger.pricing = .ok (nav, supply)
  quoted : assetsFor nav supply shares = .ok assets
  burned : debit (w.agyld user) shares = some (w'.agyld user)
  unminted : debit w.agyldSupply shares = some w'.agyldSupply
  received : credit (w.usdc user) assets = some (w'.usdc user)
  ledger : w'.ledger = { w.ledger with vault := w.vault.redeemed shares assets }

variable {rt : Runtime} {w w' : World} {tx : Tx} {user : Pubkey}

/-- Every deposit is such a purchase. -/
theorem exec_deposit_buys {amount : U64} (h : w.exec rt tx (.deposit user amount) = .ok w') :
    ∃ nav supply shares, w.Buys user amount nav supply shares w' := by
  simp only [exec, execDeposit, bind_eq_ok, pure_eq_ok, Prod.exists] at h
  obtain ⟨_, -, a, e, hdep, rfl⟩ := h
  simp only [deposit, readBook, readShielded, bind_eq_ok, require_eq_ok, readAccount_eq_ok,
    orElse_eq_ok, pure_eq_ok, Prod.exists, Prod.mk.injEq] at hdep
  obtain ⟨_, hpos, b, ⟨-, hb⟩, s, ⟨-, hs⟩, nav, supply, hnav, shares, hshares, _, hdust, usdc,
    husdc, vaultUsdc, -, minted, hmint, agyld, hagyld, rfl, -⟩ := hdep
  cases hb
  cases hs
  refine ⟨nav, supply, shares, ⟨hpos, hdust⟩, hnav, hshares, ?_, ?_, hmint, rfl⟩
  · simpa only [storePublicFlow, publicFlow, Function.update_self] using husdc
  · simpa only [storePublicFlow, publicFlow, Function.update_self] using hagyld

/-- Every redemption is such a sale. -/
theorem exec_redeem_sells {shares : U64} (h : w.exec rt tx (.redeem user shares) = .ok w') :
    ∃ nav supply assets, w.Sells user shares nav supply assets w' := by
  simp only [exec, execRedeem, bind_eq_ok, pure_eq_ok, Prod.exists] at h
  obtain ⟨_, -, a, e, hred, rfl⟩ := h
  simp only [redeem, readBook, readShielded, bind_eq_ok, require_eq_ok, readAccount_eq_ok,
    orElse_eq_ok, pure_eq_ok, Prod.exists, Prod.mk.injEq] at hred
  obtain ⟨_, hpos, b, ⟨-, hb⟩, s, ⟨-, hs⟩, nav, supply, hnav, _, hcovered, assets, hassets, _, -,
    agyld, hagyld, minted, hmint, vaultUsdc, -, usdc, husdc, rfl, -⟩ := hred
  cases hb
  cases hs
  refine ⟨nav, supply, assets, hpos, hcovered, hnav, hassets, ?_, hmint, ?_, rfl⟩
  · simpa only [storePublicFlow, publicFlow, Function.update_self] using hagyld
  · simpa only [storePublicFlow, publicFlow, Function.update_self] using husdc

/-- A private redemption opens a ticket, and it is the one under the id that was asked for. -/
theorem exec_redeemsPrivate_ticket {ix : Ix} {o : Pubkey} {r : ExitRequest}
    (hix : ix.redeemsPrivate = some (o, r)) (h : w.exec rt tx ix = .ok w') :
    ∃ ticket, w.OpensTicket r ticket w' ∧
      ∀ e, w'.obligations.ticket r.groupId = some e → e = ticket := by
  obtain ⟨signer, handler, hrun, hspec⟩ := exec_redeemsPrivate hix h
  obtain ⟨ticket, hticket⟩ := execRedeemPrivate_ticket hrun fun hb hrun => by
    obtain ⟨ticket, -, hopen⟩ := hspec hb hrun
    exact ⟨ticket, hopen⟩
  refine ⟨ticket, hticket, fun e he => ?_⟩
  obtain ⟨slot, hslot⟩ := hticket.free
  have hobligations : w'.obligations.tickets = (w.obligations.opening ticket).tickets := by
    simp only [Obligations.tickets, obligations, hticket.exits]
    rfl
  obtain ⟨hmem, hid⟩ := Obligations.ticket_mem he
  rw [hobligations] at hmem
  have hperm := Obligations.tickets_opening (x := w.obligations)
    (Exit.isOpen_of_pos hticket.inRange.1) hslot
  rcases List.mem_cons.mp (hperm.mem_iff.mp hmem) with rfl | hold
  · rfl
  · -- No ticket that was open before has that id.
    exact absurd (hid.trans hticket.groupId.symm) (hticket.unused e (List.mem_filter.mp hold).1)

end World

/-- What a private redemption means for the ledger. -/
theorem Ix.move_of_redeemsPrivate {ix : Ix} {o : Pubkey} {r : ExitRequest} {now : ℤ}
    (hix : ix.redeemsPrivate = some (o, r)) : ix.move now = .redeemPrivate r.shares := by
  cases ix with
  | redeemPrivate | redeemPrivateTo =>
    cases hix
    rfl
  | _ => cases hix

end Agama
