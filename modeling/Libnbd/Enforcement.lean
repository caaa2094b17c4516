import Libnbd.Session
import Libnbd.Negotiation.Tls

/-!
A handle whose TLS setting is `LIBNBD_TLS_REQUIRE`, from its creation on.

The invariants are those of the negotiating machine; what is added here is that
the transmission phase is never entered without TLS, and that a connection which
is being closed is never taken up again.
-/

namespace Libnbd.Session

open Lib Negotiation

/-- The step finds that the server refuses TLS or cannot do it. -/
def refuses : Session → Label → Bool
  | negotiating c, .negotiate l => c.refuses l
  | _, _ => false

/-- Whatever happens next, the handle is on its way to `CLOSED` or `DEAD`, which are
three steps away at most if the socket does not hold them up. -/
def Ends (s : Session) : Prop :=
  ∃ c, s = negotiating c ∧ ∀ ls s', system.exec s ls = some s' →
    s'.handle.state.isClosing = true ∧
      (3 ≤ Negotiation.machine.total Config.unblocked c (negotiationOf ls) →
        s'.handle.state = .closed ∨ s'.handle.state = .dead)

theorem ends_of_closing {c : Negotiation.Config} (hr : Negotiation.machine.Reachable c)
    (hc : c.h.state.isClosing = true) : (negotiating c).Ends := by
  refine ⟨c, rfl, fun ls s' he => ?_⟩
  obtain ⟨ctl, hx, -, -⟩ := exec_negotiation hr he
  obtain ⟨hclosing, hrank⟩ := run_closes hr hc hx
  refine ⟨hclosing, fun hn => State.closed_or_dead hclosing ?_⟩
  have hle := c.h.state.closingRank_le
  change s'.handle.state.closingRank + _ ≤ _ at hrank
  omega

/-- A server that refuses TLS or cannot do it. -/
theorem refuses_ends {s s' : Session} {l : Label} (hs : s.Coupled)
    (ht : s.handle.cfg.tls = .require) (hrefuse : s.refuses l = true)
    (hstep : system.step s l = some s') : s'.Ends := by
  cases s with
  | connected n c => cases hrefuse
  | negotiating c =>
    cases l with
    | handover pending start => cases hrefuse
    | transmit l => cases hrefuse
    | negotiate l =>
      simp only [system, step] at hstep
      split at hstep
      · cases hstep
      · obtain ⟨c', hc', rfl⟩ := Option.map_eq_some_iff.mp hstep
        exact ends_of_closing (System.Reachable.step _ hs hc') (step_refuses hs ht hrefuse hc')

/-- A handle that requires TLS and does not have it is still negotiating, but not
for the application to go on. -/
theorem guarded_session {s : Session} {c₀ : Negotiation.Config} {ls : List Label}
    (hi : Negotiation.machine.init c₀) (he : system.exec (negotiating c₀) ls = some s)
    (hg : Guard s.handle) :
    ∃ c, s = negotiating c ∧ c.h.state ≠ .negotiating ∧ c.h.state ≠ .ready := by
  have hst := hg.state
  cases s with
  | negotiating c =>
    refine ⟨c, rfl, fun hs => ?_, fun hs => ?_⟩
    · rw [show (negotiating c).handle.state = .negotiating from hs] at hst
      cases hst
    · rw [show (negotiating c).handle.state = .ready from hs] at hst
      cases hst
  | connected n c =>
    obtain ⟨ctl, -, -, hready⟩ := exec_negotiation ⟨c₀, [], hi, rfl⟩ he
    rw [(hready n c rfl).1] at hst
    cases hst

/-- **TLS is enforced.** Until TLS is negotiated the handle is neither in
`NEGOTIATING` nor in the transmission phase, and has sent nothing but the client
flags and (a part of) STARTTLS and ABORT requests; a server without TLS leads to
`CLOSED` or `DEAD`. -/
theorem tls_enforced {c₀ : Negotiation.Config} {ls : List Label} {s : Session}
    (hi : Negotiation.machine.init c₀) (he : system.exec (negotiating c₀) ls = some s)
    (ht : s.handle.cfg.tls = .require) :
    (s.handle.exp.tlsNegotiated = false →
      (∃ c, s = negotiating c ∧ c.h.state ≠ .negotiating ∧ c.h.state ≠ .ready) ∧
      ∃ rs : List OptRequest, (∀ r ∈ rs, r = .starttls ∨ r = .abort) ∧
        s.handle.sent <+: toBE 4 s.handle.gflags.toNat ++ rs.flatMap OptRequest.encode) ∧
    ∀ l s', s.refuses l = true → system.step s l = some s' → s'.Ends := by
  have hr : system.Reachable s := ⟨_, ls, ⟨c₀, hi, rfl⟩, he⟩
  refine ⟨fun hn => ?_, fun l s' hrefuse hstep => refuses_ends (reachable_coupled hr) ht hrefuse hstep⟩
  obtain ⟨ctl, hx, -, -⟩ := exec_negotiation ⟨c₀, [], hi, rfl⟩ he
  have hsec := run_secured hi hx
  exact ⟨guarded_session hi he (hsec.guarded ht hn), _, hsec.plain ht hn, hsec.sent.output.sent_prefix⟩

/-- Require TLS in option mode, and wait for the answer to STARTTLS, which is that
the server does not know the option. -/
def refusedTls : List Label :=
  (Negotiation.Label.call (.set (.setTls .require)) .calm :: connectOptMode.take 12 ++
    (exchange .starttls repErrUnsup []).take 2).map Label.negotiate

theorem tls_enforced_refused :
    ∃ s s', system.exec (.negotiating .created) refusedTls = some s ∧
      s.handle.cfg.tls = .require ∧
      (∃ c, s = negotiating c ∧ c.h.state ≠ .negotiating ∧ c.h.state ≠ .ready) ∧
      system.step s (.negotiate (.enter .calm)) = some s' ∧ s'.Ends := by
  have hrun : (system.exec (.negotiating .created) refusedTls).map (fun s =>
      (s.handle.cfg.tls, s.handle.exp.tlsNegotiated, s.refuses (.negotiate (.enter .calm)),
        (system.step s (.negotiate (.enter .calm))).isSome)) = some (.require, false, true, true) := by
    decide +kernel
  obtain ⟨s, hs, hp⟩ := Option.map_eq_some_iff.mp hrun
  simp only [Prod.mk.injEq] at hp
  obtain ⟨ht, hn, hrefuse, hstep⟩ := hp
  obtain ⟨s', hs'⟩ := Option.isSome_iff_exists.mp hstep
  obtain ⟨hplain, hends⟩ := tls_enforced Config.initial_created hs ht
  exact ⟨s, s', hs, ht, (hplain hn).1, hs', hends _ _ hrefuse hs'⟩

end Libnbd.Session
