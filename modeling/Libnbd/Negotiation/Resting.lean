import Libnbd.Negotiation.Effect

/-!
Where the run loop returns before the transmission phase.

A state blocks because it waits for the socket, and then it has an event that wakes
it up; the other states in which the loop returns are `START`, `NEGOTIATING`, `READY`
and the two final states. The loop fails only in `DEAD`, or back in `START` when the
server cannot be reached.
-/

namespace Libnbd.Negotiation

open Lib

/-- The states in which the run loop can return. -/
def State.isResting (s : State) : Bool :=
  s.isReceiving || s.isSending || match s with
    | .start | .negotiating | .ready | .dead | .closed | .connectStart => true
    | _ => false

/-- The states in which the run loop can fail. -/
def State.isFailed (s : State) : Bool := s == .dead || s == .start

/-- The run loop returns in a state to wait in, or fails in `DEAD` or `START`. -/
def Outcome.Rests : Outcome → Prop
  | .block h => h.state.isResting = true
  | .fail h => h.state.isFailed = true
  | .next _ | .abort _ => True

variable {inp : Input} {h : Handle}

@[simp] theorem goto_rests {s : State} : (goto s h).Rests := trivial

@[simp] theorem die_rests {e : UInt32} {t : String} : (die e t h).Rests := trivial

@[simp] theorem abort_rests {a : Abort} : (Outcome.abort a).Rests := trivial

@[simp] theorem require_rests {p : Bool} {a : Abort} {k : Outcome} (hk : k.Rests) :
    (require p a k).Rests := by
  unfold require
  split
  · exact hk
  · trivial

theorem ite_rests {p : Prop} [Decidable p] {a b : Outcome} (ha : a.Rests) (hb : b.Rests) :
    (if p then a else b).Rests := by
  split
  · exact ha
  · exact hb

theorem fetch_rests {pos n : Nat} {k : List UInt8 → Outcome} (hk : ∀ bs, (k bs).Rests) :
    (fetch h pos n k).Rests := ite_rests (hk _) trivial

theorem poke_rests {pos : Nat} {b : UInt8} {k : Handle → Outcome} (hk : ∀ h, (k h).Rests) :
    (poke h pos b k).Rests := ite_rests (hk _) trivial

theorem minus_rests {a b : Nat} {k : Nat → Outcome} (hk : ∀ n, (k n).Rests) :
    (minus a b k).Rests := ite_rests (hk _) trivial

theorem recvThen_rests {done : Handle → Outcome} (hs : h.state.isReceiving = true)
    (hdone : ∀ h, (done h).Rests) : (recvThen inp done h).Rests := by
  have hwait : h.state.isResting = true := by simp [State.isResting, hs]
  unfold recvThen
  split
  · exact hdone _
  · split
    · exact hwait
    · trivial
    · exact ite_rests trivial (ite_rests (hdone _) hwait)

theorem sendThen_rests {done : Handle → Outcome} (hs : h.state.isSending = true)
    (hdone : ∀ h, (done h).Rests) : (sendThen inp done h).Rests := by
  have hwait : h.state.isResting = true := by simp [State.isResting, hs]
  unfold sendThen
  split
  · exact hdone _
  · split
    · exact hwait
    · trivial
    · exact ite_rests (hdone _) hwait

theorem handleReplyError_rests {k : Handle → Outcome} (hk : ∀ h, (k h).Rests) :
    (handleReplyError inp h k).Rests :=
  ite_rests trivial <| ite_rests trivial <| ite_rests trivial <| ite_rests (hk _) <|
    fetch_rests fun _ => hk _

theorem setSizeAndFlags_rests {exportsize : UInt64} {eflags : UInt16} {k : Handle → Outcome}
    (hk : ∀ h, (k h).Rests) : (setSizeAndFlags h exportsize eflags k).Rests :=
  ite_rests trivial <| ite_rests (require_rests (hk _)) (hk _)

/-! ## Option replies -/

theorem listServer_rests : (listServer inp h).Rests := by
  unfold listServer
  refine ite_rests trivial <| minus_rests fun rest => poke_rests fun h => fetch_rests fun bs => ?_
  refine ite_rests trivial <| minus_rests fun dlen => ite_rests trivial <| ite_rests ?_ ?_
  · exact fetch_rests fun _ => trivial
  · exact ite_rests trivial <| fetch_rests fun _ => fetch_rests fun _ => trivial

theorem metaContextReply_rests {opt : Opt} : (metaContextReply inp opt h).Rests := by
  unfold metaContextReply
  refine ite_rests trivial <| require_rests <| fetch_rests fun id => minus_rests fun rest =>
    fetch_rests fun str => ?_
  exact ite_rests trivial <| ite_rests trivial <| ite_rests trivial trivial

theorem goString_rests {which : String} {set : Option CString → Handle} :
    (goString inp which set h).Rests :=
  ite_rests trivial <| minus_rests fun _ => fetch_rests fun _ => ite_rests trivial trivial

theorem goInfo_rests : (goInfo inp h).Rests := by
  unfold goInfo
  refine ite_rests (require_rests trivial) <| require_rests <| fetch_rests fun info => ?_
  refine ite_rests (ite_rests trivial ?_) <| ite_rests (ite_rests trivial ?_) <|
    ite_rests goString_rests <| ite_rests goString_rests trivial
  · exact fetch_rests fun _ => fetch_rests fun _ => setSizeAndFlags_rests fun _ => trivial
  · exact fetch_rests fun _ => fetch_rests fun _ => fetch_rests fun _ => trivial

theorem enterTlsHandshake_rests : (enterTlsHandshake inp h).Rests := by
  unfold enterTlsHandshake
  split
  · trivial
  · trivial
  · trivial

theorem enterOptStart_rests (g : OptGroup) : (enterOptStart inp g h).Rests := by
  cases g with
  | starttls =>
    exact require_rests <| ite_rests (require_rests trivial) <|
      ite_rests trivial (require_rests trivial)
  | extendedHeaders =>
    exact require_rests <| ite_rests (require_rests trivial) <| require_rests <|
      ite_rests trivial trivial
  | structuredReply =>
    exact require_rests <| ite_rests (require_rests trivial) <| require_rests <|
      ite_rests trivial trivial
  | list => exact require_rests <| require_rests <| require_rests trivial
  | metaContext =>
    exact require_rests <| ite_rests (require_rests <| require_rests trivial) <|
      ite_rests (require_rests trivial) <| require_rests <| ite_rests trivial <|
      ite_rests trivial trivial
  | go =>
    exact require_rests <| ite_rests (require_rests trivial) <|
      ite_rests (require_rests <| require_rests trivial) trivial

theorem enterOptSendGroup_rests (g : OptGroup) (hs : h.state = .optSend g) :
    (enterOptSendGroup inp g h).Rests := by
  have hsend : h.state.isSending = true := by rw [hs]; rfl
  cases g with
  | metaContext =>
    unfold enterOptSendGroup enterMetaContextSend
    exact sendThen_rests hsend fun _ => trivial
  | go =>
    unfold enterOptSendGroup enterGoSend
    exact sendThen_rests hsend fun _ => trivial
  | _ => exact sendThen_rests hsend fun _ => trivial

theorem enterOptRecvReply_rests (g : OptGroup) (hs : h.state = .optRecvReply g) :
    (enterOptRecvReply inp g h).Rests := by
  refine recvThen_rests (by rw [hs]; rfl) fun h => ?_
  split
  · trivial
  · trivial

theorem enterOptCheckReply_rests (g : OptGroup) : (enterOptCheckReply inp g h).Rests := by
  cases g with
  | starttls =>
    exact ite_rests (ite_rests trivial <| ite_rests trivial trivial) <|
      handleReplyError_rests fun _ => ite_rests trivial trivial
  | extendedHeaders => exact ite_rests trivial <| handleReplyError_rests fun _ => trivial
  | structuredReply => exact ite_rests trivial <| handleReplyError_rests fun _ => trivial
  | list =>
    exact ite_rests listServer_rests <| ite_rests trivial <| handleReplyError_rests fun _ => trivial
  | metaContext =>
    exact ite_rests (ite_rests trivial trivial) <| ite_rests metaContextReply_rests <|
      handleReplyError_rests fun _ => ite_rests trivial trivial
  | go =>
    exact ite_rests goInfo_rests <| ite_rests trivial <| ite_rests trivial <|
      handleReplyError_rests fun _ => require_rests trivial

/-! ## All states -/

theorem enter_rests (inp : Input) (h : Handle) : (enter inp h).Rests := by
  have hrest : ∀ {s : State}, h.state = s → s.isResting = true → h.state.isResting = true :=
    fun hs hr => hs ▸ hr
  unfold enter
  cases hs : h.state with
  | start => exact hrest hs rfl
  | negotiating => exact hrest hs rfl
  | ready => exact require_rests (hrest hs rfl)
  | dead => exact require_rests (show h.state.isFailed = true by rw [hs]; rfl)
  | closed => exact hrest hs rfl
  | connectStart =>
    exact require_rests <| ite_rests trivial <| ite_rests trivial <| ite_rests (hrest hs rfl) trivial
  | connectConnecting =>
    show (enterConnectConnecting inp h).Rests
    unfold enterConnectConnecting
    split
    · trivial
    · exact ite_rests trivial trivial
  | connectTcpStart =>
    show (enterConnectTcpStart inp h).Rests
    unfold enterConnectTcpStart
    split
    · rfl
    · trivial
  | connectTcpConnect =>
    exact require_rests <| ite_rests rfl <| ite_rests trivial <| ite_rests trivial <|
      ite_rests trivial trivial
  | connectTcpConnecting =>
    show (enterConnectTcpConnecting inp h).Rests
    unfold enterConnectTcpConnecting
    split
    · trivial
    · exact ite_rests trivial trivial
  | connectTcpNextAddress => trivial
  | connectCommandStart => exact require_rests <| ite_rests trivial trivial
  | connectSaStart => exact require_rests <| ite_rests trivial trivial
  | magicStart => trivial
  | magicRecvMagic => exact recvThen_rests (by rw [hs]; rfl) fun _ => trivial
  | magicCheckMagic =>
    exact ite_rests trivial <| ite_rests (require_rests trivial) <| ite_rests trivial trivial
  | oldstyleStart => trivial
  | oldstyleRecvRemaining => exact recvThen_rests (by rw [hs]; rfl) fun _ => trivial
  | oldstyleCheck =>
    exact ite_rests trivial <| ite_rests trivial <| setSizeAndFlags_rests fun _ => trivial
  | newstyleStart =>
    have hg : (newstyleGflags h).Rests := require_rests trivial
    refine ite_rests ?_ hg
    split
    · exact ite_rests trivial trivial
    · exact ite_rests trivial trivial
    · trivial
    · exact ite_rests trivial trivial
    · trivial
    · trivial
    · trivial
    · trivial
    · trivial
    · trivial
    · exact hg
  | newstyleRecvGflags => exact recvThen_rests (by rw [hs]; rfl) fun _ => trivial
  | newstyleCheckGflags => exact ite_rests trivial trivial
  | newstyleSendCflags =>
    exact sendThen_rests (by rw [hs]; rfl) fun _ => ite_rests trivial <| ite_rests trivial trivial
  | newstylePrepareOptAbort => exact require_rests trivial
  | newstyleSendOptAbort => exact sendThen_rests (by rw [hs]; rfl) fun _ => trivial
  | newstyleSendOptionShutdown => exact ite_rests trivial (hrest hs rfl)
  | newstyleFinished => trivial
  | optStart g => exact enterOptStart_rests g
  | optSend g => exact enterOptSendGroup_rests g hs
  | optRecvReply g => exact enterOptRecvReply_rests g hs
  | optRecvReplyPayload g => exact recvThen_rests (by rw [hs]; rfl) fun _ => trivial
  | optCheckReply g => exact enterOptCheckReply_rests g
  | tlsHandshakeRead => exact enterTlsHandshake_rests
  | tlsHandshakeWrite => exact enterTlsHandshake_rests
  | tlsHandshakeDone => trivial
  | metaSendExportnamelen => exact sendThen_rests (by rw [hs]; rfl) fun _ => trivial
  | metaSendExportname => exact sendThen_rests (by rw [hs]; rfl) fun _ => trivial
  | metaSendNrqueries => exact sendThen_rests (by rw [hs]; rfl) fun _ => trivial
  | metaPrepareNextQuery =>
    show (enterMetaPrepareNextQuery h).Rests
    unfold enterMetaPrepareNextQuery
    split <;> trivial
  | metaSendQuerylen => exact sendThen_rests (by rw [hs]; rfl) fun _ => trivial
  | metaSendQuery => exact sendThen_rests (by rw [hs]; rfl) fun _ => trivial
  | metaPrepareForReply => trivial
  | goSendExportnamelen => exact sendThen_rests (by rw [hs]; rfl) fun _ => trivial
  | goSendExport => exact sendThen_rests (by rw [hs]; rfl) fun _ => trivial
  | goSendNrinfos => exact sendThen_rests (by rw [hs]; rfl) fun _ => trivial
  | goSendInfo => exact sendThen_rests (by rw [hs]; rfl) fun _ => trivial
  | exportNameStart => trivial
  | exportNameSend => exact sendThen_rests (by rw [hs]; rfl) fun _ => trivial
  | exportNameSendExport => exact sendThen_rests (by rw [hs]; rfl) fun _ => trivial
  | exportNameRecvReply => exact recvThen_rests (by rw [hs]; rfl) fun _ => trivial
  | exportNameCheckReply => exact setSizeAndFlags_rests fun _ => trivial

/-! ## Between two calls -/

theorem Outcome.Rests.resting {o : Outcome} (ho : o.Rests) :
    o.All (fun _ => True) (fun _ => True) fun h => h.state.isResting = true := by
  cases o with
  | block h => exact ho
  | fail h =>
    have hfail : h.state.isFailed = true := ho
    have hf : h.state = .dead ∨ h.state = .start := by simpa [State.isFailed] using hfail
    show h.state.isResting = true
    obtain hs | hs := hf <;> rw [hs] <;> rfl
  | next h => trivial
  | abort a => trivial

/-- A handle that no call is using is in a state to rest in. -/
theorem reachable_resting {c : Config} (hc : machine.Reachable c) {r : Int}
    (hr : c.ctl = .idle r) : c.h.state.isResting = true := by
  have hall : c.Holds (fun _ => True) (fun _ => True) fun h => h.state.isResting = true :=
    reachable_all (fun _ => rfl) (fun inp h _ => (enter_rests inp h).resting)
      (fun inp h api hs => (submit_effect inp api).mono (fun _ _ => trivial) fun h' he => by
        rw [show h'.state = _ from he.state_eq]
        exact hs) hc
  unfold Config.Holds at hall
  rw [hr] at hall
  exact hall

/-- The states to rest in have an event that wakes them up, unless the handle is not
connecting. -/
theorem State.isResting.wakes {s : State} (hs : s.isResting = true) (hc : s.isConnecting = true) :
    (externalEvent .notifyRead s).isSome = true ∨ (externalEvent .notifyWrite s).isSome = true := by
  cases s <;> simp_all [State.isResting, State.isConnecting, State.isReceiving, State.isSending,
    externalEvent]

end Libnbd.Negotiation
