import Libnbd.Handle

/-!
`recv_into_rbuf`, `send_from_wbuf` and `nbd_internal_abort_commands` of
`generator/states.c`, and `nbd_internal_retire_and_free_command` of `lib/aio.c`.
-/

namespace Libnbd

open Lib

namespace Rbuf

/-- The pointer behind `n` received bytes. -/
def advance (n : Nat) : Rbuf → Rbuf
  | null => null
  | hdr p => hdr (p + n)
  | payload p => payload (p + n)
  | raw p => raw (p + n)
  | user a => user (a + n)

/-- The four buffers after `bs` was received through the pointer. -/
def storeHdr (m : Mem) (bs : List UInt8) : Rbuf → Mem
  | hdr p => m.write p bs
  | _ => m

def storePayload (m : Mem) (bs : List UInt8) : Rbuf → Mem
  | payload p => m.write p bs
  | _ => m

def storeRaw (m : Mem) (bs : List UInt8) : Rbuf → Mem
  | raw p => m.write p bs
  | _ => m

def storeUser (m : Mem) (bs : List UInt8) : Rbuf → Mem
  | user a => m.write a bs
  | _ => m

/-- The range of caller memory written by receiving `n` bytes. -/
def storeRange (cookie : Option Nat) (n : Nat) : Rbuf → List Store
  | user a => [⟨cookie, a, n⟩]
  | _ => []

end Rbuf

namespace Handle

/-- Store received bytes where `h->rbuf` points, and advance. -/
def store (h : Handle) (bs : List UInt8) : Handle :=
  { h with
    bytesReceived := h.bytesReceived + bs.length
    mem := h.rx.rbuf.storeUser h.mem bs
    stores := h.stores ++ h.rx.rbuf.storeRange h.rx.replyCmd bs.length
    rx := { h.rx with
      rlen := h.rx.rlen - bs.length
      rbuf := h.rx.rbuf.advance bs.length
      hdr := h.rx.rbuf.storeHdr h.rx.hdr bs
      payload := h.rx.rbuf.storePayload h.rx.payload bs
      bsRaw := h.rx.bsRaw.map fun m => h.rx.rbuf.storeRaw m bs } }

/-- How many bytes one `recv` asks for: discarded payload goes through a sink. -/
def recvWant (h : Handle) : Nat :=
  if h.rx.rbuf = .null then min h.rx.rlen bufsiz else h.rx.rlen

end Handle

/-- Result of `recv_into_rbuf`: -1, 1 and 0. -/
inductive RecvCode where
  | fail (h : Handle)
  | more (h : Handle)
  | done (h : Handle)

def recvIntoRbuf (inp : Input) (h : Handle) : RecvCode :=
  if h.rx.rlen = 0 then .done h
  else
    match inp.recv with
    | .again => .more h
    | .error => .fail (h.setError eio "recv")
    | .data bs =>
      let got := bs.take h.recvWant
      if got = [] then .fail (h.setError 0 "recv: server disconnected unexpectedly")
      else if (h.store got).rx.rlen = 0 then .done (h.store got)
      else .more (h.store got)

/-- Result of `send_from_wbuf`: -1, 1 and 0. `overrun` is a send from a buffer
that is null or shorter than `h->wlen`. -/
inductive SendCode where
  | fail (h : Handle)
  | more (h : Handle)
  | done (h : Handle)
  | overrun

namespace Handle

/-- Hand `n` bytes of `h->wbuf` to the socket. -/
def advance (h : Handle) (n : Nat) : Handle :=
  { h with
    bytesSent := h.bytesSent + n
    tx := { h.tx with
      sent := h.tx.sent ++ h.tx.wbuf.take n
      wbuf := h.tx.wbuf.drop n
      wlen := h.tx.wlen - n } }

def clearWflags (h : Handle) : Handle := { h with tx := { h.tx with wflags := false } }

end Handle

def sendFromWbuf (inp : Input) (h : Handle) : SendCode :=
  if h.tx.wlen = 0 then .done h.clearWflags
  else if h.tx.wbuf.length < h.tx.wlen then .overrun
  else
    match inp.send with
    | .again => .more h
    | .error => .fail (h.setError eio "send")
    | .sent n =>
      let h := h.advance (min n h.tx.wlen)
      if h.tx.wlen = 0 then .done h.clearWflags else .more h

/-! ## Retiring and aborting commands -/

/-- `nbd_internal_retire_and_free_command`: the free functions it calls. -/
def retireAndFreeCommand (cmd : Command) : List Event :=
  (if (cmd.type = .blockStatus ∨ cmd.type = .read) ∧ cmd.fn.free = true
    then [Event.freeFn cmd.cookie] else []) ++
  (if cmd.completion.free = true then [Event.freeCompletion cmd.cookie] else []) ++
  [Event.retire cmd.cookie]

namespace Handle

/-- Append to `cmds_done`, following `cmds_done_tail`. -/
def pushDone (h : Handle) (cmd : Command) : Except Abort Handle :=
  match h.q.cmdsDoneTail with
  | none =>
    if h.q.cmdsDone = [] then
      .ok { h with q := { h.q with cmdsDone := [cmd], cmdsDoneTail := some cmd.cookie } }
    else .error .doneTail
  | some t =>
    match linkAfter Command.cookie t cmd h.q.cmdsDone with
    | none => .error .danglingTail
    | some l => .ok { h with q := { h.q with cmdsDone := l, cmdsDoneTail := some cmd.cookie } }

/-- Retire a finished command, or keep it for the caller. -/
def settle (h : Handle) (cmd : Command) (retire : Bool) : Except Abort Handle :=
  if retire then .ok (h.log (retireAndFreeCommand cmd)) else h.pushDone cmd

end Handle

/-- The completion callback as `FINISH_COMMAND` and `nbd_internal_abort_commands`
call it: the events, the command with its error afterwards, whether to retire. -/
def notifyCompletion (inp : Input) (cmd : Command) (error : UInt32) :
    List Event × Command × Bool :=
  let (es, ret, err) := callCallback inp cmd.completion (.completion cmd.cookie error) error
  if ret = -1 then
    (es, if err ≠ 0 then { cmd with error := err } else cmd, cmd.type = .disc)
  else (es, cmd, cmd.type = .disc ∨ ret = 1)

/-- One iteration of the loop in `nbd_internal_abort_commands`. -/
def abortCommand (inp : Input) (h : Handle) (cmd : Command) : Except Abort Handle :=
  if cmd.completion.isNull = false ∧ cmd.type = .disc then .error .abortDisc
  else
    let (es, cmd, retire) := notifyCompletion inp cmd (orErr cmd.error enotconn)
    let cmd := { cmd with error := orErr cmd.error enotconn }
    (h.log (es ++ [Event.finish cmd.cookie])).settle cmd retire

/-- `nbd_internal_abort_commands` on commands already taken off their list. -/
def abortCommands (inp : Input) (h : Handle) : List Command → Except Abort Handle
  | [] => .ok h
  | cmd :: cmds =>
    match abortCommand inp h cmd with
    | .error a => .error a
    | .ok h => abortCommands inp h cmds

end Libnbd
