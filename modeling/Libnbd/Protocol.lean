import Mathlib.Algebra.Order.Ring.Nat
import Mathlib.Tactic.Common

/-!
Numbers of the NBD protocol (`lib/nbd-protocol.h`), of the public API
(`include/libnbd.h`) and of `errno`, and the translation of wire errors.
-/

namespace Libnbd

/-- Largest read or write the client is willing to issue. -/
def maxRequestSize : Nat := 64 * 1024 * 1024

def nbdMaxString : Nat := 4096

/-- Size of the sink used to discard payloads. -/
def bufsiz : Nat := 8192

def intMax : Int := 2147483647
def uint32Max : UInt64 := 0xffffffff
def int64Max : UInt64 := 0x7fffffffffffffff

/-! ## Requests -/

def nbdRequestMagic : Nat := 0x25609513
def nbdExtendedRequestMagic : Nat := 0x21e41c71

inductive CmdType where
  | read | write | disc | flush | trim | cache | writeZeroes | blockStatus
  deriving DecidableEq, Repr

def CmdType.code : CmdType → Nat
  | read => 0
  | write => 1
  | disc => 2
  | flush => 3
  | trim => 4
  | cache => 5
  | writeZeroes => 6
  | blockStatus => 7

def cmdFlagFua : UInt32 := 0x01
def cmdFlagDf : UInt32 := 0x04
def cmdFlagFastZero : UInt32 := 0x10
def cmdFlagPayloadLen : UInt32 := 0x20

/-! ## Replies -/

def nbdSimpleReplyMagic : UInt32 := 0x67446698
def nbdStructuredReplyMagic : UInt32 := 0x668e33ef
def nbdExtendedReplyMagic : UInt32 := 0x6e8a278c

def replyFlagDone : UInt16 := 1

def replyTypeNone : UInt16 := 0
def replyTypeOffsetData : UInt16 := 1
def replyTypeOffsetHole : UInt16 := 2
def replyTypeBlockStatus : UInt16 := 5
def replyTypeBlockStatusExt : UInt16 := 6
def replyTypeError : UInt16 := 0x8001
def replyTypeErrorOffset : UInt16 := 0x8002

def replyTypeIsErr (type : UInt16) : Bool := type &&& 0x8000 != 0

/-! ## Export flags and strictness bits -/

def flagReadOnly : UInt16 := 0x0002
def flagSendFlush : UInt16 := 0x0004
def flagSendFua : UInt16 := 0x0008
def flagSendTrim : UInt16 := 0x0020
def flagSendWriteZeroes : UInt16 := 0x0040
def flagSendDf : UInt16 := 0x0080
def flagSendCache : UInt16 := 0x0400
def flagSendFastZero : UInt16 := 0x0800
def flagBlockStatusPayload : UInt16 := 0x1000

def strictCommands : UInt32 := 0x01
def strictFlags : UInt32 := 0x02
def strictBounds : UInt32 := 0x04
def strictZeroSize : UInt32 := 0x08
def strictAlign : UInt32 := 0x10
def strictPayload : UInt32 := 0x20
def strictAutoFlag : UInt32 := 0x40
def strictMask : UInt32 := 0x7f

def shutdownAbandonPending : UInt32 := 0x10000

/-! ## errno -/

def eperm : UInt32 := 1
def eio : UInt32 := 5
def enomem : UInt32 := 12
def efault : UInt32 := 14
def einval : UInt32 := 22
def enospc : UInt32 := 28
def erange : UInt32 := 34
def eproto : UInt32 := 71
def eoverflow : UInt32 := 75
def enotsup : UInt32 := 95
def enotconn : UInt32 := 107
def eshutdown : UInt32 := 108

/-- `nbd_internal_errno_of_nbd_error`: unknown wire errors become `EINVAL`. -/
def errnoOfNbdError (error : UInt32) : UInt32 :=
  if error = 0 then 0
  else if error = 1 then eperm
  else if error = 5 then eio
  else if error = 12 then enomem
  else if error = 22 then einval
  else if error = 28 then enospc
  else if error = 75 then eoverflow
  else if error = 95 then enotsup
  else if error = 108 then eshutdown
  else einval

/-- `a ?: b` on errno values. -/
def orErr (a b : UInt32) : UInt32 := if a = 0 then b else a

@[simp] theorem orErr_eq_zero {a b : UInt32} : orErr a b = 0 ↔ a = 0 ∧ b = 0 := by
  unfold orErr
  split <;> simp_all

theorem orErr_of_ne {a : UInt32} (b : UInt32) (h : a ≠ 0) : orErr a b = a := if_neg h

end Libnbd
