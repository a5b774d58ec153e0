import SimulazioneTransazioni.Common

/-!
The wrappers of msg.c. A successful msgsnd returns 0; a successful msgrcv
returns the positive size of the message, so that receive_message judges it by
the value an earlier call left in errno. A failed call sets errno, and a value
outside the listed ones counts as SUCCESS.
-/
namespace SimulazioneTransazioni

inductive MsgsndResult
  | sent
  | failed (e : Errno)
deriving DecidableEq

def sendErrors : List Errno :=
  [.EACCES, .EAGAIN, .EFAULT, .EIDRM, .EINTR, .EINVAL, .ENOMEM]

def sendMessage : MsgsndResult → ReturnCode
  | .sent => .SUCCESS
  | .failed e => if e ∈ sendErrors then .ERROR else .SUCCESS

def MsgsndResult.errno (errno : Errno) : MsgsndResult → Errno
  | .sent => errno
  | .failed e => e

inductive MsgrcvResult (α : Type*)
  | delivered (msg : α)
  | failed (e : Errno)

def receiveErrors : List Errno :=
  [.E2BIG, .EACCES, .EFAULT, .EIDRM, .EINTR, .ENOMSG]

def receiveStatus (errno : Errno) : ReturnCode :=
  if errno ∈ receiveErrors then .ERROR else .SUCCESS

def receiveMessage {α : Type*} (errno : Errno) (result : MsgrcvResult α) (msg : α) :
    ReturnCode × Errno × α :=
  match result with
  | .delivered msg => (receiveStatus errno, errno, msg)
  | .failed e => (receiveStatus e, e, msg)

inductive MsggetResult
  | found (id : Int32)
  | failed (e : Errno)
deriving DecidableEq

/-- The value of msgget, -1 on failure, and errno after the call. -/
def MsggetResult.queue : MsggetResult → Int32
  | .found id => id
  | .failed _ => -1

def MsggetResult.errno (errno : Errno) : MsggetResult → Errno
  | .found _ => errno
  | .failed e => e

end SimulazioneTransazioni
