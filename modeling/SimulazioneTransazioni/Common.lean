import Mathlib.Data.Vector.Basic

/-!
The types and constants of common.h. Every integer has the width of its C
type: pid_t and int are Int32, unsigned int is UInt32, long is Int64 and
unsigned long is UInt64. The ledger is the shared array of SO_REGISTRY_SIZE
blocks, zeroed when the segment is created.
-/
namespace SimulazioneTransazioni

abbrev PidT := Int32

abbrev soBlockSize : ℕ := 10
def soRegistrySize : ℕ := 1000
def self : PidT := -1

/-- The macro RAND(min, max) on unsigned operands; a zero divisor traps. -/
def rand (r min max : UInt32) : Option UInt32 :=
  if max - min + 1 = 0 then none else some (r % (max - min + 1) + min)

inductive ReturnCode
  | SUCCESS
  | ERROR
deriving DecidableEq

inductive Errno
  | zero
  | E2BIG
  | EACCES
  | EAGAIN
  | EEXIST
  | EFAULT
  | EFBIG
  | EIDRM
  | EINTR
  | EINVAL
  | ENOENT
  | ENOMEM
  | ENOMSG
  | ENOSPC
  | EPERM
  | ERANGE
  | other (code : ℕ)
deriving DecidableEq

structure Parameters where
  soUserNum : UInt32
  soNodesNum : UInt32
  soBudgetInit : UInt32
  soReward : Int8
  soMinTransGenNsec : UInt64
  soMaxTransGenNsec : UInt64
  soRetry : UInt32
  soTpSize : UInt32
  soMinTransProcNsec : UInt64
  soMaxTransProcNsec : UInt64
  soSimSec : UInt32
  soFriendsNum : UInt32
  soHops : UInt32
deriving DecidableEq

/-- The configuration that parser.c starts from. -/
def assignDefaults : Parameters where
  soUserNum := 100
  soNodesNum := 10
  soBudgetInit := 1000
  soReward := 1
  soMinTransGenNsec := 100000000
  soMaxTransGenNsec := 200000000
  soRetry := 20
  soTpSize := 1000
  soMinTransProcNsec := 100000000
  soMaxTransProcNsec := 200000000
  soSimSec := 10
  soFriendsNum := 3
  soHops := 10

inductive UserStatus
  | alive
  | broke
  | dead
deriving DecidableEq

structure User where
  pid : PidT
  balance : UInt32
  status : UserStatus
deriving DecidableEq

inductive NodeStatus
  | available
  | full
deriving DecidableEq

structure Node where
  pid : PidT
  balance : UInt64
  tpSize : Int32
  status : NodeStatus
deriving DecidableEq

structure Timespec where
  tvSec : Int64
  tvNsec : Int64
deriving DecidableEq

inductive TransactionStatus
  | pending
  | processing
  | confirmed
  | aborted
deriving DecidableEq

structure Transaction where
  timestamp : Timespec
  sender : PidT
  receiver : PidT
  amount : Int32
  reward : Int32
  status : TransactionStatus
deriving DecidableEq

structure Block where
  transList : List.Vector Transaction soBlockSize
  blockIndex : UInt32
deriving DecidableEq

/-- The payload of msgbuf_trans. Its next field is the link of the pool's
list and is left to the model of the pool's cells. -/
structure Message where
  hops : Int32
  userTrans : Transaction
deriving DecidableEq

abbrev Ledger := List.Vector Block soRegistrySize

namespace Transaction

def zero : Transaction := ⟨⟨0, 0⟩, 0, 0, 0, 0, .pending⟩

/-- The transaction as its sender built it: confirming changes only status. -/
def asSent (t : Transaction) : Transaction := { t with status := .pending }

@[simp] theorem asSent_sender (t : Transaction) : t.asSent.sender = t.sender := rfl

end Transaction

namespace Block

def zero : Block := ⟨List.Vector.replicate soBlockSize .zero, 0⟩

def first (b : Block) : Transaction := b.transList.head

def entries (b : Block) : List Transaction := b.transList.tail.toList

end Block

def Ledger.zero : Ledger := List.Vector.replicate soRegistrySize .zero

end SimulazioneTransazioni
