import SimulazioneTransazioni.Common

/-!
parser.c on the characters of conf.txt. The first loop reads a line at a time with
fgets and sscanf, the second looks the names up in a fixed order, and the tests at
the end correct what was read. A file that makes the loops leave their arrays, or
read what sscanf has not assigned, gives no result.
-/
namespace SimulazioneTransazioni.Parser

def numParameters : ℕ := 13
def confError : Int32 := -1

/-- What one round of the first loop assigns; overflow says that it set ERANGE. -/
structure Slot where
  token : Option (List Char)
  value : Option UInt64
  overflow : Bool
deriving DecidableEq

section Reading

def fgets : ℕ → List Char → List Char × List Char
  | 0, rest => ([], rest)
  | _ + 1, [] => ([], [])
  | n + 1, c :: rest =>
    if c = '\n' then ([c], rest)
    else
      let (line, rest) := fgets n rest
      (c :: line, rest)

def isSpace (c : Char) : Bool :=
  c = ' ' ∨ c = '\t' ∨ c = '\n' ∨ c.toNat = 11 ∨ c.toNat = 12 ∨ c = '\r'

def digitsValue (digits : List Char) : ℕ :=
  digits.foldl (fun value c => 10 * value + (c.toNat - '0'.toNat)) 0

/-- The conversion of strtoul in base 10, and whether it sets ERANGE. -/
def strtoul (negative : Bool) (magnitude : ℕ) : UInt64 × Bool :=
  if 2 ^ 64 ≤ magnitude then (-1, true)
  else (if negative then -(UInt64.ofNat magnitude) else UInt64.ofNat magnitude, false)

/-- The conversion %lu, where the input has a digit after the sign. -/
def scanUnsigned (input : List Char) : Option (UInt64 × Bool) :=
  let digits := (match input with
    | '-' :: rest => rest
    | '+' :: rest => rest
    | rest => rest).takeWhile Char.isDigit
  if digits = [] then none else some (strtoul (input.head? = some '-') (digitsValue digits))

/-- `sscanf(buffer, "%s %lu", token, &value)` on the string that the buffer holds. -/
def sscanf (buffer : List Char) : Slot :=
  let input := (buffer.takeWhile fun c => c.toNat ≠ 0).dropWhile isSpace
  let token := input.takeWhile fun c => ¬ isSpace c
  let rest := (input.drop token.length).dropWhile isSpace
  if token = [] then ⟨none, none, false⟩
  else
    match scanUnsigned rest with
    | none => ⟨some token, none, false⟩
    | some (value, overflow) => ⟨some token, some value, overflow⟩

def readSlots : ℕ → List Char → List Slot
  | 0, _ => []
  | n + 1, content =>
    if content = [] then []
    else
      let (buffer, rest) := fgets 126 content
      sscanf buffer :: readSlots n rest

end Reading

section Assigning

def branch (name : List Char) : Option (UInt64 → Parameters → Parameters) :=
  if name = "SO_USER_NUM".toList then
    some fun value par => { par with soUserNum := value.toUInt32 }
  else if name = "SO_NODES_NUM".toList then
    some fun value par => { par with soNodesNum := value.toUInt32 }
  else if name = "SO_BUDGET_INIT".toList then
    some fun value par => { par with soBudgetInit := value.toUInt32 }
  else if name = "SO_REWARD".toList then
    some fun value par =>
      if value ≤ 100 then { par with soReward := Int8.ofNat value.toNat } else par
  else if name = "SO_MIN_TRANS_GEN_NSEC".toList then
    some fun value par => { par with soMinTransGenNsec := value }
  else if name = "SO_MAX_TRANS_GEN_NSEC".toList then
    some fun value par => { par with soMaxTransGenNsec := value }
  else if name = "SO_RETRY".toList then
    some fun value par => { par with soRetry := value.toUInt32 }
  else if name = "SO_TP_SIZE".toList then
    some fun value par => { par with soTpSize := value.toUInt32 }
  else if name = "SO_MIN_TRANS_PROC_NSEC".toList then
    some fun value par => { par with soMinTransProcNsec := value }
  else if name = "SO_MAX_TRANS_PROC_NSEC".toList then
    some fun value par => { par with soMaxTransProcNsec := value }
  else if name = "SO_SIM_SEC".toList then
    some fun value par => { par with soSimSec := value.toUInt32 }
  else if name = "SO_FRIENDS_NUM".toList then
    some fun value par => { par with soFriendsNum := value.toUInt32 }
  else if name = "SO_HOPS".toList then
    some fun value par => { par with soHops := value.toUInt32 }
  else none

def assign (par : Parameters) (slot : Slot) : Option Parameters :=
  slot.token.bind fun name =>
    match branch name with
    | none => some par
    | some write => slot.value.map fun value => write value par

end Assigning

section Correcting

def correctGen (par : Parameters) : Parameters :=
  if par.soMaxTransGenNsec < par.soMinTransGenNsec then
    { par with soMinTransGenNsec := par.soMaxTransGenNsec }
  else par

def correctProc (par : Parameters) : Parameters :=
  if par.soMaxTransProcNsec < par.soMinTransProcNsec then
    { par with soMinTransProcNsec := par.soMaxTransProcNsec }
  else par

def correctTpSize (par : Parameters) : Parameters :=
  if par.soTpSize ≤ UInt32.ofNat soBlockSize then
    { par with soTpSize := UInt32.ofNat soBlockSize + 1 }
  else par

def correctFriends (par : Parameters) : Parameters :=
  if par.soNodesNum < par.soFriendsNum then { par with soFriendsNum := par.soNodesNum } else par

def correct (par : Parameters) : Parameters :=
  correctFriends (correctTpSize (correctProc (correctGen par)))

structure Corrected (par : Parameters) : Prop where
  gen : par.soMinTransGenNsec ≤ par.soMaxTransGenNsec
  proc : par.soMinTransProcNsec ≤ par.soMaxTransProcNsec
  tpSize : UInt32.ofNat soBlockSize < par.soTpSize
  friends : par.soFriendsNum ≤ par.soNodesNum

end Correcting

/-- Without the file the defaults stay and CONF_ERROR is returned. -/
def parseParameters (errno : Errno) (conf : Option (List Char)) : Option (Int32 × Parameters) :=
  match conf with
  | none => some (confError, assignDefaults)
  | some content =>
    let slots := readSlots content.length content
    if slots.length ≠ numParameters ∨ ∃ slot ∈ slots, ∃ token ∈ slot.token, 63 < token.length then
      none
    else
      (slots.foldlM assign assignDefaults).map fun par =>
        let errno := if ∃ slot ∈ slots, slot.overflow = true then .ERANGE else errno
        (0, correct (if errno = .ERANGE then assignDefaults else par))

section Corrections

theorem correctGen_le (par : Parameters) :
    (correctGen par).soMinTransGenNsec ≤ (correctGen par).soMaxTransGenNsec := by
  unfold correctGen
  by_cases h : par.soMaxTransGenNsec < par.soMinTransGenNsec
  · rw [if_pos h]
    exact UInt64.le_refl _
  · rw [if_neg h]
    exact UInt64.not_lt.mp h

theorem correctProc_le (par : Parameters) :
    (correctProc par).soMinTransProcNsec ≤ (correctProc par).soMaxTransProcNsec := by
  unfold correctProc
  by_cases h : par.soMaxTransProcNsec < par.soMinTransProcNsec
  · rw [if_pos h]
    exact UInt64.le_refl _
  · rw [if_neg h]
    exact UInt64.not_lt.mp h

theorem correctTpSize_lt (par : Parameters) :
    UInt32.ofNat soBlockSize < (correctTpSize par).soTpSize := by
  unfold correctTpSize
  by_cases h : par.soTpSize ≤ UInt32.ofNat soBlockSize
  · have hnext : UInt32.ofNat soBlockSize < UInt32.ofNat soBlockSize + 1 := by decide
    rw [if_pos h]
    exact hnext
  · rw [if_neg h]
    exact UInt32.not_le.mp h

theorem correctFriends_le (par : Parameters) :
    (correctFriends par).soFriendsNum ≤ (correctFriends par).soNodesNum := by
  unfold correctFriends
  by_cases h : par.soNodesNum < par.soFriendsNum
  · rw [if_pos h]
    exact UInt32.le_refl _
  · rw [if_neg h]
    exact UInt32.not_lt.mp h

theorem correctProc_writes (par : Parameters) :
    ∃ value, correctProc par = { par with soMinTransProcNsec := value } := by
  unfold correctProc
  split
  · exact ⟨_, rfl⟩
  · exact ⟨par.soMinTransProcNsec, rfl⟩

theorem correctTpSize_writes (par : Parameters) :
    ∃ value, correctTpSize par = { par with soTpSize := value } := by
  unfold correctTpSize
  split
  · exact ⟨_, rfl⟩
  · exact ⟨par.soTpSize, rfl⟩

theorem correctFriends_writes (par : Parameters) :
    ∃ value, correctFriends par = { par with soFriendsNum := value } := by
  unfold correctFriends
  split
  · exact ⟨_, rfl⟩
  · exact ⟨par.soFriendsNum, rfl⟩

/-- No correction undoes another. -/
theorem corrected (par : Parameters) : Corrected (correct par) := by
  obtain ⟨minProc, hproc⟩ := correctProc_writes (correctGen par)
  obtain ⟨tpSize, htpSize⟩ := correctTpSize_writes (correctProc (correctGen par))
  obtain ⟨friends, hfriends⟩ :=
    correctFriends_writes (correctTpSize (correctProc (correctGen par)))
  constructor
  · rw [correct, hfriends, htpSize, hproc]
    apply correctGen_le
  · rw [correct, hfriends, htpSize]
    apply correctProc_le
  · rw [correct, hfriends]
    apply correctTpSize_lt
  · apply correctFriends_le

/-- Whatever is read, an accepted file leaves parameters that are corrected. -/
theorem corrected_of_accepted {errno : Errno} {conf : Option (List Char)} {par : Parameters}
    (h : parseParameters errno conf = some (0, par)) : Corrected par := by
  cases conf with
  | none =>
    obtain ⟨hcode, -⟩ := Prod.mk.inj (Option.some.inj h)
    exact absurd hcode (by decide)
  | some content =>
    unfold parseParameters at h
    dsimp only at h
    split at h
    · contradiction
    · obtain ⟨read, -, hpar⟩ := Option.map_eq_some_iff.mp h
      obtain ⟨-, rfl⟩ := Prod.mk.inj hpar
      exact corrected _

end Corrections

end SimulazioneTransazioni.Parser
