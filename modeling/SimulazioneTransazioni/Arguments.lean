import SimulazioneTransazioni.Settings

/-!
The identifiers of the shared objects on their way through argv. The master prints the
entries of its array into buffers of 13 bytes and copies these to the blocks that argv
points to; users and nodes read them back with atoi at the positions of their macros.
-/
namespace SimulazioneTransazioni.Arguments

open SimulazioneTransazioni.Parser Settings

abbrev Buffer := List.Vector Char 13

def nul : Char := Char.ofNat 0

/-- `char name[13] = {0}` -/
def Buffer.zero : Buffer := List.Vector.replicate 13 nul

/-- The string in the buffer; without a NUL it goes on beyond the buffer. -/
def Buffer.string (b : Buffer) : Option (List Char) :=
  if nul ∈ b.toList then some (b.toList.takeWhile fun c => c ≠ nul) else none

/-- The bytes that fit, and the others as they were. -/
def Buffer.write (b : Buffer) (bytes : List Char) : Buffer :=
  ⟨bytes.take 13 ++ b.toList.drop bytes.length, by
    rw [List.length_append, List.length_take, List.length_drop, b.toList_length]
    omega⟩

/-- The conversion %d. -/
def decimal (value : Int32) : List Char :=
  if value < 0 then '-' :: Nat.toDigits 10 value.toInt.natAbs
  else Nat.toDigits 10 value.toInt.natAbs

/-- `snprintf(buffer, 13, "%d", value)` -/
def snprintf (b : Buffer) (value : Int32) : Buffer :=
  b.write ((decimal value).take 12 ++ [nul])

/-- `strncpy(dst, src, 13)`, with the NULs that it adds. -/
def strncpy (dst src : Buffer) : Buffer :=
  let copied := src.toList.takeWhile fun c => c ≠ nul
  dst.write (copied ++ List.replicate (13 - copied.length) nul)

/-- The value of the digits after the spaces and the sign, as a long and then as an int. -/
def atoi (input : List Char) : Int32 :=
  let input := input.dropWhile isSpace
  let magnitude : ℤ := digitsValue ((afterSign input).takeWhile Char.isDigit)
  let value := if input.head? = some '-' then -magnitude else magnitude
  Int32.ofInt (max (-2 ^ 63) (min value (2 ^ 63 - 1)))

structure Ids where
  usersPID_ID : Int32
  nodesPID_ID : Int32
  par_ID : Int32
  ledger_ID : Int32
  semUsersPIDs_ID : Int32
  semLedger_ID : Int32
  semNodesPIDs_ID : Int32

def shmIDs (ids : Ids) : List Int32 := [ids.usersPID_ID, ids.nodesPID_ID, ids.par_ID, ids.ledger_ID]

def semIDs (ids : Ids) : List Int32 := [ids.semUsersPIDs_ID, ids.semLedger_ID, ids.semNodesPIDs_ID]

def makeIpcArray (ids : Ids) : List.Vector Int32 7 := ⟨shmIDs ids ++ semIDs ids, rfl⟩

abbrev Argv := Fin 8 → Buffer

def makeArguments (ipcArray : List.Vector Int32 7) (argv : Argv) : Argv :=
  let uPID := snprintf Buffer.zero (ipcArray.get 0)
  let nPID := snprintf Buffer.zero (ipcArray.get 1)
  let parameters := snprintf Buffer.zero (ipcArray.get 2)
  let ledger := snprintf Buffer.zero (ipcArray.get 3)
  let semUsersPIDs := snprintf Buffer.zero (ipcArray.get 4)
  let semNodesPIDs := snprintf Buffer.zero (ipcArray.get 6)
  let semLedger := snprintf Buffer.zero (ipcArray.get 5)
  let argv := Function.update argv 1 (strncpy (argv 1) uPID)
  let argv := Function.update argv 2 (strncpy (argv 2) nPID)
  let argv := Function.update argv 3 (strncpy (argv 3) parameters)
  let argv := Function.update argv 4 (strncpy (argv 4) ledger)
  let argv := Function.update argv 5 (strncpy (argv 5) semUsersPIDs)
  let argv := Function.update argv 6 (strncpy (argv 6) semLedger)
  Function.update argv 7 (strncpy (argv 7) semNodesPIDs)

section Macros

variable (argv : Argv)

def usersPidArgv : Option Int32 := (argv 1).string.map atoi
def nodesPidArgv : Option Int32 := (argv 2).string.map atoi
def parametersArgv : Option Int32 := (argv 3).string.map atoi
def ledgerArgv : Option Int32 := (argv 4).string.map atoi
def semUsersPidsArgv : Option Int32 := (argv 5).string.map atoi
def semLedgerArgv : Option Int32 := (argv 6).string.map atoi
def semNodesPidsArgv : Option Int32 := (argv 7).string.map atoi

end Macros

structure UserIds where
  par : Option Int32
  usersPID : Option Int32
  nodesPID : Option Int32
  ledger : Option Int32
  semUsersPIDs_ID : Option Int32
  semLedger_ID : Option Int32

def attachUser (argv : Argv) : UserIds where
  par := parametersArgv argv
  usersPID := usersPidArgv argv
  nodesPID := nodesPidArgv argv
  ledger := ledgerArgv argv
  semUsersPIDs_ID := semUsersPidsArgv argv
  semLedger_ID := semLedgerArgv argv

structure NodeIds where
  par : Option Int32
  usersPID : Option Int32
  nodesPID : Option Int32
  ledger : Option Int32
  semNodesPIDs_ID : Option Int32
  semLedger_ID : Option Int32

def attachNode (argv : Argv) : NodeIds where
  par := parametersArgv argv
  usersPID := usersPidArgv argv
  nodesPID := nodesPidArgv argv
  ledger := ledgerArgv argv
  semNodesPIDs_ID := semNodesPidsArgv argv
  semLedger_ID := semLedgerArgv argv

section Decimal

variable (value : Int32)

/-- The sign and at most ten digits. -/
theorem length_decimal : (decimal value).length ≤ 11 := by
  have hlo := value.le_toInt
  have hhi := value.toInt_lt
  have hdigits : (Nat.toDigits 10 value.toInt.natAbs).length ≤ 10 := by
    apply (Nat.length_toDigits_le_iff (by decide) (by decide)).mpr
    omega
  unfold decimal
  split
  · rw [List.length_cons]
    omega
  · omega

theorem isDigit_of_mem {n : ℕ} {c : Char} (hc : c ∈ Nat.toDigits 10 n) : c.isDigit = true :=
  Nat.isDigit_of_mem_toDigits (by decide) (by decide) hc

theorem nul_not_mem_decimal : nul ∉ decimal value := by
  have hdigits : nul ∉ Nat.toDigits 10 value.toInt.natAbs := by
    intro hmem
    exact absurd (toNat_of_isDigit (isDigit_of_mem hmem)).1 (by decide)
  unfold decimal
  split
  · rw [List.mem_cons, not_or]
    exact ⟨by decide, hdigits⟩
  · exact hdigits

/-- The digits are read to their end, and have the magnitude. -/
theorem digitsValue_toDigits (n : ℕ) :
    digitsValue ((Nat.toDigits 10 n).takeWhile Char.isDigit) = n := by
  have htake : (Nat.toDigits 10 n).takeWhile Char.isDigit = Nat.toDigits 10 n :=
    List.takeWhile_eq_self_iff.mpr fun _ hc => isDigit_of_mem hc
  rw [htake]
  exact Nat.ofDigitChars_ten_toDigits

theorem atoi_digits (n : ℕ) : atoi (Nat.toDigits 10 n) =
    Int32.ofInt (max (-2 ^ 63) (min (n : ℤ) (2 ^ 63 - 1))) := by
  obtain ⟨d, rest, hdigits⟩ := List.exists_cons_of_ne_nil (Nat.toDigits_ne_nil (n := n) (b := 10))
  have hd : d.isDigit = true := isDigit_of_mem (hdigits ▸ List.mem_cons_self)
  obtain ⟨hafter, hminus⟩ := afterSign_digit hd rest
  have hspace : (d :: rest).dropWhile isSpace = d :: rest :=
    List.dropWhile_cons_of_neg (by rw [isSpace_of_isDigit hd]; exact Bool.false_ne_true)
  have hhead : (d :: rest).head? ≠ some '-' := fun h => hminus (Option.some.inj h)
  have hvalue := digitsValue_toDigits n
  unfold atoi
  dsimp only
  rw [hdigits] at hvalue ⊢
  rw [hspace, if_neg hhead, hafter, hvalue]

theorem atoi_minus (n : ℕ) : atoi ('-' :: Nat.toDigits 10 n) =
    Int32.ofInt (max (-2 ^ 63) (min (-(n : ℤ)) (2 ^ 63 - 1))) := by
  have hspace : ('-' :: Nat.toDigits 10 n).dropWhile isSpace = '-' :: Nat.toDigits 10 n := rfl
  have hafter : afterSign ('-' :: Nat.toDigits 10 n) = Nat.toDigits 10 n := rfl
  have hhead : ('-' :: Nat.toDigits 10 n).head? = some '-' := rfl
  unfold atoi
  dsimp only
  rw [hspace, if_pos hhead, hafter, digitsValue_toDigits]

/-- Printing and reading are inverse on every int. -/
theorem atoi_decimal : atoi (decimal value) = value := by
  have hlo := value.le_toInt
  have hhi := value.toInt_lt
  unfold decimal
  split
  next hneg =>
    have hneg' := Int32.lt_iff_toInt_lt.mp hneg
    have hvalue : max (-2 ^ 63) (min (-(value.toInt.natAbs : ℤ)) (2 ^ 63 - 1)) = value.toInt := by
      rw [Int32.toInt_zero] at hneg'
      omega
    rw [atoi_minus, hvalue, Int32.ofInt_toInt]
  next hpos =>
    have hpos' := Int32.le_iff_toInt_le.mp (Int32.not_lt.mp hpos)
    have hvalue : max (-2 ^ 63) (min (value.toInt.natAbs : ℤ) (2 ^ 63 - 1)) = value.toInt := by
      rw [Int32.toInt_zero] at hpos'
      omega
    rw [atoi_digits, hvalue, Int32.ofInt_toInt]

end Decimal

section Buffers

theorem takeWhile_nul {l : List Char} (hl : nul ∉ l) (rest : List Char) :
    (l ++ nul :: rest).takeWhile (fun c => c ≠ nul) = l := by
  apply takeWhile_stop
  · intro c hc
    rw [decide_eq_true_eq]
    exact fun heq => hl (heq ▸ hc)
  · simp

theorem string_of_toList {b : Buffer} {l rest : List Char} (h : b.toList = l ++ nul :: rest)
    (hl : nul ∉ l) : b.string = some l := by
  have hmem : nul ∈ b.toList := by
    rw [h]
    exact List.mem_append_right l List.mem_cons_self
  rw [Buffer.string, if_pos hmem, h, takeWhile_nul hl]

theorem write_toList (b : Buffer) {bytes : List Char} (hbytes : bytes.length ≤ 13) :
    (b.write bytes).toList = bytes ++ b.toList.drop bytes.length := by
  show bytes.take 13 ++ b.toList.drop bytes.length = _
  rw [List.take_of_length_le hbytes]

/-- The number fits with its NUL. -/
theorem snprintf_toList (value : Int32) : ∃ rest,
    (snprintf Buffer.zero value).toList = decimal value ++ nul :: rest := by
  have hlength := length_decimal value
  refine ⟨Buffer.zero.toList.drop (decimal value ++ [nul]).length, ?_⟩
  rw [snprintf, List.take_of_length_le (by omega), write_toList]
  · rw [List.append_assoc, List.singleton_append]
  · rw [List.length_append, List.length_singleton]
    omega

theorem strncpy_string {dst src : Buffer} {l rest : List Char}
    (h : src.toList = l ++ nul :: rest) (hl : nul ∉ l) : (strncpy dst src).string = some l := by
  have hlength := congrArg List.length h
  rw [src.toList_length, List.length_append, List.length_cons] at hlength
  have hcopied : src.toList.takeWhile (fun c => c ≠ nul) = l := by
    rw [h, takeWhile_nul hl]
  have hpad : List.replicate (13 - l.length) nul = nul :: List.replicate (12 - l.length) nul := by
    rw [← List.replicate_succ]
    congr 1
    omega
  have hbytes : (l ++ List.replicate (13 - l.length) nul).length ≤ 13 := by
    rw [List.length_append, List.length_replicate]
    omega
  have hwritten : (strncpy dst src).toList = l ++ nul :: (List.replicate (12 - l.length) nul ++
      dst.toList.drop (l ++ List.replicate (13 - l.length) nul).length) := by
    rw [strncpy, hcopied, write_toList _ hbytes, hpad, List.append_assoc, List.cons_append]
  exact string_of_toList hwritten hl

theorem argument_read (dst : Buffer) (value : Int32) :
    (strncpy dst (snprintf Buffer.zero value)).string.map atoi = some value := by
  obtain ⟨rest, hprinted⟩ := snprintf_toList value
  rw [strncpy_string hprinted (nul_not_mem_decimal value), Option.map_some, atoi_decimal]

end Buffers

section Trip

variable (ids : Ids) (argv : Argv)

/-- What argv[1] to argv[7] hold, in the order of the macros. -/
theorem makeArguments_read :
    let argv := makeArguments (makeIpcArray ids) argv
    usersPidArgv argv = some ids.usersPID_ID ∧ nodesPidArgv argv = some ids.nodesPID_ID ∧
      parametersArgv argv = some ids.par_ID ∧ ledgerArgv argv = some ids.ledger_ID ∧
      semUsersPidsArgv argv = some ids.semUsersPIDs_ID ∧
      semLedgerArgv argv = some ids.semLedger_ID ∧
      semNodesPidsArgv argv = some ids.semNodesPIDs_ID := by
  refine ⟨argument_read _ _, argument_read _ _, argument_read _ _, argument_read _ _,
    argument_read _ _, argument_read _ _, argument_read _ _⟩

/-- Users and nodes get the identifiers of the objects of that name, whatever the blocks
of argv held before. -/
theorem identifiers_survive :
    attachUser (makeArguments (makeIpcArray ids) argv) =
      { par := some ids.par_ID
        usersPID := some ids.usersPID_ID
        nodesPID := some ids.nodesPID_ID
        ledger := some ids.ledger_ID
        semUsersPIDs_ID := some ids.semUsersPIDs_ID
        semLedger_ID := some ids.semLedger_ID } ∧
    attachNode (makeArguments (makeIpcArray ids) argv) =
      { par := some ids.par_ID
        usersPID := some ids.usersPID_ID
        nodesPID := some ids.nodesPID_ID
        ledger := some ids.ledger_ID
        semNodesPIDs_ID := some ids.semNodesPIDs_ID
        semLedger_ID := some ids.semLedger_ID } := by
  obtain ⟨husers, hnodes, hpar, hledger, hsemUsers, hsemLedger, hsemNodes⟩ :=
    makeArguments_read ids argv
  constructor
  · rw [attachUser, hpar, husers, hnodes, hledger, hsemUsers, hsemLedger]
  · rw [attachNode, hpar, husers, hnodes, hledger, hsemNodes, hsemLedger]

end Trip
end SimulazioneTransazioni.Arguments
