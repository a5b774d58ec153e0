import SimulazioneTransazioni.Parser
import SimulazioneTransazioni.Library.LastWins
import Mathlib.Data.List.TakeWhile
import Mathlib.Data.Bool.AllAny

/-!
What the parser makes of a conf.txt whose lines are a name and a decimal literal. The
last line that names a parameter decides its field, unless the literal is not for
SO_REWARD; a literal that unsigned long does not hold resets every field.
-/
namespace SimulazioneTransazioni.Settings

open SimulazioneTransazioni.Parser

inductive Sign
  | none
  | plus
  | minus
deriving DecidableEq

def Sign.text : Sign → List Char
  | none => []
  | plus => ['+']
  | minus => ['-']

/-- A name, a blank and a literal, short enough for the buffers. -/
structure Line where
  name : List Char
  sign : Sign
  digits : List Char
  name_ne : name ≠ []
  name_short : name.length ≤ 63
  name_chars : ∀ c ∈ name, isSpace c = false ∧ c.toNat ≠ 0
  digits_ne : digits ≠ []
  digits_chars : ∀ c ∈ digits, c.isDigit = true
  short : name.length + 1 + (sign.text ++ digits).length ≤ 125

namespace Line

def literal (line : Line) : List Char := line.sign.text ++ line.digits

def text (line : Line) : List Char := line.name ++ ' ' :: line.literal

def magnitude (line : Line) : ℕ := digitsValue line.digits

def value (line : Line) : ℤ :=
  if line.sign = .minus then -(line.magnitude : ℤ) else line.magnitude

def word (line : Line) : UInt64 := (strtoul (line.sign = .minus) line.magnitude).1

def overflow (line : Line) : Bool := (strtoul (line.sign = .minus) line.magnitude).2

end Line

def file : List Line → Bool → List Char
  | [], _ => []
  | [line], final => line.text ++ if final then ['\n'] else []
  | line :: rest, final => line.text ++ '\n' :: file rest final

inductive Parameter
  | soUserNum
  | soNodesNum
  | soBudgetInit
  | soReward
  | soMinTransGenNsec
  | soMaxTransGenNsec
  | soRetry
  | soTpSize
  | soMinTransProcNsec
  | soMaxTransProcNsec
  | soSimSec
  | soFriendsNum
  | soHops
deriving DecidableEq

namespace Parameter

def all : List Parameter :=
  [soUserNum, soNodesNum, soBudgetInit, soReward, soMinTransGenNsec, soMaxTransGenNsec, soRetry,
    soTpSize, soMinTransProcNsec, soMaxTransProcNsec, soSimSec, soFriendsNum, soHops]

def text : Parameter → List Char
  | soUserNum => "SO_USER_NUM".toList
  | soNodesNum => "SO_NODES_NUM".toList
  | soBudgetInit => "SO_BUDGET_INIT".toList
  | soReward => "SO_REWARD".toList
  | soMinTransGenNsec => "SO_MIN_TRANS_GEN_NSEC".toList
  | soMaxTransGenNsec => "SO_MAX_TRANS_GEN_NSEC".toList
  | soRetry => "SO_RETRY".toList
  | soTpSize => "SO_TP_SIZE".toList
  | soMinTransProcNsec => "SO_MIN_TRANS_PROC_NSEC".toList
  | soMaxTransProcNsec => "SO_MAX_TRANS_PROC_NSEC".toList
  | soSimSec => "SO_SIM_SEC".toList
  | soFriendsNum => "SO_FRIENDS_NUM".toList
  | soHops => "SO_HOPS".toList

def get : Parameter → Parameters → ℤ
  | soUserNum, par => par.soUserNum.toNat
  | soNodesNum, par => par.soNodesNum.toNat
  | soBudgetInit, par => par.soBudgetInit.toNat
  | soReward, par => par.soReward.toInt
  | soMinTransGenNsec, par => par.soMinTransGenNsec.toNat
  | soMaxTransGenNsec, par => par.soMaxTransGenNsec.toNat
  | soRetry, par => par.soRetry.toNat
  | soTpSize, par => par.soTpSize.toNat
  | soMinTransProcNsec, par => par.soMinTransProcNsec.toNat
  | soMaxTransProcNsec, par => par.soMaxTransProcNsec.toNat
  | soSimSec, par => par.soSimSec.toNat
  | soFriendsNum, par => par.soFriendsNum.toNat
  | soHops, par => par.soHops.toNat

/-- The bits of the field's type; the value of SO_REWARD is tested as an unsigned long. -/
def width : Parameter → ℕ
  | soReward => 64
  | soMinTransGenNsec => 64
  | soMaxTransGenNsec => 64
  | soMinTransProcNsec => 64
  | soMaxTransProcNsec => 64
  | _ => 32

def write : Parameter → UInt64 → Parameters → Parameters
  | soUserNum, value, par => { par with soUserNum := value.toUInt32 }
  | soNodesNum, value, par => { par with soNodesNum := value.toUInt32 }
  | soBudgetInit, value, par => { par with soBudgetInit := value.toUInt32 }
  | soReward, value, par =>
    if value ≤ 100 then { par with soReward := Int8.ofNat value.toNat } else par
  | soMinTransGenNsec, value, par => { par with soMinTransGenNsec := value }
  | soMaxTransGenNsec, value, par => { par with soMaxTransGenNsec := value }
  | soRetry, value, par => { par with soRetry := value.toUInt32 }
  | soTpSize, value, par => { par with soTpSize := value.toUInt32 }
  | soMinTransProcNsec, value, par => { par with soMinTransProcNsec := value }
  | soMaxTransProcNsec, value, par => { par with soMaxTransProcNsec := value }
  | soSimSec, value, par => { par with soSimSec := value.toUInt32 }
  | soFriendsNum, value, par => { par with soFriendsNum := value.toUInt32 }
  | soHops, value, par => { par with soHops := value.toUInt32 }

def stored (p : Parameter) (value : UInt64) : Option ℤ :=
  if p = soReward ∧ 100 < value.toNat then none else some (value.toNat % 2 ^ p.width : ℕ)

theorem text_injective {p q : Parameter} (h : p.text = q.text) : p = q := by
  cases p <;> cases q <;> first | rfl | exact absurd h (by decide)

theorem branch_text (p : Parameter) : branch p.text = some p.write := by
  cases p <;> rfl

theorem of_ite {α : Type} {c : Prop} [Decidable c] {a w : α} {b : Option α}
    (h : (if c then some a else b) = some w) : (c ∧ w = a) ∨ b = some w := by
  by_cases hc : c
  · rw [if_pos hc] at h
    exact Or.inl ⟨hc, (Option.some.inj h).symm⟩
  · rw [if_neg hc] at h
    exact Or.inr h

theorem exists_of_branch {name : List Char} {w : UInt64 → Parameters → Parameters}
    (h : branch name = some w) : ∃ p : Parameter, name = p.text ∧ w = p.write := by
  unfold branch at h
  rcases of_ite h with ⟨hname, hw⟩ | h
  · exact ⟨soUserNum, hname, hw⟩
  rcases of_ite h with ⟨hname, hw⟩ | h
  · exact ⟨soNodesNum, hname, hw⟩
  rcases of_ite h with ⟨hname, hw⟩ | h
  · exact ⟨soBudgetInit, hname, hw⟩
  rcases of_ite h with ⟨hname, hw⟩ | h
  · exact ⟨soReward, hname, hw⟩
  rcases of_ite h with ⟨hname, hw⟩ | h
  · exact ⟨soMinTransGenNsec, hname, hw⟩
  rcases of_ite h with ⟨hname, hw⟩ | h
  · exact ⟨soMaxTransGenNsec, hname, hw⟩
  rcases of_ite h with ⟨hname, hw⟩ | h
  · exact ⟨soRetry, hname, hw⟩
  rcases of_ite h with ⟨hname, hw⟩ | h
  · exact ⟨soTpSize, hname, hw⟩
  rcases of_ite h with ⟨hname, hw⟩ | h
  · exact ⟨soMinTransProcNsec, hname, hw⟩
  rcases of_ite h with ⟨hname, hw⟩ | h
  · exact ⟨soMaxTransProcNsec, hname, hw⟩
  rcases of_ite h with ⟨hname, hw⟩ | h
  · exact ⟨soSimSec, hname, hw⟩
  rcases of_ite h with ⟨hname, hw⟩ | h
  · exact ⟨soFriendsNum, hname, hw⟩
  rcases of_ite h with ⟨hname, hw⟩ | h
  · exact ⟨soHops, hname, hw⟩
  contradiction

theorem write_reward (value : UInt64) (par : Parameters) : write soReward value par =
    if value ≤ 100 then { par with soReward := Int8.ofNat value.toNat } else par := rfl

theorem get_write_of_ne {p q : Parameter} (h : p ≠ q) (value : UInt64) (par : Parameters) :
    q.get (p.write value par) = q.get par := by
  cases p with
  | soReward =>
    rw [write_reward]
    split
    · cases q <;> first | contradiction | rfl
    · rfl
  | _ => cases q <;> first | contradiction | rfl

/-- A write leaves in its field the value as its type holds it. -/
theorem get_write_self (p : Parameter) (value : UInt64) (par : Parameters) :
    p.get (p.write value par) = (p.stored value).getD (p.get par) := by
  have hlong : (value.toNat : ℤ) = ((value.toNat % 2 ^ 64 : ℕ) : ℤ) := by
    rw [Nat.mod_eq_of_lt value.toNat_lt]
  cases p with
  | soReward =>
    rw [write_reward, stored]
    by_cases h : value ≤ 100
    · have hle : value.toNat ≤ 100 := UInt64.le_iff_toNat_le.mp h
      rw [if_pos h, if_neg fun hlarge => absurd hlarge.2 (by omega), Option.getD_some]
      show (Int8.ofNat value.toNat).toInt = _
      rw [Int8.toInt_ofNat_of_lt (by omega)]
      exact hlong
    · have hlt : 100 < value.toNat := by
        rw [UInt64.not_le, UInt64.lt_iff_toNat_lt] at h
        exact h
      rw [if_neg h, if_pos ⟨rfl, hlt⟩]
      rfl
  | soMinTransGenNsec => exact hlong
  | soMaxTransGenNsec => exact hlong
  | soMinTransProcNsec => exact hlong
  | soMaxTransProcNsec => exact hlong
  | _ => rfl

theorem get_write (p q : Parameter) (value : UInt64) (par : Parameters) :
    q.get (p.write value par) = if p = q then (q.stored value).getD (q.get par) else q.get par := by
  split
  next h =>
    rw [h]
    exact get_write_self q value par
  next h => exact get_write_of_ne h value par

theorem unsigned_ext {a b : UInt32} (h : (a.toNat : ℤ) = b.toNat) : a = b :=
  UInt32.toNat_inj.mp (Int.ofNat_inj.mp h)

theorem unsignedLong_ext {a b : UInt64} (h : (a.toNat : ℤ) = b.toNat) : a = b :=
  UInt64.toNat_inj.mp (Int.ofNat_inj.mp h)

/-- The fields are all there is. -/
theorem ext {par par' : Parameters} (h : ∀ p : Parameter, p.get par = p.get par') :
    par = par' := by
  cases par
  cases par'
  rw [Parameters.mk.injEq]
  exact ⟨unsigned_ext (h soUserNum), unsigned_ext (h soNodesNum), unsigned_ext (h soBudgetInit),
    Int8.toInt_inj.mp (h soReward), unsignedLong_ext (h soMinTransGenNsec),
    unsignedLong_ext (h soMaxTransGenNsec), unsigned_ext (h soRetry), unsigned_ext (h soTpSize),
    unsignedLong_ext (h soMinTransProcNsec), unsignedLong_ext (h soMaxTransProcNsec),
    unsigned_ext (h soSimSec), unsigned_ext (h soFriendsNum), unsigned_ext (h soHops)⟩

end Parameter

section Reading

variable {line : Line}

theorem toNat_of_isSpace {c : Char} (h : isSpace c = true) : 9 ≤ c.toNat ∧ c.toNat ≤ 32 := by
  rcases of_decide_eq_true h with rfl | rfl | rfl | hval | hval | rfl
  · decide
  · decide
  · decide
  · omega
  · omega
  · decide

theorem toNat_of_isDigit {c : Char} (h : c.isDigit = true) : 48 ≤ c.toNat ∧ c.toNat ≤ 57 :=
  Char.isDigit_iff_toNat.mp h

theorem isSpace_of_isDigit {c : Char} (h : c.isDigit = true) : isSpace c = false := by
  by_contra hspace
  have hlow := toNat_of_isSpace (Bool.eq_true_of_not_eq_false hspace)
  have hhigh := toNat_of_isDigit h
  omega

/-- The next line, with its newline. -/
theorem fgets_line {l : List Char} (hline : '\n' ∉ l) {n : ℕ} (hn : l.length < n)
    (rest : List Char) : fgets n (l ++ '\n' :: rest) = (l ++ ['\n'], rest) := by
  induction l generalizing n with
  | nil =>
    obtain ⟨n, rfl⟩ := Nat.exists_eq_add_of_le' hn
    rfl
  | cons c l ih =>
    obtain ⟨n, rfl⟩ := Nat.exists_eq_add_of_le' (show 1 ≤ n by omega)
    rw [List.mem_cons, not_or] at hline
    rw [List.length_cons] at hn
    rw [List.cons_append, fgets, if_neg (Ne.symm hline.1), ih hline.2 (by omega)]
    rfl

/-- The last line, when it has none. -/
theorem fgets_end {l : List Char} (hline : '\n' ∉ l) {n : ℕ} (hn : l.length ≤ n) :
    fgets n l = (l, []) := by
  induction l generalizing n with
  | nil => cases n <;> rfl
  | cons c l ih =>
    rw [List.length_cons] at hn
    obtain ⟨n, rfl⟩ := Nat.exists_eq_add_of_le' (show 1 ≤ n by omega)
    rw [List.mem_cons, not_or] at hline
    rw [fgets, if_neg (Ne.symm hline.1), ih hline.2 (by omega)]

theorem takeWhile_stop {p : Char → Bool} {l : List Char} (hl : ∀ c ∈ l, p c = true)
    {rest : List Char} (hrest : ∀ c ∈ rest.head?, p c = false) :
    (l ++ rest).takeWhile p = l := by
  rw [List.takeWhile_append_of_pos hl]
  cases rest with
  | nil => exact List.append_nil l
  | cons c rest =>
    rw [List.takeWhile_cons, hrest c rfl]
    exact List.append_nil l

theorem dropWhile_start {p : Char → Bool} {l : List Char} (hl : ∀ c ∈ l.head?, p c = false) :
    l.dropWhile p = l := by
  cases l with
  | nil => rfl
  | cons c l => exact List.dropWhile_cons_of_neg (by rw [hl c rfl]; exact Bool.false_ne_true)

def afterSign (input : List Char) : List Char :=
  match input with
  | '-' :: rest => rest
  | '+' :: rest => rest
  | rest => rest

theorem scanUnsigned_eq (input : List Char) : scanUnsigned input =
    if (afterSign input).takeWhile Char.isDigit = [] then none
    else some (strtoul (input.head? = some '-')
      (digitsValue ((afterSign input).takeWhile Char.isDigit))) := rfl

theorem afterSign_digit {d : Char} (hd : d.isDigit = true) (rest : List Char) :
    afterSign (d :: rest) = d :: rest ∧ d ≠ '-' := by
  have hval := toNat_of_isDigit hd
  have hplus : d ≠ '+' := by
    rintro rfl
    exact absurd hval (by decide)
  have hminus : d ≠ '-' := by
    rintro rfl
    exact absurd hval (by decide)
  refine ⟨?_, hminus⟩
  unfold afterSign
  split
  next heq => exact absurd (List.cons.inj heq).1 hminus
  next heq => exact absurd (List.cons.inj heq).1 hplus
  next => rfl

theorem scanUnsigned_literal (sign : Sign) {digits tail : List Char} (hne : digits ≠ [])
    (hdigits : ∀ c ∈ digits, c.isDigit = true) (htail : ∀ c ∈ tail.head?, c.isDigit = false) :
    scanUnsigned (sign.text ++ (digits ++ tail)) =
      some (strtoul (sign = .minus) (digitsValue digits)) := by
  have htake := takeWhile_stop hdigits htail
  have hsign : afterSign (sign.text ++ (digits ++ tail)) = digits ++ tail ∧
      decide ((sign.text ++ (digits ++ tail)).head? = some '-') = decide (sign = .minus) := by
    cases sign with
    | none =>
      obtain ⟨d, rest, rfl⟩ := List.exists_cons_of_ne_nil hne
      obtain ⟨hafter, hminus⟩ := afterSign_digit (hdigits d List.mem_cons_self) (rest ++ tail)
      refine ⟨hafter, ?_⟩
      simp [Sign.text, hminus]
    | plus => exact ⟨rfl, rfl⟩
    | minus => exact ⟨rfl, rfl⟩
  rw [scanUnsigned_eq, hsign.1, htake, if_neg hne, hsign.2]

/-- The lines have no NUL and no newline. -/
theorem text_chars {c : Char} (hc : c ∈ line.text) : c.toNat ≠ 0 ∧ c ≠ '\n' := by
  have hcases : c ∈ line.name ∨ c = ' ' ∨ c ∈ line.sign.text ∨ c ∈ line.digits := by
    simpa [Line.text, Line.literal] using hc
  rcases hcases with hname | rfl | hsign | hdigit
  · obtain ⟨hspace, hnul⟩ := line.name_chars c hname
    refine ⟨hnul, ?_⟩
    rintro rfl
    contradiction
  · decide
  · cases hs : line.sign <;> rw [hs] at hsign <;> simp [Sign.text] at hsign <;> subst hsign <;>
      decide
  · have hd := toNat_of_isDigit (line.digits_chars c hdigit)
    refine ⟨by omega, ?_⟩
    rintro rfl
    exact absurd hd (by decide)

theorem text_append (line : Line) (tail : List Char) :
    line.text ++ tail = line.name ++ (' ' :: (line.literal ++ tail)) := by
  simp [Line.text]

/-- There is no NUL that would end the buffer. -/
theorem takeWhile_nul_text (line : Line) {tail : List Char} (htail : ∀ c ∈ tail, c = '\n') :
    (line.text ++ tail).takeWhile (fun c => c.toNat ≠ 0) = line.text ++ tail := by
  have hchars : ∀ c ∈ line.text ++ tail, decide (c.toNat ≠ 0) = true := by
    intro c hc
    rw [decide_eq_true_eq]
    rcases List.mem_append.mp hc with htext | htail'
    · exact (text_chars htext).1
    · rw [htail c htail']
      decide
  exact List.takeWhile_eq_self_iff.mpr hchars

theorem dropWhile_text (line : Line) (tail : List Char) :
    (line.text ++ tail).dropWhile isSpace = line.text ++ tail := by
  apply dropWhile_start
  obtain ⟨c, name, hname⟩ := List.exists_cons_of_ne_nil line.name_ne
  have hc := line.name_chars c (by rw [hname]; exact List.mem_cons_self)
  simpa [Line.text, hname] using hc.1

/-- The token is the name. -/
theorem takeWhile_text (line : Line) (tail : List Char) :
    (line.text ++ tail).takeWhile (fun c => ¬ isSpace c) = line.name := by
  rw [text_append]
  apply takeWhile_stop
  · intro c hc
    simp [(line.name_chars c hc).1]
  · simp [isSpace]

/-- What is left for the number. -/
theorem dropWhile_name (line : Line) (tail : List Char) :
    ((line.text ++ tail).drop line.name.length).dropWhile isSpace = line.literal ++ tail := by
  have hblank : isSpace ' ' = true := rfl
  rw [text_append, List.drop_left, List.dropWhile_cons_of_pos hblank]
  apply dropWhile_start
  obtain ⟨d, digits, hdigits⟩ := List.exists_cons_of_ne_nil line.digits_ne
  have hd := isSpace_of_isDigit (line.digits_chars d (by rw [hdigits]; exact List.mem_cons_self))
  unfold Line.literal
  cases line.sign with
  | none => simpa [Sign.text, hdigits] using hd
  | plus => simp [Sign.text, isSpace]
  | minus => simp [Sign.text, isSpace]

theorem sscanf_line (line : Line) {tail : List Char} (htail : ∀ c ∈ tail, c = '\n') :
    sscanf (line.text ++ tail) = ⟨some line.name, some line.word, line.overflow⟩ := by
  have hend : ∀ c ∈ tail.head?, c.isDigit = false := by
    intro c hc
    rw [htail c (List.mem_of_mem_head? hc)]
    rfl
  have hscan : scanUnsigned (line.literal ++ tail) = some (line.word, line.overflow) := by
    rw [Line.literal, List.append_assoc,
      scanUnsigned_literal _ line.digits_ne line.digits_chars hend]
    rfl
  unfold sscanf
  dsimp only
  rw [takeWhile_nul_text line htail, dropWhile_text, takeWhile_text, if_neg line.name_ne,
    dropWhile_name, hscan]

def Line.slot (line : Line) : Slot := ⟨some line.name, some line.word, line.overflow⟩

theorem length_text (line : Line) : line.text.length ≤ 125 := by
  have hshort := line.short
  rw [Line.text, List.length_append, List.length_cons, Line.literal]
  omega

theorem text_ne (line : Line) (tail : List Char) : line.text ++ tail ≠ [] := by
  simp [Line.text]

theorem newline_not_mem (line : Line) : '\n' ∉ line.text := fun h => (text_chars h).2 rfl

theorem readSlots_cons {n : ℕ} {content : List Char} (hne : content ≠ []) :
    readSlots (n + 1) content =
      sscanf (fgets 126 content).1 :: readSlots n (fgets 126 content).2 := by
  rw [readSlots, if_neg hne]

theorem readSlots_nil (n : ℕ) : readSlots n [] = [] := by
  cases n <;> rfl

theorem file_cons (line next : Line) (rest : List Line) (final : Bool) :
    file (line :: next :: rest) final = line.text ++ '\n' :: file (next :: rest) final := rfl

/-- The first loop reads one slot for each line. -/
theorem readSlots_file (lines : List Line) (final : Bool) {n : ℕ}
    (hn : (file lines final).length ≤ n) :
    readSlots n (file lines final) = lines.map Line.slot := by
  induction lines generalizing n with
  | nil => exact readSlots_nil n
  | cons line rest ih =>
    have hlength := length_text line
    have hline := newline_not_mem line
    cases rest with
    | nil =>
      have hne := text_ne line (if final then ['\n'] else [])
      obtain ⟨n, rfl⟩ := Nat.exists_eq_add_of_le' ((List.length_pos_iff.mpr hne).trans_le hn)
      rw [file, readSlots_cons hne]
      cases final with
      | false =>
        have hslot := sscanf_line line (show ∀ c ∈ [], c = '\n' by simp)
        rw [List.append_nil] at hslot
        rw [if_neg Bool.false_ne_true, List.append_nil, fgets_end hline (by omega), hslot,
          readSlots_nil]
        rfl
      | true =>
        rw [if_pos rfl, fgets_line hline (by omega), sscanf_line line (by simp), readSlots_nil]
        rfl
    | cons next rest =>
      have hne := text_ne line ('\n' :: file (next :: rest) final)
      have htext := List.length_pos_iff.mpr hne
      rw [file_cons, List.length_append, List.length_cons] at hn
      obtain ⟨n, rfl⟩ := Nat.exists_eq_add_of_le' (show 1 ≤ n by omega)
      rw [file_cons, readSlots_cons hne, fgets_line hline (by omega), sscanf_line line (by simp),
        ih (by omega)]
      rfl

end Reading

section Assigning

def Line.apply (line : Line) (par : Parameters) : Parameters :=
  match branch line.name with
  | none => par
  | some write => write line.word par

def Line.sets (p : Parameter) (line : Line) : Option ℤ :=
  if line.name = p.text then p.stored line.word else none

def applyAll (lines : List Line) : Parameters :=
  lines.foldl (fun par line => line.apply par) assignDefaults

theorem assign_slot (line : Line) (par : Parameters) :
    assign par line.slot = some (line.apply par) := by
  show (match branch line.name with
    | none => some par
    | some write => (some line.word).map fun value => write value par) = _
  unfold Line.apply
  cases branch line.name with
  | none => rfl
  | some write => rfl

theorem foldlM_slots (lines : List Line) (par : Parameters) :
    (lines.map Line.slot).foldlM assign par =
      some (lines.foldl (fun par line => line.apply par) par) := by
  induction lines generalizing par with
  | nil => rfl
  | cons line rest ih =>
    rw [List.map_cons, List.foldlM_cons, assign_slot, List.foldl_cons]
    exact ih _

theorem get_apply (p : Parameter) (par : Parameters) (line : Line) :
    p.get (line.apply par) = (line.sets p).getD (p.get par) := by
  unfold Line.apply Line.sets
  cases hbranch : branch line.name with
  | none =>
    have hother : line.name ≠ p.text := by
      intro hname
      rw [hname, Parameter.branch_text] at hbranch
      contradiction
    rw [if_neg hother]
    rfl
  | some write =>
    obtain ⟨q, hname, rfl⟩ := Parameter.exists_of_branch hbranch
    show p.get (q.write line.word par) = _
    rw [Parameter.get_write]
    by_cases hq : q = p
    · rw [if_pos hq, if_pos (by rw [hname, hq])]
    · rw [if_neg hq, if_neg fun h => hq (Parameter.text_injective (hname.symm.trans h))]
      rfl

theorem get_applyAll (p : Parameter) (lines : List Line) :
    p.get (applyAll lines) = LastWins.last (Line.sets p) lines (p.get assignDefaults) :=
  LastWins.foldl_last (fun par line => get_apply p par line) lines assignDefaults

/-- parse_parameters on a file of 13 lines is the assignments and then the corrections. -/
theorem parseParameters_file (errno : Errno) (lines : List Line) (final : Bool)
    (hlines : lines.length = numParameters) :
    parseParameters errno (some (file lines final)) = some (0, correct
      (if errno = .ERANGE ∨ ∃ line ∈ lines, line.overflow = true then assignDefaults
        else applyAll lines)) := by
  have hslots := readSlots_file lines final (le_refl (file lines final).length)
  have hfits : ¬ ((lines.map Line.slot).length ≠ numParameters ∨
      ∃ slot ∈ lines.map Line.slot, ∃ token ∈ slot.token, 63 < token.length) := by
    rintro (hcount | ⟨slot, hslot, token, htoken, hlong⟩)
    · rw [List.length_map] at hcount
      exact hcount hlines
    · obtain ⟨line, -, rfl⟩ := List.mem_map.mp hslot
      cases Option.mem_some_iff.mp htoken
      have hshort := line.name_short
      omega
  have herrno : (if ∃ slot ∈ lines.map Line.slot, slot.overflow = true then Errno.ERANGE else errno)
      = .ERANGE ↔ errno = .ERANGE ∨ ∃ line ∈ lines, line.overflow = true := by
    have hover : (∃ slot ∈ lines.map Line.slot, slot.overflow = true) ↔
        ∃ line ∈ lines, line.overflow = true := by
      simp [Line.slot]
    split
    next h => exact iff_of_true rfl (Or.inr (hover.mp h))
    next h => exact (or_iff_left fun h' => h (hover.mpr h')).symm
  unfold parseParameters
  dsimp only
  rw [hslots, if_neg hfits, foldlM_slots, Option.map_some]
  simp only [herrno]
  rfl

end Assigning

section Correcting

/-- A field after the four corrections, in terms of the fields before them. -/
def normalized (field : Parameter → ℤ) : Parameter → ℤ
  | .soMinTransGenNsec => min (field .soMinTransGenNsec) (field .soMaxTransGenNsec)
  | .soMinTransProcNsec => min (field .soMinTransProcNsec) (field .soMaxTransProcNsec)
  | .soTpSize => max (field .soTpSize) (soBlockSize + 1 : ℕ)
  | .soFriendsNum => min (field .soFriendsNum) (field .soNodesNum)
  | p => field p

theorem correctGen_writes (par : Parameters) :
    ∃ value, correctGen par = { par with soMinTransGenNsec := value } := by
  unfold correctGen
  split
  · exact ⟨_, rfl⟩
  · exact ⟨par.soMinTransGenNsec, rfl⟩

/-- A correction is known by its field and by the fields it leaves. -/
theorem get_correction {par par' : Parameters} {field : Parameter} {value : ℤ}
    (hself : field.get par' = value) (hother : ∀ q, q ≠ field → q.get par' = q.get par)
    (p : Parameter) : p.get par' = if p = field then value else p.get par := by
  split
  next h =>
    rw [h]
    exact hself
  next h => exact hother p h

theorem toNat_ite_lt (a b : UInt64) :
    ((if b < a then b else a).toNat : ℤ) = min (a.toNat : ℤ) b.toNat := by
  split
  next h =>
    rw [UInt64.lt_iff_toNat_lt] at h
    exact (min_eq_right (Int.ofNat_le.mpr h.le)).symm
  next h =>
    rw [UInt64.lt_iff_toNat_lt] at h
    exact (min_eq_left (by omega)).symm

theorem get_correctGen (p : Parameter) (par : Parameters) : p.get (correctGen par) =
    if p = .soMinTransGenNsec then
      min (Parameter.soMinTransGenNsec.get par) (Parameter.soMaxTransGenNsec.get par)
    else p.get par := by
  refine get_correction ?_ ?_ p
  · refine Eq.trans ?_ (toNat_ite_lt par.soMinTransGenNsec par.soMaxTransGenNsec)
    unfold correctGen
    split <;> rfl
  · intro q hq
    obtain ⟨value, hvalue⟩ := correctGen_writes par
    rw [hvalue]
    cases q <;> first | contradiction | rfl

theorem get_correctProc (p : Parameter) (par : Parameters) : p.get (correctProc par) =
    if p = .soMinTransProcNsec then
      min (Parameter.soMinTransProcNsec.get par) (Parameter.soMaxTransProcNsec.get par)
    else p.get par := by
  refine get_correction ?_ ?_ p
  · refine Eq.trans ?_ (toNat_ite_lt par.soMinTransProcNsec par.soMaxTransProcNsec)
    unfold correctProc
    split <;> rfl
  · intro q hq
    obtain ⟨value, hvalue⟩ := correctProc_writes par
    rw [hvalue]
    cases q <;> first | contradiction | rfl

theorem get_correctTpSize (p : Parameter) (par : Parameters) : p.get (correctTpSize par) =
    if p = .soTpSize then max (Parameter.soTpSize.get par) (soBlockSize + 1 : ℕ)
    else p.get par := by
  refine get_correction ?_ ?_ p
  · show (((correctTpSize par).soTpSize.toNat : ℕ) : ℤ) =
      max (par.soTpSize.toNat : ℤ) (soBlockSize + 1 : ℕ)
    have hblock : (UInt32.ofNat soBlockSize).toNat = soBlockSize := rfl
    unfold correctTpSize
    split
    next h =>
      rw [UInt32.le_iff_toNat_le, hblock] at h
      exact (max_eq_right (Int.ofNat_le.mpr (h.trans (Nat.le_succ soBlockSize)))).symm
    next h =>
      rw [UInt32.le_iff_toNat_le, hblock] at h
      exact (max_eq_left (by omega)).symm
  · intro q hq
    obtain ⟨value, hvalue⟩ := correctTpSize_writes par
    rw [hvalue]
    cases q <;> first | contradiction | rfl

theorem get_correctFriends (p : Parameter) (par : Parameters) : p.get (correctFriends par) =
    if p = .soFriendsNum then
      min (Parameter.soFriendsNum.get par) (Parameter.soNodesNum.get par)
    else p.get par := by
  refine get_correction ?_ ?_ p
  · show (((correctFriends par).soFriendsNum.toNat : ℕ) : ℤ) =
      min (par.soFriendsNum.toNat : ℤ) (par.soNodesNum.toNat : ℤ)
    unfold correctFriends
    split
    next h =>
      rw [UInt32.lt_iff_toNat_lt] at h
      exact (min_eq_right (Int.ofNat_le.mpr h.le)).symm
    next h =>
      rw [UInt32.lt_iff_toNat_lt] at h
      exact (min_eq_left (by omega)).symm
  · intro q hq
    obtain ⟨value, hvalue⟩ := correctFriends_writes par
    rw [hvalue]
    cases q <;> first | contradiction | rfl

/-- No correction touches what another one looks at. -/
theorem get_correct (p : Parameter) (par : Parameters) :
    p.get (correct par) = normalized (fun q => q.get par) p := by
  rw [correct, get_correctFriends, get_correctTpSize, get_correctTpSize, get_correctTpSize,
    get_correctProc]
  cases p <;> simp [get_correctProc, get_correctGen, normalized]

end Correcting

section Numerals

def Line.ofValue (name : List Char) (hne : name ≠ []) (hshort : name.length ≤ 63)
    (hchars : ∀ c ∈ name, isSpace c = false ∧ c.toNat ≠ 0) (value : ℕ)
    (hvalue : value < 10 ^ 60) : Line where
  name := name
  sign := .none
  digits := Nat.toDigits 10 value
  name_ne := hne
  name_short := hshort
  name_chars := hchars
  digits_ne := Nat.toDigits_ne_nil
  digits_chars := fun _ hc => Nat.isDigit_of_mem_toDigits (by decide) (by decide) hc
  short := by
    have hlength := (Nat.length_toDigits_le_iff (b := 10) (by decide) (by decide)).mpr hvalue
    show name.length + 1 + (Nat.toDigits 10 value).length ≤ 125
    omega

theorem value_ofValue (name : List Char) (hne : name ≠ []) (hshort : name.length ≤ 63)
    (hchars : ∀ c ∈ name, isSpace c = false ∧ c.toNat ≠ 0) {value : ℕ}
    (hvalue : value < 10 ^ 60) : (Line.ofValue name hne hshort hchars value hvalue).value = value :=
  congrArg Nat.cast (Nat.ofDigitChars_toDigits (by decide) (by decide))

theorem text_ne_nil (p : Parameter) : p.text ≠ [] := by
  cases p <;> decide

theorem length_text_le (p : Parameter) : p.text.length ≤ 63 := by
  cases p <;> decide

theorem text_no_space (p : Parameter) : ∀ c ∈ p.text, isSpace c = false ∧ c.toNat ≠ 0 := by
  rw [← List.all_iff_forall_prop]
  cases p <;> decide

def assignment (p : Parameter) (value : ℕ) (hvalue : value < 10 ^ 60) : Line :=
  Line.ofValue p.text (text_ne_nil p) (length_text_le p) (text_no_space p) value hvalue

theorem value_assignment (p : Parameter) {value : ℕ} (hvalue : value < 10 ^ 60) :
    (assignment p value hvalue).value = value := value_ofValue ..

theorem magnitude_assignment (p : Parameter) {value : ℕ} (hvalue : value < 10 ^ 60) :
    (assignment p value hvalue).magnitude = value :=
  Nat.ofDigitChars_toDigits (by decide) (by decide)

end Numerals

section Values

variable {line : Line}

/-- An unsigned value that the field's type holds. -/
structure Line.Plain (line : Line) : Prop where
  unsigned : line.sign = .none
  fits : line.magnitude < 2 ^ 64
  fits_field : ∀ p : Parameter, line.name = p.text → line.magnitude < 2 ^ p.width

def Line.assigns (p : Parameter) (line : Line) : Option ℤ :=
  if line.name = p.text ∧ (p = .soReward → line.value ≤ 100) then some line.value else none

def setting (lines : List Line) (p : Parameter) : ℤ :=
  LastWins.last (Line.assigns p) lines (p.get assignDefaults)

theorem overflow_iff : line.overflow = true ↔ 2 ^ 64 ≤ line.magnitude := by
  unfold Line.overflow strtoul
  split
  next h => exact iff_of_true rfl h
  next h => exact iff_of_false Bool.false_ne_true h

theorem magnitude_eq (hpos : 0 ≤ line.value) : (line.magnitude : ℤ) = line.value := by
  unfold Line.value at hpos ⊢
  split at hpos
  next h =>
    rw [if_pos h]
    omega
  next h => rw [if_neg h]

/-- A value that is not negative is read as it is. -/
theorem toNat_word (hfits : line.value < 2 ^ 64) (hpos : 0 ≤ line.value) :
    (line.word.toNat : ℤ) = line.value := by
  have hmagnitude := magnitude_eq hpos
  unfold Line.word strtoul
  rw [if_neg (by omega)]
  by_cases hsign : line.sign = .minus
  · have hzero : line.magnitude = 0 := by
      rw [Line.value, if_pos hsign] at hpos
      omega
    rw [← hmagnitude, hsign, hzero]
    rfl
  · rw [if_neg (by simpa using hsign), UInt64.toNat_ofNat_of_lt' (show _ < 2 ^ 64 by omega),
      hmagnitude]

theorem pow_width_le (p : Parameter) : (2 : ℤ) ^ p.width ≤ 2 ^ 64 := by
  cases p <;> decide

theorem stored_word {p : Parameter} (hpos : 0 ≤ line.value) (hfits : line.value < 2 ^ p.width) :
    p.stored line.word =
      if p = .soReward → line.value ≤ 100 then some line.value else none := by
  have hword := toNat_word (hfits.trans_le (pow_width_le p)) hpos
  have hmod : ((line.word.toNat % 2 ^ p.width : ℕ) : ℤ) = line.value := by
    rw [Int.natCast_emod, hword]
    exact_mod_cast Int.emod_eq_of_lt hpos hfits
  have hlarge : (p = .soReward ∧ 100 < line.word.toNat) ↔
      ¬ (p = .soReward → line.value ≤ 100) := by
    rw [Classical.not_imp]
    exact and_congr_right fun _ => by omega
  rw [Parameter.stored, hmod]
  by_cases h : p = .soReward → line.value ≤ 100
  · rw [if_pos h, if_neg fun h' => hlarge.mp h' h]
  · rw [if_neg h, if_pos (hlarge.mpr h)]

theorem sets_eq_assigns (hline : line.Plain) (p : Parameter) :
    line.sets p = line.assigns p := by
  have hvalue : line.value = line.magnitude := by
    rw [Line.value, hline.unsigned]
    rfl
  unfold Line.sets Line.assigns
  by_cases hname : line.name = p.text
  · have hfits : line.value < 2 ^ p.width := by
      rw [hvalue]
      exact_mod_cast hline.fits_field p hname
    rw [if_pos hname, stored_word (by omega) hfits]
    simp [hname]
  · simp [hname]

theorem le_of_assigns_reward {v : ℤ} (h : line.assigns .soReward = some v) : v ≤ 100 := by
  unfold Line.assigns at h
  split at h
  next hline =>
    cases h
    exact hline.2 rfl
  next => contradiction

theorem setting_reward_le (lines : List Line) : setting lines .soReward ≤ 100 := by
  rcases LastWins.last_cases (Line.assigns .soReward) lines
    (Parameter.soReward.get assignDefaults) with hdefault | ⟨line, -, hline⟩
  · rw [setting, hdefault]
    decide
  · exact le_of_assigns_reward hline

/-- The fields after the second loop. -/
theorem get_applyAll_plain {lines : List Line} (hplain : ∀ line ∈ lines, line.Plain)
    (p : Parameter) : p.get (applyAll lines) = setting lines p := by
  rw [get_applyAll]
  exact LastWins.last_congr (fun line hline => sets_eq_assigns (hplain line hline) p) _

theorem setting_perm {lines lines' : List Line} (hperm : lines'.Perm lines)
    (hnames : (lines.map Line.name).Nodup) (p : Parameter) :
    setting lines' p = setting lines p := by
  have hkey : ∀ line : Line, line.assigns p ≠ none → line.name = p.text := by
    intro line hset
    by_contra hname
    exact hset (if_neg fun h => hname h.1)
  exact LastWins.last_perm hkey hnames hperm _

theorem parse_plain {errno : Errno} (herrno : errno ≠ .ERANGE) {lines : List Line}
    (hcount : lines.length = numParameters) (hplain : ∀ line ∈ lines, line.Plain)
    (final : Bool) : parseParameters errno (some (file lines final)) =
      some (0, correct (applyAll lines)) := by
  have hkept : ¬ (errno = .ERANGE ∨ ∃ line ∈ lines, line.overflow = true) := by
    rintro (h | ⟨line, hline, hover⟩)
    · exact herrno h
    · have hfits := (hplain line hline).fits
      have hlarge := overflow_iff.mp hover
      omega
  rw [parseParameters_file errno lines final hcount, if_neg hkept]

/-- Each field has the value of the last line that names it, or its default, and is then
corrected; the order of the lines does not matter when their names are different. -/
theorem last_assignment_wins {errno : Errno} (herrno : errno ≠ .ERANGE) {lines : List Line}
    (hcount : lines.length = numParameters) (hplain : ∀ line ∈ lines, line.Plain)
    (final : Bool) :
    ∃ par, parseParameters errno (some (file lines final)) = some (0, par) ∧
      (∀ p : Parameter, p.get par = normalized (setting lines) p) ∧
      Corrected par ∧ par.soReward ≤ 100 ∧
      ∀ lines' final', lines'.Perm lines → (lines.map Line.name).Nodup →
        parseParameters errno (some (file lines' final')) = some (0, par) := by
  have hget : ∀ p : Parameter, p.get (correct (applyAll lines)) =
      normalized (setting lines) p := by
    intro p
    rw [get_correct]
    congr 1
    funext q
    exact get_applyAll_plain hplain q
  refine ⟨correct (applyAll lines), parse_plain herrno hcount hplain final, hget, corrected _,
    ?_, ?_⟩
  · have hreward := hget .soReward
    have hle := setting_reward_le lines
    rw [Int8.le_iff_toInt_le]
    show Parameter.soReward.get _ ≤ 100
    rw [hreward]
    exact hle
  · intro lines' final' hperm hnames
    have hplain' : ∀ line ∈ lines', line.Plain :=
      fun line hline => hplain line (hperm.mem_iff.mp hline)
    have hcount' : lines'.length = numParameters := by rw [hperm.length_eq, hcount]
    have hsame : applyAll lines' = applyAll lines := by
      apply Parameter.ext
      intro p
      rw [get_applyAll_plain hplain', get_applyAll_plain hplain, setting_perm hperm hnames]
    rw [parse_plain herrno hcount' hplain' final', hsame]

theorem plain_hops (n : ℕ) : ∀ line ∈ List.replicate n (assignment .soHops 7 (by decide)),
    line.Plain := by
  intro line hline
  obtain ⟨-, rfl⟩ := List.mem_replicate.mp hline
  refine ⟨rfl, ?_, fun p _ => ?_⟩
  · rw [magnitude_assignment]
    decide
  · rw [magnitude_assignment]
    cases p <;> decide

/-- Thirteen times the same line. -/
theorem last_assignment_wins_hops : ∃ par, parseParameters .zero
    (some (file (List.replicate 13 (assignment .soHops 7 (by decide))) true)) = some (0, par) ∧
      par.soReward ≤ 100 := by
  have herrno : Errno.zero ≠ .ERANGE := by decide
  obtain ⟨par, hparse, -, -, hreward, -⟩ :=
    last_assignment_wins herrno List.length_replicate (plain_hops 13) true
  exact ⟨par, hparse, hreward⟩

end Values

section Literals

variable {lines : List Line}

def NamesAll (lines : List Line) : Prop :=
  (lines.map Line.name).Perm (Parameter.all.map Parameter.text)

def InRange (p : Parameter) (value : ℤ) : Prop :=
  0 ≤ value ∧ value < 2 ^ p.width ∧ (p = .soReward → value ≤ 100)

def TooLarge (lines : List Line) : Prop := ∃ line ∈ lines, 2 ^ 64 ≤ line.magnitude

def Normalizes (read par : Parameters) : Prop :=
  ∀ p : Parameter, p.get par = normalized (fun q => q.get read) p

theorem namesAll_length (h : NamesAll lines) : lines.length = numParameters := by
  have hlength := h.length_eq
  rw [List.length_map, List.length_map] at hlength
  exact hlength

theorem nodup_texts : (Parameter.all.map Parameter.text).Nodup := by
  apply List.Nodup.map
  · exact fun _ _ h => Parameter.text_injective h
  · decide

theorem parse_literals (errno : Errno) (h : NamesAll lines) (final : Bool) :
    parseParameters errno (some (file lines final)) = some (0, correct
      (if errno = .ERANGE ∨ ∃ line ∈ lines, line.overflow = true then assignDefaults
        else applyAll lines)) :=
  parseParameters_file errno lines final (namesAll_length h)

/-- The only line that names the parameter decides its field. -/
theorem get_applyAll_of_mem (h : NamesAll lines) {line : Line} (hline : line ∈ lines)
    {p : Parameter} (hname : line.name = p.text) :
    p.get (applyAll lines) = (line.sets p).getD (p.get assignDefaults) := by
  have hkey : ∀ line : Line, line.sets p ≠ none → line.name = p.text := by
    intro line hset
    by_contra hne
    exact hset (if_neg hne)
  rw [get_applyAll]
  exact LastWins.last_of_mem hkey (h.nodup_iff.mpr nodup_texts) hline hname _

theorem tooLarge_iff (lines : List Line) :
    (∃ line ∈ lines, line.overflow = true) ↔ TooLarge lines :=
  exists_congr fun _ => and_congr_right fun _ => overflow_iff

def Holds (p : Parameter) (value : ℤ) : Prop :=
  if p = .soReward then -128 ≤ value ∧ value < 128 else 0 ≤ value ∧ value < 2 ^ p.width

/-- Each field is the integer written, or the default where its type does not hold it. -/
def Unaltered (lines : List Line) (par : Parameters) : Prop :=
  ∃ read, Normalizes read par ∧ ∀ line ∈ lines, ∀ p : Parameter, line.name = p.text →
    (Holds p line.value → p.get read = line.value) ∧
      (¬ Holds p line.value → p.get read = p.get assignDefaults)

/-- One literal that unsigned long does not hold resets every field; without one, a field
is the integer written wherever that is one the field is meant for, and the default where
it is too large for SO_REWARD. -/
theorem literals_kept (errno : Errno) (h : NamesAll lines) (final : Bool) :
    ∃ read par, parseParameters errno (some (file lines final)) = some (0, par) ∧
      Normalizes read par ∧
      (errno = .ERANGE ∨ TooLarge lines → par = assignDefaults) ∧
      (¬ (errno = .ERANGE ∨ TooLarge lines) → ∀ line ∈ lines, ∀ p : Parameter,
        line.name = p.text →
          (InRange p line.value → p.get read = line.value) ∧
          (p = .soReward → 100 < line.value → p.get read = p.get assignDefaults)) := by
  have hreads : (errno = .ERANGE ∨ ∃ line ∈ lines, line.overflow = true) ↔
      (errno = .ERANGE ∨ TooLarge lines) := or_congr_right (tooLarge_iff lines)
  refine ⟨_, _, parse_literals errno h final, fun p => get_correct p _, ?_, ?_⟩
  · intro hreset
    rw [if_pos (hreads.mpr hreset)]
    decide
  · intro hkept line hline p hname
    rw [if_neg fun h' => hkept (hreads.mp h'), get_applyAll_of_mem h hline hname, Line.sets,
      if_pos hname]
    have hfits : line.magnitude < 2 ^ 64 := by
      by_contra hlarge
      exact hkept (Or.inr ⟨line, hline, Nat.le_of_not_lt hlarge⟩)
    constructor
    · rintro ⟨hpos, hlt, hreward⟩
      rw [stored_word hpos hlt, if_pos hreward]
      rfl
    · rintro rfl hlarge
      have hmagnitude := magnitude_eq (show 0 ≤ line.value by omega)
      have hlt : line.value < 2 ^ Parameter.soReward.width := by
        rw [← hmagnitude]
        exact_mod_cast hfits
      rw [stored_word (by omega) hlt, if_neg (by simpa using hlarge)]
      rfl

def lineFor (value : Parameter → ℕ) (hvalue : ∀ p, value p < 10 ^ 60) (p : Parameter) : Line :=
  assignment p (value p) (hvalue p)

theorem namesAll_lineFor (value : Parameter → ℕ) (hvalue : ∀ p, value p < 10 ^ 60) :
    NamesAll (Parameter.all.map (lineFor value hvalue)) := by
  rw [NamesAll, List.map_map]
  exact List.Perm.refl _

/-- Thirteen lines with the value 7. -/
theorem literals_kept_sevens : ∃ par,
    parseParameters .zero (some (file (Parameter.all.map (lineFor (fun _ => 7)
      fun _ => by decide)) true)) = some (0, par) := by
  obtain ⟨-, par, hparse, -⟩ := literals_kept .zero (namesAll_lineFor (fun _ => 7) _) true
  exact ⟨par, hparse⟩

def retryTooLarge (p : Parameter) : ℕ := if p = .soRetry then 2 ^ 64 else 7

theorem retryTooLarge_lt (p : Parameter) : retryTooLarge p < 10 ^ 60 := by
  cases p <;> decide

/-- SO_HOPS 7 is forgotten because of SO_RETRY 18446744073709551616. -/
theorem large_literal_resets : ∃ lines par, NamesAll lines ∧
    parseParameters .zero (some (file lines true)) = some (0, par) ∧ ¬ Unaltered lines par := by
  have hnames := namesAll_lineFor retryTooLarge retryTooLarge_lt
  have hmem : ∀ p, lineFor retryTooLarge retryTooLarge_lt p ∈
      Parameter.all.map (lineFor retryTooLarge retryTooLarge_lt) := by
    intro p
    apply List.mem_map_of_mem
    cases p <;> decide
  have hlarge : 2 ^ 64 ≤ (lineFor retryTooLarge retryTooLarge_lt .soRetry).magnitude :=
    le_of_eq (magnitude_assignment .soRetry (retryTooLarge_lt .soRetry)).symm
  have hparse := parse_literals .zero hnames true
  rw [if_pos (Or.inr ⟨_, hmem .soRetry, overflow_iff.mpr hlarge⟩)] at hparse
  refine ⟨_, _, hnames, hparse, ?_⟩
  rintro ⟨read, hread, hkept⟩
  have hvalue : (lineFor retryTooLarge retryTooLarge_lt .soHops).value = 7 :=
    value_assignment .soHops (retryTooLarge_lt .soHops)
  have hholds : Holds .soHops 7 := by
    rw [Holds, if_neg (by decide)]
    decide
  have hget := (hkept _ (hmem .soHops) .soHops rfl).1 (by rw [hvalue]; exact hholds)
  have hfield : Parameter.soHops.get (correct assignDefaults) = Parameter.soHops.get read :=
    hread .soHops
  rw [hget, hvalue] at hfield
  exact absurd hfield (by decide)

end Literals
end SimulazioneTransazioni.Settings
