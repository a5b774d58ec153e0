import SimulazioneTransazioni.Settings
import SimulazioneTransazioni.Library.Trace

/-!
The tables tokens and values of parse_parameters. The first loop takes a row for each
piece of the file that fgets yields, the second one looks at NUM_PARAMETERS rows. The
accesses stay inside the tables, and use what was assigned, exactly for the files of 13
pieces that each have a word, and a number after it where the word is a parameter.
-/
namespace SimulazioneTransazioni.ParserTables

open SimulazioneTransazioni.Parser Settings Trace

inductive Access
  | allocate (i : ℕ)
  | storeToken (i bytes : ℕ)
  | storeValue (i : ℕ)
  | readToken (i : ℕ)
  | readValue (i : ℕ)
  | free (i : ℕ)

/-- A row is inside the table, a token in its 64 bytes, and what is used was assigned. -/
def Allowed (before : List Access) : Access → Prop
  | .allocate i => i < numParameters
  | .storeToken i bytes => i < numParameters ∧ bytes ≤ 64
  | .storeValue i => i < numParameters
  | .readToken i => ∃ bytes, Access.storeToken i bytes ∈ before
  | .readValue i => Access.storeValue i ∈ before
  | .free i => Access.allocate i ∈ before

def readRound (slot : Slot) (i : ℕ) : List Access :=
  .allocate i :: ((slot.token.map fun token => Access.storeToken i (token.length + 1)).toList ++
    (slot.value.map fun _ => Access.storeValue i).toList)

def readLoop (slots : List Slot) : List Access :=
  slots.zipIdx.flatMap fun (slot, i) => readRound slot i

def assignRound (slots : List Slot) (i : ℕ) : List Access :=
  .readToken i ::
    match (slots[i]?.bind Slot.token).bind branch with
    | none => []
    | some _ => [.readValue i]

def accesses (content : List Char) : List Access :=
  let slots := readSlots content.length content
  readLoop slots ++ ((List.range numParameters).flatMap (assignRound slots) ++
    (List.range numParameters).map .free)

def InTables (content : List Char) : Prop := Safe Allowed [] (accesses content)

/-- The file cut after its newlines, and after 126 characters without one. -/
def pieces : ℕ → List Char → List (List Char)
  | 0, _ => []
  | n + 1, content =>
    if content = [] then [] else (fgets 126 content).1 :: pieces n (fgets 126 content).2

/-- The piece from its first character that is not a space, up to a NUL. -/
def trimmed (piece : List Char) : List Char :=
  (piece.takeWhile fun c => c.toNat ≠ 0).dropWhile isSpace

def word (piece : List Char) : List Char := (trimmed piece).takeWhile fun c => ¬ isSpace c

def afterWord (piece : List Char) : List Char :=
  ((trimmed piece).drop (word piece).length).dropWhile isSpace

def HasNumber (piece : List Char) : Prop :=
  ∃ d ∈ (afterSign (afterWord piece)).head?, d.isDigit = true

structure WellFormed (content : List Char) : Prop where
  count : (pieces content.length content).length = numParameters
  words : ∀ piece ∈ pieces content.length content,
    word piece ≠ [] ∧ (word piece).length ≤ 63
  numbers : ∀ piece ∈ pieces content.length content, ∀ p : Parameter, word piece = p.text →
    HasNumber piece

section Slots

variable {slots : List Slot}

theorem readSlots_eq (n : ℕ) (content : List Char) :
    readSlots n content = (pieces n content).map sscanf := by
  induction n generalizing content with
  | zero => rfl
  | succ n ih =>
    rw [readSlots, pieces]
    split
    · rfl
    · rw [List.map_cons, ← ih]

theorem sscanf_eq (piece : List Char) : sscanf piece =
    if word piece = [] then ⟨none, none, false⟩
    else
      match scanUnsigned (afterWord piece) with
      | none => ⟨some (word piece), none, false⟩
      | some (value, overflow) => ⟨some (word piece), some value, overflow⟩ := rfl

theorem sscanf_token (piece : List Char) :
    (sscanf piece).token = if word piece = [] then none else some (word piece) := by
  rw [sscanf_eq]
  split
  · rfl
  · split <;> rfl

theorem takeWhile_ne_nil {p : Char → Bool} {l : List Char} :
    l.takeWhile p ≠ [] ↔ ∃ c ∈ l.head?, p c = true := by
  cases l with
  | nil => simp
  | cons c l => by_cases h : p c = true <;> simp [h]

theorem scanUnsigned_ne_none (input : List Char) :
    scanUnsigned input ≠ none ↔ ∃ d ∈ (afterSign input).head?, d.isDigit = true := by
  rw [← takeWhile_ne_nil, scanUnsigned_eq]
  split
  next h => simp [h]
  next h => simp [h]

theorem sscanf_value (piece : List Char) (hword : word piece ≠ []) :
    (sscanf piece).value ≠ none ↔ HasNumber piece := by
  rw [HasNumber, ← scanUnsigned_ne_none, sscanf_eq, if_neg hword]
  cases scanUnsigned (afterWord piece) with
  | none => simp
  | some r => simp

end Slots

section Accesses

variable {slots : List Slot} {i : ℕ}

theorem mem_readLoop {a : Access} :
    a ∈ readLoop slots ↔ ∃ i slot, slots[i]? = some slot ∧ a ∈ readRound slot i := by
  rw [readLoop, List.mem_flatMap]
  constructor
  · rintro ⟨⟨slot, i⟩, hmem, ha⟩
    exact ⟨i, slot, List.mem_zipIdx_iff_getElem?.mp hmem, ha⟩
  · rintro ⟨i, slot, hslot, ha⟩
    exact ⟨(slot, i), List.mem_zipIdx_iff_getElem?.mpr hslot, ha⟩

theorem mem_readRound {slot : Slot} {a : Access} : a ∈ readRound slot i ↔
    a = .allocate i ∨ (∃ token ∈ slot.token, a = .storeToken i (token.length + 1)) ∨
      (slot.value ≠ none ∧ a = .storeValue i) := by
  obtain ⟨token, value, overflow⟩ := slot
  cases token <;> cases value <;> simp [readRound]

theorem allocate_mem : Access.allocate i ∈ readLoop slots ↔ ∃ slot, slots[i]? = some slot := by
  simp [mem_readLoop, mem_readRound]

theorem storeToken_mem : (∃ bytes, Access.storeToken i bytes ∈ readLoop slots) ↔
    ∃ slot, slots[i]? = some slot ∧ slot.token ≠ none := by
  simp [mem_readLoop, mem_readRound, Option.ne_none_iff_exists']

theorem storeValue_mem : Access.storeValue i ∈ readLoop slots ↔
    ∃ slot, slots[i]? = some slot ∧ slot.value ≠ none := by
  simp [mem_readLoop, mem_readRound]

def Access.Uses : Access → Prop
  | .readToken _ => True
  | .readValue _ => True
  | .free _ => True
  | _ => False

theorem allowed_stores {a : Access} (ha : ¬ a.Uses) (before before' : List Access) :
    Allowed before a ↔ Allowed before' a := by
  cases a with
  | allocate => exact Iff.rfl
  | storeToken => exact Iff.rfl
  | storeValue => exact Iff.rfl
  | readToken => exact absurd trivial ha
  | readValue => exact absurd trivial ha
  | free => exact absurd trivial ha

/-- A use assigns nothing. -/
theorem allowed_append {b : Access} (hb : b.Uses) (before : List Access) (a : Access) :
    Allowed (before ++ [b]) a ↔ Allowed before a := by
  have hmem : ∀ c : Access, ¬ c.Uses → (c ∈ before ++ [b] ↔ c ∈ before) := by
    intro c hc
    have hne : c ≠ b := by
      rintro rfl
      exact hc hb
    simp [hne]
  cases a with
  | allocate => exact Iff.rfl
  | storeToken => exact Iff.rfl
  | storeValue => exact Iff.rfl
  | readToken i => exact exists_congr fun bytes => hmem (.storeToken i bytes) id
  | readValue i => exact hmem (.storeValue i) id
  | free i => exact hmem (.allocate i) id

theorem not_uses_of_mem {a : Access} (h : a ∈ readLoop slots) : ¬ a.Uses := by
  obtain ⟨i, slot, -, hround⟩ := mem_readLoop.mp h
  rcases mem_readRound.mp hround with rfl | ⟨token, -, rfl⟩ | ⟨-, rfl⟩
  · exact id
  · exact id
  · exact id

/-- The first loop stays in its tables if and only if there are at most 13 lines, with
tokens of at most 63 characters. -/
theorem readLoop_safe : Safe Allowed [] (readLoop slots) ↔ ∀ i slot, slots[i]? = some slot →
    i < numParameters ∧ ∀ token ∈ slot.token, token.length ≤ 63 := by
  have hstores : ∀ a ∈ readLoop slots, ∀ b ∈ readLoop slots, ∀ before,
      Allowed (before ++ [b]) a ↔ Allowed before a :=
    fun a ha _ _ _ => allowed_stores (not_uses_of_mem ha) _ _
  rw [safe_iff_forall hstores]
  constructor
  · intro h i slot hslot
    refine ⟨h (.allocate i) (allocate_mem.mpr ⟨slot, hslot⟩), ?_⟩
    intro token htoken
    have hround : Access.storeToken i (token.length + 1) ∈ readRound slot i :=
      mem_readRound.mpr (Or.inr (Or.inl ⟨token, htoken, rfl⟩))
    have hfits := (h _ (mem_readLoop.mpr ⟨i, slot, hslot, hround⟩)).2
    omega
  · intro h a ha
    obtain ⟨i, slot, hslot, hround⟩ := mem_readLoop.mp ha
    obtain ⟨hi, htokens⟩ := h i slot hslot
    rcases mem_readRound.mp hround with rfl | ⟨token, htoken, rfl⟩ | ⟨-, rfl⟩
    · exact hi
    · exact ⟨hi, Nat.succ_le_succ (htokens token htoken)⟩
    · exact hi

def Assigned (slots : List Slot) (i : ℕ) : Prop :=
  ∃ slot, slots[i]? = some slot ∧ ∃ token ∈ slot.token, branch token ≠ none → slot.value ≠ none

def useLoops (slots : List Slot) : List Access :=
  (List.range numParameters).flatMap (assignRound slots) ++ (List.range numParameters).map .free

theorem mem_assignRound {a : Access} : a ∈ assignRound slots i ↔ a = .readToken i ∨
    ((slots[i]?.bind Slot.token).bind branch ≠ none ∧ a = .readValue i) := by
  unfold assignRound
  cases (slots[i]?.bind Slot.token).bind branch with
  | none => simp
  | some write => simp

theorem mem_useLoops {a : Access} : a ∈ useLoops slots ↔
    ∃ i < numParameters, a ∈ assignRound slots i ∨ a = .free i := by
  simp only [useLoops, List.mem_append, List.mem_flatMap, List.mem_map, List.mem_range]
  constructor
  · rintro (⟨i, hi, ha⟩ | ⟨i, hi, rfl⟩)
    · exact ⟨i, hi, Or.inl ha⟩
    · exact ⟨i, hi, Or.inr rfl⟩
  · rintro ⟨i, hi, ha | rfl⟩
    · exact Or.inl ⟨i, hi, ha⟩
    · exact Or.inr ⟨i, hi, rfl⟩

theorem uses_of_mem {a : Access} (h : a ∈ useLoops slots) : a.Uses := by
  obtain ⟨i, -, hround | rfl⟩ := mem_useLoops.mp h
  · rcases mem_assignRound.mp hround with rfl | ⟨-, rfl⟩
    · trivial
    · trivial
  · trivial

/-- The later loops use only what was assigned if and only if each of the 13 rows is
complete. -/
theorem useLoops_safe : Safe Allowed (readLoop slots) (useLoops slots) ↔
    ∀ i < numParameters, Assigned slots i := by
  rw [safe_iff_forall fun a _ b hb before => allowed_append (uses_of_mem hb) before a]
  constructor
  · intro h i hi
    have hround : ∀ a ∈ assignRound slots i, Allowed (readLoop slots) a :=
      fun a ha => h a (mem_useLoops.mpr ⟨i, hi, Or.inl ha⟩)
    obtain ⟨slot, hslot, htoken⟩ :=
      storeToken_mem.mp (hround _ (mem_assignRound.mpr (Or.inl rfl)))
    obtain ⟨token, htoken⟩ := Option.ne_none_iff_exists'.mp htoken
    refine ⟨slot, hslot, token, htoken, ?_⟩
    intro hbranch
    have htaken : (slots[i]?.bind Slot.token).bind branch ≠ none := by
      rw [hslot, Option.bind_some, htoken]
      exact hbranch
    obtain ⟨slot', hslot', hvalue⟩ :=
      storeValue_mem.mp (hround _ (mem_assignRound.mpr (Or.inr ⟨htaken, rfl⟩)))
    cases Option.some.inj (hslot.symm.trans hslot')
    exact hvalue
  · intro h a ha
    obtain ⟨i, hi, hround⟩ := mem_useLoops.mp ha
    obtain ⟨slot, hslot, token, htoken, hvalue⟩ := h i hi
    rcases hround with hround | rfl
    · rcases mem_assignRound.mp hround with rfl | ⟨hbranch, rfl⟩
      · exact storeToken_mem.mpr ⟨slot, hslot, Option.ne_none_iff_exists'.mpr ⟨token, htoken⟩⟩
      · rw [hslot, Option.bind_some, Option.mem_def.mp htoken] at hbranch
        exact storeValue_mem.mpr ⟨slot, hslot, hvalue hbranch⟩
    · exact allocate_mem.mpr ⟨slot, hslot⟩

theorem safe_iff : Safe Allowed [] (readLoop slots ++ useLoops slots) ↔
    slots.length = numParameters ∧ ∀ slot ∈ slots, ∃ token ∈ slot.token,
      token.length ≤ 63 ∧ (branch token ≠ none → slot.value ≠ none) := by
  rw [safe_append, List.nil_append, readLoop_safe, useLoops_safe]
  constructor
  · rintro ⟨hreads, huses⟩
    have hle : slots.length ≤ numParameters := by
      by_contra hlong
      have hrow := List.getElem?_eq_getElem (show numParameters < slots.length by omega)
      exact lt_irrefl _ (hreads _ _ hrow).1
    have hge : numParameters ≤ slots.length := by
      by_contra hshort
      obtain ⟨slot, hslot, -⟩ := huses slots.length (by omega)
      rw [List.getElem?_eq_none le_rfl] at hslot
      contradiction
    refine ⟨le_antisymm hle hge, ?_⟩
    intro slot hslot
    obtain ⟨i, hi⟩ := List.mem_iff_getElem?.mp hslot
    obtain ⟨hlt, htokens⟩ := hreads i slot hi
    obtain ⟨slot', hi', token, htoken, hvalue⟩ := huses i hlt
    cases Option.some.inj (hi.symm.trans hi')
    exact ⟨token, htoken, htokens token htoken, hvalue⟩
  · rintro ⟨hcount, hslots⟩
    constructor
    · intro i slot hslot
      obtain ⟨token, htoken, hshort, -⟩ := hslots slot (List.mem_of_getElem? hslot)
      refine ⟨hcount ▸ (List.getElem?_eq_some_iff.mp hslot).1, ?_⟩
      intro token' htoken'
      cases Option.mem_unique htoken htoken'
      exact hshort
    · intro i hi
      have hslot := List.getElem?_eq_getElem (hcount.symm ▸ hi : i < slots.length)
      obtain ⟨token, htoken, -, hvalue⟩ := hslots _ (List.mem_of_getElem? hslot)
      exact ⟨_, hslot, token, htoken, hvalue⟩

end Accesses

section Files

theorem branch_ne_none_iff (name : List Char) :
    branch name ≠ none ↔ ∃ p : Parameter, name = p.text := by
  constructor
  · intro h
    obtain ⟨write, hwrite⟩ := Option.ne_none_iff_exists'.mp h
    obtain ⟨p, hname, -⟩ := Parameter.exists_of_branch hwrite
    exact ⟨p, hname⟩
  · rintro ⟨p, rfl⟩
    rw [Parameter.branch_text]
    exact Option.some_ne_none _

/-- What the slot of a piece has to have. -/
theorem sscanf_assigned_iff (piece : List Char) :
    (∃ token ∈ (sscanf piece).token, token.length ≤ 63 ∧
      (branch token ≠ none → (sscanf piece).value ≠ none)) ↔
    (word piece ≠ [] ∧ (word piece).length ≤ 63) ∧
      ∀ p : Parameter, word piece = p.text → HasNumber piece := by
  rw [sscanf_token]
  by_cases hword : word piece = []
  · simp [hword]
  · rw [if_neg hword, sscanf_value piece hword]
    simp [hword, branch_ne_none_iff]

/-- The parser keeps to its tables for the well formed files and for no others. -/
theorem in_tables_iff (content : List Char) : InTables content ↔ WellFormed content := by
  show Safe Allowed [] (readLoop _ ++ useLoops _) ↔ _
  rw [safe_iff, readSlots_eq, List.length_map, List.forall_mem_map]
  simp only [sscanf_assigned_iff]
  constructor
  · rintro ⟨hcount, hpieces⟩
    exact ⟨hcount, fun piece h => (hpieces piece h).1, fun piece h => (hpieces piece h).2⟩
  · rintro ⟨hcount, hwords, hnumbers⟩
    exact ⟨hcount, fun piece h => ⟨hwords piece h, hnumbers piece h⟩⟩

/-- A file of one empty line. -/
theorem blank_line_leaves_tables : ¬ InTables ['\n'] := by
  intro h
  have hcount := (safe_iff.mp h).1
  exact absurd hcount (by decide)

theorem assign_isSome (par : Parameters) (slot : Slot) : (assign par slot).isSome = true ↔
    ∃ token ∈ slot.token, branch token ≠ none → slot.value ≠ none := by
  obtain ⟨token, value, overflow⟩ := slot
  cases token with
  | none => simp [assign]
  | some token =>
    cases hbranch : branch token with
    | none => simp [assign, hbranch]
    | some write => cases value <;> simp [assign, hbranch]

theorem foldlM_assign_isSome (slots : List Slot) (par : Parameters) :
    (slots.foldlM assign par).isSome = true ↔
      ∀ slot ∈ slots, ∃ token ∈ slot.token, branch token ≠ none → slot.value ≠ none := by
  induction slots generalizing par with
  | nil => simp
  | cons slot rest ih =>
    rw [List.forall_mem_cons, ← assign_isSome par, List.foldlM_cons]
    cases assign par slot with
    | none => simp
    | some next => simpa using ih next

/-- parseParameters has a result for the same files. -/
theorem parseParameters_isSome_iff (errno : Errno) (content : List Char) :
    (parseParameters errno (some content)).isSome = true ↔ InTables content := by
  show _ ↔ Safe Allowed [] (readLoop _ ++ useLoops _)
  rw [safe_iff]
  unfold parseParameters
  dsimp only
  split
  next h =>
    refine iff_of_false Bool.false_ne_true ?_
    rintro ⟨hcount, hslots⟩
    rcases h with hlength | ⟨slot, hslot, token, htoken, hlong⟩
    · exact hlength hcount
    · obtain ⟨token', htoken', hshort, -⟩ := hslots slot hslot
      cases Option.mem_unique htoken htoken'
      omega
  next h =>
    rw [not_or, not_not] at h
    rw [Option.isSome_map, foldlM_assign_isSome, and_iff_right h.1]
    refine forall₂_congr fun slot hslot => exists_congr fun token => ?_
    refine and_congr_right fun htoken => (and_iff_right ?_).symm
    by_contra hlong
    exact h.2 ⟨slot, hslot, token, htoken, Nat.not_le.mp hlong⟩

end Files
end SimulazioneTransazioni.ParserTables
