import Mathlib.Data.Nat.Notation
import Mathlib.Data.Int.Notation

/-!
Texts that can be read back. A printer gives a text for a value, or none where the
program that prints has no defined result. A printer is read before the texts that F
allows if what follows a printed text never changes which value it was printed from,
so that printers can be put one after the other.
-/
namespace SimulazioneTransazioni.Texts

section Printers

variable {α C : Type*}

/-- Of two texts printed by p, each followed by a text that F allows, the first one ends
where the second one ends, and they were printed from one value. -/
def ReadBefore (F : List C → Prop) (p : α → Option (List C)) : Prop :=
  ∀ ⦃a b : α⦄ ⦃s t x y : List C⦄, p a = some s → p b = some t → F x → F y →
    s ++ x = t ++ y → a = b ∧ x = y

/-- A text that p may be followed by is read together with what p printed. -/
theorem ReadBefore.before {F : List C → Prop} {p : α → Option (List C)} (hp : ReadBefore F p)
    {a b : α} {s t l x y : List C} (hs : p a = some s) (ht : p b = some t)
    (heq : s ++ (l ++ x) = t ++ (l ++ y)) (hl : ∀ z, F (l ++ z)) : a = b ∧ x = y := by
  obtain ⟨hab, hrest⟩ := hp hs ht (hl x) (hl y) heq
  exact ⟨hab, List.append_cancel_left hrest⟩

def printAll (p : α → Option (List C)) : List α → Option (List C)
  | [] => some []
  | a :: rest => do
    let s ← p a
    let t ← printAll p rest
    return s ++ t

variable {p : α → Option (List C)}

theorem printAll_cons {a : α} {rest : List α} {s : List C} :
    printAll p (a :: rest) = some s ↔
      ∃ t u, p a = some t ∧ printAll p rest = some u ∧ s = t ++ u := by
  constructor
  · intro hs
    obtain ⟨t, ht, hs⟩ := Option.bind_eq_some_iff.mp hs
    obtain ⟨u, hu, hs⟩ := Option.bind_eq_some_iff.mp hs
    exact ⟨t, u, ht, hu, (Option.some.inj hs).symm⟩
  · rintro ⟨t, u, ht, hu, rfl⟩
    simp only [printAll, ht, hu]
    rfl

theorem printAll_isSome {values : List α} :
    (printAll p values).isSome ↔ ∀ a ∈ values, (p a).isSome := by
  induction values with
  | nil => exact ⟨fun _ _ ha => absurd ha List.not_mem_nil, fun _ => rfl⟩
  | cons a rest ih =>
    rw [List.forall_mem_cons, ← ih, Option.isSome_iff_exists, Option.isSome_iff_exists,
      Option.isSome_iff_exists]
    constructor
    · rintro ⟨s, hs⟩
      obtain ⟨t, u, ht, hu, -⟩ := printAll_cons.mp hs
      exact ⟨⟨t, ht⟩, u, hu⟩
    · rintro ⟨⟨t, ht⟩, u, hu⟩
      exact ⟨t ++ u, printAll_cons.mpr ⟨t, u, ht, hu, rfl⟩⟩

/-- As many values on both sides are read back whatever follows them. -/
theorem ReadBefore.printAll (hp : ReadBefore (fun _ => True) p) :
    ∀ {values values' : List α} {s t x y : List C}, values.length = values'.length →
      Texts.printAll p values = some s → Texts.printAll p values' = some t →
      s ++ x = t ++ y → values = values' ∧ x = y := by
  intro values
  induction values with
  | nil =>
    intro values' s t x y hlength hs ht heq
    obtain rfl := List.length_eq_zero_iff.mp hlength.symm
    cases hs
    cases ht
    exact ⟨rfl, heq⟩
  | cons a rest ih =>
    intro values' s t x y hlength hs ht heq
    cases values' with
    | nil => cases hlength
    | cons b rest' =>
      obtain ⟨s, u, ha, hu, rfl⟩ := printAll_cons.mp hs
      obtain ⟨t, v, hb, hv, rfl⟩ := printAll_cons.mp ht
      rw [List.append_assoc, List.append_assoc] at heq
      obtain ⟨rfl, heq⟩ := hp ha hb trivial trivial heq
      obtain ⟨rfl, heq⟩ := ih (Nat.succ.inj hlength) hu hv heq
      exact ⟨rfl, heq⟩

/-- Values whose texts are not empty are read back up to the end of the text, however
many they are. -/
theorem ReadBefore.printAll_inj (hp : ReadBefore (fun _ => True) p)
    (hne : ∀ a, p a ≠ some []) :
    ∀ {values values' : List α} {s : List C}, Texts.printAll p values = some s →
      Texts.printAll p values' = some s → values = values' := by
  have hempty : ∀ (a : α) (rest : List α), Texts.printAll p (a :: rest) ≠ some [] := by
    intro a rest hs
    obtain ⟨t, u, ht, -, hnil⟩ := printAll_cons.mp hs
    obtain ⟨rfl, -⟩ := List.append_eq_nil_iff.mp hnil.symm
    exact hne a ht
  intro values
  induction values with
  | nil =>
    intro values' s hs ht
    cases values' with
    | nil => rfl
    | cons b rest' =>
      cases hs
      exact absurd ht (hempty b rest')
  | cons a rest ih =>
    intro values' s hs ht
    cases values' with
    | nil =>
      cases ht
      exact absurd hs (hempty a rest)
    | cons b rest' =>
      obtain ⟨s, u, ha, hu, rfl⟩ := printAll_cons.mp hs
      obtain ⟨t, v, hb, hv, heq⟩ := printAll_cons.mp ht
      obtain ⟨rfl, rfl⟩ := hp ha hb trivial trivial heq
      rw [ih hu hv]

end Printers

section Numbers

def decimal : ℤ → List Char
  | .ofNat n => Nat.toDigits 10 n
  | .negSucc n => '-' :: Nat.toDigits 10 (n + 1)

/-- What may follow a number without being taken for more of its digits. -/
def Stops (x : List Char) : Prop := x.takeWhile Char.isDigit = []

theorem stops_append {l : List Char} (hl : l.head?.map Char.isDigit = some false)
    (z : List Char) : Stops (l ++ z) := by
  cases l with
  | nil => cases hl
  | cons c rest =>
    have hc : c.isDigit = false := Option.some.inj hl
    rw [Stops, List.cons_append, List.takeWhile_cons_of_neg (by rw [hc]; exact Bool.false_ne_true)]

variable {w : ℕ} {x y : List Char}

theorem isDigit_of_mem_zeros {n : ℕ} {c : Char}
    (hc : c ∈ List.leftpad w '0' (Nat.toDigits 10 n)) : c.isDigit = true := by
  rcases List.mem_append.mp hc with hc | hc
  · rw [List.eq_of_mem_replicate hc]
    rfl
  · exact Nat.isDigit_of_mem_toDigits (by omega) (by omega) hc

theorem takeWhile_zeros {n : ℕ} (hx : Stops x) :
    (List.leftpad w '0' (Nat.toDigits 10 n) ++ x).takeWhile Char.isDigit =
      List.leftpad w '0' (Nat.toDigits 10 n) := by
  rw [List.takeWhile_append_of_pos fun c hc => isDigit_of_mem_zeros hc,
    show x.takeWhile Char.isDigit = [] from hx, List.append_nil]

theorem ofDigitChars_zeros (n : ℕ) :
    Nat.ofDigitChars 10 (List.leftpad w '0' (Nat.toDigits 10 n)) 0 = n := by
  rw [List.leftpad, Nat.ofDigitChars_append, Nat.ofDigitChars_replicate_zero, Nat.mul_zero,
    Nat.ofDigitChars_ten_toDigits]

/-- A number padded with zeros is read back before anything but a digit. -/
theorem readBefore_zeros (w : ℕ) :
    ReadBefore Stops fun n => some (List.leftpad w '0' (Nat.toDigits 10 n)) := by
  intro n m s t x y hs ht hx hy heq
  cases hs
  cases ht
  have htexts := congrArg (List.takeWhile Char.isDigit) heq
  rw [takeWhile_zeros hx, takeWhile_zeros hy] at htexts
  have hnm : n = m := by
    rw [← ofDigitChars_zeros (w := w) n, htexts, ofDigitChars_zeros]
  rw [htexts] at heq
  exact ⟨hnm, List.append_cancel_left heq⟩

/-- A number can be read back from its digits when no digit follows. -/
theorem readBefore_decimal : ReadBefore Stops fun k => some (decimal k) := by
  intro k l s t x y hs ht hx hy heq
  cases hs
  cases ht
  have hdigits : ∀ n m : ℕ, Nat.toDigits 10 n ++ x = Nat.toDigits 10 m ++ y → n = m ∧ x = y := by
    intro n m h
    refine readBefore_zeros 0 rfl rfl hx hy ?_
    simpa only [List.leftpad, Nat.zero_sub, List.replicate_zero, List.nil_append] using h
  -- A number begins with a digit, so that it is not taken for one with a sign.
  have hsign : ∀ (n : ℕ) (z z' : List Char), Nat.toDigits 10 n ++ z ≠ '-' :: z' := by
    intro n z z' h
    have hhead : '-' ∈ Nat.toDigits 10 n := by
      cases hn : Nat.toDigits 10 n with
      | nil => exact absurd hn Nat.toDigits_ne_nil
      | cons c rest =>
        rw [hn] at h
        rw [(List.cons.inj h).1]
        exact List.mem_cons_self
    exact absurd (Nat.isDigit_of_mem_toDigits (by omega) (by omega) hhead) (by decide)
  cases k with
  | ofNat n =>
    cases l with
    | ofNat m =>
      obtain ⟨rfl, hrest⟩ := hdigits n m heq
      exact ⟨rfl, hrest⟩
    | negSucc m => exact absurd heq (hsign n _ _)
  | negSucc n =>
    cases l with
    | ofNat m => exact absurd heq.symm (hsign m _ _)
    | negSucc m =>
      obtain ⟨hnm, hrest⟩ := hdigits _ _ (List.cons.inj heq).2
      rw [Nat.succ.inj hnm]
      exact ⟨rfl, hrest⟩

/-- Blanks before a number do not change how it is read. -/
theorem dropWhile_blanks (k : ℤ) :
    (List.leftpad w ' ' (decimal k) ++ x).dropWhile (fun c => c = ' ') = decimal k ++ x := by
  have hhead : ∀ n : ℕ, ∀ z : List Char,
      (Nat.toDigits 10 n ++ z).dropWhile (fun c => c = ' ') = Nat.toDigits 10 n ++ z := by
    intro n z
    cases hn : Nat.toDigits 10 n with
    | nil => exact absurd hn Nat.toDigits_ne_nil
    | cons c rest =>
      have hc : c.isDigit = true := by
        refine Nat.isDigit_of_mem_toDigits (b := 10) (n := n) (by omega) (by omega) ?_
        rw [hn]
        exact List.mem_cons_self
      refine List.dropWhile_cons_of_neg fun hblank => ?_
      rw [of_decide_eq_true hblank] at hc
      exact absurd hc (by decide)
  rw [List.leftpad, List.append_assoc,
    List.dropWhile_append_of_pos fun c hc => decide_eq_true (List.eq_of_mem_replicate hc)]
  cases k with
  | ofNat n => exact hhead n x
  | negSucc n => rfl

/-- A number padded with blanks is read back before anything but a digit. -/
theorem readBefore_blanks (w : ℕ) :
    ReadBefore Stops fun k => some (List.leftpad w ' ' (decimal k)) := by
  intro k l s t x y hs ht hx hy heq
  cases hs
  cases ht
  have hdrop := congrArg (List.dropWhile fun c => c = ' ') heq
  rw [dropWhile_blanks, dropWhile_blanks] at hdrop
  exact readBefore_decimal rfl rfl hx hy hdrop

end Numbers

end SimulazioneTransazioni.Texts
