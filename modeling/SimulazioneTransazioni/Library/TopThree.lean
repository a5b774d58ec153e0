import Mathlib.Order.Lattice
import Mathlib.Data.List.Perm.Subperm
import Mathlib.Data.List.Induction

/-!
The three greatest values of a list, kept in one pass. A value greater than the first
of the three moves the others down. The scan that forgets the second one when it does so
ends with the right three exactly when each value that is greater than all before it finds
the second and the third equal, or is followed by a value that makes up for the loss.
-/
namespace SimulazioneTransazioni.TopThree

variable {κ ι : Type*} [LinearOrder κ]

/-- Three values in descending order, with what was not taken. -/
def Extremes (fill : κ) (l : List κ) (t : κ × κ × κ) : Prop :=
  t.2.1 ≤ t.1 ∧ t.2.2 ≤ t.2.1 ∧ ∃ rest, (t.1 :: t.2.1 :: t.2.2 :: rest).Perm
    (fill :: fill :: fill :: l) ∧ ∀ r ∈ rest, r ≤ t.2.2

def take (t : κ × κ × κ) (x : κ) : κ × κ × κ :=
  if t.1 < x then (x, t.1, t.2.1)
  else if t.2.1 < x then (t.1, x, t.2.1)
  else if t.2.2 < x then (t.1, t.2.1, x)
  else t

def three (fill : κ) (l : List κ) : κ × κ × κ := l.foldl take (fill, fill, fill)

theorem three_append (fill : κ) (l : List κ) (x : κ) :
    three fill (l ++ [x]) = take (three fill l) x := by
  rw [three, List.foldl_append]
  rfl

section Uniqueness

variable {fill : κ} {l : List κ} {t t' : κ × κ × κ}

/-- Two lists with the same members, each with a greatest one in front. -/
theorem head_eq_of_perm {a b : κ} {as bs : List κ} (h : (a :: as).Perm (b :: bs))
    (ha : ∀ x ∈ as, x ≤ a) (hb : ∀ x ∈ bs, x ≤ b) : a = b ∧ as.Perm bs := by
  have hab : a ≤ b := by
    rcases List.mem_cons.mp (h.mem_iff.mp List.mem_cons_self) with heq | hmem
    · exact heq.le
    · exact hb a hmem
  have hba : b ≤ a := by
    rcases List.mem_cons.mp (h.mem_iff.mpr List.mem_cons_self) with heq | hmem
    · exact heq.le
    · exact ha b hmem
  have heq := le_antisymm hab hba
  subst heq
  exact ⟨rfl, h.cons_inv⟩

theorem forall_le_cons {a b : κ} {l : List κ} (hab : b ≤ a) (hl : ∀ x ∈ l, x ≤ b) :
    ∀ x ∈ b :: l, x ≤ a := by
  intro x hx
  rcases List.mem_cons.mp hx with rfl | hmem
  · exact hab
  · exact (hl x hmem).trans hab

theorem extremes_unique (h : Extremes fill l t) (h' : Extremes fill l t') : t = t' := by
  obtain ⟨h12, h23, rest, hperm, hrest⟩ := h
  obtain ⟨h12', h23', rest', hperm', hrest'⟩ := h'
  have hthird := forall_le_cons h23 hrest
  have hthird' := forall_le_cons h23' hrest'
  obtain ⟨h1, hp⟩ := head_eq_of_perm (hperm.trans hperm'.symm) (forall_le_cons h12 hthird)
    (forall_le_cons h12' hthird')
  obtain ⟨h2, hp⟩ := head_eq_of_perm hp hthird hthird'
  obtain ⟨h3, -⟩ := head_eq_of_perm hp hrest hrest'
  exact Prod.ext h1 (Prod.ext h2 h3)

end Uniqueness

section Correctness

variable {fill : κ} {l : List κ} {t : κ × κ × κ}

/-- The three greatest values after one more value. -/
theorem extremes_take (h : Extremes fill l t) (x : κ) : Extremes fill (l ++ [x]) (take t x) := by
  obtain ⟨h12, h23, rest, hperm, hrest⟩ := h
  have hnext : ∀ (before : List κ) {after : List κ},
      before ++ after = t.1 :: t.2.1 :: t.2.2 :: rest →
        (before ++ x :: after).Perm (fill :: fill :: fill :: (l ++ [x])) := by
    intro before after heq
    have hmembers : (before ++ x :: after).Perm (x :: fill :: fill :: fill :: l) := by
      refine List.perm_middle.trans ?_
      rw [heq]
      exact hperm.cons x
    exact hmembers.trans (List.perm_append_singleton x (fill :: fill :: fill :: l)).symm
  unfold take
  split
  next h1 => exact ⟨h1.le, h12, t.2.2 :: rest, hnext [] rfl, forall_le_cons h23 hrest⟩
  next h1 =>
    split
    next h2 =>
      exact ⟨not_lt.mp h1, h2.le, t.2.2 :: rest, hnext [t.1] rfl, forall_le_cons h23 hrest⟩
    next h2 =>
      split
      next h3 =>
        exact ⟨h12, not_lt.mp h2, t.2.2 :: rest, hnext [t.1, t.2.1] rfl,
          forall_le_cons h3.le hrest⟩
      next h3 =>
        exact ⟨h12, h23, x :: rest, hnext [t.1, t.2.1, t.2.2] rfl,
          List.forall_mem_cons.mpr ⟨not_lt.mp h3, hrest⟩⟩

theorem three_extremes (fill : κ) (l : List κ) : Extremes fill l (three fill l) := by
  induction l using List.reverseRecOn with
  | nil => exact ⟨le_rfl, le_rfl, [], List.Perm.refl _, by simp⟩
  | append_singleton l x ih =>
    rw [three_append]
    exact extremes_take ih x

theorem extremes_iff : Extremes fill l t ↔ t = three fill l := by
  constructor
  · exact fun h => extremes_unique h (three_extremes fill l)
  · rintro rfl
    exact three_extremes fill l

end Correctness

structure Three (κ ι : Type*) where
  first : κ × ι
  second : κ × ι
  third : κ × ι

def Three.values (s : Three κ ι) : κ × κ × κ := (s.first.1, s.second.1, s.third.1)

def place (s : Three κ ι) (x : κ × ι) : Three κ ι :=
  if s.first.1 < x.1 then { s with second := s.first, first := x }
  else if s.second.1 < x.1 then { s with third := s.second, second := x }
  else if s.third.1 < x.1 then { s with third := x }
  else s

def Record (fill : κ) (l : List κ) (k : ℕ) : Prop :=
  ∃ x, l[k]? = some x ∧ (three fill (l.take k)).1 < x

/-- One of the three greatest of the values up to it, but no record. -/
def MakesUp (fill : κ) (l : List κ) (k : ℕ) : Prop :=
  ∃ x, l[k]? = some x ∧ x ≤ (three fill (l.take k)).1 ∧ (three fill (l.take k)).2.2 ≤ x

/-- Each record finds the second and the third equal or is made up for. -/
def Recovers (fill : κ) (l : List κ) : Prop :=
  ∀ k, Record fill l k →
    (three fill (l.take k)).2.1 = (three fill (l.take k)).2.2 ∨ ∃ j, k < j ∧ MakesUp fill l j

section Recovery

variable {fill : κ} {l : List κ} {x : κ}

omit [LinearOrder κ] in
/-- What is said of a value and the ones before it. -/
theorem getElem_append_iff {p : List κ → κ → Prop} {k : ℕ} :
    (∃ y, (l ++ [x])[k]? = some y ∧ p ((l ++ [x]).take k) y) ↔
      (∃ y, l[k]? = some y ∧ p (l.take k) y) ∨ (k = l.length ∧ p l x) := by
  rcases Nat.lt_trichotomy k l.length with hlt | rfl | hgt
  · have hne : k ≠ l.length := by omega
    rw [List.getElem?_append_left hlt, List.take_append_of_le_length hlt.le]
    simp [hne]
  · simp
  · have hne : k ≠ l.length := by omega
    rw [List.getElem?_eq_none (by rw [List.length_append, List.length_singleton]; omega),
      List.getElem?_eq_none hgt.le]
    simp [hne]

theorem record_append {k : ℕ} : Record fill (l ++ [x]) k ↔
    Record fill l k ∨ (k = l.length ∧ (three fill l).1 < x) :=
  getElem_append_iff (p := fun before y => (three fill before).1 < y)

theorem makesUp_append {k : ℕ} : MakesUp fill (l ++ [x]) k ↔
    MakesUp fill l k ∨ (k = l.length ∧ x ≤ (three fill l).1 ∧ (three fill l).2.2 ≤ x) :=
  getElem_append_iff
    (p := fun before y => y ≤ (three fill before).1 ∧ (three fill before).2.2 ≤ y)

omit [LinearOrder κ] in
theorem lt_length_of_getElem {k : ℕ} {p : κ → Prop} (h : ∃ y, l[k]? = some y ∧ p y) :
    k < l.length := by
  obtain ⟨y, hy, -⟩ := h
  exact (List.getElem?_eq_some_iff.mp hy).1

/-- A value that makes up does so for all the records before it. -/
theorem recovers_of_makesUp (hx : x ≤ (three fill l).1 ∧ (three fill l).2.2 ≤ x) :
    Recovers fill (l ++ [x]) := by
  intro k hk
  rcases record_append.mp hk with hk | ⟨-, hgreater⟩
  · exact Or.inr ⟨l.length, lt_length_of_getElem hk, makesUp_append.mpr (Or.inr ⟨rfl, hx⟩)⟩
  · exact absurd hx.1 hgreater.not_ge

theorem Recovers.append (h : Recovers fill l)
    (hlast : (three fill l).1 < x → (three fill l).2.1 = (three fill l).2.2) :
    Recovers fill (l ++ [x]) := by
  intro k hk
  rcases record_append.mp hk with hk | ⟨rfl, hgreater⟩
  · rw [List.take_append_of_le_length (lt_length_of_getElem hk).le]
    rcases h k hk with heq | ⟨j, hkj, hj⟩
    · exact Or.inl heq
    · exact Or.inr ⟨j, hkj, makesUp_append.mpr (Or.inl hj)⟩
  · rw [List.take_append_of_le_length le_rfl, List.take_length]
    exact Or.inl (hlast hgreater)

/-- A value that does not make up changes nothing for the records before it. -/
theorem Recovers.of_append (h : Recovers fill (l ++ [x]))
    (hx : ¬ (x ≤ (three fill l).1 ∧ (three fill l).2.2 ≤ x)) :
    Recovers fill l ∧ ((three fill l).1 < x → (three fill l).2.1 = (three fill l).2.2) := by
  refine ⟨?_, ?_⟩
  · intro k hk
    have hstep := h k (record_append.mpr (Or.inl hk))
    rw [List.take_append_of_le_length (lt_length_of_getElem hk).le] at hstep
    rcases hstep with heq | ⟨j, hkj, hj⟩
    · exact Or.inl heq
    · rcases makesUp_append.mp hj with hj | ⟨-, hlast⟩
      · exact Or.inr ⟨j, hkj, hj⟩
      · exact absurd hlast hx
  · intro hgreater
    have hstep := h l.length (record_append.mpr (Or.inr ⟨rfl, hgreater⟩))
    rw [List.take_append_of_le_length le_rfl, List.take_length] at hstep
    rcases hstep with heq | ⟨j, hkj, hj⟩
    · exact heq
    · rcases makesUp_append.mp hj with hj | ⟨heq, -⟩
      · exact absurd (lt_length_of_getElem hj) hkj.le.not_gt
      · exact absurd heq hkj.ne'

theorem recovers_append : Recovers fill (l ++ [x]) ↔
    (x ≤ (three fill l).1 ∧ (three fill l).2.2 ≤ x) ∨
      (Recovers fill l ∧ ((three fill l).1 < x → (three fill l).2.1 = (three fill l).2.2)) := by
  constructor
  · intro h
    by_cases hx : x ≤ (three fill l).1 ∧ (three fill l).2.2 ≤ x
    · exact Or.inl hx
    · exact Or.inr (h.of_append hx)
  · rintro (hx | ⟨hbefore, hlast⟩)
    · exact recovers_of_makesUp hx
    · exact hbefore.append hlast

end Recovery

section Scanning

variable {fill : κ}

structure Follows (fill : κ) (l : List κ) (s : Three κ ι) : Prop where
  first : s.first.1 = (three fill l).1
  second : s.second.1 = (three fill l).2.1
  third : s.third.1 ≤ (three fill l).2.2
  third_iff : s.third.1 = (three fill l).2.2 ↔ Recovers fill l

theorem three_sorted (fill : κ) (l : List κ) :
    (three fill l).2.1 ≤ (three fill l).1 ∧ (three fill l).2.2 ≤ (three fill l).2.1 := by
  obtain ⟨h12, h23, -⟩ := three_extremes fill l
  exact ⟨h12, h23⟩

section Step

variable {l : List κ} {s : Three κ ι} {x : κ × ι}

/-- A record is right about the third only if nothing was lost with the second. -/
theorem follows_record (h : Follows fill l s) (hgreater : (three fill l).1 < x.1) :
    Follows fill (l ++ [x.1]) { s with second := s.first, first := x } := by
  obtain ⟨hfirst, -, hthird, hiff⟩ := h
  obtain ⟨-, h23⟩ := three_sorted fill l
  have hthree : three fill (l ++ [x.1]) = (x.1, (three fill l).1, (three fill l).2.1) := by
    rw [three_append, take, if_pos hgreater]
  constructor
  · rw [hthree]
  · rw [hthree]
    exact hfirst
  · rw [hthree]
    exact hthird.trans h23
  · rw [hthree, recovers_append, ← hiff]
    constructor
    · intro heq
      have hkept : s.third.1 = (three fill l).2.2 := le_antisymm hthird (heq ▸ h23)
      exact Or.inr ⟨hkept, fun _ => heq.symm.trans hkept⟩
    · rintro (⟨hle, -⟩ | ⟨hkept, heq⟩)
      · exact absurd hgreater hle.not_gt
      · exact hkept.trans (heq hgreater).symm

theorem follows_second (h : Follows fill l s) (hle : x.1 ≤ (three fill l).1)
    (hgreater : (three fill l).2.1 < x.1) :
    Follows fill (l ++ [x.1]) { s with third := s.second, second := x } := by
  obtain ⟨hfirst, hsecond, -, -⟩ := h
  obtain ⟨-, h23⟩ := three_sorted fill l
  have hthree : three fill (l ++ [x.1]) = ((three fill l).1, x.1, (three fill l).2.1) := by
    rw [three_append, take, if_neg hle.not_gt, if_pos hgreater]
  constructor
  · rw [hthree]
    exact hfirst
  · rw [hthree]
  · rw [hthree]
    exact hsecond.le
  · rw [hthree, recovers_append]
    exact iff_of_true hsecond (Or.inl ⟨hle, h23.trans hgreater.le⟩)

theorem follows_third (h : Follows fill l s) (hle : x.1 ≤ (three fill l).2.1)
    (hgreater : (three fill l).2.2 < x.1) :
    Follows fill (l ++ [x.1]) { s with third := x } := by
  obtain ⟨hfirst, hsecond, -, -⟩ := h
  have hle1 := hle.trans (three_sorted fill l).1
  have hthree : three fill (l ++ [x.1]) = ((three fill l).1, (three fill l).2.1, x.1) := by
    rw [three_append, take, if_neg hle1.not_gt, if_neg hle.not_gt, if_pos hgreater]
  constructor
  · rw [hthree]
    exact hfirst
  · rw [hthree]
    exact hsecond
  · rw [hthree]
  · rw [hthree, recovers_append]
    exact iff_of_true rfl (Or.inl ⟨hle1, hgreater.le⟩)

/-- A value that is not among the three greatest leaves them as they are. -/
theorem three_append_of_le {y : κ} (hle : y ≤ (three fill l).2.2) :
    three fill (l ++ [y]) = three fill l := by
  obtain ⟨h12, h23⟩ := three_sorted fill l
  have hle2 := hle.trans h23
  rw [three_append, take, if_neg (hle2.trans h12).not_gt, if_neg hle2.not_gt, if_neg hle.not_gt]

/-- A value equal to the third one makes up for a loss. -/
theorem recovers_append_of_le {y : κ} (hle : y ≤ (three fill l).2.2) :
    Recovers fill (l ++ [y]) ↔ (three fill l).2.2 = y ∨ Recovers fill l := by
  obtain ⟨h12, h23⟩ := three_sorted fill l
  have hle1 := (hle.trans h23).trans h12
  rw [recovers_append]
  constructor
  · rintro (⟨-, hge⟩ | ⟨hkept, -⟩)
    · exact Or.inl (le_antisymm hge hle)
    · exact Or.inr hkept
  · rintro (heq | hkept)
    · exact Or.inl ⟨hle1, heq.le⟩
    · exact Or.inr ⟨hkept, fun hgreater => absurd hgreater hle1.not_gt⟩

theorem follows_replaced (h : Follows fill l s) (hle : x.1 ≤ (three fill l).2.2)
    (hnew : s.third.1 < x.1) : Follows fill (l ++ [x.1]) { s with third := x } := by
  obtain ⟨hfirst, hsecond, -, hiff⟩ := h
  have hthree := three_append_of_le hle
  constructor
  · rw [hthree]
    exact hfirst
  · rw [hthree]
    exact hsecond
  · rw [hthree]
    exact hle
  · rw [hthree, recovers_append_of_le hle, ← hiff]
    constructor
    · exact fun heq => Or.inl heq.symm
    · rintro (heq | hkept)
      · exact heq.symm
      · exact absurd (hkept ▸ hnew) hle.not_gt

theorem follows_kept (h : Follows fill l s) (hle : x.1 ≤ (three fill l).2.2)
    (hnew : x.1 ≤ s.third.1) : Follows fill (l ++ [x.1]) s := by
  obtain ⟨hfirst, hsecond, hthird, hiff⟩ := h
  have hthree := three_append_of_le hle
  constructor
  · rw [hthree]
    exact hfirst
  · rw [hthree]
    exact hsecond
  · rw [hthree]
    exact hthird
  · rw [hthree, recovers_append_of_le hle, ← hiff]
    constructor
    · exact Or.inr
    · rintro (heq | hkept)
      · exact le_antisymm hthird (heq ▸ hnew)
      · exact hkept

theorem follows_place (h : Follows fill l s) (x : κ × ι) :
    Follows fill (l ++ [x.1]) (place s x) := by
  unfold place
  rw [h.first, h.second]
  by_cases h1 : (three fill l).1 < x.1
  · rw [if_pos h1]
    exact follows_record h h1
  · rw [if_neg h1]
    by_cases h2 : (three fill l).2.1 < x.1
    · rw [if_pos h2]
      exact follows_second h (not_lt.mp h1) h2
    · rw [if_neg h2]
      by_cases h3 : (three fill l).2.2 < x.1
      · rw [if_pos (h.third.trans_lt h3)]
        exact follows_third h (not_lt.mp h2) h3
      · by_cases hnew : s.third.1 < x.1
        · rw [if_pos hnew]
          exact follows_replaced h (not_lt.mp h3) hnew
        · rw [if_neg hnew]
          exact follows_kept h (not_lt.mp h3) (not_lt.mp hnew)

end Step

theorem follows_scan {start : Three κ ι} (hstart : start.values = (fill, fill, fill))
    (rows : List (κ × ι)) : Follows fill (rows.map Prod.fst) (rows.foldl place start) := by
  induction rows using List.reverseRecOn with
  | nil =>
    obtain ⟨h1, h23⟩ := Prod.mk.inj hstart
    obtain ⟨h2, h3⟩ := Prod.mk.inj h23
    refine ⟨h1, h2, h3.le, iff_of_true h3 ?_⟩
    intro k hk
    exact absurd (lt_length_of_getElem hk) (Nat.not_lt_zero k)
  | append_singleton rows x ih =>
    rw [List.foldl_append, List.map_append]
    exact follows_place ih x

/-- The third value only grows. -/
theorem third_le_take (t : κ × κ × κ) (h23 : t.2.2 ≤ t.2.1) (x : κ) : t.2.2 ≤ (take t x).2.2 := by
  unfold take
  split
  · exact h23
  · split
    · exact h23
    · split
      next h => exact h.le
      next => exact le_rfl

theorem third_mono (fill : κ) (l m : List κ) :
    (three fill l).2.2 ≤ (three fill (l ++ m)).2.2 := by
  induction m using List.reverseRecOn with
  | nil => rw [List.append_nil]
  | append_singleton m x ih =>
    rw [← List.append_assoc, three_append]
    exact ih.trans (third_le_take _ (three_sorted fill (l ++ m)).2 x)

end Scanning

section Rows

variable {fill : κ} {rows : List (κ × ι)}

def Paired (fill : κ) (rows : List (κ × ι)) (s : Three κ ι) : Prop :=
  ([s.first, s.second, s.third].filter fun x => x.1 ≠ fill).Subperm rows

def Right (fill : κ) (rows : List (κ × ι)) (s : Three κ ι) : Prop :=
  Extremes fill (rows.map Prod.fst) s.values ∧ Paired fill rows s

omit [LinearOrder κ] in
theorem filter_cons_subperm (p : κ × ι → Bool) (x : κ × ι) (l : List (κ × ι)) :
    ((x :: l).filter p).Subperm (x :: l.filter p) := by
  rw [List.filter_cons]
  split
  · exact List.Subperm.refl _
  · exact (List.sublist_cons_self x _).subperm

/-- The rows held after a value are among it and those held before. -/
theorem held_place (s : Three κ ι) (x : κ × ι) :
    [(place s x).first, (place s x).second, (place s x).third].Subperm
      [x, s.first, s.second, s.third] := by
  unfold place
  split
  · exact (((List.sublist_cons_self s.second [s.third]).cons_cons s.first).cons_cons x).subperm
  · split
    · have hsublist : [x, s.first, s.second].Sublist [x, s.first, s.second, s.third] :=
        List.sublist_append_left _ [s.third]
      exact (List.Perm.swap x s.first [s.second]).subperm.trans hsublist.subperm
    · split
      · have hsublist : [x, s.first, s.second].Sublist [x, s.first, s.second, s.third] :=
          List.sublist_append_left _ [s.third]
        exact (List.perm_append_singleton x [s.first, s.second]).subperm.trans hsublist.subperm
      · exact (List.sublist_cons_self x _).subperm

theorem paired_place {s : Three κ ι} (h : Paired fill rows s) (x : κ × ι) :
    Paired fill (rows ++ [x]) (place s x) := by
  have hheld := (held_place s x).filter fun y => decide (y.1 ≠ fill)
  have hrows := (List.subperm_cons x).mpr h
  exact ((hheld.trans (filter_cons_subperm _ x _)).trans hrows).trans
    (List.perm_append_singleton x rows).symm.subperm

theorem paired_scan {start : Three κ ι} (hstart : start.values = (fill, fill, fill))
    (rows : List (κ × ι)) : Paired fill rows (rows.foldl place start) := by
  induction rows using List.reverseRecOn with
  | nil =>
    obtain ⟨h1, h23⟩ := Prod.mk.inj hstart
    obtain ⟨h2, h3⟩ := Prod.mk.inj h23
    simp [Paired, h1, h2, h3]
  | append_singleton rows x ih =>
    rw [List.foldl_append]
    exact paired_place ih x

theorem follows_values {l : List κ} {s : Three κ ι} (h : Follows fill l s) :
    s.values = three fill l ↔ Recovers fill l := by
  rw [← h.third_iff]
  constructor
  · exact fun heq => congrArg (fun t => t.2.2) heq
  · exact fun heq => Prod.ext h.first (Prod.ext h.second heq)

/-- A scan of the first rows is right about all of them exactly when it recovers and the
others do not matter. -/
theorem right_iff {start : Three κ ι} (hstart : start.values = (fill, fill, fill))
    {visited : List (κ × ι)} (hvisited : visited <+: rows) :
    Right fill rows (visited.foldl place start) ↔ Recovers fill (visited.map Prod.fst) ∧
      three fill (visited.map Prod.fst) = three fill (rows.map Prod.fst) := by
  have hfollows := follows_scan hstart visited
  have hpaired : Paired fill rows (visited.foldl place start) :=
    (paired_scan hstart visited).trans hvisited.sublist.subperm
  rw [Right, and_iff_left hpaired, extremes_iff]
  constructor
  · intro h
    obtain ⟨rest, rfl⟩ := hvisited
    rw [List.map_append] at h ⊢
    have hthird : (visited.foldl place start).third.1 =
        (three fill (visited.map Prod.fst ++ rest.map Prod.fst)).2.2 :=
      congrArg (fun t => t.2.2) h
    have hmono := third_mono fill (visited.map Prod.fst) (rest.map Prod.fst)
    have hkept := le_antisymm hfollows.third (hthird ▸ hmono)
    have hrecovers := hfollows.third_iff.mp hkept
    exact ⟨hrecovers, ((follows_values hfollows).mpr hrecovers).symm.trans h⟩
  · rintro ⟨hrecovers, hall⟩
    exact ((follows_values hfollows).mpr hrecovers).trans hall

end Rows
end SimulazioneTransazioni.TopThree
