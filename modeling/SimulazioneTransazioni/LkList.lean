import SimulazioneTransazioni.Common
import Mathlib.Data.List.Pairwise

/-!
The list of outgoing transactions of lklist.c as the sequence of its cells.
Transactions are matched by timestamp, amount and receiver. When the keys of
the list are distinct, removing the first match is filtering, so the order of
several removals does not matter and repeating one changes nothing.
-/
namespace SimulazioneTransazioni

def compareTransactions (t₁ t₂ : Transaction) : Bool :=
  t₁.timestamp.tvNsec = t₂.timestamp.tvNsec ∧ t₁.timestamp.tvSec = t₂.timestamp.tvSec ∧
    t₁.amount = t₂.amount ∧ t₁.receiver = t₂.receiver

def push (head : List Transaction) (t : Transaction) : List Transaction := head ++ [t]

def findAndRemove : List Transaction → Transaction → List Transaction
  | [], _ => []
  | curr :: rest, toSearch =>
    if compareTransactions curr toSearch then rest
    else curr :: findAndRemove rest toSearch

namespace LkList

theorem compare_iff (t₁ t₂ : Transaction) :
    compareTransactions t₁ t₂ = true ↔
      t₁.timestamp = t₂.timestamp ∧ t₁.amount = t₂.amount ∧ t₁.receiver = t₂.receiver := by
  rw [compareTransactions, decide_eq_true_iff]
  constructor
  · rintro ⟨hnsec, hsec, hamount, hreceiver⟩
    refine ⟨?_, hamount, hreceiver⟩
    cases h₁ : t₁.timestamp
    cases h₂ : t₂.timestamp
    simp_all
  · rintro ⟨htime, hamount, hreceiver⟩
    exact ⟨by rw [htime], by rw [htime], hamount, hreceiver⟩

theorem compare_asSent (t₁ t₂ : Transaction) :
    compareTransactions t₁ t₂.asSent = compareTransactions t₁ t₂ := rfl

theorem compare_trans_left {t₁ t₂ t : Transaction} (h₁ : compareTransactions t₁ t = true)
    (h₂ : compareTransactions t₂ t = true) : compareTransactions t₁ t₂ = true := by
  rw [compare_iff] at *
  obtain ⟨ht₁, ha₁, hr₁⟩ := h₁
  obtain ⟨ht₂, ha₂, hr₂⟩ := h₂
  exact ⟨ht₁.trans ht₂.symm, ha₁.trans ha₂.symm, hr₁.trans hr₂.symm⟩

def Distinct (l : List Transaction) : Prop :=
  l.Pairwise fun a b => compareTransactions a b = false

theorem Distinct.filter {l : List Transaction} (h : Distinct l) (p : Transaction → Bool) :
    Distinct (l.filter p) := List.Pairwise.filter p h

theorem compare_comm (t₁ t₂ : Transaction) :
    compareTransactions t₁ t₂ = compareTransactions t₂ t₁ := by
  rw [Bool.eq_iff_iff, compare_iff, compare_iff]
  constructor
  · exact fun ⟨htime, hamount, hreceiver⟩ => ⟨htime.symm, hamount.symm, hreceiver.symm⟩
  · exact fun ⟨htime, hamount, hreceiver⟩ => ⟨htime.symm, hamount.symm, hreceiver.symm⟩

theorem Distinct.eq_of_compare {l : List Transaction} (h : Distinct l) {a b : Transaction}
    (ha : a ∈ l) (hb : b ∈ l) (hc : compareTransactions a b = true) : a = b := by
  have hsymm : Std.Symm fun x y : Transaction => compareTransactions x y = false :=
    ⟨fun x y hxy => (compare_comm y x).trans hxy⟩
  by_contra hne
  have hfalse := List.Pairwise.forall h ha hb hne
  rw [hfalse] at hc
  contradiction

theorem Distinct.nodup {l : List Transaction} (h : Distinct l) : l.Nodup := by
  refine List.Pairwise.imp ?_ h
  intro a b hab heq
  rw [heq] at hab
  have hself := (compare_iff b b).mpr ⟨rfl, rfl, rfl⟩
  rw [hself] at hab
  contradiction

theorem findAndRemove_eq_filter {l : List Transaction} (h : Distinct l) (t : Transaction) :
    findAndRemove l t = l.filter fun a => !compareTransactions a t := by
  induction l with
  | nil => rfl
  | cons curr rest ih =>
    obtain ⟨hcurr, hrest⟩ := List.pairwise_cons.mp h
    rw [findAndRemove]
    by_cases hc : compareTransactions curr t = true
    · rw [if_pos hc, List.filter_cons_of_neg (by simp [hc])]
      symm
      refine List.filter_eq_self.mpr fun b hb => ?_
      rw [Bool.not_eq_true']
      by_contra hne
      have hb' : compareTransactions b t = true := by simpa using hne
      have hsame := compare_trans_left hc hb'
      rw [hcurr b hb] at hsame
      contradiction
    · rw [if_neg hc, List.filter_cons_of_pos (by simp [hc]), ih hrest]

/-- Removing one transaction after the other keeps those that match none. -/
theorem foldl_findAndRemove {l : List Transaction} (h : Distinct l) (ts : List Transaction) :
    ts.foldl findAndRemove l = l.filter fun a => ts.all fun t => !compareTransactions a t := by
  induction ts generalizing l with
  | nil => simp
  | cons t rest ih =>
    rw [List.foldl_cons, findAndRemove_eq_filter h, ih (h.filter _), List.filter_filter]
    refine List.filter_congr fun a _ => ?_
    rw [List.all_cons, Bool.and_comm]

end LkList
end SimulazioneTransazioni
