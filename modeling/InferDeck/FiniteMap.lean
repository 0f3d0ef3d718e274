import Mathlib.Data.List.AList
import Mathlib.Algebra.BigOperators.Group.List.Lemmas
import Mathlib.Algebra.BigOperators.Ring.List
import Mathlib.Data.Int.Cast.Basic
import Mathlib.Tactic

/-!
# Finite maps with a default value

Keyed containers are association lists without repeated keys. `find` is the lookup of a counter
map, where an absent key counts as the default.
-/

namespace InferDeck

abbrev Map (α β : Type) := AList (fun _ : α => β)

namespace Map

variable {α β : Type} [DecidableEq α]

def contains (m : Map α β) (k : α) : Bool := (m.lookup k).isSome

def values (m : Map α β) : List β := m.entries.map Sigma.snd

def find (m : Map α β) (k : α) (default : β) : β := (m.lookup k).getD default

@[simp] theorem find_insert_self (m : Map α β) (k : α) (v d : β) :
    find (m.insert k v) k d = v := by
  simp [find]

@[simp] theorem find_insert_of_ne {m : Map α β} {k k' : α} (h : k' ≠ k) (v d : β) :
    find (m.insert k v) k' d = find m k' d := by
  simp [find, AList.lookup_insert_ne h]

@[simp] theorem find_erase_self (m : Map α β) (k : α) (d : β) :
    find (m.erase k) k d = d := by
  simp [find]

@[simp] theorem find_erase_of_ne {m : Map α β} {k k' : α} (h : k' ≠ k) (d : β) :
    find (m.erase k) k' d = find m k' d := by
  simp [find, AList.lookup_erase_ne h]

theorem mem_entries_iff {m : Map α β} {k : α} {v : β} :
    (⟨k, v⟩ : Sigma fun _ : α => β) ∈ m.entries ↔ m.lookup k = some v := by
  rw [← AList.mem_lookup_iff, Option.mem_def]

/-- `std::erase_if`: drop the entries that satisfy the predicate. -/
def eraseIf (m : Map α β) (p : α → β → Bool) : Map α β where
  entries := m.entries.filter fun e => !p e.1 e.2
  nodupKeys := m.nodupKeys.sublist List.filter_sublist

theorem lookup_eraseIf (m : Map α β) (p : α → β → Bool) (k : α) :
    (m.eraseIf p).lookup k = (m.lookup k).filter fun v => !p k v := by
  apply Option.ext
  intro v
  rw [← mem_entries_iff, eraseIf, List.mem_filter, mem_entries_iff, Option.filter_eq_some_iff]

def count (m : Map α β) (p : α → β → Bool) : ℕ := m.entries.countP fun e => p e.1 e.2

theorem count_insert {m : Map α β} {k : α} (h : m.lookup k = none) (v : β) (p : α → β → Bool) :
    count (m.insert k v) p = count m p + (p k v).toNat := by
  rw [count, AList.entries_insert_of_notMem (AList.lookup_eq_none.1 h), List.countP_cons]
  cases p k v <;> rfl

theorem count_erase {m : Map α β} {k : α} {v : β} (h : m.lookup k = some v) (p : α → β → Bool) :
    count (m.erase k) p + (p k v).toNat = count m p := by
  have hk : k ∈ m.entries.keys := AList.lookup_isSome.1 (by simp [h])
  obtain ⟨v', before, after, -, hentries, herase⟩ := List.exists_of_kerase hk
  obtain rfl : v' = v := by
    have hmem : (⟨k, v'⟩ : Sigma fun _ : α => β) ∈ m.entries := by simp [hentries]
    exact Option.some.inj ((mem_entries_iff.1 hmem).symm.trans h)
  have hcount : count (m.erase k) p = (before ++ after).countP fun e => p e.1 e.2 := by
    rw [← herase]
    rfl
  rw [hcount, count, hentries]
  simp only [List.countP_append, List.countP_cons]
  cases p k v'
  · rfl
  · exact Nat.add_assoc ..

/-- The entries with one key. -/
theorem filter_key (m : Map α β) (k : α) :
    (m.entries.filter fun e => decide (e.1 = k)) = (m.lookup k).toList.map fun v => ⟨k, v⟩ := by
  have hlist (l : List (Sigma fun _ : α => β)) (hl : l.NodupKeys) :
      (l.filter fun e => decide (e.1 = k)) = (l.dlookup k).toList.map fun v => ⟨k, v⟩ := by
    induction l with
    | nil => rfl
    | cons e l ih =>
        obtain ⟨k', v⟩ := e
        obtain ⟨hnew, hl⟩ := List.nodupKeys_cons.1 hl
        by_cases hk : k' = k
        · subst hk
          have hnone : l.dlookup k' = none := List.dlookup_eq_none.2 hnew
          rw [List.filter_cons_of_pos (by simp), ih hl, hnone, List.dlookup_cons_eq]
          rfl
        · rw [List.filter_cons_of_neg (by simpa using hk), ih hl,
            List.dlookup_cons_ne l ⟨k', v⟩ (Ne.symm hk)]
  exact hlist m.entries m.nodupKeys

theorem lookup_erase_eq_some_iff {m : Map α β} {k k' : α} {v : β} :
    (m.erase k).lookup k' = some v ↔ k' ≠ k ∧ m.lookup k' = some v := by
  by_cases hk : k' = k
  · subst hk
    simp [AList.lookup_erase]
  · simp [hk, AList.lookup_erase_ne hk]

theorem lookup_insert_eq_some_iff {m : Map α β} {k k' : α} {v v' : β} :
    (m.insert k v).lookup k' = some v' ↔ k' = k ∧ v = v' ∨ k' ≠ k ∧ m.lookup k' = some v' := by
  by_cases hk : k' = k
  · subst hk
    simp [AList.lookup_insert]
  · simp [hk, AList.lookup_insert_ne hk]

theorem length_erase {m : Map α β} {k : α} {v : β} (h : m.lookup k = some v) :
    (m.erase k).entries.length + 1 = m.entries.length := by
  simpa [count] using count_erase h fun _ _ => true

theorem length_insert {m : Map α β} {k : α} (h : m.lookup k = none) (v : β) :
    (m.insert k v).entries.length = m.entries.length + 1 := by
  rw [AList.entries_insert_of_notMem (AList.lookup_eq_none.1 h), List.length_cons]

theorem count_congr {m : Map α β} {p q : α → β → Bool}
    (h : ∀ k v, m.lookup k = some v → p k v = q k v) : count m p = count m q := by
  apply List.countP_congr
  intro e he
  rw [h e.1 e.2 (mem_entries_iff.1 he)]

theorem count_le_count {m : Map α β} {p q : α → β → Bool}
    (h : ∀ k v, m.lookup k = some v → p k v → q k v) : count m p ≤ count m q := by
  apply List.countP_mono_left
  intro e he
  exact h e.1 e.2 (mem_entries_iff.1 he)

theorem count_eq_zero_iff {m : Map α β} {p : α → β → Bool} :
    count m p = 0 ↔ ∀ k v, m.lookup k = some v → p k v = false := by
  rw [count, List.countP_eq_zero]
  constructor
  · intro h k v hlookup
    exact Bool.eq_false_iff.2 (h ⟨k, v⟩ (mem_entries_iff.2 hlookup))
  · intro h e he
    exact Bool.eq_false_iff.1 (h e.1 e.2 (mem_entries_iff.1 he))

def total (m : Map α β) (f : α → β → ℤ) : ℤ := (m.entries.map fun e => f e.1 e.2).sum

theorem total_insert {m : Map α β} {k : α} (h : m.lookup k = none) (v : β) (f : α → β → ℤ) :
    total (m.insert k v) f = total m f + f k v := by
  rw [total, AList.entries_insert_of_notMem (AList.lookup_eq_none.1 h), List.map_cons,
    List.sum_cons, add_comm]
  rfl

theorem total_erase {m : Map α β} {k : α} {v : β} (h : m.lookup k = some v) (f : α → β → ℤ) :
    total (m.erase k) f + f k v = total m f := by
  have hk : k ∈ m.entries.keys := AList.lookup_isSome.1 (by simp [h])
  obtain ⟨v', before, after, -, hentries, herase⟩ := List.exists_of_kerase hk
  obtain rfl : v' = v := by
    have hmem : (⟨k, v'⟩ : Sigma fun _ : α => β) ∈ m.entries := by simp [hentries]
    exact Option.some.inj ((mem_entries_iff.1 hmem).symm.trans h)
  have htotal : total (m.erase k) f = ((before ++ after).map fun e => f e.1 e.2).sum := by
    rw [← herase]
    rfl
  rw [htotal, total, hentries]
  simp only [List.map_append, List.map_cons, List.sum_append, List.sum_cons]
  omega

theorem le_total {m : Map α β} {k : α} {v : β} (h : m.lookup k = some v) {f : α → β → ℤ}
    (hf : ∀ k v, m.lookup k = some v → 0 ≤ f k v) : f k v ≤ total m f := by
  apply List.single_le_sum
  · intro x hx
    obtain ⟨e, he, rfl⟩ := List.mem_map.1 hx
    exact hf e.1 e.2 (mem_entries_iff.1 he)
  · exact List.mem_map.2 ⟨⟨k, v⟩, mem_entries_iff.2 h, rfl⟩

/-- Counters that count the entries of another map by their keys sum to the number of the entries
whose keys are summed over. -/
theorem sum_counters {κ : Type} [DecidableEq κ] {counters : Map α ℤ} {m : Map κ β} {key : β → α}
    (h : ∀ a, find counters a 0 = count m fun _ b => key b == a) (q : α → Bool) :
    ((counters.entries.filter fun e => decide (0 < e.2) && q e.1).map Sigma.snd).sum =
      count m fun _ b => q (key b) := by
  let keys := m.entries.map fun e => key e.2
  let summed := (counters.entries.filter fun e => decide (0 < e.2) && q e.1).map Sigma.fst
  have hcount : ∀ a, find counters a 0 = keys.count a := by
    intro a
    rw [h a, count, List.count, List.countP_map]
    rfl
  have hfind : ∀ e ∈ counters.entries, e.2 = find counters e.1 0 := by
    intro e he
    rw [find, mem_entries_iff.1 he]
    rfl
  have hmem : ∀ a, a ∈ summed ↔ a ∈ keys.dedup.filter q := by
    intro a
    have hpos : 0 < find counters a 0 ↔ a ∈ keys := by
      rw [hcount, Int.natCast_pos, List.count_pos_iff]
    simp only [summed, List.mem_map, List.mem_filter, List.mem_dedup, Bool.and_eq_true,
      decide_eq_true_eq, ← hpos]
    constructor
    · rintro ⟨e, ⟨he, hlt, hq⟩, rfl⟩
      exact ⟨hfind e he ▸ hlt, hq⟩
    · rintro ⟨hlt, hq⟩
      cases hlookup : counters.lookup a with
      | none => simp [find, hlookup] at hlt
      | some v =>
          have he := mem_entries_iff.2 hlookup
          exact ⟨⟨a, v⟩, ⟨he, (hfind ⟨a, v⟩ he).symm ▸ hlt, hq⟩, rfl⟩
  have hnodup : summed.Nodup :=
    List.Nodup.sublist (List.filter_sublist.map Sigma.fst) counters.nodupKeys
  have hperm : summed.Perm (keys.dedup.filter q) :=
    (List.perm_ext_iff_of_nodup hnodup ((List.nodup_dedup keys).filter q)).2 hmem
  calc ((counters.entries.filter fun e => decide (0 < e.2) && q e.1).map Sigma.snd).sum
      = (summed.map fun a => (keys.count a : ℤ)).sum := by
        rw [List.map_map]
        congr 1
        apply List.map_congr_left
        intro e he
        exact (hfind e (List.mem_of_mem_filter he)).trans (hcount e.1)
    _ = ((keys.dedup.filter q).map fun a => (keys.count a : ℤ)).sum := (hperm.map _).sum_eq
    _ = (((keys.dedup.filter q).map fun a => keys.count a).sum : ℕ) := by
        rw [Nat.cast_list_sum, List.map_map]
        rfl
    _ = count m fun _ b => q (key b) := by
        rw [List.sum_map_count_dedup_filter_eq_countP, count, List.countP_map]
        rfl

end Map

end InferDeck
