import Mathlib.Data.List.Induction
import Mathlib.Data.List.Nodup

/-!
# A map that remembers the order of its keys

Entries with distinct keys, in the order in which the keys came. Writing a key that is there changes
its value in place; writing a new one puts it at the end.
-/

set_option autoImplicit false

namespace WinEmulator.Lib

variable {κ ν : Type} [DecidableEq κ]

structure LinkedMap (κ ν : Type) where
  entries : List (κ × ν)
  nodup : (entries.map Prod.fst).Nodup

namespace LinkedMap

def empty : LinkedMap κ ν := ⟨[], List.nodup_nil⟩

def updateEntries (k : κ) (f : Option ν → ν) : List (κ × ν) → List (κ × ν)
  | [] => [(k, f none)]
  | (k', v) :: es => if k' = k then (k', f (some v)) :: es else (k', v) :: updateEntries k f es

theorem mem_keys_updateEntries {k k' : κ} {f : Option ν → ν} {es : List (κ × ν)}
    (h : k' ∈ (updateEntries k f es).map Prod.fst) : k' = k ∨ k' ∈ es.map Prod.fst := by
  induction es with
  | nil => exact .inl (List.mem_singleton.mp h)
  | cons e es ih =>
    obtain ⟨k₁, v⟩ := e
    rw [updateEntries] at h
    split at h
    · exact .inr h
    · rcases List.mem_cons.mp h with rfl | htail
      · exact .inr List.mem_cons_self
      · exact (ih htail).imp_right (List.mem_cons_of_mem _)

theorem nodup_updateEntries (k : κ) (f : Option ν → ν) {es : List (κ × ν)}
    (h : (es.map Prod.fst).Nodup) : ((updateEntries k f es).map Prod.fst).Nodup := by
  induction es with
  | nil => exact List.nodup_singleton k
  | cons e es ih =>
    obtain ⟨k₁, v⟩ := e
    obtain ⟨hnew, hrest⟩ := List.nodup_cons.mp h
    rw [updateEntries]
    split
    · exact h
    next hne =>
      refine List.nodup_cons.mpr ⟨?_, ih hrest⟩
      intro hmem
      exact (mem_keys_updateEntries hmem).elim hne hnew

/-- The value of a key. -/
def get (m : LinkedMap κ ν) (k : κ) : Option ν := m.entries.lookup k

/-- Set the value of a key, from its old value if it has one. -/
def update (m : LinkedMap κ ν) (k : κ) (f : Option ν → ν) : LinkedMap κ ν :=
  ⟨updateEntries k f m.entries, nodup_updateEntries k f m.nodup⟩

theorem mem_updateEntries {k : κ} {f : Option ν → ν} {es : List (κ × ν)}
    (h : (es.map Prod.fst).Nodup) {e : κ × ν} :
    e ∈ updateEntries k f es ↔ (e ∈ es ∧ e.1 ≠ k) ∨ e = (k, f (es.lookup k)) := by
  induction es with
  | nil => simp [updateEntries]
  | cons e₁ es ih =>
    obtain ⟨k₁, v⟩ := e₁
    obtain ⟨hnew, hrest⟩ := List.nodup_cons.mp h
    rw [updateEntries]
    by_cases hk : k₁ = k
    · subst hk
      -- the key stands here, so it stands nowhere after
      have helse : ∀ e ∈ es, e.1 ≠ k₁ := fun e he heq => hnew (List.mem_map.mpr ⟨e, he, heq⟩)
      rw [if_pos rfl, List.lookup_cons_self, List.mem_cons, List.mem_cons]
      constructor
      · rintro (rfl | he)
        · exact .inr rfl
        · exact .inl ⟨.inr he, helse e he⟩
      · rintro (⟨rfl | he, hne⟩ | rfl)
        · exact absurd rfl hne
        · exact .inr he
        · exact .inl rfl
    · have hlookup : List.lookup k ((k₁, v) :: es) = List.lookup k es := by
        rw [List.lookup_cons, beq_false_of_ne (Ne.symm hk)]
      rw [if_neg hk, hlookup, List.mem_cons, List.mem_cons, ih hrest]
      constructor
      · rintro (rfl | ⟨he, hne⟩ | rfl)
        · exact .inl ⟨.inl rfl, hk⟩
        · exact .inl ⟨.inr he, hne⟩
        · exact .inr rfl
      · rintro (⟨rfl | he, hne⟩ | rfl)
        · exact .inl rfl
        · exact .inr (.inl ⟨he, hne⟩)
        · exact .inr (.inr rfl)

/-- What is in the map after a write: the other entries, and the new one. -/
theorem mem_update (m : LinkedMap κ ν) (k : κ) (f : Option ν → ν) {e : κ × ν} :
    e ∈ (m.update k f).entries ↔
      (e ∈ m.entries ∧ e.1 ≠ k) ∨ e = (k, f (m.get k)) :=
  mem_updateEntries m.nodup

theorem mem_of_get (m : LinkedMap κ ν) {k : κ} {v : ν} (h : m.get k = some v) :
    (k, v) ∈ m.entries := by
  obtain ⟨l₁, l₂, heq, -⟩ := List.lookup_eq_some_iff.mp h
  rw [heq]
  exact List.mem_append_right _ List.mem_cons_self

theorem get_of_mem (m : LinkedMap κ ν) {e : κ × ν} (h : e ∈ m.entries) : m.get e.1 = some e.2 := by
  obtain ⟨l₁, l₂, heq⟩ := List.append_of_mem h
  refine List.lookup_eq_some_iff.mpr ⟨l₁, l₂, heq, ?_⟩
  intro p hp
  have hnodup := m.nodup
  rw [heq, List.map_append] at hnodup
  have hdisj := List.disjoint_of_nodup_append hnodup
  rw [bne_iff_ne]
  intro hkey
  exact hdisj (List.mem_map.mpr ⟨p, hp, rfl⟩) (List.mem_map.mpr ⟨e, List.mem_cons_self, hkey⟩)

/-- The entries are what the keys get. -/
theorem mem_entries_iff (m : LinkedMap κ ν) {e : κ × ν} : e ∈ m.entries ↔ m.get e.1 = some e.2 :=
  ⟨m.get_of_mem, m.mem_of_get⟩

/-- What a key has after a write to some key. -/
theorem get_update (m : LinkedMap κ ν) (k k' : κ) (f : Option ν → ν) :
    (m.update k f).get k' = if k' = k then some (f (m.get k)) else m.get k' := by
  apply Option.ext
  intro v
  have hmem : (m.update k f).get k' = some v ↔ (k', v) ∈ (m.update k f).entries :=
    ((m.update k f).mem_entries_iff (e := (k', v))).symm
  rw [hmem, mem_update, m.mem_entries_iff]
  split
  next heq =>
    subst heq
    simp [eq_comm]
  next hne => simp [hne]

/-- Take a key out. -/
def erase (m : LinkedMap κ ν) (k : κ) : LinkedMap κ ν :=
  ⟨m.entries.filter fun e => e.1 ≠ k, m.nodup.sublist (List.filter_sublist.map _)⟩

/-- An erased key gets nothing; the others keep their values. -/
theorem get_erase (m : LinkedMap κ ν) (k k' : κ) :
    (m.erase k).get k' = if k' = k then none else m.get k' := by
  apply Option.ext
  intro v
  have hmem : (m.erase k).get k' = some v ↔ (k', v) ∈ (m.erase k).entries :=
    ((m.erase k).mem_entries_iff (e := (k', v))).symm
  have hfilter : (k', v) ∈ (m.erase k).entries ↔ (k', v) ∈ m.entries ∧ k' ≠ k := by
    simp [erase, List.mem_filter]
  rw [hmem, hfilter, m.mem_entries_iff]
  split
  next heq => simp [heq]
  next hne => simp [hne]

/-- Give a key a value or take it out. -/
def set (m : LinkedMap κ ν) (k : κ) : Option ν → LinkedMap κ ν
  | some v => m.update k fun _ => v
  | none => m.erase k

/-- The key that is set gets its value; the others keep theirs. -/
theorem get_set (m : LinkedMap κ ν) (k k' : κ) (v : Option ν) :
    (m.set k v).get k' = if k' = k then v else m.get k' := by
  cases v with
  | some v => exact m.get_update k k' _
  | none => exact m.get_erase k k'

/-! ## Maps from their entries -/

/-- The last of the values that a list gives a key. -/
def lastValue (k : κ) (es : List (κ × ν)) : Option ν := es.reverse.lookup k

/-- The map that is written entry by entry. -/
def ofList (es : List (κ × ν)) : LinkedMap κ ν := es.foldl (fun m e => m.set e.1 (some e.2)) empty

theorem lastValue_snoc (k : κ) (es : List (κ × ν)) (e : κ × ν) :
    lastValue k (es ++ [e]) = if k = e.1 then some e.2 else lastValue k es := by
  rw [lastValue, List.reverse_append, List.reverse_singleton, List.singleton_append,
    List.lookup_cons]
  by_cases h : k = e.1
  · rw [h, beq_self_eq_true, if_pos rfl]
  · rw [beq_false_of_ne h, if_neg h]
    rfl

/-- Of several values of a key the last counts. -/
theorem get_ofList (k : κ) (es : List (κ × ν)) : (ofList es).get k = lastValue k es := by
  induction es using List.reverseRecOn with
  | nil => rfl
  | append_singleton es e ih =>
    rw [ofList, List.foldl_append, List.foldl_cons, List.foldl_nil, get_set, lastValue_snoc]
    split
    · rfl
    · exact ih

theorem get_cons (k : κ) {e : κ × ν} {es : List (κ × ν)} (h : ((e :: es).map Prod.fst).Nodup) :
    (LinkedMap.mk (e :: es) h).get k =
      if k = e.1 then some e.2 else (LinkedMap.mk es (List.nodup_cons.mp h).2).get k := by
  rw [get, List.lookup_cons]
  by_cases hk : k = e.1
  · rw [hk, beq_self_eq_true, if_pos rfl]
  · rw [beq_false_of_ne hk, if_neg hk]
    rfl

/-- A key without an entry has no value. -/
theorem get_eq_none {m : LinkedMap κ ν} {k : κ} (h : k ∉ m.entries.map Prod.fst) :
    m.get k = none := by
  cases hget : m.get k with
  | none => rfl
  | some v => exact absurd (List.mem_map_of_mem (f := Prod.fst) (m.mem_of_get hget)) h

/-- With one value for each key, that is the last one. -/
theorem lastValue_of_nodup {es : List (κ × ν)} (h : (es.map Prod.fst).Nodup) {e : κ × ν}
    (he : e ∈ es) :
    lastValue e.1 es = some e.2 := by
  have hreverse : (es.reverse.map Prod.fst).Nodup := by
    rw [List.map_reverse]
    exact List.nodup_reverse.mpr h
  exact (LinkedMap.mk es.reverse hreverse).get_of_mem (List.mem_reverse.mpr he)

theorem mem_of_lastValue {es : List (κ × ν)} {k : κ} {v : ν} (h : lastValue k es = some v) :
    (k, v) ∈ es := by
  obtain ⟨l₁, l₂, heq, -⟩ := List.lookup_eq_some_iff.mp h
  rw [← List.mem_reverse, heq]
  exact List.mem_append_right _ List.mem_cons_self

/-- Writing the entries of a map again gives the same values. -/
theorem get_ofList_entries (m : LinkedMap κ ν) (k : κ) : (ofList m.entries).get k = m.get k := by
  rw [get_ofList]
  by_cases hkey : k ∈ m.entries.map Prod.fst
  · obtain ⟨e, he, rfl⟩ := List.mem_map.mp hkey
    rw [lastValue_of_nodup m.nodup he, m.get_of_mem he]
  · rw [get_eq_none hkey]
    refine Option.eq_none_iff_forall_ne_some.mpr fun v hv => ?_
    exact hkey (List.mem_map_of_mem (f := Prod.fst) (mem_of_lastValue hv))

/-- The last value after a function on the values that is defined for all of them. -/
theorem lastValue_forall₂ {μ : Type} {f : ν → Option μ} {es : List (κ × ν)} {es' : List (κ × μ)}
    (h : List.Forall₂ (fun e e' => f e.2 = some e'.2 ∧ e.1 = e'.1) es es') (k : κ) :
    lastValue k es' = (lastValue k es).bind f := by
  have hreverse := List.rel_reverse h
  unfold lastValue
  generalize es.reverse = reversed at hreverse ⊢
  generalize es'.reverse = reversed' at hreverse ⊢
  induction hreverse with
  | nil => rfl
  | cons hfirst _ ih =>
    obtain ⟨hvalue, hkey⟩ := hfirst
    rw [List.lookup_cons, List.lookup_cons, hkey]
    split
    · exact hvalue.symm
    · exact ih

end LinkedMap

end WinEmulator.Lib
