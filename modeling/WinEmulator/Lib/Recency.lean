import Mathlib.Data.List.Basic
import Mathlib.Data.List.Nodup

/-!
# Keys in the order in which they were used

Uses are a list with the last one first, so how long ago a key was used is where it is first in the
list. Keys that are in this order are different.
-/

set_option autoImplicit false

namespace WinEmulator.Lib.Recency

variable {Key : Type} [DecidableEq Key]

/-- A key has been used since another was. -/
def UsedSince (uses : List Key) (k other : Key) : Prop := uses.idxOf k < uses.idxOf other

/-- All keys have been used, each since those behind it were. -/
structure Recent (uses keys : List Key) : Prop where
  ordered : keys.Pairwise (UsedSince uses)
  used : ∀ k ∈ keys, k ∈ uses

variable {uses keys keys' : List Key} {k other x : Key}

theorem UsedSince.ne (h : UsedSince uses k other) : k ≠ other := by
  rintro rfl
  exact Nat.lt_irrefl _ h

/-- Using a third key does not change which of two was used last. -/
theorem UsedSince.cons (hk : k ≠ x) (hother : other ≠ x) (h : UsedSince uses k other) :
    UsedSince (x :: uses) k other := by
  rw [UsedSince, List.idxOf_cons_ne _ hk.symm, List.idxOf_cons_ne _ hother.symm]
  exact Nat.succ_lt_succ h

theorem usedSince_head (h : other ≠ k) : UsedSince (k :: uses) k other := by
  rw [UsedSince, List.idxOf_cons_self, List.idxOf_cons_ne _ h.symm]
  exact Nat.succ_pos _

namespace Recent

theorem nil (uses : List Key) : Recent uses [] := ⟨List.Pairwise.nil, nofun⟩

theorem nodup (h : Recent uses keys) : keys.Nodup := h.ordered.imp UsedSince.ne

/-- Part of a list in the order of use is in the order of use. -/
theorem sublist (h : Recent uses keys) (hkeys : keys'.Sublist keys) : Recent uses keys' :=
  ⟨h.ordered.sublist hkeys, fun k hk => h.used k (hkeys.subset hk)⟩

/-- The use of a key that is none of these. -/
theorem skip (h : Recent uses keys) (hx : x ∉ keys) : Recent (x :: uses) keys := by
  have hne {k : Key} (hk : k ∈ keys) : k ≠ x := fun heq => hx (heq ▸ hk)
  refine ⟨h.ordered.imp_of_mem fun hk hother hsince => hsince.cons (hne hk) (hne hother),
    fun k hk => ?_⟩
  exact List.mem_cons_of_mem x (h.used k hk)

/-- A key that is added is the one that was used last. -/
theorem add (h : Recent uses keys) (hk : k ∉ keys) : Recent (k :: uses) (k :: keys) := by
  have hskip := h.skip hk
  constructor
  · refine List.pairwise_cons.mpr ⟨fun other hother => ?_, hskip.ordered⟩
    exact usedSince_head fun heq => hk (heq ▸ hother)
  · exact List.forall_mem_cons.mpr ⟨List.mem_cons_self, hskip.used⟩

/-- A key that is used comes to the front. -/
theorem use (h : Recent uses keys) (k : Key) : Recent (k :: uses) (k :: keys.erase k) :=
  (h.sublist List.erase_sublist).add h.nodup.not_mem_erase

end Recent

end WinEmulator.Lib.Recency
