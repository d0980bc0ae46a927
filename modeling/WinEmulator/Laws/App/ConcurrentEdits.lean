import Mathlib.Data.List.Pairwise
import Mathlib.Tactic.Tauto
import WinEmulator.App.Preferences

/-!
# Concurrent edits of the preference sets

Calls that touch different options and paths commute, so "one after another" is one result whatever
the order (`apply_comm`). A run of the calls gives that result when it is serial: each call reads
what is stored, and no other call on the same set is between its read and its write. A run that is
not serial may lose an edit, and loses one unless the overlapping calls happen to agree.
-/

set_option autoImplicit false

namespace WinEmulator.App.Preferences

open WinEmulator.Lib

/-! ## Calls commute -/

/-- The options or paths a call is about. -/
def Call.touches : Call → Finset String
  | .onChangeProotBoolOptions option _ => {option}
  | .onChangeShareExtPath oldPath newPath .edit => {oldPath, newPath}
  | .onChangeShareExtPath _ newPath .add => {newPath}
  | .onChangeShareExtPath _ newPath .del => {newPath}

/-- Those of them that are in the set afterwards. -/
def Call.adds : Call → Finset String
  | .onChangeProotBoolOptions option true => {option}
  | .onChangeProotBoolOptions _ false => ∅
  | .onChangeShareExtPath _ newPath .edit => {newPath}
  | .onChangeShareExtPath _ newPath .add => {newPath}
  | .onChangeShareExtPath _ _ .del => ∅

/-- Two calls are distinct if they are about different sets or about different members of one. -/
def Distinct (c d : Call) : Prop := c.key = d.key → Disjoint c.touches d.touches

instance : Std.Symm Distinct where
  symm _ _ h heq := (h heq.symm).symm

/-- A call decides about what it touches and leaves the rest. -/
theorem mem_newValue {c : Call} {s : Finset String} {x : String} :
    x ∈ c.newValue s ↔ (x ∈ s ∧ x ∉ c.touches) ∨ x ∈ c.adds := by
  cases c with
  | onChangeProotBoolOptions option checked =>
    cases checked with
    | true =>
      simp only [Call.newValue, Call.touches, Call.adds, Finset.mem_insert, Finset.mem_singleton]
      tauto
    | false =>
      simp only [Call.newValue, Call.touches, Call.adds, Finset.mem_erase, Finset.mem_singleton,
        Finset.notMem_empty, or_false]
      tauto
  | onChangeShareExtPath oldPath newPath action =>
    cases action with
    | edit =>
      simp only [Call.newValue, Call.touches, Call.adds, Finset.mem_insert, Finset.mem_erase,
        Finset.mem_singleton]
      tauto
    | add =>
      simp only [Call.newValue, Call.touches, Call.adds, Finset.mem_insert, Finset.mem_singleton]
      tauto
    | del =>
      simp only [Call.newValue, Call.touches, Call.adds, Finset.mem_erase, Finset.mem_singleton,
        Finset.notMem_empty, or_false]
      tauto

theorem adds_subset_touches (c : Call) : c.adds ⊆ c.touches := by
  intro x hx
  cases c with
  | onChangeProotBoolOptions option checked =>
    cases checked with
    | true => exact hx
    | false => cases hx
  | onChangeShareExtPath oldPath newPath action =>
    cases action with
    | edit => exact Finset.mem_insert_of_mem hx
    | add => exact hx
    | del => cases hx

/-- Calls on disjoint values can be taken in either order. -/
theorem newValue_comm {c d : Call} (h : Disjoint c.touches d.touches) (s : Finset String) :
    c.newValue (d.newValue s) = d.newValue (c.newValue s) := by
  ext x
  have hc : x ∈ c.adds → x ∈ c.touches := fun hx => adds_subset_touches c hx
  have hd : x ∈ d.adds → x ∈ d.touches := fun hx => adds_subset_touches d hx
  have hcd : x ∈ c.touches → x ∉ d.touches := fun hx hx' => Finset.disjoint_left.mp h hx hx'
  simp only [mem_newValue]
  tauto

@[simp] theorem get_set_same (default : Defaults) (p : Prefs) (key : Key) (value : Finset String) :
    (p.set key value).get default key = value := by
  cases key <;> rfl

theorem get_set_of_ne (default : Defaults) (p : Prefs) {key key' : Key} (value : Finset String)
    (h : key' ≠ key) : (p.set key value).get default key' = p.get default key' := by
  cases key <;> cases key' <;> first | rfl | exact absurd rfl h

theorem set_set_same (p : Prefs) (key : Key) (value value' : Finset String) :
    (p.set key value).set key value' = p.set key value' := by
  cases key <;> rfl

theorem set_comm (p : Prefs) {key key' : Key} (value value' : Finset String) (h : key ≠ key') :
    (p.set key value).set key' value' = (p.set key' value').set key value := by
  cases key <;> cases key' <;> first | rfl | exact absurd rfl h

/-- Distinct calls give the same store in either order. -/
theorem apply_comm (default : Defaults) {c d : Call} (h : Distinct c d) (p : Prefs) :
    d.apply default (c.apply default p) = c.apply default (d.apply default p) := by
  unfold Call.apply
  by_cases hkey : c.key = d.key
  · rw [hkey, get_set_same, get_set_same, set_set_same, set_set_same, newValue_comm (h hkey)]
  · rw [get_set_of_ne default p _ (Ne.symm hkey), get_set_of_ne default p _ hkey,
      set_comm p _ _ hkey]

/-- Distinct calls give the same store in every order. -/
theorem foldl_apply_perm (default : Defaults) {calls order : List Call}
    (distinct : calls.Pairwise Distinct) (perm : calls.Perm order) (p : Prefs) :
    calls.foldl (Call.apply default) p = order.foldl (Call.apply default) p := by
  refine perm.foldl_eq' (fun c hc d hd q => ?_) p
  by_cases heq : c = d
  · rw [heq]
  · exact apply_comm default (distinct.forall hc hd heq) q

/-! ## Serial runs -/

/-- A call reads what is stored, while no other call on that set is between its read and its
write. -/
def Serial (default : Defaults) (s : State) : Action → Prop
  | .read c => seen default s c = s.store.get default c.key ∧ ∀ p ∈ s.computed, p.1.key ≠ c.key
  | _ => True

/-- The invariant of a serial run of `calls` from `init`. -/
structure Inv (default : Defaults) (init : Prefs) (calls : List Call) (s : State) : Prop where
  perm : (s.finished ++ (s.computed.map Prod.fst ++ s.waiting)).Perm calls
  store : s.store = s.finished.foldl (Call.apply default) init
  current : ∀ p ∈ s.computed, p.2 = p.1.newValue (s.store.get default p.1.key)
  alone : s.computed.Pairwise fun p q => p.1.key ≠ q.1.key

theorem inv_start (default : Defaults) (init : Prefs) (calls : List Call) :
    Inv default init calls (start default init calls) :=
  ⟨List.Perm.refl _, rfl, fun _ hp => (by cases hp), List.Pairwise.nil⟩

/-- A read outside any other call's read and write keeps the invariant. -/
theorem inv_read {default : Defaults} {init : Prefs} {calls : List Call} {s : State} {c : Call}
    (inv : Inv default init calls s) (mem : c ∈ s.waiting) (serial : Serial default s (.read c)) :
    Inv default init calls { s with
      waiting := s.waiting.erase c
      computed := (c, c.newValue (seen default s c)) :: s.computed } := by
  obtain ⟨hseen, hothers⟩ := serial
  refine ⟨?_, inv.store, ?_, List.pairwise_cons.mpr ⟨fun p hp => (hothers p hp).symm, inv.alone⟩⟩
  · refine List.Perm.trans ?_ inv.perm
    refine List.Perm.append_left _ ?_
    show (c :: (s.computed.map Prod.fst ++ s.waiting.erase c)).Perm _
    exact List.perm_middle.symm.trans ((List.perm_cons_erase mem).symm.append_left _)
  · intro p hp
    rcases List.mem_cons.mp hp with rfl | hold
    · rw [hseen]
    · exact inv.current p hold

/-- Storing the set of a call that read the current one is the call on its own. -/
theorem inv_write {default : Defaults} {init : Prefs} {calls : List Call} {s : State} {c : Call}
    {value : Finset String} (inv : Inv default init calls s) (mem : (c, value) ∈ s.computed) :
    Inv default init calls { s with
      computed := s.computed.erase (c, value)
      finished := s.finished ++ [c]
      store := s.store.set c.key value } := by
  have hvalue : value = c.newValue (s.store.get default c.key) := inv.current _ mem
  have hperm := List.perm_cons_erase mem
  refine ⟨?_, ?_, ?_, inv.alone.sublist List.erase_sublist⟩
  · refine List.Perm.trans ?_ inv.perm
    rw [List.append_assoc]
    refine List.Perm.append_left _ ?_
    exact (hperm.map Prod.fst).symm.append_right s.waiting
  · rw [List.foldl_append, ← inv.store, hvalue]
    rfl
  · intro p hp
    have hold := List.mem_of_mem_erase hp
    have hkey : p.1.key ≠ c.key := by
      have halone := hperm.pairwise inv.alone (fun h => Ne.symm h)
      exact ((List.pairwise_cons.mp halone).1 p hp).symm
    show p.2 = p.1.newValue ((s.store.set c.key value).get default p.1.key)
    rw [get_set_of_ne default _ _ hkey]
    exact inv.current p hold

/-- **Step lemma.** The invariant is kept by every read and write that is serial. -/
theorem inv_step {default : Defaults} {init : Prefs} {calls : List Call} {s s' : State} {a : Action}
    (inv : Inv default init calls s) (serial : Serial default s a)
    (h : step default s a = some s') : Inv default init calls s' := by
  cases a with
  | collect =>
    cases h
    exact ⟨inv.perm, inv.store, inv.current, inv.alone⟩
  | emit =>
    obtain ⟨value, -, rfl⟩ := Option.map_eq_some_iff.mp h
    exact ⟨inv.perm, inv.store, inv.current, inv.alone⟩
  | read c =>
    simp only [step] at h
    split at h
    next mem =>
      cases h
      exact inv_read inv mem serial
    · cases h
  | write c value =>
    simp only [step] at h
    split at h
    next mem =>
      cases h
      exact inv_write inv mem
    · cases h

/-- **No edit is lost in a serial run.** When all calls have completed, the store holds the result
of applying them one after another, in whichever order. -/
theorem stored_of_serial {default : Defaults} {init : Prefs} {calls : List Call} {as : List Action}
    {s : State} (distinct : calls.Pairwise Distinct)
    (serial : Meets (step default) (Serial default) (start default init calls) as)
    (h : run (step default) (start default init calls) as = some s)
    (completed : s.waiting = [] ∧ s.computed = []) :
    ∀ order : List Call, order.Perm calls → s.store = order.foldl (Call.apply default) init := by
  intro order horder
  have inv := run_induction inv_step (inv_start default init calls) serial h
  have hfinished : s.finished.Perm calls := by
    have hperm := inv.perm
    rw [completed.1, completed.2, List.map_nil, List.append_nil, List.append_nil] at hperm
    exact hperm
  rw [inv.store]
  exact foldl_apply_perm default (hfinished.symm.pairwise distinct fun h => Std.Symm.symm _ _ h)
    (hfinished.trans horder.symm) init

instance : ∀ default s a, Decidable (Serial default s a)
  | default, s, .read c => inferInstanceAs (Decidable
      (seen default s c = s.store.get default c.key ∧ ∀ p ∈ s.computed, p.1.key ≠ c.key))
  | _, _, .collect => inferInstanceAs (Decidable True)
  | _, _, .emit => inferInstanceAs (Decidable True)
  | _, _, .write _ _ => inferInstanceAs (Decidable True)

/-- Defaults with one option switched on and nothing shared. -/
def oneDefault : Defaults
  | .proot_bool_options => {"-L"}
  | .general_shared_ext_path => ∅

/-- The user has switched every option off, and shares nothing. -/
def allOff : Prefs := ⟨some ∅, none⟩

/-- Switch an option on and share a directory. -/
def optionAndPath : List Call :=
  [.onChangeProotBoolOptions "--sysvipc" true, .onChangeShareExtPath "" "/sdcard" .add]

/-- The flow has caught up before the option is read. -/
def caughtUp : List Action :=
  [.collect, .emit, .read (.onChangeProotBoolOptions "--sysvipc" true),
    .read (.onChangeShareExtPath "" "/sdcard" .add),
    .write (.onChangeShareExtPath "" "/sdcard" .add) {"/sdcard"},
    .write (.onChangeProotBoolOptions "--sysvipc" true) {"--sysvipc"}]

theorem stored_caughtUp :
    ∃ s, run (step oneDefault) (start oneDefault allOff optionAndPath) caughtUp = some s ∧
      s.store = optionAndPath.foldl (Call.apply oneDefault) allOff := by
  have distinct : optionAndPath.Pairwise Distinct := by
    refine List.pairwise_cons.mpr ⟨fun d hd hkey => ?_, List.pairwise_singleton _ _⟩
    obtain rfl := List.mem_singleton.mp hd
    cases hkey
  have hrun : run (step oneDefault) (start oneDefault allOff optionAndPath) caughtUp
      = some ⟨⟨some {"--sysvipc"}, some {"/sdcard"}⟩, ∅, none, [], [],
          [.onChangeShareExtPath "" "/sdcard" .add,
              .onChangeProotBoolOptions "--sysvipc" true]⟩ := by
    decide +kernel
  exact ⟨_, hrun,
    stored_of_serial distinct (by decide +kernel) hrun ⟨rfl, rfl⟩ _ (List.Perm.refl _)⟩

/-- The option is switched on before anything was emitted. -/
def tooEarly : List Action :=
  [.read (.onChangeProotBoolOptions "--sysvipc" true),
    .write (.onChangeProotBoolOptions "--sysvipc" true) {"-L", "--sysvipc"}]

/-- Two directories are shared at once. -/
def overlapping : List Action :=
  [.read (.onChangeShareExtPath "" "/a" .add), .read (.onChangeShareExtPath "" "/b" .add),
    .write (.onChangeShareExtPath "" "/a" .add) {"/a"},
    .write (.onChangeShareExtPath "" "/b" .add) {"/b"}]

/-- The first brings back an option the user had switched off, the second loses a directory. -/
theorem not_stored_tooEarly_overlapping :
    (∃ s, run (step oneDefault)
        (start oneDefault allOff [.onChangeProotBoolOptions "--sysvipc" true]) tooEarly = some s ∧
      s.waiting = [] ∧ s.computed = [] ∧
      s.store ≠ [Call.onChangeProotBoolOptions "--sysvipc" true].foldl
        (Call.apply oneDefault) allOff) ∧
    ∃ s, run (step oneDefault) (start oneDefault allOff
        [.onChangeShareExtPath "" "/a" .add, .onChangeShareExtPath "" "/b" .add]) overlapping =
          some s ∧
      s.waiting = [] ∧ s.computed = [] ∧
      s.store ≠ [Call.onChangeShareExtPath "" "/a" .add, .onChangeShareExtPath "" "/b" .add].foldl
        (Call.apply oneDefault) allOff := by
  refine ⟨⟨⟨⟨some {"-L", "--sysvipc"}, none⟩, {"-L"}, none, [], [],
      [.onChangeProotBoolOptions "--sysvipc" true]⟩, by decide +kernel, rfl,
        rfl, by decide +kernel⟩,
    ⟨⟨⟨some ∅, some {"/b"}⟩, {"-L"}, none, [], [],
      [.onChangeShareExtPath "" "/a" .add, .onChangeShareExtPath "" "/b" .add]⟩, by decide +kernel,
      rfl, rfl, by decide +kernel⟩⟩

end WinEmulator.App.Preferences
