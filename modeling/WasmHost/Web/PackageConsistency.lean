import WasmHost.Lib.Gate
import WasmHost.Web.PackageLoads

/-!
# The packages of the worker fit together

The invariant of the worker, whatever is loaded and in whatever order it settles. The catalog is
that of the registered packages, a load is found under its key as long as it goes on, and what waits
for a load goes on behind it.

* `PackageWorker.Consistent.step`: every event keeps the invariant.
* `PackageWorker.Consistent.finishLoad_cases`: what becomes of a load whose promise has settled.
-/

namespace WasmHost

open OrdMap Heap List Gate WorkerTask

namespace WorkerTask

/-- The load that a task finishes. -/
def finishes : WorkerTask → Option ℕ
  | finishLoad i => some i
  | resumeRun _ _ => none

/-- The load that must be over before a task. -/
def awaits : WorkerTask → Option ℕ
  | finishLoad _ => none
  | resumeRun _ i => some i

end WorkerTask

namespace PackageWorker

/-- The load was posted and is not over. -/
def Active (s : PackageWorker) (i : ℕ) : Prop :=
  i < s.loads.next ∧ (s.loads.get i).fate.isSome = false

/-- The run goes on after the promise of the load. -/
def Awaits (s : PackageWorker) (r i : ℕ) : Prop :=
  .resumeRun r i ∈ s.tasks ∨ r ∈ (s.loads.get i).waiters

/-- The run waits for the load of the package that it names, and no other load with the key of that
package is going on that was posted before. -/
structure Waiting (s : PackageWorker) (r i : ℕ) : Prop where
  run_lt : r < s.runs.next
  load_lt : i < s.loads.next
  named : (s.runs.get r).packageId = some (packageLoadKey (s.loads.get i).message)
  only : ∀ j < (s.runs.get r).loadsBefore,
    packageLoadKey (s.loads.get j).message = packageLoadKey (s.loads.get i).message →
      j = i ∨ (s.loads.get j).fate.isSome = true

/-- What holds in every state that the worker gets to. -/
structure Consistent (s : PackageWorker) : Prop where
  named : ∀ id packageRecord, s.packages.get id = some packageRecord → packageRecord.id = id
  created : createPackageCatalog s.packages.values = .ok s.packageCatalog
  fresh : ∀ i, s.loads.next ≤ i → s.loads.get i = default
  current : ∀ key i, s.packageLoads.get key = some i ↔
    s.Active i ∧ packageLoadKey (s.loads.get i).message = key
  outcome : ∀ i packageRecord, (s.loads.get i).outcome = some (.ok packageRecord) →
    (s.loads.get i).message.recordId = .ok packageRecord.id
  registered : ∀ i, (s.loads.get i).fate = some .loaded →
    ∃ id, (s.loads.get i).message.recordId = .ok id ∧ s.packages.has id = true
  notSuperseded : ∀ i, (s.loads.get i).fate ≠ some .superseded
  finishing : ∀ i, i ∈ s.tasks.filterMap WorkerTask.finishes ↔
    s.Active i ∧ (s.loads.get i).outcome.isSome = true
  once : (s.tasks.filterMap WorkerTask.finishes).Nodup
  inOrder : InOrder WorkerTask.finishes WorkerTask.awaits
    (fun i => (s.loads.get i).fate.isSome = true) s.tasks
  waiting : ∀ r i, s.Awaits r i → s.Waiting r i
  posted : ∀ r < s.runs.next, (s.runs.get r).loadsBefore ≤ s.loads.next

variable {s : PackageWorker}

theorem consistent_start : start.Consistent where
  named _ _ h := by cases h
  created := rfl
  fresh _ _ := rfl
  current _ i := by
    constructor
    · intro h
      cases h
    · rintro ⟨⟨hlt, -⟩, -⟩
      exact absurd hlt (Nat.not_lt_zero i)
  outcome _ _ h := by cases h
  registered _ h := by cases h
  notSuperseded _ h := by cases h
  finishing i := by
    constructor
    · intro h
      cases h
    · rintro ⟨⟨hlt, -⟩, -⟩
      exact absurd hlt (Nat.not_lt_zero i)
  once := nodup_nil
  inOrder := trivial
  waiting r i h := by
    rcases h with h | h <;> cases h
  posted r h := absurd h (Nat.not_lt_zero r)

namespace Consistent

/-- A load is noted, under the key of its message unless it is over at once. -/
theorem allocLoad (h : s.Consistent) (message : LoadMessage) {fate : Option LoadFate}
    (hloaded : fate ≠ some .loaded) (hsuperseded : fate ≠ some .superseded)
    {packageLoads : OrdMap Text ℕ}
    (hcurrent : ∀ key i, packageLoads.get key = some i ↔
      (i = s.loads.next ∧ fate.isSome = false ∧ packageLoadKey message = key) ∨
        (s.Active i ∧ packageLoadKey (s.loads.get i).message = key)) (posted : List LoadPost) :
    Consistent
      { s with
        loads := s.loads.alloc ⟨message, none, [], fate⟩
        packageLoads := packageLoads
        posted := posted } := by
  have hnew : s.loads.get s.loads.next = default := h.fresh _ (Nat.le_refl _)
  have hget : ∀ i, (s.loads.alloc ⟨message, none, [], fate⟩).get i =
      if i = s.loads.next then ⟨message, none, [], fate⟩ else s.loads.get i :=
    fun i => s.loads.get_alloc _ i
  have hold : ∀ i, i ≠ s.loads.next →
      (s.loads.alloc ⟨message, none, [], fate⟩).get i = s.loads.get i :=
    fun i hi => (hget i).trans (if_neg hi)
  have hself : (s.loads.alloc ⟨message, none, [], fate⟩).get s.loads.next =
      ⟨message, none, [], fate⟩ := (hget _).trans (if_pos rfl)
  constructor
  case named => exact h.named
  case created => exact h.created
  case fresh =>
    intro i hi
    exact (hold i (Nat.ne_of_gt hi)).trans (h.fresh i (Nat.le_of_succ_le hi))
  case current =>
    intro key i
    rw [hcurrent key i]
    by_cases hi : i = s.loads.next
    · subst hi
      simp [Active, hself]
    · have hlt : i < s.loads.next + 1 ↔ i < s.loads.next := by omega
      simp [hold i hi, hi, hlt, Active]
  case outcome =>
    intro i packageRecord houtcome
    by_cases hi : i = s.loads.next
    · subst hi
      rw [hself] at houtcome
      cases houtcome
    · rw [hold i hi] at houtcome ⊢
      exact h.outcome i packageRecord houtcome
  case registered =>
    intro i hfate
    by_cases hi : i = s.loads.next
    · subst hi
      rw [hself] at hfate
      exact absurd hfate hloaded
    · rw [hold i hi] at hfate ⊢
      exact h.registered i hfate
  case notSuperseded =>
    intro i
    by_cases hi : i = s.loads.next
    · subst hi
      rw [hself]
      exact hsuperseded
    · rw [hold i hi]
      exact h.notSuperseded i
  case finishing =>
    intro i
    rw [h.finishing i, Active, Active]
    by_cases hi : i = s.loads.next
    · subst hi
      simp [hself]
    · have hlt : i < s.loads.next + 1 ↔ i < s.loads.next := by omega
      simp [hold i hi, hlt]
  case once => exact h.once
  case inOrder =>
    refine h.inOrder.mono fun i hi => ?_
    by_cases hnext : i = s.loads.next
    · subst hnext
      rw [hnew] at hi
      cases hi
    · rw [hold i hnext]
      exact hi
  case waiting =>
    intro r i hawaits
    have hwaiting : s.Waiting r i := by
      refine h.waiting r i (hawaits.imp_right fun hr => ?_)
      by_cases hi : i = s.loads.next
      · subst hi
        rw [hself] at hr
        cases hr
      · rwa [hold i hi] at hr
    have hi := Nat.ne_of_lt hwaiting.load_lt
    refine ⟨hwaiting.run_lt, hwaiting.load_lt.trans (Nat.lt_succ_self _), ?_, fun j hj => ?_⟩
    · rw [hold i hi]
      exact hwaiting.named
    · have hjlt := hj.trans_le (h.posted r hwaiting.run_lt)
      rw [hold i hi, hold j (Nat.ne_of_lt hjlt)]
      exact hwaiting.only j hj
  case posted => exact fun r hr => (h.posted r hr).trans (Nat.le_succ _)

/-- A new load is refused or found under a key that was free. -/
theorem loadPackage (h : s.Consistent) (message : LoadMessage) :
    (s.loadPackage message).Consistent := by
  unfold PackageWorker.loadPackage
  dsimp only
  split
  next hbusy =>
    refine h.allocLoad message (by simp) (by simp) (fun key i => ?_) _
    simp [h.current key i]
  next hfree =>
    have hnone :
        ∀ i, s.Active i → packageLoadKey (s.loads.get i).message ≠ packageLoadKey message :=
      fun i hi hkey => hfree (has_of_get ((h.current _ i).2 ⟨hi, hkey⟩))
    refine h.allocLoad message (by simp) (by simp) (fun key i => ?_) _
    rw [get_set]
    split
    next hkey =>
      subst hkey
      constructor
      · intro hi
        exact .inl ⟨(Option.some.inj hi).symm, rfl, rfl⟩
      · rintro (⟨rfl, -, -⟩ | ⟨hi, hkey⟩)
        · rfl
        · exact absurd hkey (hnone i hi)
    next hkey =>
      rw [h.current key i]
      constructor
      · exact .inr
      · rintro (⟨-, -, heq⟩ | hi)
        · exact absurd heq.symm hkey
        · exact hi

/-- A change of a load that leaves its message and its end alone. -/
theorem get_modify_eq (f : PackageLoad → PackageLoad) (i : ℕ)
    (hmessage : (f (s.loads.get i)).message = (s.loads.get i).message)
    (hfate : (f (s.loads.get i)).fate = (s.loads.get i).fate) (j : ℕ) :
    ((s.loads.modify i f).get j).message = (s.loads.get j).message ∧
      ((s.loads.modify i f).get j).fate = (s.loads.get j).fate := by
  rw [get_modify]
  split
  next hj =>
    subst hj
    exact ⟨hmessage, hfate⟩
  · exact ⟨rfl, rfl⟩

theorem filterMap_finishes_resumeRun (waiters : List ℕ) (i : ℕ) :
    (waiters.map (WorkerTask.resumeRun · i)).filterMap WorkerTask.finishes = [] := by
  rw [filterMap_map, filterMap_eq_nil_iff]
  exact fun _ _ => rfl

variable {i r : ℕ} {rest : List WorkerTask}

variable (h : s.Consistent)
include h

/-- A load changes in its promise or in who waits for that. -/
theorem changeLoad (hlt : i < s.loads.next)
    {f : PackageLoad → PackageLoad} {tasks : List WorkerTask}
    (hmessage : (f (s.loads.get i)).message = (s.loads.get i).message)
    (hfate : (f (s.loads.get i)).fate = (s.loads.get i).fate)
    (houtcome : ∀ packageRecord, (f (s.loads.get i)).outcome = some (.ok packageRecord) →
      (s.loads.get i).message.recordId = .ok packageRecord.id)
    (hfinishing : ∀ j, j ∈ tasks.filterMap finishes ↔
      s.Active j ∧ ((s.loads.modify i f).get j).outcome.isSome = true)
    (honce : (tasks.filterMap finishes).Nodup)
    (horder : InOrder finishes awaits
      (fun j => (s.loads.get j).fate.isSome = true) tasks)
    (hawaits : ∀ r j, .resumeRun r j ∈ tasks ∨ r ∈ ((s.loads.modify i f).get j).waiters →
      s.Waiting r j) :
    Consistent { s with loads := s.loads.modify i f, tasks := tasks } := by
  have hsame := get_modify_eq f i hmessage hfate
  have hget : ∀ j, j ≠ i → (s.loads.modify i f).get j = s.loads.get j :=
    fun j hj => s.loads.get_modify_ne f hj
  have hactive : ∀ j, Active { s with loads := s.loads.modify i f, tasks := tasks } j ↔
      s.Active j := by
    intro j
    rw [Active, Active, (hsame j).2]
    rfl
  constructor
  case named => exact h.named
  case created => exact h.created
  case fresh =>
    intro j hj
    have hj : s.loads.next ≤ j := hj
    rw [hget j (Nat.ne_of_gt (hlt.trans_le hj))]
    exact h.fresh j hj
  case current =>
    intro key j
    rw [hactive, (hsame j).1]
    exact h.current key j
  case outcome =>
    intro j packageRecord hj
    rw [(hsame j).1]
    by_cases hji : j = i
    · subst hji
      rw [get_modify_self] at hj
      exact houtcome packageRecord hj
    · rw [hget j hji] at hj
      exact h.outcome j packageRecord hj
  case registered =>
    intro j hj
    rw [(hsame j).2] at hj
    rw [(hsame j).1]
    exact h.registered j hj
  case notSuperseded =>
    intro j
    rw [(hsame j).2]
    exact h.notSuperseded j
  case finishing =>
    intro j
    rw [hactive]
    exact hfinishing j
  case once => exact honce
  case inOrder =>
    refine horder.mono fun j hj => ?_
    rw [(hsame j).2]
    exact hj
  case waiting =>
    intro r j hr
    have hwaiting := hawaits r j hr
    refine ⟨hwaiting.run_lt, hwaiting.load_lt, ?_, fun k hk => ?_⟩
    · rw [(hsame j).1]
      exact hwaiting.named
    · rw [(hsame j).1, (hsame k).1, (hsame k).2]
      exact hwaiting.only k hk
  case posted => exact h.posted

/-- What waited for the promise goes on behind the load itself. -/
theorem settleLoad (i : ℕ) (loaded : Except CommandThrown PackageFields) :
    (s.settleLoad i loaded).Consistent := by
  unfold PackageWorker.settleLoad
  dsimp only
  split
  next hpending =>
    obtain ⟨hlt, hfate, houtcome⟩ := hpending
    rw [Option.isNone_iff_eq_none] at hfate houtcome
    have hactive : s.Active i := ⟨hlt, by rw [hfate]; rfl⟩
    refine h.changeLoad hlt rfl rfl (fun packageRecord hrecord => ?_) (fun j => ?_) ?_ ?_
      fun r j hawaits => ?_
    · obtain ⟨fields, -, hrecord⟩ := Except.bind_eq_ok_iff.1 (Option.some.inj hrecord)
      obtain ⟨id, hid, hrecord⟩ := Except.bind_eq_ok_iff.1 hrecord
      obtain rfl := Except.ok.inj hrecord
      exact hid
    · rw [filterMap_append, filterMap_cons, mem_append,
        filterMap_finishes_resumeRun, h.finishing, get_modify]
      by_cases hji : j = i
      · subst hji
        simp [finishes, hactive]
      · simp [finishes, hji]
    · rw [filterMap_append, filterMap_cons, filterMap_finishes_resumeRun]
      refine List.Nodup.append h.once (nodup_singleton i) fun j hj hji => ?_
      obtain rfl := mem_singleton.1 hji
      have hsettled := ((h.finishing j).1 hj).2
      rw [houtcome] at hsettled
      cases hsettled
    · refine inOrder_append.2 ⟨h.inOrder, fun k hk => (by cases hk),
        inOrder_of_forall fun t ht k hk => ?_⟩
      obtain ⟨r, -, rfl⟩ := mem_map.1 ht
      exact .inl hk
    · apply h.waiting
      rcases hawaits with htask | hwaiter
      · rcases mem_append.1 htask with hold | hnew
        · exact .inl hold
        · rcases mem_cons.1 hnew with hfinish | hresume
          · cases hfinish
          · obtain ⟨r', hr', heq⟩ := mem_map.1 hresume
            obtain ⟨rfl, rfl⟩ := resumeRun.inj heq
            exact .inr hr'
      · rw [get_modify] at hwaiter
        split at hwaiter
        · cases hwaiter
        · exact .inr hwaiter
  · exact h

/-- A run waits for a load that goes on. -/
theorem awaitLoad (hactive : s.Active i) (hwaiting : s.Waiting r i) :
    Consistent
      (if (s.loads.get i).outcome.isNone then
        { s with loads := s.loads.modify i fun load =>
            { load with waiters := load.waiters ++ [r] } }
      else { s with tasks := s.tasks ++ [.resumeRun r i] }) := by
  split
  · refine h.changeLoad hactive.1 rfl rfl (h.outcome i) (fun j => ?_) h.once h.inOrder
      fun r' j hawaits => ?_
    · rw [h.finishing, get_modify]
      split
      next hji => rw [hji]
      · rfl
    · rcases hawaits with htask | hwaiter
      · exact h.waiting r' j (.inl htask)
      · rw [get_modify] at hwaiter
        split at hwaiter
        next hji =>
          subst hji
          rcases mem_append.1 hwaiter with hold | hnew
          · exact h.waiting r' j (.inr hold)
          · rw [mem_singleton.1 hnew]
            exact hwaiting
        · exact h.waiting r' j (.inr hwaiter)
  next hsettled =>
    have hfinishes : (s.tasks ++ [WorkerTask.resumeRun r i]).filterMap WorkerTask.finishes =
        s.tasks.filterMap WorkerTask.finishes := by
      rw [filterMap_append]
      exact append_nil _
    have hopened : ∃ t ∈ s.tasks, t.finishes = some i := by
      refine mem_filterMap.1 ((h.finishing i).2 ⟨hactive, ?_⟩)
      rwa [← Option.not_isNone, Bool.not_eq_true', ← Bool.not_eq_true]
    exact
      { h with
        finishing := fun j => by
          rw [hfinishes]
          exact h.finishing j
        once := by
          rw [hfinishes]
          exact h.once
        inOrder := by
          refine inOrder_append.2 ⟨h.inOrder, fun k hk => ?_, trivial⟩
          obtain rfl : i = k := Option.some.inj hk
          exact .inl hopened
        waiting := fun r' j hawaits => by
          have hj : s.Waiting r' j := by
            rcases hawaits with htask | hwaiter
            · rcases mem_append.1 htask with hold | hnew
              · exact h.waiting r' j (.inl hold)
              · obtain ⟨rfl, rfl⟩ := WorkerTask.resumeRun.inj (mem_singleton.1 hnew)
                exact hwaiting
            · exact h.waiting r' j (.inr hwaiter)
          exact ⟨hj.run_lt, hj.load_lt, hj.named, hj.only⟩ }

/-- A load ends, and may have changed the packages and their catalog. -/
theorem endLoad (htasks : s.tasks = .finishLoad i :: rest) {packages : OrdMap Text PackageRecord}
    {packageCatalog : PackageCatalog}
    (hnamed : ∀ id packageRecord, packages.get id = some packageRecord → packageRecord.id = id)
    (hcreated : createPackageCatalog packages.values = .ok packageCatalog)
    (hkept : ∀ id, s.packages.has id = true → packages.has id = true) {fate : LoadFate}
    (hsuperseded : fate ≠ .superseded)
    (hloaded : fate = .loaded → ∃ id, (s.loads.get i).message.recordId = .ok id ∧
      packages.has id = true) (posts : List LoadPost) :
    Consistent (PackageWorker.endLoad
      { s with packages := packages, packageCatalog := packageCatalog, tasks := rest }
      i fate posts) := by
  have hfinishes : s.tasks.filterMap finishes =
      i :: rest.filterMap finishes := by
    rw [htasks]
    rfl
  have honce := h.once
  rw [hfinishes, nodup_cons] at honce
  obtain ⟨hactive, -⟩ := (h.finishing i).1 (hfinishes ▸ mem_cons_self)
  have hentry : s.packageLoads.get (packageLoadKey (s.loads.get i).message) = some i :=
    (h.current _ i).2 ⟨hactive, rfl⟩
  unfold PackageWorker.endLoad
  simp only [hentry, if_true]
  generalize hloads : (s.loads.modify i fun load => { load with fate := some fate }) = loads
  have hget : ∀ j, j ≠ i → loads.get j = s.loads.get j := by
    rintro j hj
    rw [← hloads, get_modify_ne _ _ hj]
  have hself : loads.get i = { s.loads.get i with fate := some fate } := by
    rw [← hloads, get_modify_self]
  have hnext : loads.next = s.loads.next := by rw [← hloads, next_modify]
  have hmessage : ∀ j, (loads.get j).message = (s.loads.get j).message := by
    intro j
    by_cases hji : j = i
    · subst hji
      rw [hself]
    · rw [hget j hji]
  have hover : ∀ j, (s.loads.get j).fate.isSome = true → (loads.get j).fate.isSome = true := by
    intro j hj
    by_cases hji : j = i
    · subst hji
      rw [hself]
      rfl
    · rwa [hget j hji]
  have hactive' : ∀ j, (j < loads.next ∧ (loads.get j).fate.isSome = false) ↔
      s.Active j ∧ j ≠ i := by
    intro j
    rw [hnext, Active]
    by_cases hji : j = i
    · subst hji
      simp [hself]
    · simp [hget j hji, hji]
  constructor
  case named => exact hnamed
  case created => exact hcreated
  case fresh =>
    intro j hj
    rw [show loads.next = s.loads.next from hnext] at hj
    rw [hget j (Nat.ne_of_gt (hactive.1.trans_le hj))]
    exact h.fresh j hj
  case current =>
    intro key j
    rw [Active, hactive', hmessage, get_delete]
    split
    next hkey =>
      subst hkey
      simp only [reduceCtorEq, false_iff]
      rintro ⟨⟨hj, hne⟩, hkey⟩
      -- the entry under the key is that of the load
      exact hne (Option.some.inj (((h.current _ j).2 ⟨hj, hkey⟩).symm.trans hentry))
    next hkey =>
      rw [h.current key j]
      constructor
      · rintro ⟨hj, rfl⟩
        refine ⟨⟨hj, ?_⟩, rfl⟩
        rintro rfl
        exact hkey rfl
      · rintro ⟨⟨hj, -⟩, hkey'⟩
        exact ⟨hj, hkey'⟩
  case outcome =>
    intro j packageRecord hj
    have houtcome : (loads.get j).outcome = (s.loads.get j).outcome := by
      by_cases hji : j = i
      · subst hji
        rw [hself]
      · rw [hget j hji]
    rw [houtcome] at hj
    rw [hmessage]
    exact h.outcome j packageRecord hj
  case registered =>
    intro j hj
    rw [hmessage]
    by_cases hji : j = i
    · subst hji
      rw [hself] at hj
      exact hloaded (Option.some.inj hj)
    · rw [hget j hji] at hj
      obtain ⟨id, hid, hhas⟩ := h.registered j hj
      exact ⟨id, hid, hkept id hhas⟩
  case notSuperseded =>
    intro j
    by_cases hji : j = i
    · subst hji
      rw [hself]
      exact fun heq => hsuperseded (Option.some.inj heq)
    · rw [hget j hji]
      exact h.notSuperseded j
  case finishing =>
    intro j
    have hj := h.finishing j
    rw [hfinishes, mem_cons] at hj
    rw [Active, hactive']
    by_cases hji : j = i
    · subst hji
      simp [honce.1]
    · rw [hget j hji]
      simpa [hji] using hj
  case once => exact honce.2
  case inOrder =>
    have horder := h.inOrder
    rw [htasks] at horder
    refine horder.tail (fun k hk => ?_) hover
    obtain rfl : i = k := Option.some.inj hk
    rw [hself]
    rfl
  case waiting =>
    intro r j hawaits
    have hwaiting : s.Waiting r j := by
      apply h.waiting
      rcases hawaits with htask | hwaiter
      · exact .inl (htasks ▸ mem_cons_of_mem _ htask)
      · by_cases hji : j = i
        · subst hji
          rw [hself] at hwaiter
          exact .inr hwaiter
        · rw [hget j hji] at hwaiter
          exact .inr hwaiter
    refine ⟨hwaiting.run_lt, hnext ▸ hwaiting.load_lt, ?_, fun k hk => ?_⟩
    · rw [hmessage]
      exact hwaiting.named
    · rw [hmessage, hmessage]
      exact fun hkey => (hwaiting.only k hk hkey).imp_right (hover k)
  case posted => exact fun r hr => (h.posted r hr).trans_eq hnext.symm

/-- What a load that goes on comes to: it fails and leaves the packages alone, or its package is
registered with the catalog that goes with it. -/
theorem finishLoad_cases (htasks : s.tasks = .finishLoad i :: rest) :
    (∃ error, { s with tasks := rest }.finishLoad i = { s with tasks := rest }.failLoad i error) ∨
      ∃ packageRecord packageCatalog posts,
        (s.loads.get i).message.recordId = .ok packageRecord.id ∧
        createPackageCatalog (s.packages.set packageRecord.id packageRecord).values =
          .ok packageCatalog ∧
        { s with tasks := rest }.finishLoad i = PackageWorker.endLoad
          { s with
            packages := s.packages.set packageRecord.id packageRecord
            packageCatalog := packageCatalog
            tasks := rest } i .loaded posts := by
  have hmem : i ∈ s.tasks.filterMap finishes := by
    rw [htasks]
    exact mem_cons_self
  obtain ⟨hactive, hsettled⟩ := (h.finishing i).1 hmem
  have hentry := (h.current _ i).2 ⟨hactive, rfl⟩
  unfold PackageWorker.finishLoad
  dsimp only
  split
  next hnone =>
    rw [hnone] at hsettled
    cases hsettled
  next error _ => exact .inl ⟨error, rfl⟩
  next packageRecord houtcome =>
    rw [if_neg (not_not.2 hentry)]
    unfold PackageWorker.registerPackage
    dsimp only
    cases hcatalog :
      createPackageCatalog (s.packages.set packageRecord.id packageRecord).values with
    | error error => exact .inl ⟨.error error, rfl⟩
    | ok packageCatalog =>
      exact .inr ⟨packageRecord, packageCatalog, _, h.outcome i packageRecord houtcome, hcatalog,
        rfl⟩

theorem finishLoad (htasks : s.tasks = .finishLoad i :: rest) :
    ({ s with tasks := rest }.finishLoad i).Consistent := by
  rcases h.finishLoad_cases htasks with ⟨error, heq⟩ | ⟨record, catalog, posts, hid, hcatalog, heq⟩
  · rw [heq]
    exact h.endLoad htasks h.named h.created (fun _ hid => hid) (by simp) (by simp) _
  · rw [heq]
    refine h.endLoad htasks (fun id other hother => ?_) hcatalog (fun id hhas => ?_) (by simp)
      (fun _ => ⟨_, hid, ?_⟩) posts
    · rw [get_set] at hother
      split at hother
      next hid => rw [← Option.some.inj hother, hid]
      · exact h.named id other hother
    · rw [has_set, hhas, Bool.or_true]
    · rw [has_set, decide_eq_true rfl, Bool.true_or]

/-- A run is noted; it waits for nothing, or for the load that goes on under its key. -/
theorem allocRun (run : PackageRun) (hposted : run.loadsBefore = s.loads.next) :
    Consistent { s with runs := s.runs.alloc run } := by
  have hold : ∀ r < s.runs.next, (s.runs.alloc run).get r = s.runs.get r :=
    fun r hr => s.runs.get_alloc_of_lt run hr
  constructor
  case named => exact h.named
  case created => exact h.created
  case fresh => exact h.fresh
  case current => exact h.current
  case outcome => exact h.outcome
  case registered => exact h.registered
  case notSuperseded => exact h.notSuperseded
  case finishing => exact h.finishing
  case once => exact h.once
  case inOrder => exact h.inOrder
  case waiting =>
    intro r i hawaits
    have hwaiting := h.waiting r i hawaits
    have hrun := hold r hwaiting.run_lt
    refine ⟨hwaiting.run_lt.trans (Nat.lt_succ_self _), hwaiting.load_lt, ?_, ?_⟩
    · exact hrun.symm ▸ hwaiting.named
    · exact hrun.symm ▸ hwaiting.only
  case posted =>
    intro r hr
    rcases Nat.lt_succ_iff_lt_or_eq.1 hr with hlt | rfl
    · exact (hold r hlt).symm ▸ h.posted r hlt
    · rw [get_alloc_next, hposted]

/-- A run that has just been posted waits for the load under its key. -/
theorem waiting_allocRun {id : Text} (hentry : s.packageLoads.get id = some i)
    (run : PackageRun) (hid : run.packageId = some id) (hposted : run.loadsBefore = s.loads.next) :
    Waiting { s with runs := s.runs.alloc run } s.runs.next i := by
  obtain ⟨hactive, rfl⟩ := (h.current id i).1 hentry
  have hself : (s.runs.alloc run).get s.runs.next = run := s.runs.get_alloc_next run
  refine ⟨Nat.lt_succ_self _, hactive.1, ?_, fun j hj hkey => ?_⟩
  · rw [hself, hid]
  · rw [hself, hposted] at hj
    -- another load that goes on under the key would be found under it
    by_contra hnot
    push Not at hnot
    have hj : s.Active j := ⟨hj, Bool.eq_false_iff.2 hnot.2⟩
    exact hnot.1 (Option.some.inj (((h.current _ j).2 ⟨hj, hkey⟩).symm.trans hentry))

theorem packageForRun (packageId : Option Text) (command : Text)
    (path : Option Text) : (s.packageForRun packageId command path).Consistent := by
  unfold PackageWorker.packageForRun
  split
  · exact h.allocRun _ rfl
  next id =>
    split
    · exact h.allocRun _ rfl
    next i hentry =>
      have hactive : s.Active i := ((h.current id i).1 hentry).1
      exact (h.allocRun _ rfl).awaitLoad hactive (h.waiting_allocRun hentry _ rfl rfl)

/-- Whatever a run gets is no part of the consistency. -/
theorem setResult (htasks : s.tasks = .resumeRun r i :: rest)
    (result : Option (Except LookupFailure (Text × PackageRecord))) :
    { s with
      tasks := rest
      runs := s.runs.modify r fun run => { run with result := result } }.Consistent := by
  have hfinishes : s.tasks.filterMap finishes =
      rest.filterMap finishes := by
    rw [htasks]
    rfl
  have hrun : ∀ r', ((s.runs.modify r fun run => { run with result := result }).get r').packageId =
      (s.runs.get r').packageId ∧
      ((s.runs.modify r fun run => { run with result := result }).get r').loadsBefore =
        (s.runs.get r').loadsBefore := by
    intro r'
    rw [get_modify]
    split
    next hr =>
      subst hr
      exact ⟨rfl, rfl⟩
    · exact ⟨rfl, rfl⟩
  exact
    { named := h.named
      created := h.created
      fresh := h.fresh
      current := h.current
      outcome := h.outcome
      registered := h.registered
      notSuperseded := h.notSuperseded
      finishing := fun j => by
        rw [← hfinishes]
        exact h.finishing j
      once := hfinishes ▸ h.once
      inOrder := by
        have horder := h.inOrder
        rw [htasks] at horder
        exact horder.tail (fun k hk => by cases hk) fun k hk => hk
      waiting := fun r' j hawaits => by
        have hwaiting : s.Waiting r' j := h.waiting r' j
          (hawaits.imp_left fun htask => htasks ▸ mem_cons_of_mem _ htask)
        refine ⟨hwaiting.run_lt, hwaiting.load_lt, ?_, ?_⟩
        · rw [(hrun r').1]
          exact hwaiting.named
        · rw [(hrun r').2]
          exact hwaiting.only
      posted := fun r' hr' => by
        rw [(hrun r').2]
        exact h.posted r' hr' }

theorem resumeRun (htasks : s.tasks = .resumeRun r i :: rest) :
    ({ s with tasks := rest }.resumeRun r i).Consistent :=
  h.setResult htasks _

theorem step (e : PackageEvent) : (s.step e).Consistent := by
  cases e with
  | load message => exact h.loadPackage message
  | settle i loaded => exact h.settleLoad i loaded
  | run packageId command path => exact h.packageForRun packageId command path
  | task =>
    unfold PackageWorker.step
    dsimp only
    split
    · exact h
    next htasks => exact h.finishLoad htasks
    next htasks => exact h.resumeRun htasks

end Consistent

end PackageWorker

end WasmHost
