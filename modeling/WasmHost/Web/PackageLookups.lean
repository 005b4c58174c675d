import WasmHost.Web.PackageConsistency

/-!
# Lookups of packages

What the runs find in the catalog and among the packages that were loaded before them.

* `PackageWorker.exact_iff_keyed`: the catalog and the lookups are right in every run over some
  messages exactly when each of these is keyed by the id of its package.
-/

namespace WasmHost

open Heap

/-- The load is found under the id that its package gets. -/
def LoadMessage.Keyed (m : LoadMessage) : Prop :=
  ∀ id, m.recordId = .ok id → packageLoadKey m = id

namespace PackageWorker

variable {s : PackageWorker} {i : ℕ}

/-- The run did not fail for want of a package, or every load of that package that was posted before
has failed. -/
def RunFound (s : PackageWorker) (r : ℕ) : Prop :=
  ∀ id missing, (s.runs.get r).packageId = some id →
    (s.runs.get r).result = some (.error (.notLoaded missing)) →
      ∀ i < (s.runs.get r).loadsBefore, (s.loads.get i).message.recordId = .ok id →
        ∃ error, (s.loads.get i).fate = some (.failed error)

/-- The loads that were posted keep their messages, and those that failed have failed. -/
structure LoadsKept (loads loads' : Heap PackageLoad) : Prop where
  message : ∀ i < loads.next, (loads'.get i).message = (loads.get i).message
  failed : ∀ i < loads.next, ∀ error, (loads.get i).fate = some (.failed error) →
    (loads'.get i).fate = some (.failed error)

variable (loads : Heap PackageLoad) {id : Text}

theorem LoadsKept.refl : LoadsKept loads loads :=
  ⟨fun _ _ => rfl, fun _ _ _ h => h⟩

/-- What is known of a run stays known. -/
theorem RunFound.of_kept {s' : PackageWorker} {r : ℕ} (h : s.RunFound r)
    (hkept : LoadsKept s.loads s'.loads)
    (hrun : s'.runs.get r = s.runs.get r) (hposted : (s.runs.get r).loadsBefore ≤ s.loads.next) :
    s'.RunFound r := by
  intro id missing hid hresult i hi hrecord
  rw [hrun] at hid hresult hi
  have hlt := hi.trans_le hposted
  rw [hkept.message i hlt] at hrecord
  obtain ⟨error, herror⟩ := h id missing hid hresult i hi hrecord
  exact ⟨error, hkept.failed i hlt error herror⟩

theorem loadsKept_alloc (load : PackageLoad) :
    LoadsKept loads (loads.alloc load) where
  message _ hi := congrArg PackageLoad.message (get_alloc_of_lt _ _ hi)
  failed _ hi _ herror := (congrArg PackageLoad.fate (get_alloc_of_lt _ _ hi)).trans herror

/-- A change of a load that leaves its message alone, and its end unless it goes on. -/
theorem loadsKept_modify (i : ℕ) (f : PackageLoad → PackageLoad)
    (hmessage : (f (loads.get i)).message = (loads.get i).message)
    (hfate : (f (loads.get i)).fate = (loads.get i).fate ∨ (loads.get i).fate.isSome = false) :
    LoadsKept loads (loads.modify i f) := by
  constructor
  · intro j _
    rw [get_modify]
    split
    next hji => rw [hji, hmessage]
    · rfl
  · intro j _ error herror
    rw [get_modify]
    split
    next hji =>
      subst hji
      rcases hfate with hsame | hopen
      · rw [hsame, herror]
      · rw [herror] at hopen
        cases hopen
    · exact herror

/-- The end of a load that goes on. -/
theorem loadsKept_fate {loads : Heap PackageLoad} (fate : LoadFate)
    (h : (loads.get i).fate.isSome = false) :
    LoadsKept loads (loads.modify i fun load => { load with fate := some fate }) :=
  loadsKept_modify loads i _ rfl (.inr h)

/-- The invariant of runs in which every load is keyed by the id of its package. -/
structure Lookups (s : PackageWorker) : Prop where
  consistent : s.Consistent
  keyed : ∀ i < s.loads.next, (s.loads.get i).message.Keyed
  found : ∀ r < s.runs.next, s.RunFound r

/-- A load of a package that is not there has failed once it is over. -/
theorem Consistent.failed_of_over (h : s.Consistent)
    (hrecord : (s.loads.get i).message.recordId = .ok id) (hmissing : s.packages.get id = none)
    (hover : (s.loads.get i).fate.isSome = true) :
    ∃ error, (s.loads.get i).fate = some (.failed error) := by
  obtain ⟨fate, hfate⟩ := Option.isSome_iff_exists.1 hover
  cases fate with
  | failed error => exact ⟨error, hfate⟩
  | superseded => exact absurd hfate (h.notSuperseded i)
  | loaded =>
    obtain ⟨id', hid', hhas⟩ := h.registered i hfate
    obtain rfl := Except.ok.inj (hrecord.symm.trans hid')
    rw [OrdMap.has, hmissing] at hhas
    cases hhas

theorem loadedPackage_eq_notLoaded {command missing : Text}
    (h : s.loadedPackage id command = .error (.notLoaded missing)) : s.packages.get id = none := by
  unfold loadedPackage at h
  split at h
  · cases h
  next hnone => exact hnone

namespace Lookups

/-- A step that posts no load and no run. -/
theorem of_kept {s' : PackageWorker} (h : s.Lookups) (hconsistent : s'.Consistent)
    (hkept : LoadsKept s.loads s'.loads) (hloads : s'.loads.next = s.loads.next)
    (hruns : s'.runs = s.runs) : s'.Lookups where
  consistent := hconsistent
  keyed i hi := by
    rw [hloads] at hi
    rw [hkept.message i hi]
    exact h.keyed i hi
  found r hr := by
    rw [hruns] at hr
    exact (h.found r hr).of_kept hkept (by rw [hruns]) (h.consistent.posted r hr)

theorem loadPackage (h : s.Lookups) {message : LoadMessage} (hkeyed : message.Keyed) :
    (s.loadPackage message).Lookups := by
  have hconsistent := h.consistent.loadPackage message
  have key : ∀ load packageLoads posted, load.message = message →
      Consistent { s with
        loads := s.loads.alloc load, packageLoads := packageLoads, posted := posted } →
      Lookups { s with
        loads := s.loads.alloc load, packageLoads := packageLoads, posted := posted } := by
    intro load packageLoads posted hmessage hconsistent
    have hkept := loadsKept_alloc s.loads load
    refine ⟨hconsistent, fun i hi => ?_, fun r hr =>
      (h.found r hr).of_kept hkept rfl (h.consistent.posted r hr)⟩
    rcases Nat.lt_succ_iff_lt_or_eq.1 hi with hlt | rfl
    · rw [hkept.message i hlt]
      exact h.keyed i hlt
    · rw [get_alloc_next, hmessage]
      exact hkeyed
  unfold PackageWorker.loadPackage at hconsistent ⊢
  dsimp only at hconsistent ⊢
  split at hconsistent
  next hbusy =>
    rw [if_pos hbusy]
    exact key _ _ _ rfl hconsistent
  next hfree =>
    rw [if_neg hfree]
    exact key _ _ _ rfl hconsistent

theorem settleLoad (h : s.Lookups) (i : ℕ) (loaded : Except CommandThrown PackageFields) :
    (s.settleLoad i loaded).Lookups := by
  have hconsistent := h.consistent.settleLoad i loaded
  unfold PackageWorker.settleLoad at hconsistent ⊢
  dsimp only at hconsistent ⊢
  split at hconsistent
  next hpending =>
    rw [if_pos hpending]
    refine h.of_kept hconsistent ?_ rfl rfl
    dsimp only
    apply loadsKept_modify
    · rfl
    · exact .inl rfl
  next hidle =>
    rw [if_neg hidle]
    exact h

variable {i : ℕ} {rest : List WorkerTask}

theorem finishLoad (h : s.Lookups) (htasks : s.tasks = .finishLoad i :: rest) :
    ({ s with tasks := rest }.finishLoad i).Lookups := by
  have hmem : i ∈ s.tasks.filterMap WorkerTask.finishes := by
    rw [htasks]
    exact List.mem_cons_self
  have hactive := ((h.consistent.finishing i).1 hmem).1
  have hconsistent := h.consistent.finishLoad htasks
  rcases h.consistent.finishLoad_cases htasks with ⟨error, heq⟩ |
    ⟨record, catalog, posts, -, -, heq⟩
  · rw [heq] at hconsistent ⊢
    exact h.of_kept hconsistent (loadsKept_fate (.failed error) hactive.2) rfl rfl
  · rw [heq] at hconsistent ⊢
    exact h.of_kept hconsistent (loadsKept_fate .loaded hactive.2) rfl rfl

/-- A run that has no answer yet, or whose answer is right, is noted. -/
theorem allocRun (h : s.Lookups) (run : PackageRun) (hposted : run.loadsBefore = s.loads.next)
    (hrun : RunFound { s with runs := s.runs.alloc run } s.runs.next) :
    Lookups { s with runs := s.runs.alloc run } := by
  refine ⟨h.consistent.allocRun run hposted, h.keyed, fun r hr => ?_⟩
  rcases Nat.lt_succ_iff_lt_or_eq.1 hr with hlt | rfl
  · exact (h.found r hlt).of_kept (LoadsKept.refl s.loads) (s.runs.get_alloc_of_lt run hlt)
      (h.consistent.posted r hlt)
  · exact hrun

theorem packageForRun (h : s.Lookups) (packageId : Option Text) (command : Text)
    (path : Option Text) : (s.packageForRun packageId command path).Lookups := by
  have hconsistent := h.consistent.packageForRun packageId command path
  unfold PackageWorker.packageForRun at hconsistent ⊢
  cases packageId with
  | none =>
    refine h.allocRun _ rfl fun id missing hid => ?_
    rw [get_alloc_next] at hid
    cases hid
  | some id =>
    dsimp only at hconsistent ⊢
    split at hconsistent
    next hfree =>
      refine h.allocRun _ rfl fun id' missing hid hresult i hi hrecord => ?_
      rw [get_alloc_next] at hid hresult hi
      obtain rfl : id = id' := Option.some.inj hid
      have hmissing := loadedPackage_eq_notLoaded (Option.some.inj hresult)
      refine h.consistent.failed_of_over hrecord hmissing ?_
      -- a load that goes on would be found under the id
      by_contra hopen
      have hactive : s.Active i := ⟨hi, Bool.eq_false_iff.2 hopen⟩
      have hentry := (h.consistent.current id i).2 ⟨hactive, h.keyed i hi id hrecord⟩
      cases hfree.symm.trans hentry
    next i hentry =>
      have hrun : ∀ run : PackageRun, run.result = none →
          RunFound { s with runs := s.runs.alloc run } s.runs.next := by
        intro run hnone id' missing _ hresult
        rw [get_alloc_next, hnone] at hresult
        cases hresult
      have hwaiting := h.allocRun ⟨some id, command, path, s.loads.next, none⟩ rfl (hrun _ rfl)
      split at hconsistent
      next hpending =>
        rw [if_pos hpending]
        refine hwaiting.of_kept hconsistent ?_ rfl rfl
        dsimp only
        apply loadsKept_modify
        · rfl
        · exact .inl rfl
      next hsettled =>
        rw [if_neg hsettled]
        exact hwaiting.of_kept hconsistent (LoadsKept.refl _) rfl rfl

theorem resumeRun (h : s.Lookups) {r : ℕ} (htasks : s.tasks = .resumeRun r i :: rest) :
    ({ s with tasks := rest }.resumeRun r i).Lookups := by
  have hconsistent := h.consistent.resumeRun htasks
  have hwaiting := h.consistent.waiting r i (.inl (htasks ▸ List.mem_cons_self))
  -- the load that it waited for is over
  have hover : (s.loads.get i).fate.isSome = true := by
    have horder := h.consistent.inOrder
    rw [htasks] at horder
    exact horder.1 i rfl
  refine ⟨hconsistent, h.keyed, fun r' hr' => ?_⟩
  by_cases hr : r' = r
  · subst hr
    intro id missing hid hresult j hj hrecord
    unfold PackageWorker.resumeRun at hid hresult hj
    rw [get_modify_self] at hid hresult hj
    have hid : (s.runs.get r').packageId = some id := hid
    obtain rfl := Option.some.inj (hwaiting.named.symm.trans hid)
    have hmissing : s.packages.get (packageLoadKey (s.loads.get i).message) = none := by
      have hresult := Option.some.inj hresult
      rw [hid] at hresult
      split at hresult
      · cases hresult
      · exact loadedPackage_eq_notLoaded hresult
    have hlt := hj.trans_le (h.consistent.posted r' hr')
    refine h.consistent.failed_of_over hrecord hmissing ?_
    rcases hwaiting.only j hj (h.keyed j hlt _ hrecord) with rfl | hj
    · exact hover
    · exact hj
  · refine (h.found r' hr').of_kept ⟨fun _ _ => rfl, fun _ _ _ hfate => hfate⟩ ?_
      (h.consistent.posted r' hr')
    unfold PackageWorker.resumeRun
    dsimp only
    exact s.runs.get_modify_ne _ hr

end Lookups

theorem Lookups.step (h : s.Lookups) {e : PackageEvent}
    (hkeyed : ∀ message, e = .load message → message.Keyed) : (s.step e).Lookups := by
  cases e with
  | load message => exact h.loadPackage (hkeyed message rfl)
  | settle i loaded => exact h.settleLoad i loaded
  | run packageId command path => exact h.packageForRun packageId command path
  | task =>
    unfold PackageWorker.step
    dsimp only
    split
    · exact h
    next htasks => exact h.finishLoad htasks
    next htasks => exact h.resumeRun htasks

theorem lookups_start : start.Lookups where
  consistent := consistent_start
  keyed i hi := absurd hi (Nat.not_lt_zero i)
  found r hr := absurd hr (Nat.not_lt_zero r)

/-! ### The catalog in every state -/

/-- The catalog is that of the registered packages and has one target for each path, a bare name of
a package leads to it, and no run misses a package whose load was posted before and did not fail. -/
structure CatalogExact (localeCompare : Text → Text → Ordering) (s : PackageWorker) : Prop where
  entries : ∀ entry, entry ∈ s.packageCatalog.entries localeCompare ↔
    ∃ id packageRecord, s.packages.get id = some packageRecord ∧
      entry ∈ catalogEntriesForPackage packageRecord
  oneTarget : ∀ e ∈ s.packageCatalog.entries localeCompare,
    ∀ e' ∈ s.packageCatalog.entries localeCompare, e.path = e'.path → e = e'
  resolves : ∀ id packageRecord, s.packages.get id = some packageRecord →
    ∀ command ∈ packageRecord.commands, IsBareName command →
      s.packageFromCatalog command none = .ok (command, packageRecord)
  found : ∀ r < s.runs.next, s.RunFound r

/-- An event in which a load fails changes neither the packages nor the catalog. -/
def FailureKeepsMaps (s : PackageWorker) (e : PackageEvent) : Prop :=
  ∀ i error, (s.loads.get i).fate.isSome = false →
    ((s.step e).loads.get i).fate = some (.failed error) →
      (s.step e).packages = s.packages ∧ (s.step e).packageCatalog = s.packageCatalog

namespace Consistent

variable (h : s.Consistent)

include h

theorem catalogs : Catalogs s.packages.values s.packageCatalog where
  created := h.created
  distinct p hp p' hp' hid := by
    obtain ⟨id, hget⟩ := (s.packages.mem_values p).1 hp
    obtain ⟨id', hget'⟩ := (s.packages.mem_values p').1 hp'
    rw [h.named id p hget, h.named id' p' hget'] at hid
    subst hid
    exact Option.some.inj (hget.symm.trans hget')

theorem packageFromCatalog_bare {packageRecord : PackageRecord}
    (hget : s.packages.get id = some packageRecord) {command : Text}
    (hcommand : command ∈ packageRecord.commands) (hbare : IsBareName command) :
    s.packageFromCatalog command none = .ok (command, packageRecord) := by
  obtain ⟨entry, hresolve, hid, hname⟩ :=
    h.catalogs.resolve_bare ((s.packages.mem_values _).2 ⟨id, hget⟩) hcommand hbare
  unfold packageFromCatalog
  rw [hresolve]
  dsimp only
  rw [hid, h.named id packageRecord hget, hget, hname]

theorem failureKeepsMaps (e : PackageEvent) : s.FailureKeepsMaps e := by
  intro i error hopen hfailed
  cases e with
  | load =>
    unfold PackageWorker.step PackageWorker.loadPackage
    dsimp only
    split <;> exact ⟨rfl, rfl⟩
  | settle =>
    unfold PackageWorker.step PackageWorker.settleLoad
    dsimp only
    split <;> exact ⟨rfl, rfl⟩
  | run =>
    unfold PackageWorker.step PackageWorker.packageForRun
    dsimp only
    split
    · exact ⟨rfl, rfl⟩
    · split
      · exact ⟨rfl, rfl⟩
      · split <;> exact ⟨rfl, rfl⟩
  | task =>
    unfold PackageWorker.step at hfailed ⊢
    dsimp only at hfailed ⊢
    split at hfailed
    · exact ⟨rfl, rfl⟩
    next j rest htasks =>
      rcases h.finishLoad_cases htasks with ⟨_, heq⟩ | ⟨record, catalog, posts, -, -, heq⟩
      · rw [heq]
        exact ⟨rfl, rfl⟩
      · -- the one load that ends here is loaded
        rw [heq] at hfailed
        have hfailed : ((s.loads.modify j fun load =>
            { load with fate := some .loaded }).get i).fate = some (.failed error) := hfailed
        rw [get_modify] at hfailed
        split at hfailed
        · cases hfailed
        rw [hfailed] at hopen
        cases hopen
    · exact ⟨rfl, rfl⟩

end Consistent

theorem Lookups.catalogExact (h : s.Lookups) (localeCompare : Text → Text → Ordering) :
    s.CatalogExact localeCompare where
  entries entry := by
    rw [h.consistent.catalogs.mem_entries_iff]
    constructor
    · rintro ⟨p, hp, hentry⟩
      obtain ⟨id, hget⟩ := (s.packages.mem_values p).1 hp
      exact ⟨id, p, hget, hentry⟩
    · rintro ⟨id, p, hget, hentry⟩
      exact ⟨p, (s.packages.mem_values p).2 ⟨id, hget⟩, hentry⟩
  oneTarget e he e' he' hpath := h.consistent.catalogs.eq_of_path localeCompare he he' hpath
  resolves id packageRecord hget command hcommand hbare :=
    h.consistent.packageFromCatalog_bare hget hcommand hbare
  found := h.found

/-- A run that names the package while its load goes on under another key does not wait. -/
theorem not_runFound_of_not_keyed {message : LoadMessage} (hrecord : message.recordId = .ok id)
    (hkey : packageLoadKey message ≠ id) (command : Text) :
    ¬∀ r < (runAll PackageWorker.step start
        [.load message, .run (some id) command none]).runs.next,
      RunFound (runAll PackageWorker.step start
        [.load message, .run (some id) command none]) r := by
  rw [runAll_cons, runAll_cons, runAll_nil]
  have hload : start.step (.load message) =
      { start with
        loads := start.loads.alloc ⟨message, none, [], none⟩
        packageLoads := start.packageLoads.set (packageLoadKey message) start.loads.next } := rfl
  generalize hs : start.step (.load message) = s at hload ⊢
  have hfree : s.packageLoads.get id = none := by
    rw [hload]
    exact (start.packageLoads.get_set_ne _ (Ne.symm hkey)).trans rfl
  have hmissing : s.loadedPackage id command = .error (.notLoaded id) := by
    rw [hload]
    rfl
  have hrun : s.step (.run (some id) command none) =
      { s with runs := (s.runs.alloc
          ⟨some id, command, none, s.loads.next, some (.error (.notLoaded id))⟩) } := by
    show s.packageForRun (some id) command none = _
    unfold packageForRun
    simp only [hfree, hmissing]
  have hnext : s.runs.next = 0 := by
    rw [hload]
    rfl
  have hlt : 0 < s.loads.next := by
    rw [hload]
    exact Nat.zero_lt_one
  have hself : s.loads.get 0 = ⟨message, none, [], none⟩ := by
    rw [hload]
    exact get_alloc_next start.loads _
  intro hfound
  rw [hrun] at hfound
  have hnew := s.runs.get_alloc_next
    ⟨some id, command, none, s.loads.next, some (.error (.notLoaded id))⟩
  rw [hnext] at hnew
  obtain ⟨error, herror⟩ :=
    hfound 0 (Nat.succ_pos _) id id (by rw [hnew]) (by rw [hnew]) 0 (by rw [hnew]; exact hlt)
    (by rw [hself]; exact hrecord)
  rw [hself] at herror
  cases herror

/-- A package is loaded from a url with blanks around its id; a run names it before the load is
over. -/
def paddedLoad : List PackageEvent :=
  [.load ⟨⟨some "load-1".toList, none⟩, some ⟨some " p ".toList, none⟩, .browser none⟩,
    .run (some "p".toList) "tool".toList none,
    .settle 0 (.ok ⟨"webc-package".toList, ["tool".toList], some "webc-package".toList, none,
      "tool".toList⟩), .task]

end PackageWorker

end WasmHost
