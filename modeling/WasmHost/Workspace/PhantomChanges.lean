import WasmHost.Workspace.IndexedDb
import WasmHost.Workspace.TreeInvariant

/-!
# Changes that were reported to have failed

A call of the store in the database changes the memory store first, and then persists it. Where that
fails the caller is told so, but the change stays in memory, and every later read sees it. A
database that could not be opened the first time stays out of reach, and so does the tree in it.

* `IndexedDb.NoPhantom`: what was to be seen before a call is what is to be seen after it.
* `IndexedDb.noPhantom_iff`: exactly when a call that rejects leaves it so.
-/

namespace WasmHost

open IndexedDbMethod OrdMap

/-! ### Steps of the methods -/

namespace IndexedDbM

variable {α : Type} {r : IndexedDbRun} {E : StoreFault → IndexedDbRun → Prop}

theorem ends_settle {x : Except StoreFault α} {Q : α → IndexedDbRun → Prop} :
    (settle x).Ends r Q E ↔ (∀ a, x = .ok a → Q a r) ∧ ∀ e, x = .error e → E e r :=
  ExceptT.ends_mk_pure

theorem ends_modifyDb {f : IndexedDb → IndexedDb} {Q : Unit → IndexedDbRun → Prop} :
    (modifyDb f).Ends r Q E ↔ Q () ⟨f r.db, r.clock⟩ := Iff.rfl

theorem ends_onMemory {method : StoreM α} {Q : α → IndexedDbRun → Prop} :
    (onMemory method).Ends r Q E ↔
      method.Ends ⟨r.db.memory, r.clock⟩
        (fun a run => Q a ⟨{ r.db with memory := run.store }, run.clock⟩)
        fun e run => E e ⟨{ r.db with memory := run.store }, run.clock⟩ := by
  unfold onMemory ExceptT.Ends ExceptT.mk
  dsimp only
  rcases method ⟨r.db.memory, r.clock⟩ with ⟨e | a, run⟩ <;> exact Iff.rfl

end IndexedDbM

namespace IndexedDb

section

variable (engine : Base64Engine) (db : IndexedDb)

/-! ### What is to be seen -/

/-- What the promise of the database settles to: it is kept once it is there. -/
def opens (backend : Backend) : Except StoreFault Unit := db.dbPromise.getD backend.opening.settled

/-- The tree that a call works on, and the readings that are left for it. -/
inductive Finds (backend : Backend) (clock : Clock) : Store → Clock → Prop
  | loaded (h : db.loaded = true) : Finds backend clock db.memory clock
  | fresh (h : db.loaded = false) (hopen : db.opens backend = .ok ())
      (hread : backend.reading = .complete) (hstored : db.stored = none) :
      Finds backend clock db.memory clock
  | stored {snapshot : Option SnapshotObject} {run : StoreRun} (h : db.loaded = false)
      (hopen : db.opens backend = .ok ()) (hread : backend.reading = .complete)
      (hstored : db.stored = some snapshot)
      (hload : StoreMethod.loadSnapshot engine snapshot ⟨db.memory, clock⟩ = (.ok (), run)) :
      Finds backend clock run.store run.clock

/-- A tree that a read can see. -/
def Readable (tree : Store) : Prop :=
  ∃ backend clock run,
    IndexedDbMethod.view engine backend (fun s => .ok s) ⟨db, clock⟩ = (.ok tree, run)

/-- Whatever is to be seen afterwards was to be seen before, and where there was something to be
seen there still is. -/
structure NoPhantom (after : IndexedDb) : Prop where
  seen : ∀ tree', after.Readable engine tree' → ∃ tree, db.Readable engine tree ∧ tree.Same tree'
  reachable : (∃ tree, db.Readable engine tree) → ∃ tree', after.Readable engine tree'

/-- The store after `load`. -/
def after (tree : Store) : IndexedDb := ⟨tree, true, some (.ok ()), db.stored⟩

end

variable {engine : Base64Engine} {localeLe : Text → Text → Bool} {db : IndexedDb} {op : StoreOp}

/-- A store that has been loaded has its database, and its memory is in order. -/
structure Settled (db : IndexedDb) : Prop where
  memory : db.memory.Sound
  opened : db.loaded = true → db.dbPromise = some (.ok ())

theorem settled_eq_ok_iff {outcome : TransactionOutcome} {action : String} :
    outcome.settled action = .ok () ↔ outcome = .complete := by
  cases outcome <;> simp [TransactionOutcome.settled, indexedDbError]

variable {backend : Backend} {clock clock' : Clock} {tree memory : Store}

theorem Finds.unique {clock₁ clock₂ : Clock} {tree₁ tree₂ : Store}
    (h₁ : db.Finds engine backend clock tree₁ clock₁)
    (h₂ : db.Finds engine backend clock tree₂ clock₂) : tree₁ = tree₂ ∧ clock₁ = clock₂ := by
  cases h₁ with
  | loaded h =>
    cases h₂ with
    | loaded => exact ⟨rfl, rfl⟩
    | fresh h' | stored h' => rw [h] at h'; cases h'
  | fresh h hopen hread hstored =>
    cases h₂ with
    | loaded h' => rw [h] at h'; cases h'
    | fresh => exact ⟨rfl, rfl⟩
    | stored _ _ _ hstored' _ => rw [hstored] at hstored'; cases hstored'
  | stored h hopen hread hstored hload =>
    cases h₂ with
    | loaded h' => rw [h] at h'; cases h'
    | fresh _ _ _ hstored' => rw [hstored] at hstored'; cases hstored'
    | stored _ _ _ hstored' hload' =>
      rw [hstored] at hstored'
      cases hstored'
      rw [hload] at hload'
      obtain rfl := (Prod.mk.inj hload').2
      exact ⟨rfl, rfl⟩

theorem Settled.sound_of_finds (h : db.Settled)
    (hfinds : db.Finds engine backend clock tree clock') :
    tree.Sound := by
  cases hfinds with
  | loaded | fresh => exact h.memory
  | stored _ _ _ _ hload =>
    exact h.memory.accepts (h.memory.toValid.accepts_of_callOp
      (o := ⟨clock, .importSnapshot _⟩) hload)

/-! ### What the methods do -/

theorem ends_openDatabase {r : IndexedDbRun} {Q : Unit → IndexedDbRun → Prop}
    {E : StoreFault → IndexedDbRun → Prop} :
    (openDatabase backend).Ends r Q E ↔
      (r.db.opens backend = .ok () →
        Q () ⟨{ r.db with dbPromise := some (r.db.opens backend) }, r.clock⟩) ∧
        ∀ e, r.db.opens backend = .error e →
          E e ⟨{ r.db with dbPromise := some (r.db.opens backend) }, r.clock⟩ := by
  unfold openDatabase
  rw [ExceptT.ends_bind, ExceptT.ends_get, ExceptT.ends_bind, IndexedDbM.ends_modifyDb,
    IndexedDbM.ends_settle]
  exact and_congr_left' ⟨fun h => h (), fun h _ => h⟩

theorem Settled.ends_load (h : db.Settled) (engine : Base64Engine) (backend : Backend)
    (clock : Clock) :
    (load engine backend).Ends ⟨db, clock⟩
      (fun _ r => ∃ tree, db.Finds engine backend clock tree r.clock ∧ r.db = db.after tree)
      fun _ r => db.loaded = false ∧
        (∀ tree clock', ¬db.Finds engine backend clock tree clock') ∧
        r.db = { db with dbPromise := some (db.opens backend) } := by
  unfold load
  rw [ExceptT.ends_bind, ExceptT.ends_get, ExceptT.ends_ite]
  refine ⟨fun hloaded => ?_, fun hloaded => ?_⟩
  · refine ⟨db.memory, .loaded hloaded, ?_⟩
    obtain ⟨memory, loaded, dbPromise, stored⟩ := db
    obtain rfl : loaded = true := hloaded
    obtain rfl : dbPromise = some (.ok ()) := h.opened rfl
    trivial
  have hfalse : db.loaded = false := by simpa using hloaded
  rw [ExceptT.ends_bind, ends_openDatabase]
  refine ⟨fun hopen => ?_, fun e hopen => ⟨hfalse, ?_, rfl⟩⟩
  swap
  · rintro tree clock' (hload | ⟨-, hok⟩ | ⟨-, hok⟩)
    · exact hloaded hload
    · rw [hopen] at hok; cases hok
    · rw [hopen] at hok; cases hok
  rw [ExceptT.ends_bind, IndexedDbM.ends_settle]
  refine ⟨fun _ hread => ?_, fun e hread => ⟨hfalse, ?_, rfl⟩⟩
  swap
  · rintro tree clock' (hload | ⟨-, -, hok⟩ | ⟨-, -, hok⟩)
    · exact hloaded hload
    · rw [settled_eq_ok_iff.2 hok] at hread; cases hread
    · rw [settled_eq_ok_iff.2 hok] at hread; cases hread
  have hcomplete := settled_eq_ok_iff.1 hread
  cases hstored : db.stored with
  | none =>
    refine ⟨db.memory, .fresh hfalse hopen hcomplete hstored, ?_⟩
    rw [after, ← hopen]
  | some snapshot =>
    rw [ExceptT.ends_bind, IndexedDbM.ends_onMemory]
    have hends := Store.ends_loadSnapshot db.memory engine clock snapshot
    unfold ExceptT.Ends at hends ⊢
    cases hrun : StoreMethod.loadSnapshot engine snapshot ⟨db.memory, clock⟩ with
    | mk result run =>
      rw [hrun] at hends
      cases result with
      | ok =>
        refine ⟨run.store, .stored hfalse hopen hcomplete hstored hrun, ?_⟩
        rw [after, ← hopen]
      | error =>
        refine ⟨hfalse, ?_, ?_⟩
        · rintro tree clock' (hload | ⟨-, -, -, hnone⟩ | ⟨-, -, -, hsome, hload⟩)
          · exact hloaded hload
          · rw [hstored] at hnone; cases hnone
          · rw [hstored] at hsome
            cases hsome
            rw [hrun] at hload
            cases hload
        · -- an import that is refused changes nothing
          have hsame : run.store = db.memory := by
            change db.memory.Rejects clock (.importSnapshot snapshot) run.store at hends
            generalize run.store = memory at hends
            cases hends
            rfl
          simp only [hsame, hstored]

/-- How a call ends, and what it leaves. -/
inductive Outcome (engine : Base64Engine) (localeLe : Text → Text → Bool) (db : IndexedDb)
    (c : IndexedDbCall) : Except StoreFault Unit → IndexedDb → Prop
  | notLoaded (e : StoreFault) (h : db.loaded = false)
      (hnone : ∀ tree clock', ¬db.Finds engine c.backend c.clock tree clock') :
      Outcome engine localeLe db c (.error e) { db with dbPromise := some (db.opens c.backend) }
  | rejected (e : StoreFault) {tree memory : Store} {clock' : Clock}
      (hfinds : db.Finds engine c.backend c.clock tree clock')
      (hrejects : tree.Rejects clock' c.op memory)
      (hrefused : ∀ s', ¬tree.Accepts engine clock' c.op s') :
      Outcome engine localeLe db c (.error e) (db.after memory)
  | notWritten (e : StoreFault) {tree memory : Store} {clock' : Clock}
      (hfinds : db.Finds engine c.backend c.clock tree clock')
      (haccepts : tree.Accepts engine clock' c.op memory) (hwrite : c.backend.writing ≠ .complete) :
      Outcome engine localeLe db c (.error e) (db.after memory)
  | written {tree memory : Store} {clock' : Clock}
      (hfinds : db.Finds engine c.backend c.clock tree clock')
      (haccepts : tree.Accepts engine clock' c.op memory) (hwrite : c.backend.writing = .complete) :
      Outcome engine localeLe db c (.ok ())
        { db.after memory with
          stored := some (some (StoreMethod.exportSnapshot localeLe memory)) }

/-- A call has one of these outcomes. -/
theorem Settled.outcome_call (h : db.Settled) (engine : Base64Engine)
    (localeLe : Text → Text → Bool) (c : IndexedDbCall) :
    db.Outcome engine localeLe c (db.call engine localeLe c).1
      (db.call engine localeLe c).2.db := by
  have hends : (perform engine localeLe c.backend c.op).Ends ⟨db, c.clock⟩
      (fun _ r => db.Outcome engine localeLe c (.ok ()) r.db)
      fun e r => db.Outcome engine localeLe c (.error e) r.db := by
    unfold perform
    rw [ExceptT.ends_bind]
    refine (h.ends_load engine c.backend c.clock).imp ?_ ?_
    · rintro _ ⟨_, clock'⟩ ⟨tree, hfinds, rfl⟩
      have htree := (h.sound_of_finds hfinds).toValid
      rw [ExceptT.ends_bind, IndexedDbM.ends_onMemory]
      have hrun := htree.ends_runOp engine clock' c.op
      have hrefused : ∀ {e run}, Store.runOp engine c.op ⟨tree, clock'⟩ = (.error e, run) →
          ∀ s', ¬tree.Accepts engine clock' c.op s' := by
        intro e run hrun s' haccepts
        obtain ⟨r, hr⟩ := haccepts.callOp_eq_ok
        rw [Store.callOp, hrun] at hr
        cases hr
      change (Store.runOp engine c.op).Ends ⟨tree, clock'⟩ _ _
      unfold ExceptT.Ends at hrun ⊢
      rcases hresult : Store.runOp engine c.op ⟨tree, clock'⟩ with ⟨e | _, run⟩
      · rw [hresult] at hrun
        exact .rejected e hfinds hrun (hrefused hresult)
      · rw [hresult] at hrun
        show (persist localeLe c.backend).Ends _ _ _
        unfold persist
        rw [ExceptT.ends_bind, ends_openDatabase]
        refine ⟨fun _ => ?_, nofun⟩
        rw [ExceptT.ends_bind, IndexedDbM.ends_settle]
        refine ⟨fun _ hwrite => ?_, fun e hwrite => ?_⟩
        · rw [IndexedDbM.ends_modifyDb]
          exact .written hfinds hrun (settled_eq_ok_iff.1 hwrite)
        · refine .notWritten e hfinds hrun fun hcomplete => ?_
          rw [settled_eq_ok_iff.2 hcomplete] at hwrite
          cases hwrite
    · rintro e ⟨_, _⟩ ⟨hloaded, hnone, rfl⟩
      exact .notLoaded e hloaded hnone
  unfold ExceptT.Ends at hends
  unfold call
  generalize perform engine localeLe c.backend c.op ⟨db, c.clock⟩ = result at hends ⊢
  rcases result with ⟨e | _, r⟩ <;> exact hends

/-! ### Runs -/

theorem Settled.outcome (h : db.Settled) {c : IndexedDbCall} {result : Except StoreFault Unit}
    {db' : IndexedDb} (houtcome : db.Outcome engine localeLe c result db') : db'.Settled := by
  cases houtcome with
  | notLoaded e hloaded hnone =>
    exact ⟨h.memory, fun htrue => by rw [hloaded] at htrue; cases htrue⟩
  | rejected e hfinds hrejects hrefused =>
    exact ⟨(h.sound_of_finds hfinds).rejects hrejects, fun _ => rfl⟩
  | notWritten _ hfinds haccepts | written hfinds haccepts =>
    exact ⟨(h.sound_of_finds hfinds).accepts haccepts, fun _ => rfl⟩

theorem Settled.step (h : db.Settled) (e : IndexedDbEvent) :
    (db.step engine localeLe e).Settled := by
  cases e with
  | call c => exact h.outcome (h.outcome_call engine localeLe c)
  | read backend clock =>
    have hload := h.ends_load engine backend clock
    unfold ExceptT.Ends at hload
    unfold IndexedDb.step
    dsimp only
    generalize load engine backend ⟨db, clock⟩ = result at hload ⊢
    rcases result with ⟨e | _, r⟩
    · obtain ⟨hloaded, -, hdb⟩ := hload
      rw [hdb]
      exact ⟨h.memory, fun htrue => by rw [hloaded] at htrue; cases htrue⟩
    · obtain ⟨tree, hfinds, hdb⟩ := hload
      rw [hdb]
      exact ⟨h.sound_of_finds hfinds, fun _ => rfl⟩
  | written => exact ⟨h.memory, h.opened⟩

theorem settled_new {hasFactory : Bool} {stored : Option (Option SnapshotObject)}
    (h : new engine clock hasFactory stored = .ok db) : db.Settled := by
  obtain ⟨memory, hmemory, h⟩ := Except.bind_eq_ok_iff.1 h
  split at h
  · obtain rfl := Except.ok.inj h
    exact ⟨Store.sound_newStore hmemory, nofun⟩
  · cases h

/-! ### The trees that can be read -/

theorem Settled.readable_iff (h : db.Settled) :
    db.Readable engine tree ↔
      ∃ backend clock clock', db.Finds engine backend clock tree clock' := by
  have hview : ∀ (backend : Backend) (clock : Clock),
      (view engine backend fun s => .ok s).Ends ⟨db, clock⟩
        (fun tree r => db.Finds engine backend clock tree r.clock)
        fun _ _ => ∀ tree clock', ¬db.Finds engine backend clock tree clock' := by
    intro backend clock
    unfold view
    rw [ExceptT.ends_bind]
    refine (h.ends_load engine backend clock).imp ?_ fun _ _ hnone => hnone.2.1
    rintro _ ⟨_, clock'⟩ ⟨tree, hfinds, rfl⟩
    exact hfinds
  constructor
  · rintro ⟨backend, clock, run, hrun⟩
    have hends := hview backend clock
    rw [ExceptT.Ends, hrun] at hends
    exact ⟨backend, clock, run.clock, hends⟩
  · rintro ⟨backend, clock, clock', hfinds⟩
    refine ⟨backend, clock, ?_⟩
    have hends := hview backend clock
    unfold ExceptT.Ends at hends
    generalize view engine backend (fun s => .ok s) ⟨db, clock⟩ = result at hends ⊢
    rcases result with ⟨e | tree', run⟩
    · exact absurd hfinds (hends tree clock')
    · rw [(hfinds.unique hends).1]
      exact ⟨run, rfl⟩

/-- What is found is what is in the memory, once it has been loaded. -/
theorem finds_of_loaded (hloaded : db.loaded = true)
    (h : db.Finds engine backend clock tree clock') :
    tree = db.memory := by
  cases h with
  | loaded | fresh => rfl
  | stored h => rw [hloaded] at h; cases h

/-- All that can be read are the same files and directories, up to the time of the root. -/
theorem Settled.agree_of_readable (h : db.Settled) {tree' : Store} (htree : db.Readable engine tree)
    (htree' : db.Readable engine tree') :
    (∀ k, tree'.files.get k = tree.files.get k) ∧
      ∀ k, k ≠ [] → tree'.directories.get k = tree.directories.get k := by
  obtain ⟨backend, clock, rest, hfinds⟩ := h.readable_iff.1 htree
  obtain ⟨backend', clock', rest', hfinds'⟩ := h.readable_iff.1 htree'
  cases hfinds with
  | loaded hloaded =>
    rw [finds_of_loaded hloaded hfinds']
    exact ⟨fun _ => rfl, fun _ _ => rfl⟩
  | fresh hloaded _ _ hstored =>
    cases hfinds' with
    | loaded hloaded' => rw [hloaded] at hloaded'; cases hloaded'
    | fresh => exact ⟨fun _ => rfl, fun _ _ => rfl⟩
    | stored _ _ _ hstored' _ => rw [hstored] at hstored'; cases hstored'
  | @stored snapshot run hloaded _ _ hstored hload =>
    cases hfinds' with
    | loaded hloaded' => rw [hloaded] at hloaded'; cases hloaded'
    | fresh _ _ _ hstored' => rw [hstored] at hstored'; cases hstored'
    | @stored snapshot' run' _ _ _ hstored' hload' =>
      rw [hstored] at hstored'
      cases hstored'
      have haccepts :=
        h.memory.toValid.accepts_of_callOp (o := ⟨clock, .importSnapshot snapshot⟩) hload
      have haccepts' :=
        h.memory.toValid.accepts_of_callOp (o := ⟨clock', .importSnapshot snapshot⟩) hload'
      generalize run.store = store at haccepts
      generalize run'.store = store' at haccepts'
      cases haccepts with
      | @importSnapshot _ directories files time _ _ hdirectories hfiles _ =>
        cases haccepts' with
        | importSnapshot _ _ hdirectories' hfiles' _ =>
          -- the two readings differ only in the time of the root they start with
          obtain rfl := Except.ok.inj (hdirectories.symm.trans hdirectories')
          obtain rfl := Except.ok.inj (hfiles.symm.trans hfiles')
          refine ⟨fun _ => rfl, fun k hk => ?_⟩
          exact get_setAll_congr (by rw [get_set_ne _ _ hk, get_set_ne _ _ hk]) _

/-- After a call that has loaded the tree, its memory is all there is to be seen. -/
theorem readable_after_iff (h : memory.Sound) :
    (db.after memory).Readable engine tree ↔ tree = memory := by
  have hsettled : (db.after memory).Settled := ⟨h, fun _ => rfl⟩
  rw [hsettled.readable_iff]
  constructor
  · rintro ⟨backend, clock, clock', hfinds⟩
    exact finds_of_loaded rfl hfinds
  · rintro rfl
    exact ⟨⟨.success, .complete, .complete⟩, fun _ => none, fun _ => none, .loaded rfl⟩

theorem noPhantom_after_iff (h : memory.Sound) :
    db.NoPhantom engine (db.after memory) ↔ ∃ tree, db.Readable engine tree ∧ tree.Same memory := by
  constructor
  · intro hno
    exact hno.seen memory ((readable_after_iff h).2 rfl)
  · rintro ⟨tree, htree, hsame⟩
    refine ⟨fun tree' htree' => ?_, fun _ => ⟨memory, (readable_after_iff h).2 rfl⟩⟩
    rw [(readable_after_iff h).1 htree']
    exact ⟨tree, htree, hsame⟩

/-! ### A database that cannot be opened -/

/-- The memory store takes what is stored, at some time. -/
def Importable (engine : Base64Engine) (stored : Option (Option SnapshotObject)) : Prop :=
  ∀ snapshot, stored = some snapshot → ∃ clock run,
    StoreMethod.loadSnapshot engine snapshot ⟨Store.empty 0, clock⟩ = (.ok (), run)

/-- Whether a snapshot is taken does not depend on the store that it replaces. -/
theorem exists_loadSnapshot {s : Store} (s' : Store) (hs : s.Valid)
    {snapshot : Option SnapshotObject} {run : StoreRun}
    (h : StoreMethod.loadSnapshot engine snapshot ⟨s, clock⟩ = (.ok (), run)) :
    ∃ run', StoreMethod.loadSnapshot engine snapshot ⟨s', clock⟩ = (.ok (), run') := by
  have haccepts : s.Accepts engine clock (.importSnapshot snapshot) run.store :=
    hs.accepts_of_callOp (show s.callOp engine ⟨clock, .importSnapshot snapshot⟩ = _ from h)
  generalize run.store = store at haccepts
  cases haccepts with
  | importSnapshot htime hversion hdirectories hfiles hgraph =>
    have himport : s'.Accepts engine clock (.importSnapshot (some _)) _ :=
      .importSnapshot htime hversion hdirectories hfiles hgraph
    exact himport.callOp_eq_ok

section

variable (h : db.Settled)
include h

theorem Settled.exists_readable_iff (hpromise : db.dbPromise = none) :
    (∃ tree, db.Readable engine tree) ↔ Importable engine db.stored := by
  have hloaded : db.loaded = false := by
    by_contra hloaded
    have hopened := h.opened (by simpa using hloaded)
    rw [hpromise] at hopened
    cases hopened
  have hopens : db.opens ⟨.success, .complete, .complete⟩ = .ok () := by
    rw [opens, hpromise]
    rfl
  constructor
  · rintro ⟨tree, htree⟩ snapshot hstored
    obtain ⟨backend, clock, clock', hfinds⟩ := h.readable_iff.1 htree
    cases hfinds with
    | loaded htrue => rw [hloaded] at htrue; cases htrue
    | fresh _ _ _ hnone => rw [hstored] at hnone; cases hnone
    | stored _ _ _ hstored' hload =>
      rw [hstored] at hstored'
      cases hstored'
      exact ⟨clock, exists_loadSnapshot _ h.memory.toValid hload⟩
  · intro himportable
    cases hstored : db.stored with
    | none =>
      exact ⟨db.memory, h.readable_iff.2 ⟨_, fun _ => none, _, .fresh hloaded hopens rfl hstored⟩⟩
    | some snapshot =>
      obtain ⟨clock, run, hload⟩ := himportable snapshot hstored
      obtain ⟨run', hload'⟩ := exists_loadSnapshot db.memory (Store.valid_empty 0) hload
      exact ⟨run'.store, h.readable_iff.2 ⟨_, clock, _, .stored hloaded hopens rfl hstored hload'⟩⟩

/-- A promise that has settled to a success, or was there before, hides nothing. -/
theorem Settled.noPhantom_opened (hloaded : db.loaded = false) (backend : Backend)
    (hopened : db.dbPromise = none → backend.opening = .success) :
    db.NoPhantom engine { db with dbPromise := some (db.opens backend) } := by
  have hsettled : Settled { db with dbPromise := some (db.opens backend) } :=
    ⟨h.memory, fun htrue => by rw [hloaded] at htrue; cases htrue⟩
  have hopens : db.opens backend = db.opens { backend with opening := .success } ∧
      ∀ backend', db.opens backend' = .ok () → db.opens backend = .ok () := by
    unfold opens
    cases hpromise : db.dbPromise with
    | none =>
      rw [hopened hpromise]
      exact ⟨rfl, fun _ _ => rfl⟩
    | some => exact ⟨rfl, fun _ => id⟩
  have hiff : ∀ tree, Readable engine { db with dbPromise := some (db.opens backend) } tree ↔
      db.Readable engine tree := by
    intro tree
    rw [hsettled.readable_iff, h.readable_iff]
    constructor
    · rintro ⟨backend', clock, clock', hfinds⟩
      refine ⟨{ backend with reading := backend'.reading }, clock, clock', ?_⟩
      cases hfinds with
      | loaded htrue => rw [hloaded] at htrue; cases htrue
      | fresh _ hopen hread hstored => exact .fresh hloaded hopen hread hstored
      | stored _ hopen hread hstored hload => exact .stored hloaded hopen hread hstored hload
    · rintro ⟨backend', clock, clock', hfinds⟩
      refine ⟨backend', clock, clock', ?_⟩
      cases hfinds with
      | loaded htrue => rw [hloaded] at htrue; cases htrue
      | fresh _ hopen hread hstored => exact .fresh hloaded (hopens.2 _ hopen) hread hstored
      | stored _ hopen hread hstored hload =>
        exact .stored hloaded (hopens.2 _ hopen) hread hstored hload
  refine ⟨fun tree' htree' => ⟨tree', (hiff tree').1 htree', Store.Same.refl _⟩, ?_⟩
  rintro ⟨tree, htree⟩
  exact ⟨tree, (hiff tree).2 htree⟩

/-- A promise that has settled to a failure hides everything. -/
theorem Settled.not_readable_failed (hloaded : db.loaded = false)
    (hpromise : db.dbPromise = none) (hopening : backend.opening ≠ .success) (tree : Store) :
    ¬Readable engine { db with dbPromise := some (db.opens backend) } tree := by
  have hsettled : Settled { db with dbPromise := some (db.opens backend) } :=
    ⟨h.memory, fun htrue => by rw [hloaded] at htrue; cases htrue⟩
  have hfails :
      ∀ backend', opens { db with dbPromise := some (db.opens backend) } backend' ≠ .ok () := by
    intro backend' hok
    change db.dbPromise.getD backend.opening.settled = .ok () at hok
    rw [hpromise] at hok
    cases hresult : backend.opening with
    | success => exact hopening hresult
    | _ => rw [hresult] at hok; cases hok
  rw [hsettled.readable_iff]
  rintro ⟨backend', clock, clock', hfinds⟩
  cases hfinds with
  | loaded htrue => rw [hloaded] at htrue; cases htrue
  | fresh _ hopen _ _ | stored _ hopen _ _ _ => exact hfails _ hopen

/-! ### Calls that change nothing -/

/-- A snapshot has exactly the entries of a tree, where the last one for a key counts, and the root
is as old as the import if it has none. -/
def Lists (engine : Base64Engine) (snapshot : SnapshotObject) (time : ℕ) (tree : Store) : Prop :=
  ∃ directories files, snapshot.directories.mapM Store.loadDirectory = .ok directories ∧
    snapshot.files.mapM (StoreMethod.loadFileObject engine) = .ok files ∧
    (∀ k, tree.directories.get k =
      OrdMap.lastOf (([], directoryRecord [] time) :: directories) k) ∧
    ∀ k, tree.files.get k = OrdMap.lastOf files k

/-- A call that writes what is there already. -/
def Idle (engine : Base64Engine) (db : IndexedDb) (tree : Store) (clock : Clock) : StoreOp → Prop
  | .writeFile path content => ∃ key bytes time, normalizeWorkspacePath path = .ok key ∧
      StoreMethod.toBytes content = .ok bytes ∧ nonNegativeTime (clock 0) = .ok time ∧
      tree.files.get key = some ⟨bytes, time, workspacePath key⟩
  | .createDirectory path _ => ∃ key, normalizeWorkspacePath path = .ok key ∧
      tree.directories.has key = true
  | .importSnapshot (some snapshot) => ∃ seen time, db.Readable engine seen ∧
      nonNegativeTime (clock 0) = .ok time ∧ Lists engine snapshot time seen
  | _ => False

/-- A call that is accepted leaves something that was to be seen exactly when it is idle. -/
theorem Settled.seen_accepts_iff (htree : db.Readable engine tree)
    (hvalid : tree.Valid) (haccepts : tree.Accepts engine clock op memory) :
    (∃ seen, db.Readable engine seen ∧ seen.Same memory) ↔ db.Idle engine tree clock op := by
  -- what is to be seen is the tree, up to the time of the root
  have hfiles : ∀ {seen}, db.Readable engine seen → ∀ k, seen.files.get k = tree.files.get k :=
    fun hseen => (h.agree_of_readable htree hseen).1
  have hdirectories : ∀ {seen}, db.Readable engine seen → ∀ k, k ≠ [] →
      seen.directories.has k = tree.directories.has k := by
    intro seen hseen k hk
    rw [has, has, (h.agree_of_readable htree hseen).2 k hk]
  cases haccepts with
  | @writeFile path key content bytes time hkey hne hdir hparent hbytes htime =>
    constructor
    · rintro ⟨seen, hseen, hsame⟩
      refine ⟨key, bytes, time, hkey, hbytes, htime, ?_⟩
      rw [← hfiles hseen, ← hsame.files, get_set_self]
    · rintro ⟨key', bytes', time', hkey', hbytes', htime', hget⟩
      cases hkey.symm.trans hkey'
      cases hbytes.symm.trans hbytes'
      cases htime.symm.trans htime'
      refine ⟨tree, htree, fun _ => rfl, fun k => ?_⟩
      rw [get_set]
      split
      next hk => rw [hk, hget]
      · rfl
  | @deleteFile path key hkey hfile =>
    refine iff_of_false ?_ id
    rintro ⟨seen, hseen, hsame⟩
    have hgone := hsame.files key
    rw [get_delete_self, hfiles hseen, eq_comm, ← has_eq_false_iff, hfile] at hgone
    cases hgone
  | rootDirectory hkey =>
    exact iff_of_true ⟨tree, htree, Store.Same.refl _⟩ ⟨[], hkey, hvalid.root⟩
  | @createDirectory path key time hkey hne hfile hparent hdir htime =>
    refine iff_of_false ?_ ?_
    · rintro ⟨seen, hseen, hsame⟩
      have hnew := hsame.has_directories key
      rw [hdirectories hseen key hne, hdir] at hnew
      simp at hnew
    · rintro ⟨key', hkey', hhas⟩
      cases hkey.symm.trans hkey'
      rw [hdir] at hhas
      cases hhas
  | @ensureDirectory path key times hkey hne hfiles' htimes =>
    have hcanonical : CanonicalKey key :=
      (canonicalPath_of_normalizeWorkspacePath hkey).resolve_left hne
    constructor
    · rintro ⟨seen, hseen, hsame⟩
      refine ⟨key, hkey, ?_⟩
      by_contra hno
      have hnew :
          (tree.withDirectories (tree.missing (Store.pathsTo key)) times).directories.has key =
          true := Store.has_withDirectories.2 (.inl (Store.mem_missing.2
            ⟨Store.mem_pathsTo_self hcanonical, by simpa using hno⟩))
      rw [hsame.has_directories, hdirectories hseen key hne] at hnew
      exact hno hnew
    · rintro ⟨key', hkey', hhas⟩
      cases hkey.symm.trans hkey'
      have hnone : tree.missing (Store.pathsTo key) = [] := by
        refine List.filter_eq_nil_iff.2 fun k hk => ?_
        rcases Store.atOrBelow_of_mem_pathsTo hk hcanonical with rfl | hbelow
        · simp [hhas]
        · simp [hvalid.has_of_below hbelow (.inl hhas)]
      rw [hnone]
      exact ⟨tree, htree, Store.Same.refl _⟩
  | @deleteDirectory path key recursive hkey hne hdir hempty =>
    refine iff_of_false ?_ id
    rintro ⟨seen, hseen, hsame⟩
    have hgone := hsame.has_directories key
    rw [hdirectories hseen key hne, hdir] at hgone
    simp [Store.deleteDirectoryTree] at hgone
  | @renameFile fromPath toPath source target record time hmovable hfile htime =>
    refine iff_of_false ?_ id
    rintro ⟨seen, hseen, hsame⟩
    have hgone := hsame.files source
    have hne : source ≠ target := by
      rintro rfl
      have hfree := hmovable.file_free
      rw [has_of_get hfile] at hfree
      cases hfree
    rw [get_set_ne _ _ hne, get_delete_self, hfiles hseen, hfile] at hgone
    cases hgone
  | @renameDirectory fromPath toPath source target s' hmovable hfile hdir hinside htimes hmoved =>
    refine iff_of_false ?_ id
    rintro ⟨seen, hseen, hsame⟩
    have hold := hsame.has_directories source
    rw [hdirectories hseen source hmovable.source_ne, hdir, hmoved.has_directories] at hold
    exact hvalid.not_has_moveDirectory hdir ⟨hmovable.directory_free, hmovable.file_free⟩ 0 hold
  | @importSnapshot snapshot directories files time htime hversion hloadDirs hloadFiles hgraph =>
    have hlists : ∀ seen : Store, Lists engine snapshot time seen ↔ seen.Same
        ⟨(empty.set [] (directoryRecord [] time)).setAll directories, ofList files⟩ := by
      intro seen
      have hdirectory : ∀ k, ((empty.set [] (directoryRecord [] time)).setAll directories).get k =
          lastOf (([], directoryRecord [] time) :: directories) k := by
        intro k
        rw [get_setAll, get_set, lastOf_cons]
        rfl
      have hfile : ∀ k, (ofList files).get k = lastOf files k := by
        intro k
        rw [ofList, get_setAll, get_empty, Option.or_none]
      constructor
      · rintro ⟨directories', files', hload, hload', hdirs, hfls⟩
        cases hloadDirs.symm.trans hload
        cases hloadFiles.symm.trans hload'
        exact ⟨fun k => (hdirectory k).trans (hdirs k).symm, fun k => (hfile k).trans (hfls k).symm⟩
      · intro hsame
        exact ⟨directories, files, hloadDirs, hloadFiles,
          fun k => (hsame.directories k).symm.trans (hdirectory k),
          fun k => (hsame.files k).symm.trans (hfile k)⟩
    constructor
    · rintro ⟨seen, hseen, hsame⟩
      exact ⟨seen, time, hseen, htime, (hlists seen).2 hsame⟩
    · rintro ⟨seen, time', hseen, htime', hlisted⟩
      cases htime.symm.trans htime'
      exact ⟨seen, hseen, (hlists seen).1 hlisted⟩

/-- What a call leaves that is rejected was to be seen exactly when the clock has not stopped it. -/
theorem Settled.seen_rejects_iff (htree : db.Readable engine tree)
    (hvalid : tree.Valid) (hrejects : tree.Rejects clock op memory) :
    (∃ seen, db.Readable engine seen ∧ seen.Same memory) ↔ ¬tree.Interrupted clock op := by
  cases hrejects with
  | unchanged hno => exact iff_of_true ⟨tree, htree, Store.Same.refl _⟩ hno
  | @renameFile fromPath toPath source target hmovable hfile hclock =>
    refine iff_of_false ?_ fun hno => hno (.rename hmovable hfile hclock)
    rintro ⟨seen, hseen, hsame⟩
    have hgone := hsame.files source
    rw [get_delete_self, (h.agree_of_readable htree hseen).1, eq_comm,
      ← has_eq_false_iff, hfile] at hgone
    cases hgone
  | @ensureDirectory path key times i hkey hfiles hpos hlt htimes hclock =>
    refine iff_of_false ?_ fun hno =>
      hno (.createDirectory hkey hfiles hpos hlt (fun j hj => ⟨_, htimes j hj⟩) hclock)
    rintro ⟨seen, hseen, hsame⟩
    -- the first new directory is there, and was not to be seen
    obtain ⟨k, hk⟩ : ∃ k, k ∈ (tree.missing (Store.pathsTo key)).take i := by
      refine List.exists_mem_of_ne_nil _ fun hnil => ?_
      rw [List.take_eq_nil_iff] at hnil
      rcases hnil with rfl | hnil
      · exact absurd hpos (Nat.lt_irrefl 0)
      · rw [hnil] at hlt
        exact absurd hlt (Nat.not_lt_zero i)
    have hmissing := (Store.mem_missing.1 (List.mem_of_mem_take hk)).2
    have hne : k ≠ [] := by
      rintro rfl
      rw [hvalid.root] at hmissing
      cases hmissing
    have hnew :
        (tree.withDirectories ((tree.missing (Store.pathsTo key)).take i) times).directories.has
        k = true := Store.has_withDirectories.2 (.inl hk)
    rw [hsame.has_directories, has, (h.agree_of_readable htree hseen).2 k hne, ← has,
      hmissing] at hnew
    cases hnew

/-! ### Exactly when nothing is left behind -/

/-- A call that leaves nothing behind if it rejects. -/
structure Spares (engine : Base64Engine) (db : IndexedDb) (c : IndexedDbCall) : Prop where
  opened : db.dbPromise = none → c.backend.opening = .success ∨ ¬Importable engine db.stored
  clock : ∀ tree clock', db.Finds engine c.backend c.clock tree clock' →
    ¬tree.Interrupted clock' c.op
  written : ∀ tree clock', db.Finds engine c.backend c.clock tree clock' →
    c.backend.writing = .complete ∨ (∀ s', ¬tree.Accepts engine clock' c.op s') ∨
      db.Idle engine tree clock' c.op

/-- A tree is found behind a database that has been opened. -/
theorem Settled.opening_of_finds
    (hfinds : db.Finds engine backend clock tree clock') (hpromise : db.dbPromise = none) :
    backend.opening = .success := by
  have hopens : db.opens backend = .ok () := by
    cases hfinds with
    | loaded hloaded =>
      have hopened := h.opened hloaded
      rw [hpromise] at hopened
      cases hopened
    | fresh _ hopen | stored _ hopen => exact hopen
  rw [opens, hpromise] at hopens
  cases hopening : backend.opening with
  | success => rfl
  | _ => rw [hopening] at hopens; cases hopens

theorem Settled.noPhantom_call_iff (c : IndexedDbCall) :
    ((∃ fault, (db.call engine localeLe c).1 = .error fault) →
        db.NoPhantom engine (db.call engine localeLe c).2.db) ↔ db.Spares engine c := by
  have houtcome := h.outcome_call engine localeLe c
  generalize (db.call engine localeLe c).1 = result at houtcome ⊢
  generalize (db.call engine localeLe c).2.db = db' at houtcome ⊢
  cases houtcome with
  | notLoaded e hloaded hnone =>
    constructor
    · intro hno
      refine ⟨fun hpromise => ?_, fun _ _ hfinds => (hnone _ _ hfinds).elim,
        fun _ _ hfinds => (hnone _ _ hfinds).elim⟩
      by_contra hbad
      obtain ⟨hopening, himportable⟩ := not_or.1 hbad
      obtain ⟨tree, htree⟩ := (hno ⟨e, rfl⟩).reachable
        ((h.exists_readable_iff hpromise).2 (not_not.1 himportable))
      exact h.not_readable_failed hloaded hpromise hopening tree htree
    · rintro hspares -
      by_cases hopened : db.dbPromise = none → c.backend.opening = .success
      · exact h.noPhantom_opened hloaded c.backend hopened
      · obtain ⟨hpromise, hopening⟩ := Classical.not_imp.1 hopened
        refine ⟨fun tree' htree' => ?_, fun hseen => ?_⟩
        · exact (h.not_readable_failed hloaded hpromise hopening tree' htree').elim
        · exact absurd ((h.exists_readable_iff hpromise).1 hseen)
            ((hspares.opened hpromise).resolve_left hopening)
  | rejected e hfinds hrejects hrefused =>
    have htree := h.readable_iff.2 ⟨_, _, _, hfinds⟩
    have hsound := h.sound_of_finds hfinds
    rw [noPhantom_after_iff (hsound.rejects hrejects),
      h.seen_rejects_iff htree hsound.toValid hrejects]
    constructor
    · intro hno
      refine ⟨fun hpromise => .inl (h.opening_of_finds hfinds hpromise), fun _ _ hfinds' => ?_,
        fun _ _ hfinds' => ?_⟩
      · obtain ⟨rfl, rfl⟩ := hfinds.unique hfinds'
        exact hno ⟨e, rfl⟩
      · obtain ⟨rfl, rfl⟩ := hfinds.unique hfinds'
        exact .inr (.inl hrefused)
    · rintro hspares -
      exact hspares.clock _ _ hfinds
  | notWritten e hfinds haccepts hwrite =>
    have htree := h.readable_iff.2 ⟨_, _, _, hfinds⟩
    have hsound := h.sound_of_finds hfinds
    rw [noPhantom_after_iff (hsound.accepts haccepts),
      h.seen_accepts_iff htree hsound.toValid haccepts]
    constructor
    · intro hno
      refine ⟨fun hpromise => .inl (h.opening_of_finds hfinds hpromise), fun _ _ hfinds' => ?_,
        fun _ _ hfinds' => ?_⟩
      · obtain ⟨rfl, rfl⟩ := hfinds.unique hfinds'
        exact haccepts.not_interrupted
      · obtain ⟨rfl, rfl⟩ := hfinds.unique hfinds'
        exact .inr (.inr (hno ⟨e, rfl⟩))
    · rintro hspares -
      rcases hspares.written _ _ hfinds with hcomplete | hrefused | hidle
      · exact absurd hcomplete hwrite
      · exact absurd haccepts (hrefused _)
      · exact hidle
  | written hfinds haccepts hwrite =>
    refine iff_of_true (fun ⟨_, hfault⟩ => nomatch hfault)
      ⟨fun hpromise => .inl (h.opening_of_finds hfinds hpromise), fun _ _ hfinds' => ?_,
        fun _ _ _ => .inl hwrite⟩
    obtain ⟨rfl, rfl⟩ := hfinds.unique hfinds'
    exact haccepts.not_interrupted

end

/-- In every state that calls, reads and other instances can lead to. -/
theorem noPhantom_iff {clock : Clock} {hasFactory : Bool} {stored : Option (Option SnapshotObject)}
    {start : IndexedDb} (hstart : new engine clock hasFactory stored = .ok start)
    (hreach : Reach (step engine localeLe) start db) (c : IndexedDbCall) :
    ((∃ fault, (db.call engine localeLe c).1 = .error fault) →
        db.NoPhantom engine (db.call engine localeLe c).2.db) ↔ db.Spares engine c := by
  have hsettled : db.Settled :=
    hreach.invariant (settled_new hstart) fun _ e h _ => h.step e
  exact hsettled.noPhantom_call_iff c

/-- A new store on an empty database. -/
def freshDb : IndexedDb := ⟨Store.empty 0, false, none, none⟩

/-- A host that opens and reads the database, and lets a transaction that writes end in some way. -/
def writesWith (writing : TransactionOutcome) : Backend := ⟨.success, .complete, writing⟩

/-- A call that writes `a`. -/
def writeA (backend : Backend) : IndexedDbCall :=
  ⟨backend, fun _ => some 0, .writeFile "a".toList (.bytes [1])⟩

theorem noPhantom_iff_freshDb :
    ((∃ fault, (freshDb.call .buffer (fun _ _ => true) (writeA (writesWith (.abort none)))).1 =
        .error fault) →
      freshDb.NoPhantom .buffer
        (freshDb.call .buffer (fun _ _ => true) (writeA (writesWith (.abort none)))).2.db) ↔
      freshDb.Spares .buffer (writeA (writesWith (.abort none))) :=
  noPhantom_iff (show new .buffer (fun _ => some 0) true none = .ok freshDb from rfl) .start _

/-- A file whose writing was reported to have failed is read; and behind an open request that was
blocked once, not even the root can be read again. -/
theorem not_noPhantom_freshDb :
    let failed := freshDb.call .buffer (fun _ _ => true) (writeA (writesWith (.abort none)))
    let blocked := freshDb.call .buffer (fun _ _ => true) (writeA ⟨.blocked, .complete, .complete⟩)
    let reading := fun (path : String) (db : IndexedDb) =>
      (IndexedDbMethod.readFile .buffer (writesWith .complete) path.toList ⟨db, fun _ => some 0⟩).1
    let status := fun (db : IndexedDb) =>
      (IndexedDbMethod.stat .buffer (writesWith .complete) "/workspace".toList
        ⟨db, fun _ => some 0⟩).1
    new .buffer (fun _ => some 0) true none = .ok freshDb ∧
      (failed.1 = .error (indexedDbError none "write IndexedDB workspace") ∧
        reading "a" freshDb =
          .error (.workspace ⟨.notFound, "workspace file is unavailable"⟩) ∧
        reading "a" failed.2.db = .ok [1]) ∧
      (blocked.1 = .error (.workspace ⟨.transport, "IndexedDB workspace open was blocked"⟩) ∧
        status freshDb = .ok ⟨.directory, 0, "/workspace".toList, 0⟩ ∧
        status blocked.2.db =
          .error (.workspace ⟨.transport, "IndexedDB workspace open was blocked"⟩)) := by
  refine ⟨rfl, ⟨?_, ?_, ?_⟩, ?_, ?_, ?_⟩
  all_goals decide

end IndexedDb

end WasmHost
