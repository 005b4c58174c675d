import WasmHost.Workspace.Methods

/-!
# The store in the database

`IndexedDbBrowserWorkspaceStore`: a memory store that is filled from the database by the first call,
and written back whole after every call that changes it. What the database answers is up to the
host: opening it can be blocked or fail, and so can every transaction. The one value that is stored
under the workspace's id is part of the state, and other instances may write it, too.

* `IndexedDbMethod.load`, `IndexedDbMethod.persist`, `IndexedDbMethod.openDatabase`.
* `IndexedDb.step`: calls, reads and what others do.
-/

namespace WasmHost

/-- How a request to open the database ends. An error may have a message. -/
inductive OpenOutcome
  | success
  | blocked
  | error (message : Option String)
  | throws (name : String)
  deriving DecidableEq, Repr

/-- How a transaction ends: `throws` is an exception while it is set up, `request` an error of the
request in it. -/
inductive TransactionOutcome
  | complete
  | throws (name : String)
  | request (message : Option String)
  | abort (message : Option String)
  deriving DecidableEq, Repr

/-- What the database answers while a call runs. -/
structure Backend where
  opening : OpenOutcome
  reading : TransactionOutcome
  writing : TransactionOutcome

/-- An `IndexedDbBrowserWorkspaceStore`, and the value the database holds for it: `none` where there
is none, and `some none` for one that is no object. -/
structure IndexedDb where
  memory : Store
  loaded : Bool
  /-- What `dbPromise` settles to. -/
  dbPromise : Option (Except StoreFault Unit)
  stored : Option (Option SnapshotObject)

/-- The store while one of its methods runs. -/
structure IndexedDbRun where
  db : IndexedDb
  clock : Clock

/-- A method of the IndexedDB store. -/
abbrev IndexedDbM := ExceptT StoreFault (StateM IndexedDbRun)

def indexedDbError (message : Option String) (action : String) : StoreFault :=
  let suffix :=
    match message with
    | some text => if text = "" then "" else ": " ++ text
    | none => ""
  .workspace ⟨.transport, "failed to " ++ action ++ suffix⟩

/-- The promise of `openWorkspaceDatabase`. -/
def OpenOutcome.settled : OpenOutcome → Except StoreFault Unit
  | .success => .ok ()
  | .blocked => .error (.workspace ⟨.transport, "IndexedDB workspace open was blocked"⟩)
  | .error message => .error (indexedDbError message "open IndexedDB workspace")
  | .throws name => .error (.dom name)

/-- The promise of a transaction, with the action of its request. -/
def TransactionOutcome.settled (action : String) : TransactionOutcome → Except StoreFault Unit
  | .complete => .ok ()
  | .throws name => .error (.dom name)
  | .request message => .error (indexedDbError message action)
  | .abort message => .error (indexedDbError message "write IndexedDB workspace")

namespace IndexedDbM

/-- A promise is awaited. -/
def settle {α : Type} (result : Except StoreFault α) : IndexedDbM α := ExceptT.mk (pure result)

def modifyDb (f : IndexedDb → IndexedDb) : IndexedDbM Unit :=
  modify fun r => { r with db := f r.db }

/-- A call of a method of the memory store. -/
def onMemory {α : Type} (method : StoreM α) : IndexedDbM α :=
  ExceptT.mk fun r =>
    match method ⟨r.db.memory, r.clock⟩ with
    | (result, run) => (result, ⟨{ r.db with memory := run.store }, run.clock⟩)

end IndexedDbM

namespace IndexedDbMethod

open IndexedDbM

variable (engine : Base64Engine) (localeLe : Text → Text → Bool) (backend : Backend)

/-- `open`: the first promise is kept, however it settles. -/
def openDatabase : IndexedDbM Unit := do
  let settled := ((← get).db.dbPromise).getD backend.opening.settled
  modifyDb fun db => { db with dbPromise := some settled }
  settle settled

/-- Loads what is stored, the first time. -/
def load : IndexedDbM Unit := do
  let db := (← get).db
  if db.loaded = true then pure ()
  else do
    openDatabase backend
    settle (backend.reading.settled "read IndexedDB workspace")
    match db.stored with
    | none => pure ()
    | some snapshot => onMemory (StoreMethod.loadSnapshot engine snapshot)
    modifyDb fun db => { db with loaded := true }

/-- Stores what is in memory. -/
def persist : IndexedDbM Unit := do
  openDatabase backend
  settle (backend.writing.settled "write IndexedDB workspace")
  modifyDb fun db =>
    { db with stored := some (some (StoreMethod.exportSnapshot localeLe db.memory)) }

/-- `writeFile`, `deleteFile`, `createDirectory`, `deleteDirectory`, `rename`, `importSnapshot`. -/
def perform (op : StoreOp) : IndexedDbM Unit := do
  load engine backend
  onMemory (Store.runOp engine op)
  persist localeLe backend

/-- What a read makes of the memory store. -/
def view {α : Type} (look : Store → Except WorkspaceError α) : IndexedDbM α := do
  load engine backend
  let memory := (← get).db.memory
  onMemory (StoreM.ofExcept (look memory))

def readFile (path : Text) : IndexedDbM Bytes := view engine backend fun s => s.readFile path

/-- Lists a directory. -/
def readDirectory (path : Text) : IndexedDbM (List WorkspaceStat) :=
  view engine backend fun s => s.readDirectory localeLe path

def stat (path : Text) : IndexedDbM WorkspaceStat := view engine backend fun s => s.stat path

def exportSnapshot : IndexedDbM SnapshotObject :=
  view engine backend fun s => .ok (StoreMethod.exportSnapshot localeLe s)

end IndexedDbMethod

/-- A call with what the host answers while it runs. -/
structure IndexedDbCall where
  backend : Backend
  clock : Clock
  op : StoreOp

/-- What happens to a store and to its database. -/
inductive IndexedDbEvent
  | call (c : IndexedDbCall)
  | read (backend : Backend) (clock : Clock)
  /-- Another instance writes the value. -/
  | written (stored : Option (Option SnapshotObject))

namespace IndexedDb

variable (engine : Base64Engine) (localeLe : Text → Text → Bool)

/-- The constructor, where the database holds a value by then. -/
def new (clock : Clock) (hasFactory : Bool) (stored : Option (Option SnapshotObject)) :
    Except StoreFault IndexedDb := do
  let memory ← Store.newStore engine clock none
  if hasFactory = true then return ⟨memory, false, none, stored⟩
  else
    .error (.workspace
      ⟨.unsupported, "IndexedDB is unavailable for browser workspace storage"⟩)

/-- How a call ends, and the store after it. -/
def call (db : IndexedDb) (c : IndexedDbCall) : Except StoreFault Unit × IndexedDbRun :=
  IndexedDbMethod.perform engine localeLe c.backend c.op ⟨db, c.clock⟩

/-- The store behind an event. -/
def step (db : IndexedDb) : IndexedDbEvent → IndexedDb
  | .call c => (db.call engine localeLe c).2.db
  | .read backend clock => (IndexedDbMethod.load engine backend ⟨db, clock⟩).2.db
  | .written stored => { db with stored := stored }

end IndexedDb

end WasmHost
