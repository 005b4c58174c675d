import WasmHost.Lib.Heap
import WasmHost.Lib.Run
import WasmHost.Web.PackageCatalog

/-!
# Packages that are loaded

The packages of the command worker and the catalog of their commands, with the messages that load
packages and the runs that ask for one. A load is found under a key until it is over; a run that
asks for that key waits for it. When the promise of a load settles, what was waiting for it goes on
in the order in which it began to wait, but other messages may come in between.

* `PackageWorker.step`: one event of the worker, a message that arrives or a task that is due.
-/

namespace WasmHost

/-- The two fields that can name a package. -/
structure PackageIds where
  id : Option Text
  packageId : Option Text

/-- What `packageFromLoadMessage` gives a message to, by its other fields. -/
inductive PackageLoader
  /-- `normalizePackage`. -/
  | plain
  /-- `loadCodexBrowserPackage`. -/
  | codexBrowser
  /-- `loadRawWasiModulePackage`. -/
  | rawWasi
  /-- The loader of package files and urls, with the name that it finds in the bytes. -/
  | browser (packageName : Option Text)

/-- A `command.load` message, with the package that it may have in it. -/
structure LoadMessage where
  ids : PackageIds
  package : Option PackageIds
  loader : PackageLoader

/-- `DEFAULT_PACKAGE_ID` of the worker. -/
def defaultPackageId : Text := "default".toList

/-- `packageLoadKey` of `message.package ?? message`. -/
def packageLoadKey (message : LoadMessage) : Text :=
  let value := message.package.getD message.ids
  (value.id.or value.packageId).getD defaultPackageId

/-- What the loaders find out about a package besides its id. -/
structure PackageFields where
  type : Text
  commands : List Text
  artifactKind : Option Text
  contentSha256 : Option Text
  entrypoint : Text

namespace PackageLoader

/-- The id of a package whose message has none. -/
def defaultId : PackageLoader → Text
  | .codexBrowser => "codex-browser".toList
  | .browser packageName => packageName.getD defaultPackageId
  | .plain | .rawWasi => defaultPackageId

/-- What the `nonEmptyString` of a loader throws. -/
def emptyId : PackageLoader → CommandThrown
  | .plain =>
    .error (.invalidRequest "browser command fields must be non-empty strings" "package_load")
  | .codexBrowser => invalidPackage "codex-browser fields must be non-empty strings"
  | .rawWasi => invalidPackage "raw WASI module fields are required"
  | .browser _ => invalidPackage "browser package fields must be non-empty strings"
where
  invalidPackage (message : String) : CommandThrown :=
    .kinded ⟨"invalid_package".toList, message.toList, some "package_load".toList, none, false,
      false⟩

end PackageLoader

namespace LoadMessage

/-- The id that the loader gives to the package of the message. -/
def recordId (m : LoadMessage) : Except CommandThrown Text :=
  let value := m.package.getD m.ids
  let text := trim ((value.id.or value.packageId).getD m.loader.defaultId)
  if text = [] then .error m.loader.emptyId else .ok text

/-- `packageFromLoadMessage`, from what the loader comes to. -/
def packageFrom (m : LoadMessage) (loaded : Except CommandThrown PackageFields) :
    Except CommandThrown PackageRecord := do
  let fields ← loaded
  let id ← m.recordId
  return ⟨id, fields.type, fields.commands, fields.artifactKind, fields.contentSha256,
    fields.entrypoint⟩

end LoadMessage

/-- How `loadPackage` ends. -/
inductive LoadFate
  | loaded
  | failed (error : CommandThrown)
  | superseded

/-- A load. `outcome` is the state of its promise, and `waiters` are the runs that wait for that. -/
structure PackageLoad where
  message : LoadMessage
  outcome : Option (Except CommandThrown PackageRecord)
  waiters : List ℕ
  fate : Option LoadFate

/-- What a heap holds where no load is. -/
instance : Inhabited PackageLoad := ⟨⟨⟨⟨none, none⟩, none, .plain⟩, none, [], none⟩⟩

/-- What `loadPackage` posts. -/
inductive LoadPost
  | loaded (id : Text) (packageRecord : PackageRecord)
  | error (id : Option Text) (error : CommandThrown)

/-- Why `packageForRun` fails. -/
inductive LookupFailure
  | unresolved (error : CommandError)
  | notLoaded (packageId : Text)
  | loadFailed (error : CommandThrown)

/-- A call of `packageForRun`. `loadsBefore` loads were posted before it. -/
structure PackageRun where
  packageId : Option Text
  command : Text
  path : Option Text
  loadsBefore : ℕ
  result : Option (Except LookupFailure (Text × PackageRecord))

/-- What a heap holds where no run is. -/
instance : Inhabited PackageRun := ⟨⟨none, [], none, 0, none⟩⟩

/-- What goes on after a promise has settled. -/
inductive WorkerTask
  | finishLoad (load : ℕ)
  | resumeRun (run load : ℕ)

/-- The package state of the command worker. -/
structure PackageWorker where
  packages : OrdMap Text PackageRecord
  packageCatalog : PackageCatalog
  packageLoads : OrdMap Text ℕ
  loads : Heap PackageLoad
  runs : Heap PackageRun
  tasks : List WorkerTask
  posted : List LoadPost

/-- What happens to the packages. -/
inductive PackageEvent
  | load (message : LoadMessage)
  | settle (load : ℕ) (loaded : Except CommandThrown PackageFields)
  | run (packageId : Option Text) (command : Text) (path : Option Text)
  | task

namespace PackageWorker

def start : PackageWorker :=
  ⟨OrdMap.empty, PackageCatalog.empty, OrdMap.empty, Heap.empty, Heap.empty, [], []⟩

/-- The error of a package that is loading. -/
def alreadyLoading (key : Text) : CommandError :=
  { CommandError.invalidRequest "" "package_load" with
    message := "browser command package is already loading: ".toList ++ key }

variable (s : PackageWorker)

/-- `loadPackage` up to the promise. -/
def loadPackage (message : LoadMessage) : PackageWorker :=
  let key := packageLoadKey message
  if s.packageLoads.has key = true then
    { s with
      loads := s.loads.alloc ⟨message, none, [], some (.failed (.error (alreadyLoading key)))⟩
      posted := s.posted ++
        [.error (some (message.ids.id.getD key)) (.error (alreadyLoading key))] }
  else
    { s with
      loads := s.loads.alloc ⟨message, none, [], none⟩
      packageLoads := s.packageLoads.set key s.loads.next }

/-- The promise of a load settles. -/
def settleLoad (i : ℕ) (loaded : Except CommandThrown PackageFields) :
    PackageWorker :=
  let load := s.loads.get i
  if i < s.loads.next ∧ load.fate.isNone ∧ load.outcome.isNone then
    { s with
      loads := s.loads.modify i fun load =>
        { load with outcome := some (load.message.packageFrom loaded), waiters := [] }
      tasks := s.tasks ++ .finishLoad i :: load.waiters.map (.resumeRun · i) }
  else s

/-- The two maps after `registerPackage`. -/
def registerPackage (packageRecord : PackageRecord) :
    Except CommandError PackageWorker :=
  let packages := s.packages.set packageRecord.id packageRecord
  (createPackageCatalog packages.values).map fun catalog =>
    { s with packages := packages, packageCatalog := catalog }

/-- The end of `loadPackage`, with what is posted before. -/
def endLoad (i : ℕ) (fate : LoadFate) (posts : List LoadPost) : PackageWorker :=
  let key := packageLoadKey (s.loads.get i).message
  { s with
    loads := s.loads.modify i fun load => { load with fate := some fate }
    packageLoads :=
      if s.packageLoads.get key = some i then s.packageLoads.delete key else s.packageLoads
    posted := s.posted ++ posts }

/-- `loadPackage` ends in its `catch`. -/
def failLoad (i : ℕ) (error : CommandThrown) : PackageWorker :=
  let message := (s.loads.get i).message
  s.endLoad i (.failed error) [.error (message.ids.id.or (message.package.bind (·.id))) error]

/-- `loadPackage` behind the promise. -/
def finishLoad (i : ℕ) : PackageWorker :=
  let load := s.loads.get i
  match load.outcome with
  | none => s
  | some (.error error) => s.failLoad i error
  | some (.ok packageRecord) =>
      if s.packageLoads.get (packageLoadKey load.message) ≠ some i then s.endLoad i .superseded []
      else
        match s.registerPackage packageRecord with
        | .ok s' => s'.endLoad i .loaded
            [.loaded (load.message.ids.id.getD packageRecord.id) packageRecord]
        | .error error => s.failLoad i (.error error)

/-- The package of a run that names none. -/
def packageFromCatalog (command : Text) (path : Option Text) :
    Except LookupFailure (Text × PackageRecord) :=
  match s.packageCatalog.resolve command path with
  | .error error => .error (.unresolved error)
  | .ok entry =>
      match s.packages.get entry.packageId with
      | some packageRecord => .ok (entry.command, packageRecord)
      | none => .error (.notLoaded entry.packageId)

/-- The package of an id. -/
def loadedPackage (packageId command : Text) :
    Except LookupFailure (Text × PackageRecord) :=
  match s.packages.get packageId with
  | some packageRecord => .ok (command, packageRecord)
  | none => .error (.notLoaded packageId)

/-- `packageForRun` up to the promise of a load. -/
def packageForRun (packageId : Option Text) (command : Text) (path : Option Text) : PackageWorker :=
  let finished (result : Except LookupFailure (Text × PackageRecord)) : PackageWorker :=
    { s with runs := s.runs.alloc ⟨packageId, command, path, s.loads.next, some result⟩ }
  match packageId with
  | none => finished (s.packageFromCatalog command path)
  | some id =>
      match s.packageLoads.get id with
      | none => finished (s.loadedPackage id command)
      | some i =>
          let waiting : PackageWorker :=
            { s with runs := s.runs.alloc ⟨packageId, command, path, s.loads.next, none⟩ }
          if (s.loads.get i).outcome.isNone then
            { waiting with loads := s.loads.modify i fun load =>
                { load with waiters := load.waiters ++ [s.runs.next] } }
          else { waiting with tasks := s.tasks ++ [.resumeRun s.runs.next i] }

/-- `packageForRun` behind the promise of a load. -/
def resumeRun (r i : ℕ) : PackageWorker :=
  let run := s.runs.get r
  let result :=
    match (s.loads.get i).outcome with
    | some (.error error) => .error (.loadFailed error)
    | _ => s.loadedPackage (run.packageId.getD []) run.command
  { s with runs := s.runs.modify r fun run => { run with result := some result } }

/-- The worker behind an event. -/
def step : PackageEvent → PackageWorker
  | .load message => s.loadPackage message
  | .settle i loaded => s.settleLoad i loaded
  | .run packageId command path => s.packageForRun packageId command path
  | .task =>
      match s.tasks with
      | [] => s
      | .finishLoad i :: rest => { s with tasks := rest }.finishLoad i
      | .resumeRun r i :: rest => { s with tasks := rest }.resumeRun r i

end PackageWorker

end WasmHost
