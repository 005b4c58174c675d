import WasmHost.Wasi.Queries

/-!
# Processes

The process table of a runtime, the imports that make, end and join processes, and the driver that
runs a module. A guest that forks or ends a vfork child unwinds its stack; the driver then decides
who goes on and enters the module again, and the guest rewinds to the call of `proc_fork`, which
finds the pid that it returns. One entry of the module is a turn, and a driver gives up after
`wasixContinuationMaxTurns` of them.

A copied-memory fork runs in a runtime of its own, with a table of its own, while the runtime that
made it waits. `ProcessRun` is the transition system, with a record of what the processes have seen.
-/

namespace WasmHost

def wasixRootPid : ℕ := 1

def wasixRootParentPid : ℕ := 0

def wasixContinuationMaxTurns : ℕ := 64

def wasixOptionTagNone : UInt8 := 0

def wasixOptionTagSome : UInt8 := 1

def wasixJoinStatusNothing : UInt8 := 0

def wasixJoinStatusExitNormal : UInt8 := 1

def wasixOptionPidSize : ℕ := 8

def wasixJoinStatusSize : ℕ := 6

/-- The states of a process record. -/
inductive ProcessState
  | running | exited
  deriving DecidableEq, Repr

/-- An entry of the process table. -/
structure ProcessRecord where
  exitCode : Option Int
  parentPid : ℕ
  pid : ℕ
  state : ProcessState
  deriving DecidableEq, Repr

/-- The vfork child that runs in the place of its parent. -/
structure ActiveVfork where
  childPid : ℕ
  parentPid : ℕ
  deriving DecidableEq, Repr

/-- What the driver is to do once the stack of the guest is unwound. -/
inductive StackUnwind
  /-- A checkpoint or a restore of the stack. -/
  | continuation
  | vforkChild (childPid parentPid : ℕ)
  | copyForkChild (childPid parentPid : ℕ)
  | vforkParent (childPid : ℕ)
  deriving DecidableEq, Repr

/-- What `proc_fork` returns once the stack is rewound to it: a pid, in a process. -/
structure ForkRewind where
  pid : ℕ
  processId : ℕ
  deriving DecidableEq, Repr

/-- The part of a runtime that is about processes. -/
structure Processes where
  processes : OrdMap ℕ ProcessRecord
  currentProcessId : ℕ
  nextProcessId : ℕ
  activeVfork : Option ActiveVfork
  pendingStackUnwind : Option StackUnwind
  pendingForkRewind : Option ForkRewind
  /-- There is somebody who can run a copied-memory fork. -/
  copyForkRunner : Bool
  hasStackContinuationSupport : Bool

/-- The 16 low bits of an exit code, in a status. -/
def exitNormal (exitCode : Int) : Bytes :=
  let code := (exitCode % 2 ^ 16).toNat
  [wasixJoinStatusExitNormal, 0, UInt8.ofNat code, UInt8.ofNat (code / 2 ^ 8), 0, 0]

def statusNothing : Bytes := [wasixJoinStatusNothing, 0, 0, 0, 0, 0]

/-- The fields of an optional pid, which lie side by side. -/
def optionPid (tag : UInt8) (pid : ℕ) : Bytes :=
  [tag, 0, 0, 0, UInt8.ofNat pid, UInt8.ofNat (pid / 2 ^ 8), UInt8.ofNat (pid / 2 ^ 16),
    UInt8.ofNat (pid / 2 ^ 24)]

/-- A call of `proc_join`. -/
structure JoinRequest where
  mem : Memory
  pidPtr : Int
  flags : Int
  statusPtr : Int

namespace JoinRequest

variable (r : JoinRequest)

def pidAt : ℕ := (toUint32 r.pidPtr).toNat

def statusAt : ℕ := (toUint32 r.statusPtr).toNat

def nonBlocking : Bool := toUint32 r.flags = 1

/-- Which process the call asks for. `none`: any child. -/
def requested : Except Errno (Option ℕ) :=
  if r.mem.byteLength < r.pidAt + wasixOptionPidSize ∨
      r.mem.byteLength < r.statusAt + wasixJoinStatusSize then
    .error .fault
  else if toUint32 r.flags ≠ 0 ∧ toUint32 r.flags ≠ 1 then .error .inval
  else if r.mem.byte r.pidAt = wasixOptionTagNone then .ok none
  else if r.mem.byte r.pidAt = wasixOptionTagSome then .ok (some (r.mem.readNumber (r.pidAt + 4) 4))
  else .error .inval

/-- The memory with an optional pid and a status. -/
def answer (pid status : Bytes) : Memory := (r.mem.store r.pidAt pid).store r.statusAt status

end JoinRequest

/-- What a table has to say about a request. -/
inductive JoinAnswer
  | nothing
  | refused (errno : Errno)
  | running (child : ProcessRecord)
  | exited (child : ProcessRecord)
  deriving DecidableEq, Repr

/-- How a call of `proc_fork` goes on. -/
inductive ForkAnswer
  | errno (errno : Errno)
  | resumed (rewind : ForkRewind)
  | unwinds
  deriving DecidableEq, Repr

namespace Processes

variable (p : Processes)

/-- The table of a runtime that was just made. -/
def new (copyForkRunner hasStackContinuationSupport : Bool) : Processes where
  processes := OrdMap.ofList
    [(wasixRootPid, ⟨none, wasixRootParentPid, wasixRootPid, .running⟩)]
  currentProcessId := wasixRootPid
  nextProcessId := wasixRootPid + 1
  activeVfork := none
  pendingStackUnwind := none
  pendingForkRewind := none
  copyForkRunner := copyForkRunner
  hasStackContinuationSupport := hasStackContinuationSupport

/-- Notes the exit of a process. -/
def markProcessExited (pid : ℕ) (exitCode : Int) : Processes :=
  match p.processes.get pid with
  | none => p
  | some record =>
      { p with
        processes :=
          p.processes.set pid { record with exitCode := some exitCode, state := .exited } }

def processRecord (pid : ℕ) : Option ProcessRecord := p.processes.get pid

def findExitedChild (parentPid : ℕ) : Option ProcessRecord :=
  p.processes.values.find? fun record => record.parentPid = parentPid && record.state = .exited

/-- The process has a child. -/
def hasChildProcess (parentPid : ℕ) : Bool :=
  p.processes.values.any fun record => record.parentPid = parentPid

def reapProcess (pid : ℕ) : Processes :=
  if pid ≠ wasixRootPid then { p with processes := p.processes.delete pid } else p

/-- Enter a new process into the table and unwind the stack. -/
def beginFork (unwind : ℕ → ℕ → StackUnwind) : Processes :=
  { p with
    nextProcessId := p.nextProcessId + 1
    processes := p.processes.set p.nextProcessId
      ⟨none, p.currentProcessId, p.nextProcessId, .running⟩
    pendingStackUnwind := some (unwind p.nextProcessId p.currentProcessId) }

def beginVfork : Processes := p.beginFork .vforkChild

def beginCopyFork : Processes := p.beginFork .copyForkChild

def beginForkRewind (pid processId : ℕ) : Processes :=
  { p with pendingForkRewind := some ⟨pid, processId⟩, currentProcessId := processId }

/-- Answers the fork in the parent. -/
def finishForkRewind : Option (Processes × ForkRewind) :=
  p.pendingForkRewind.map fun rewind =>
    ({ p with pendingForkRewind := none, currentProcessId := rewind.processId }, rewind)

/-- The active vfork, when its child is the process that runs. -/
def activeVforkChild : Option ActiveVfork :=
  p.activeVfork.filter fun vfork => p.currentProcessId = vfork.childPid

/-- `none`: there is no vfork child that could end. -/
def beginVforkChildExit (code : Int) : Option Processes :=
  p.activeVforkChild.map fun vfork =>
    { p.markProcessExited vfork.childPid (toUint32 code) with
      pendingStackUnwind := some (.vforkParent vfork.childPid) }

/-- `none`: the call throws, because the parent does not wait for this child. -/
def beginVforkParentRewind (childPid : ℕ) : Option Processes :=
  match p.activeVfork with
  | none => none
  | some vfork =>
      if vfork.childPid = childPid then
        some ({ p with activeVfork := none }.beginForkRewind childPid vfork.parentPid)
      else none

/-- `none`: there is no vfork child that could be completed. -/
def completeActiveVforkChild (code : Int) : Option Processes :=
  p.activeVforkChild.bind fun vfork =>
    (p.markProcessExited vfork.childPid (toUint32 code)).beginVforkParentRewind vfork.childPid

/-- The import `proc_fork`. -/
def procFork (mem : Memory) (copyMemory pidPtr : Int) : Processes × ForkAnswer :=
  if mem.byteLength < toUint32 pidPtr + 4 then (p, .errno .fault)
  else
    match p.finishForkRewind with
    | some (p', rewind) => (p', .resumed rewind)
    | none =>
        if toUint32 copyMemory ≠ 0 then
          if p.hasStackContinuationSupport = false ∨ p.activeVfork ≠ none ∨
              p.copyForkRunner = false then
            (p, .errno .notsup)
          else (p.beginCopyFork, .unwinds)
        else if p.hasStackContinuationSupport = false ∨ p.activeVfork ≠ none then
          (p, .errno .notsup)
        else (p.beginVfork, .unwinds)

/-- What a join is answered. -/
def joinAnswer : Option ℕ → JoinAnswer
  | none =>
      match p.findExitedChild p.currentProcessId with
      | some child => .exited child
      | none =>
          if p.hasChildProcess p.currentProcessId = true then .refused .notsup else .refused .child
  | some pid =>
      match p.processRecord pid with
      | none => .nothing
      | some child =>
          if child.parentPid ≠ p.currentProcessId then .nothing
          else if child.state = .exited then .exited child
          else .running child

/-- The import `proc_join`. -/
def procJoin (r : JoinRequest) : Processes × Memory × Errno :=
  match r.requested with
  | .error errno => (p, r.mem, errno)
  | .ok requested =>
      let nothing := optionPid wasixOptionTagNone 0
      match p.joinAnswer requested with
      | .nothing => (p, r.answer nothing statusNothing, .success)
      | .refused errno => (p, r.answer nothing statusNothing, errno)
      | .running child =>
          -- the pid is stored behind the empty status
          (p, (r.answer nothing statusNothing).store r.pidAt
            (optionPid wasixOptionTagSome child.pid),
            if r.nonBlocking = true then .success else .notsup)
      | .exited child =>
          (p.reapProcess child.pid,
            ((r.answer nothing statusNothing).store r.pidAt
              (optionPid wasixOptionTagSome child.pid)).store r.statusAt
                (exitNormal (child.exitCode.getD 0)),
            .success)

/-- The table of a copied-memory fork. -/
def copiedForkChild (childPid parentPid : ℕ) (hasStackContinuationSupport : Bool) : Processes :=
  let p := new false hasStackContinuationSupport
  { p with
    processes := p.processes.set childPid ⟨none, parentPid, childPid, .running⟩
    currentProcessId := childPid }

end Processes

/-! ### Child commands -/

def wasixLineList (value : Text) : List Text :=
  (value.splitOnP fun c => c = '\r' ∨ c = '\n').filter (· ≠ [])

/-- Every entry of an environment has a separator. -/
def isWasixEnv (env : Text) : Bool := (wasixLineList env).all fun entry => '=' ∈ entry

/-- The three imports that start a program. -/
inductive ExecImport
  | procExec | procExec2 | procExec3
  deriving DecidableEq, Repr

/-- How a call that starts a child command leaves the guest. -/
inductive ExecSignal
  | errno (errno : Errno)
  | procExit (exitCode : Int)
  | procExec
  | throws
  deriving DecidableEq, Repr

def throwProcExec (command : Text) : ExecSignal := if trim command = [] then .throws else .procExec

/-- What an exec import does first. -/
def ExecImport.signal (env command : Text) : ExecImport → ExecSignal
  | .procExec => throwProcExec command
  | .procExec2 =>
      if isWasixEnv env = true then throwProcExec command else .procExit Errno.inval.code
  | .procExec3 => if isWasixEnv env = true then throwProcExec command else .errno .inval

/-! ### Runs -/

/-- A pid that `proc_fork` gave to a new process. -/
structure HandedOut where
  pid : ℕ
  parent : ℕ
  /-- The pid as the guest will see it. -/
  number : ℕ
  /-- The pids of the processes that were in the table. -/
  present : List ℕ
  deriving DecidableEq, Repr

/-- A process that `proc_join` has reported. -/
structure Report where
  joiner : ℕ
  pid : ℕ
  /-- The status that the guest finds in its memory. -/
  status : Bytes
  deriving DecidableEq

/-- A runtime with the turn it is in and with what its processes have seen. -/
structure Guest where
  host : Processes
  turn : ℕ
  handedOut : List HandedOut
  exits : List (ℕ × Int)
  reports : List Report
  /-- What the calls of `proc_fork` have returned. -/
  returns : List ForkRewind

/-- A runtime that waits for its copied-memory fork. -/
structure Waiting where
  guest : Guest
  childPid : ℕ
  parentPid : ℕ

/-- How a run ends. -/
inductive Outcome
  | exitCode (code : Int)
  | failed
  deriving DecidableEq, Repr

/-- A guest with the parent that waits for it, until it ends. -/
structure ProcessRun where
  guest : Guest
  waiting : Option Waiting
  outcome : Option Outcome

/-- What a guest can do next. -/
inductive ProcessEvent
  | procFork (mem : Memory) (copyMemory pidPtr : Int)
  | procJoin (r : JoinRequest)
  | procExit (code : Int)
  | procExit2 (code : Int)
  /-- A call of one of the imports that start a child command. The command ends with an exit code;
  `none`: `runProcessExec` rejects, because standard input cannot be read, the command cannot be run
  or fails, its workspace is refused, or its captured output cannot be written. -/
  | procExec (how : ExecImport) (env command : Text) (exitCode : Option Int)
  /-- A `stack_checkpoint` or `stack_restore` that unwinds the stack. -/
  | stackContinuation
  /-- The entry of the module returns. -/
  | returns

namespace Guest

variable (g : Guest)

def new (host : Processes) : Guest := ⟨host, 0, [], [], [], []⟩

/-- The guest rewinds to its call of `proc_fork`, which returns. -/
def resume : Guest :=
  match g.host.finishForkRewind with
  | some (host, rewind) => { g with host := host, returns := g.returns ++ [rewind] }
  | none => g

/-- A guest whose call has begun a fork. -/
def fork (host : Processes) : Guest :=
  { g with
    host := host
    handedOut := g.handedOut ++
      [⟨g.host.nextProcessId, g.host.currentProcessId, g.host.nextProcessId % 2 ^ 32,
        g.host.processes.values.map ProcessRecord.pid⟩] }

/-- A guest one of whose processes has ended. -/
def exited (pid : ℕ) (exitCode : Int) (host : Processes) : Guest :=
  { g with host := host, exits := g.exits ++ [(pid, exitCode)] }

/-- The guest joins a child. -/
def join (r : JoinRequest) : Guest :=
  let joined := g.host.procJoin r
  match r.requested.toOption.map g.host.joinAnswer with
  | some (.exited child) =>
      { g with
        host := joined.1
        reports := g.reports ++
          [⟨g.host.currentProcessId, child.pid,
            joined.2.1.slice r.statusAt wasixJoinStatusSize⟩] }
  | _ => { g with host := joined.1 }

end Guest

namespace ProcessRun

variable (t : ProcessRun)

def fail : ProcessRun := { t with outcome := some .failed }

/-- The driver enters the module once more. -/
def nextTurn (g : Guest) : ProcessRun :=
  if g.turn + 1 < wasixContinuationMaxTurns then
    { t with guest := { g with turn := g.turn + 1 }.resume }
  else { t with guest := g }.fail

/-- The end of the running runtime: the one that waits goes on, or the run is complete. -/
def complete (code : Int) : ProcessRun :=
  match t.waiting with
  | none => { t with outcome := some (.exitCode code) }
  | some w =>
      let host := (w.guest.host.markProcessExited w.childPid code).beginForkRewind w.childPid
        w.parentPid
      { t with waiting := none }.nextTurn (w.guest.exited w.childPid code host)

/-- Run a copied-memory fork. -/
def runCopyForkChild (g : Guest) (childPid parentPid : ℕ) : ProcessRun :=
  let child := Processes.copiedForkChild childPid parentPid g.host.hasStackContinuationSupport
  { t with
    guest := (Guest.new (child.beginForkRewind 0 childPid)).resume
    waiting := some ⟨g, childPid, parentPid⟩ }

/-- What the driver does when the guest has given control back. -/
def finishContinuationTurn (g : Guest) : ProcessRun :=
  let host := { g.host with pendingStackUnwind := none }
  match g.host.pendingStackUnwind with
  | none => t.complete 0
  | some .continuation => t.nextTurn { g with host := host }
  | some (.vforkChild childPid parentPid) =>
      t.nextTurn
        { g with
          host :=
            { host with activeVfork := some ⟨childPid, parentPid⟩ }.beginForkRewind 0 childPid }
  | some (.copyForkChild childPid parentPid) =>
      t.runCopyForkChild { g with host := host } childPid parentPid
  | some (.vforkParent childPid) =>
      match host.beginVforkParentRewind childPid with
      | some host => t.nextTurn { g with host := host }
      | none => t.fail

/-- The import `proc_exit2`. -/
def procExit2 (code : Int) : ProcessRun :=
  match t.guest.host.activeVforkChild, t.guest.host.beginVforkChildExit code with
  | some vfork, some host =>
      t.finishContinuationTurn (t.guest.exited vfork.childPid (toUint32 code) host)
  | _, _ => t.complete code

/-- A child command has ended. The driver of the first runtime asks whether a vfork child has
started it, and enters the module again with a new count of turns; the driver of a copied-memory
fork does not ask. -/
def runProcessExec (code : Int) : ProcessRun :=
  match t.waiting, t.guest.host.activeVforkChild, t.guest.host.completeActiveVforkChild code with
  | none, some vfork, some host =>
      { t with
        guest := { t.guest.exited vfork.childPid (toUint32 code) host with turn := 0 }.resume }
  | _, _, _ => t.complete code

/-- The imports `proc_exec`. -/
def procExec (how : ExecImport) (env command : Text) (exitCode : Option Int) : ProcessRun :=
  match how.signal env command, exitCode with
  | .errno _, _ => t
  | .procExit code, _ => t.complete code
  | .procExec, some code => t.runProcessExec code
  | .procExec, none => t.fail
  | .throws, _ => t.fail

/-- What an event does while the run goes on. -/
def move : ProcessEvent → ProcessRun
  | .procFork mem copyMemory pidPtr =>
      match t.guest.host.procFork mem copyMemory pidPtr with
      | (host, .unwinds) => t.finishContinuationTurn (t.guest.fork host)
      | (_, .resumed _) => { t with guest := t.guest.resume }
      | (_, .errno _) => t
  | .procJoin r => { t with guest := t.guest.join r }
  | .procExit code => t.complete code
  | .procExit2 code => t.procExit2 code
  | .procExec how env command exitCode => t.procExec how env command exitCode
  | .stackContinuation =>
      if t.guest.host.hasStackContinuationSupport = true then
        t.finishContinuationTurn
          { t.guest with
            host := { t.guest.host with pendingStackUnwind := some .continuation } }
      else t
  | .returns => t.finishContinuationTurn t.guest

def step (t : ProcessRun) (e : ProcessEvent) : ProcessRun :=
  if t.outcome = none then t.move e else t

/-- A run before its first call. -/
def start (hasStackContinuationSupport : Bool) : ProcessRun :=
  ⟨Guest.new (Processes.new true hasStackContinuationSupport), none, none⟩

end ProcessRun

end WasmHost
