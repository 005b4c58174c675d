import WasmHost.Wasi.Boot
import WasmHost.Wasi.ChildSnapshot

/-!
# Who gets the standard input

A run is given its standard input as one list of bytes. A runtime holds the part it started with
and the position it has read up to; the processes in it take bytes with `fd_read`. A child command
that is started with `proc_exec` is given everything from the position on, and the position stays
where it is. A copied-memory fork gets a copy of what is left, and the position of its parent stays
where it was when the child ends.

`Intake` is a run with the processes told apart and with a record of what each of them was given.

* `Intake.consumedOnce_iff`: no byte is given to two processes, and what is given out in order is a
  prefix of the input, exactly when every process that takes bytes takes them from where the last
  one stopped.
-/

namespace WasmHost

open List

namespace World

variable (w : World)

/-- The bytes of standard input that a call takes. -/
def takenBy (c : Call) : Bytes :=
  (w.runtime.stdin.drop w.runtime.stdinOffset).take
    ((w.call c).runtime.stdinOffset - w.runtime.stdinOffset)

def remainingStdinBytes : Bytes := w.runtime.stdin.drop w.runtime.stdinOffset

/-- The bytes of standard input that `processExecInputBytes` returns. What it takes from a pipe or a
file is not standard input, and a standard stream that cannot be read makes it throw. -/
def execStdin (fd : Int) : Bytes :=
  match w.openFile fd with
  | some file =>
      match file.kind with
      | .stdio stdioFd => if stdioFd = stdinFd then w.remainingStdinBytes else []
      | _ => []
  | none => if fd = stdinFd then w.remainingStdinBytes else []

theorem execStdin_cases (fd : Int) :
    w.execStdin fd = w.remainingStdinBytes ∨ w.execStdin fd = [] := by
  unfold execStdin
  repeat' split
  all_goals first
    | exact .inl rfl
    | exact .inr rfl

/-! ### The position of a runtime -/

variable {w' : World}

theorem Plain.readsOn {w : World} (h : Plain w w') : w.runtime.ReadsOn w'.runtime := by
  cases h with
  | quiet hq => exact hq.stdin
  | @truncate mount key record hget => cases mount <;> exact ⟨rfl, le_refl _, id⟩
  | _ => exact ⟨rfl, le_refl _, id⟩

theorem Plains.readsOn {w : World} (h : Plains w w') : w.runtime.ReadsOn w'.runtime := by
  induction h with
  | refl => exact Runtime.ReadsOn.refl _
  | tail _ hstep ih => exact ih.trans hstep.readsOn

theorem readsOn_perform (w : World) (mount : VirtualMount) (e : Mount.Edit ℕ) :
    w.runtime.ReadsOn (w.perform mount e).runtime := by
  cases mount <;> cases e <;> exact ⟨rfl, le_refl _, id⟩

theorem readsOn_call (w : World) (c : Call) : w.runtime.ReadsOn (w.call c).runtime := by
  rcases w.call_effects c with h | ⟨mount, e, -, h⟩
  · exact h.readsOn
  · exact (w.readsOn_perform mount e).trans h.readsOn

/-- What a call takes is what it advances the position by. -/
theorem length_takenBy {w : World} (h : w.runtime.stdinOffset ≤ w.runtime.stdin.length) (c : Call) :
    w.runtime.stdinOffset + (w.takenBy c).length = (w.call c).runtime.stdinOffset := by
  have hreads := w.readsOn_call c
  have hbound := hreads.bound h
  have hle := hreads.le
  rw [takenBy, length_take, length_drop]
  omega

/-- A runtime keeps its standard input and its position. -/
def KeepsStdin (w w' : World) : Prop :=
  w'.runtime.stdin = w.runtime.stdin ∧ w'.runtime.stdinOffset = w.runtime.stdinOffset

theorem KeepsStdin.trans {w w'' : World} (h : KeepsStdin w w') (h' : KeepsStdin w' w'') :
    KeepsStdin w w'' :=
  ⟨h'.1.trans h.1, h'.2.trans h.2⟩

theorem keepsStdin_of_runtime {w : World} (h : w'.runtime = w.runtime) : KeepsStdin w w' :=
  ⟨congrArg Runtime.stdin h, congrArg Runtime.stdinOffset h⟩

theorem keepsStdin_childSnapshot (w : World) (snapshot : SnapshotTree) :
    KeepsStdin w (w.importWasiWorkspaceSnapshot snapshot).rebindOpenWorkspaceFiles := by
  refine childSnapshot_induction (P := KeepsStdin w) (fun w' h => keepsStdin_of_runtime h.runtime)
    (fun w' path h => ?_) fun w' fd file old record writable offset _ _ h => ?_
  · exact h.trans ⟨rfl, rfl⟩
  · exact h.trans ⟨rfl, rfl⟩

end World

/-- Bytes that were given to a process, with their place in the input. -/
structure Delivery where
  reader : ℕ
  position : ℕ
  bytes : Bytes
  deriving DecidableEq

/-- The byte at a place of the input is one of those delivered. -/
def Delivery.Covers (d : Delivery) (i : ℕ) : Prop :=
  d.position ≤ i ∧ i < d.position + d.bytes.length

/-- A process that waits for a copied-memory fork, with what is known of its runtime. -/
structure Waiter where
  reader : ℕ
  base : ℕ
  handedOn : Bool

/-- A run in which processes are told apart. Every process has a number of its own. -/
structure Intake where
  system : System
  /-- The process that runs. -/
  reader : ℕ
  /-- Where the standard input of the running runtime starts in the input of the run. -/
  base : ℕ
  /-- What the running runtime has not read yet was given to somebody else. -/
  handedOn : Bool
  /-- The running runtime has given something to one of its processes. -/
  touched : Bool
  /-- The process that waits for the vfork child that runs. -/
  vforkParent : Option ℕ
  /-- The process that waits for the copied-memory fork that runs. -/
  waiting : Option Waiter
  nextReader : ℕ
  ended : Bool
  deliveries : List Delivery

/-- What can happen next. -/
inductive InputEvent
  /-- The running process makes a call. -/
  | call (c : Call)
  /-- `proc_fork(0)`. -/
  | vfork
  /-- `proc_fork(1)`. -/
  | fork
  /-- `proc_exit2`. -/
  | exit2
  /-- `proc_exit`. -/
  | exit
  /-- `proc_exec`: a child command runs to its end with the input of descriptor 0. It may return a
  workspace, and its output may be captured. -/
  | exec (returned : Option World.SnapshotTree) (stdout stderr : Bytes)

namespace Intake

/-- A run before its first call. -/
def start (s : System) : Intake := ⟨s, 0, 0, false, false, none, none, 1, false, []⟩

variable (t : Intake) {bytes : Bytes} {reader base : ℕ} {r : Runtime} {s : System} {e : InputEvent}

/-- The place in the input up to which the running runtime has read. -/
def position : ℕ := t.base + t.system.runtime.stdinOffset

/-- How many bytes have been given out. -/
def taken : ℕ := (t.deliveries.map fun d => d.bytes.length).sum

/-- The bytes that an event gives to the running process. -/
def takes : InputEvent → Bytes
  | .call c => t.system.world.takenBy c
  | .exec .. => t.system.world.execStdin stdinFd
  | _ => []

/-- Notes what the reader is given. -/
def deliver (bytes : Bytes) : Intake :=
  if bytes = [] then t
  else { t with deliveries := t.deliveries ++ [⟨t.reader, t.position, bytes⟩], touched := true }

/-- The position of the running runtime stays where it is when it gives bytes to a child command. -/
def handOn (bytes : Bytes) : Intake := if bytes = [] then t else { t with handedOn := true }

/-- Go on with a system. -/
def withSystem (s : System) : Intake := { t with system := s }

/-- The end of the running runtime: its parent goes on, or the run is over. -/
def endRuntime : Intake :=
  match t.waiting with
  | some parent =>
      { t with
        system := t.system.exit, reader := parent.reader, base := parent.base
        handedOn := parent.handedOn || t.touched, touched := true, vforkParent := none
        waiting := none }
  | none => { t with ended := true }

/-- The end of the running process: a vfork child gives control back within its runtime. -/
def endProcess : Intake :=
  match t.vforkParent with
  | some reader => { t with reader := reader, vforkParent := none }
  | none => t.endRuntime

/-- What follows the end of a child command. The driver of a copied-memory fork does not ask whether
a vfork child has started it. -/
def endExec : Intake :=
  match t.waiting with
  | some _ => t.endRuntime
  | none => t.endProcess

/-- The reader forks. -/
def forkReader : Intake :=
  if t.vforkParent = none ∧ t.waiting = none then
    { t with
      system := t.system.fork, reader := t.nextReader, base := t.position, touched := false
      waiting := some ⟨t.reader, t.base, t.handedOn⟩, nextReader := t.nextReader + 1 }
  else t

/-- The reader forks with shared memory. -/
def vforkReader : Intake :=
  if t.vforkParent = none then
    { t with
      reader := t.nextReader, vforkParent := some t.reader, nextReader := t.nextReader + 1 }
  else t

/-- The system after a child command. -/
def execSystem (returned : Option World.SnapshotTree) (stdout stderr : Bytes) : System :=
  let started := t.system.step (.childInput stdinFd)
  let imported := (returned.map fun snapshot => started.step (.childSnapshot snapshot)).getD started
  (imported.step (.childOutput stdoutFd stdout)).step (.childOutput stderrFd stderr)

/-- What an event does to the runtimes and the processes. -/
def move : InputEvent → Intake
  | .call c => t.withSystem (t.system.step (.call c))
  | .vfork => t.vforkReader
  | .fork => t.forkReader
  | .exit2 => t.endProcess
  | .exit => t.endRuntime
  | .exec returned stdout stderr =>
      ((t.handOn (t.system.world.execStdin stdinFd)).withSystem
        (t.execSystem returned stdout stderr)).endExec

def step (t : Intake) (e : InputEvent) : Intake :=
  if t.ended then t else (t.deliver (t.takes e)).move e

/-- The law of standard input. -/
structure ConsumedOnce (input : Bytes) : Prop where
  disjoint : ∀ d ∈ t.deliveries, ∀ d' ∈ t.deliveries, d.reader ≠ d'.reader →
    ∀ i, d.Covers i → ¬d'.Covers i
  inOrder : t.deliveries.flatMap Delivery.bytes <+: input

/-- A process takes bytes only from a runtime that has not given them to somebody else. -/
def TakesOwn (t : Intake) (e : InputEvent) : Prop :=
  t.ended = false → t.takes e ≠ [] → t.handedOn = false

/-! ### Deliveries without gaps -/

/-- Deliveries that follow one another in the input from a place on. -/
def Contiguous (input : Bytes) : ℕ → List Delivery → Prop
  | _, [] => True
  | i, d :: ds =>
      d.position = i ∧ d.bytes = (input.drop i).take d.bytes.length ∧
        Contiguous input (i + d.bytes.length) ds

variable {input : Bytes} {i : ℕ} {ds : List Delivery}

theorem contiguous_append_iff (d : Delivery) :
    Contiguous input i (ds ++ [d]) ↔ Contiguous input i ds ∧
      d.position = i + (ds.map fun d => d.bytes.length).sum ∧
        d.bytes = (input.drop d.position).take d.bytes.length := by
  induction ds generalizing i with
  | nil =>
    simp only [nil_append, Contiguous, map_nil, sum_nil, Nat.add_zero, and_true, true_and]
    refine and_congr_right fun h => ?_
    rw [h]
  | cons d' ds ih =>
    rw [cons_append, Contiguous, Contiguous, ih, map_cons, sum_cons, Nat.add_assoc,
      and_assoc, and_assoc]

section

variable (h : Contiguous input i ds)
include h

/-- Together they are a part of the input. -/
theorem Contiguous.flatMap :
    ds.flatMap Delivery.bytes = (input.drop i).take (ds.map fun d => d.bytes.length).sum := by
  induction ds generalizing i with
  | nil => rfl
  | cons d ds ih =>
    obtain ⟨-, hbytes, hrest⟩ := h
    rw [flatMap_cons, ih hrest, map_cons, sum_cons, take_add, ← hbytes, drop_drop]

variable {j : ℕ} {d : Delivery}

/-- They cover everything up to their end. -/
theorem Contiguous.exists_covers (hj : i ≤ j)
    (hlt : j < i + (ds.map fun d => d.bytes.length).sum) : ∃ d ∈ ds, d.Covers j := by
  induction ds generalizing i with
  | nil =>
    rw [map_nil, sum_nil] at hlt
    omega
  | cons d ds ih =>
    obtain ⟨hposition, -, hrest⟩ := h
    rw [map_cons, sum_cons] at hlt
    by_cases hhead : j < i + d.bytes.length
    · exact ⟨d, mem_cons_self, hposition ▸ hj, hposition ▸ hhead⟩
    · obtain ⟨d', hd', hcovers⟩ := ih hrest (by omega) (by omega)
      exact ⟨d', mem_cons_of_mem _ hd', hcovers⟩

theorem Contiguous.le_position (hd : d ∈ ds) : i ≤ d.position := by
  induction ds generalizing i with
  | nil => cases hd
  | cons d' ds ih =>
    obtain ⟨hposition, -, hrest⟩ := h
    rcases mem_cons.1 hd with rfl | htail
    · exact hposition.ge
    · exact (Nat.le_add_right _ _).trans (ih hrest htail)

/-- No two of them cover one place. -/
theorem Contiguous.eq_of_covers {d' : Delivery} (hd : d ∈ ds)
    (hd' : d' ∈ ds) (hj : d.Covers j) (hj' : d'.Covers j) : d = d' := by
  induction ds generalizing i with
  | nil => cases hd
  | cons e ds ih =>
    obtain ⟨hposition, -, hrest⟩ := h
    -- a later delivery starts behind the first one
    have hlater : ∀ {x : Delivery}, x ∈ ds → x.Covers j → ¬e.Covers j := by
      intro x hx hcovers hfirst
      have hstart := hrest.le_position hx
      have hlt := hfirst.2
      rw [hposition] at hlt
      exact absurd (hstart.trans hcovers.1) (Nat.not_le.2 hlt)
    rcases mem_cons.1 hd with rfl | htail
    · rcases mem_cons.1 hd' with rfl | htail'
      · rfl
      · exact absurd hj (hlater htail' hj')
    · rcases mem_cons.1 hd' with rfl | htail'
      · exact absurd hj' (hlater htail hj)
      · exact ih hrest htail htail'

end

/-- Deliveries without gaps obey the law. -/
theorem consumedOnce_of_contiguous {t : Intake} (h : Contiguous input 0 t.deliveries) :
    t.ConsumedOnce input := by
  refine ⟨fun d hd d' hd' hne j hj hj' => ?_, ?_⟩
  · exact hne (congrArg Delivery.reader (h.eq_of_covers hd hd' hj hj'))
  · rw [h.flatMap, drop_zero]
    exact take_prefix _ _

/-! ### Live processes -/

/-- A process was given nothing from a place on. -/
def Behind (t : Intake) (reader i : ℕ) : Prop :=
  ∀ d ∈ t.deliveries, d.reader = reader → d.position + d.bytes.length ≤ i

/-- A runtime holds the input from its start on, and has read at most what was given out. -/
structure Reads (input : Bytes) (taken base : ℕ) (r : Runtime) : Prop where
  stdin : r.stdin = input.drop base
  bound : base + r.stdinOffset ≤ input.length
  le : base + r.stdinOffset ≤ taken

/-- What holds of the processes that wait. -/
structure Parked (input : Bytes) (t : Intake) : Prop where
  reads : Reads input t.taken t.base t.system.runtime
  fresh : ∀ d ∈ t.deliveries, d.reader < t.nextReader
  reader : t.reader < t.nextReader
  vfork : ∀ r, t.vforkParent = some r → r ≠ t.reader ∧ r < t.nextReader ∧ t.Behind r t.position
  idle : t.waiting = none → t.system.parent = none
  waiting : ∀ p, t.waiting = some p → ∃ parent, t.system.parent = some parent ∧
    Reads input t.taken p.base parent ∧ t.Behind p.reader (p.base + parent.stdinOffset) ∧
      (p.base + parent.stdinOffset = t.taken ↔ p.handedOn = false ∧ t.touched = false) ∧
        p.reader ≠ t.reader ∧ t.vforkParent ≠ some p.reader ∧ p.reader < t.nextReader

/-- The position of a runtime is that of the run until it hands its input on. -/
def InStep (t : Intake) : Prop := t.position = t.taken ↔ t.handedOn = false

/-- What holds as long as a run goes on. -/
structure Running (input : Bytes) (t : Intake) : Prop extends Parked input t where
  behind : t.Behind t.reader t.position
  inStep : t.InStep

theorem taken_deliver (t : Intake) (bytes : Bytes) :
    (t.deliver bytes).taken = t.taken + bytes.length := by
  unfold deliver
  split
  next h => rw [h, length_nil, Nat.add_zero]
  · simp [taken, map_append, sum_append]

theorem mem_deliver {t : Intake} (h : d ∈ (t.deliver bytes).deliveries) :
    d ∈ t.deliveries ∨ d = ⟨t.reader, t.position, bytes⟩ := by
  unfold deliver at h
  split at h
  · exact .inl h
  · exact (mem_append.1 h).imp_right mem_singleton.1

/-- Deliveries to others do not concern a process. -/
theorem Behind.deliver {t : Intake} {i : ℕ} (h : t.Behind reader i)
    (hne : reader ≠ t.reader ∨ t.position + bytes.length ≤ i) :
    (t.deliver bytes).Behind reader i := by
  intro d hd hreader
  rcases mem_deliver hd with hold | rfl
  · exact h d hold hreader
  · exact hne.resolve_left fun hne => hne hreader.symm

theorem Behind.mono {t : Intake} {i : ℕ} (h : t.Behind reader i) (hij : i ≤ j) :
    t.Behind reader j := fun d hd hreader => (h d hd hreader).trans hij

theorem Reads.mono {taken taken' : ℕ} (h : Reads input taken base r) (hle : taken ≤ taken') :
    Reads input taken' base r := ⟨h.stdin, h.bound, h.le.trans hle⟩

theorem Reads.offset_le {taken : ℕ} (h : Reads input taken base r) :
    r.stdinOffset ≤ r.stdin.length := by
  have hbound := h.bound
  rw [h.stdin, length_drop]
  omega

section

variable (t : Intake) (bytes : Bytes)

@[simp]
theorem system_deliver : (t.deliver bytes).system = t.system := by
  unfold deliver
  split <;> rfl

@[simp]
theorem reader_deliver : (t.deliver bytes).reader = t.reader := by
  unfold deliver
  split <;> rfl

@[simp]
theorem base_deliver : (t.deliver bytes).base = t.base := by
  unfold deliver
  split <;> rfl

@[simp]
theorem vforkParent_deliver : (t.deliver bytes).vforkParent = t.vforkParent := by
  unfold deliver
  split <;> rfl

@[simp]
theorem waiting_deliver : (t.deliver bytes).waiting = t.waiting := by
  unfold deliver
  split <;> rfl

@[simp]
theorem nextReader_deliver : (t.deliver bytes).nextReader = t.nextReader := by
  unfold deliver
  split <;> rfl

@[simp]
theorem handedOn_deliver : (t.deliver bytes).handedOn = t.handedOn := by
  unfold deliver
  split <;> rfl

theorem touched_deliver :
    (t.deliver bytes).touched = false ↔ t.touched = false ∧ bytes = [] := by
  unfold deliver
  split
  next h => exact (and_iff_left h).symm
  next h => exact iff_of_false Bool.noConfusion fun hr => h hr.2

@[simp]
theorem position_deliver : (t.deliver bytes).position = t.position := by
  rw [position, position, base_deliver, system_deliver]

theorem execSystem_deliver (returned : Option World.SnapshotTree) (stdout stderr : Bytes) :
    (t.deliver bytes).execSystem returned stdout stderr = t.execSystem returned stdout stderr := by
  rw [execSystem, execSystem, system_deliver]

theorem handedOn_handOn :
    (t.handOn bytes).handedOn = false ↔ t.handedOn = false ∧ bytes = [] := by
  unfold handOn
  split
  next h => exact (and_iff_left h).symm
  next h => exact iff_of_false Bool.noConfusion fun hr => h hr.2

theorem position_handOn : (t.handOn bytes).position = t.position := by
  unfold handOn
  split <;> rfl

theorem taken_handOn : (t.handOn bytes).taken = t.taken := by
  unfold handOn
  split <;> rfl

theorem system_handOn : (t.handOn bytes).system = t.system := by
  unfold handOn
  split <;> rfl

end

/-- What the running process is given does not concern the ones that wait. -/
theorem Running.parked_deliver {t : Intake} (h : t.Running input) (bytes : Bytes) :
    (t.deliver bytes).Parked input := by
  have hle : t.taken ≤ (t.deliver bytes).taken := by
    rw [taken_deliver]
    exact Nat.le_add_right _ _
  refine ⟨?_, fun d hd => ?_, ?_, fun r hr => ?_, fun hnone => ?_, fun p hp => ?_⟩
  · rw [base_deliver, system_deliver]
    exact h.reads.mono hle
  · rw [nextReader_deliver]
    rcases mem_deliver hd with hold | rfl
    · exact h.fresh d hold
    · exact h.reader
  · rw [reader_deliver, nextReader_deliver]
    exact h.reader
  · rw [vforkParent_deliver] at hr
    rw [reader_deliver, nextReader_deliver, position_deliver]
    obtain ⟨hne, hlt, hbehind⟩ := h.vfork r hr
    exact ⟨hne, hlt, hbehind.deliver (.inl hne)⟩
  · rw [waiting_deliver] at hnone
    rw [system_deliver]
    exact h.idle hnone
  · rw [waiting_deliver] at hp
    obtain ⟨parent, hparent, hreads, hbehind, hstep, hne, hvfork, hlt⟩ := h.waiting p hp
    rw [system_deliver, reader_deliver, vforkParent_deliver, nextReader_deliver]
    refine ⟨parent, hparent, hreads.mono hle, hbehind.deliver (.inl hne), ?_, hne, hvfork, hlt⟩
    rw [touched_deliver, taken_deliver, ← and_assoc, ← hstep, ← length_eq_zero_iff]
    have hparentLe := hreads.le
    omega

/-- Another system with the same parent, whose running runtime has read on. -/
theorem Parked.withSystem {t : Intake} (h : t.Parked input) (hparent : s.parent = t.system.parent)
    (hreads : Reads input t.taken t.base s.runtime)
    (hle : t.system.runtime.stdinOffset ≤ s.runtime.stdinOffset) :
    (t.withSystem s).Parked input := by
  refine ⟨hreads, h.fresh, h.reader, fun r hr => ?_, fun hnone => ?_, fun p hp => ?_⟩
  · obtain ⟨hne, hlt, hbehind⟩ := h.vfork r hr
    exact ⟨hne, hlt, hbehind.mono (Nat.add_le_add_left hle t.base)⟩
  · exact hparent.trans (h.idle hnone)
  · obtain ⟨parent, hsome, hrest⟩ := h.waiting p hp
    exact ⟨parent, hparent.trans hsome, hrest⟩

theorem Parked.handOn {t : Intake} (h : t.Parked input) (bytes : Bytes) :
    (t.handOn bytes).Parked input := by
  unfold Intake.handOn
  split
  · exact h
  · exact ⟨h.reads, h.fresh, h.reader, h.vfork, h.idle, h.waiting⟩

/-- What is said of the one that waits holds where none does. -/
theorem forall_of_eq_none {α : Type} {P : α → Prop} {o : Option α} (h : o = none) :
    ∀ a, o = some a → P a :=
  fun a ha => absurd (ha.symm.trans h) (Option.some_ne_none a)

/-- The end of a runtime leaves its parent, or nothing, to go on. -/
theorem Parked.endRuntime {t : Intake} (h : t.Parked input) :
    t.endRuntime.ended = true ∨ t.endRuntime.Running input := by
  unfold Intake.endRuntime
  split
  next p hwaiting =>
    obtain ⟨parent, hparent, hreads, hbehind, hstep, hne, hvfork, hlt⟩ := h.waiting p hwaiting
    have hexit : t.system.exit = ⟨t.system.world.closeAllOpenFiles.host, parent, none⟩ := by
      rw [System.exit, hparent]
    refine .inr ⟨⟨?_, h.fresh, hlt, forall_of_eq_none rfl, fun _ => ?_, forall_of_eq_none rfl⟩,
      ?_, ?_⟩
    · rw [hexit]
      exact hreads
    · rw [hexit]
    · rw [position, hexit]
      exact hbehind
    · rw [InStep, position, hexit, Bool.or_eq_false_iff]
      exact hstep
  · exact .inl rfl

/-- The end of a process leaves the one that waits for it, or nothing, to go on. -/
theorem Parked.endProcess {t : Intake} (h : t.Parked input) (hstep : t.InStep) :
    t.endProcess.ended = true ∨ t.endProcess.Running input := by
  unfold Intake.endProcess
  split
  next r hvfork =>
    obtain ⟨hne, hlt, hbehind⟩ := h.vfork r hvfork
    refine .inr ⟨⟨h.reads, h.fresh, hlt, forall_of_eq_none rfl, h.idle, fun p hp => ?_⟩,
      hbehind, hstep⟩
    obtain ⟨parent, hparent, hreads, hbehind', hparentStep, -, hother, hlt'⟩ := h.waiting p hp
    refine ⟨parent, hparent, hreads, hbehind', hparentStep, ?_,
      (fun h => Option.some_ne_none _ h.symm), hlt'⟩
    rintro rfl
    exact hother hvfork
  · exact h.endRuntime

theorem Parked.endExec {t : Intake} (h : t.Parked input) (hstep : t.InStep) :
    t.endExec.ended = true ∨ t.endExec.Running input := by
  unfold Intake.endExec
  split
  · exact h.endRuntime
  · exact h.endProcess hstep

/-- A child command changes neither the parent nor the position. -/
theorem execSystem_spec (t : Intake) (returned : Option World.SnapshotTree)
    (stdout stderr : Bytes) :
    (t.execSystem returned stdout stderr).parent = t.system.parent ∧
      World.KeepsStdin t.system.world (t.execSystem returned stdout stderr).world := by
  have hinput := World.keepsStdin_of_runtime
    (t.system.world.runtime_processExecInputBytes stdinFd)
  have houtput : ∀ (s : System) (fd : Int) (bytes : Bytes),
      World.KeepsStdin s.world (s.step (.childOutput fd bytes)).world :=
    fun s fd bytes => World.keepsStdin_of_runtime (s.world.runtime_writeBytesToFd fd bytes)
  have himport : World.KeepsStdin (t.system.step (.childInput stdinFd)).world
      ((returned.map fun snapshot =>
        (t.system.step (.childInput stdinFd)).step (.childSnapshot snapshot)).getD
          (t.system.step (.childInput stdinFd))).world := by
    cases returned with
    | none => exact ⟨rfl, rfl⟩
    | some snapshot => exact World.keepsStdin_childSnapshot _ snapshot
  refine ⟨?_, ((hinput.trans himport).trans (houtput _ stdoutFd stdout)).trans
    (houtput _ stderrFd stderr)⟩
  cases returned <;> rfl

/-- The bytes that an event gives to the running process are the next ones of the input. -/
theorem Running.takes_eq {t : Intake} (h : t.Running input) (e : InputEvent) :
    t.takes e = (input.drop t.position).take (t.takes e).length := by
  have htake : ∀ n : ℕ, (t.system.runtime.stdin.drop t.system.runtime.stdinOffset).take n =
      (input.drop t.position).take
        ((t.system.runtime.stdin.drop t.system.runtime.stdinOffset).take n).length := by
    intro n
    rw [h.reads.stdin, drop_drop, length_take, ← position]
    exact (take_eq_take_iff.2 (by omega))
  have hall : t.system.world.remainingStdinBytes =
      (input.drop t.position).take t.system.world.remainingStdinBytes.length := by
    have hrest := htake t.system.world.remainingStdinBytes.length
    rwa [show t.system.runtime.stdin.drop t.system.runtime.stdinOffset =
      t.system.world.remainingStdinBytes from rfl, take_length] at hrest
  have hnil : ([] : Bytes) = (input.drop t.position).take ([] : Bytes).length := rfl
  cases e with
  | call => exact htake _
  | exec =>
    have hexec : ∀ bytes, bytes = t.system.world.remainingStdinBytes ∨ bytes = [] →
        bytes = (input.drop t.position).take bytes.length := by
      rintro bytes (rfl | rfl)
      · exact hall
      · exact hnil
    exact hexec _ (t.system.world.execStdin_cases stdinFd)
  | _ => exact hnil

/-- A call reads on from the position of the running runtime. -/
theorem Running.call {t : Intake} (h : t.Running input) (c : Call) :
    ((t.deliver (t.takes (.call c))).move (.call c)).Running input := by
  have hreads : t.system.runtime.ReadsOn (t.system.world.call c).runtime :=
    World.readsOn_call t.system.world c
  have hbytes : t.system.runtime.stdinOffset + (t.takes (.call c)).length =
      (t.system.world.call c).runtime.stdinOffset :=
    World.length_takenBy (w := t.system.world) h.reads.offset_le c
  have hnext : Reads input (t.taken + (t.takes (.call c)).length) t.base
      (t.system.world.call c).runtime := by
    have hbound := hreads.bound h.reads.offset_le
    rw [h.reads.stdin, length_drop] at hbound
    have hstart := h.reads.bound
    have hle := h.reads.le
    exact ⟨hreads.stdin.trans h.reads.stdin, by omega, by omega⟩
  have hposition : ((t.deliver (t.takes (.call c))).move (.call c)).position =
      t.position + (t.takes (.call c)).length := by
    show (t.deliver _).base + ((t.deliver _).system.world.call c).runtime.stdinOffset = _
    rw [base_deliver, system_deliver, ← hbytes, position, Nat.add_assoc]
  refine ⟨(h.parked_deliver _).withSystem rfl ?_ ?_, ?_, ?_⟩
  · rw [taken_deliver, base_deliver, system_deliver]
    exact hnext
  · rw [system_deliver]
    exact hreads.le
  · rw [hposition]
    show (t.deliver _).Behind (t.deliver _).reader _
    rw [reader_deliver]
    exact (h.behind.mono (Nat.le_add_right _ _)).deliver (.inr le_rfl)
  · rw [InStep, hposition]
    show _ = (t.deliver _).taken ↔ (t.deliver _).handedOn = false
    rw [taken_deliver, handedOn_deliver, Nat.add_right_cancel_iff]
    exact h.inStep

/-- The child of a fork gets what is left of the input of its parent. -/
theorem Running.forkReader {t : Intake} (h : t.Running input) : t.forkReader.Running input := by
  unfold Intake.forkReader
  split
  next hidle =>
    obtain ⟨hvfork, hwaiting⟩ := hidle
    have hfork : t.system.fork =
        { t.system.withWorld t.system.world.forkChild with parent := some t.system.runtime } := by
      rw [System.fork, h.idle hwaiting]
    have hchild : Reads input t.taken t.position t.system.fork.runtime := by
      rw [hfork]
      refine ⟨?_, h.reads.bound, h.reads.le⟩
      show t.system.runtime.stdin.drop t.system.runtime.stdinOffset = input.drop t.position
      rw [h.reads.stdin, drop_drop, position]
    refine ⟨⟨hchild, fun d hd => ?_, Nat.lt_succ_self _, forall_of_eq_none hvfork,
      (fun hr => absurd hr (Option.some_ne_none _)), fun p hp => ?_⟩, fun d hd hreader => ?_, ?_⟩
    · exact (h.fresh d hd).trans (Nat.lt_succ_self _)
    · obtain rfl := Option.some.inj hp
      refine ⟨t.system.runtime, by rw [hfork], h.reads, h.behind, ?_, h.reader.ne, ?_, ?_⟩
      · exact h.inStep.trans (and_iff_left rfl).symm
      · exact fun hr => Option.some_ne_none _ (hr.symm.trans hvfork)
      · exact h.reader.trans (Nat.lt_succ_self _)
    -- the number of the child is new
    · exact absurd hreader (h.fresh d hd).ne
    · rw [InStep, position, hfork]
      exact h.inStep
  · exact h

theorem Running.vforkReader {t : Intake} (h : t.Running input) : t.vforkReader.Running input := by
  unfold Intake.vforkReader
  split
  next hvfork =>
    refine ⟨⟨h.reads, fun d hd => ?_, Nat.lt_succ_self _, fun r hr => ?_, h.idle,
      fun p hp => ?_⟩, fun d hd hreader => ?_, h.inStep⟩
    · exact (h.fresh d hd).trans (Nat.lt_succ_self _)
    · obtain rfl := Option.some.inj hr
      exact ⟨h.reader.ne, h.reader.trans (Nat.lt_succ_self _), h.behind⟩
    · obtain ⟨parent, hparent, hreads, hbehind, hstep, hne, -, hlt⟩ := h.waiting p hp
      refine ⟨parent, hparent, hreads, hbehind, hstep, hlt.ne, ?_, hlt.trans (Nat.lt_succ_self _)⟩
      exact fun hr => hne (Option.some.inj hr).symm
    · exact absurd hreader (h.fresh d hd).ne
  · exact h

/-- A child command leaves the position of its runtime where it was, and ends the process that
started it. -/
theorem Running.exec {t : Intake} (h : t.Running input) (returned : Option World.SnapshotTree)
    (stdout stderr : Bytes) :
    ((t.deliver (t.takes (.exec returned stdout stderr))).move
      (.exec returned stdout stderr)).ended =
        true ∨
      ((t.deliver (t.takes (.exec returned stdout stderr))).move
        (.exec returned stdout stderr)).Running input := by
  obtain ⟨bytes, hbytes⟩ : ∃ bytes, bytes = t.system.world.execStdin stdinFd := ⟨_, rfl⟩
  obtain ⟨hparent, hstdin, hoffset⟩ := t.execSystem_spec returned stdout stderr
  have hgiven : ((t.deliver bytes).handOn bytes).Parked input :=
    (h.parked_deliver bytes).handOn bytes
  have hsystem : ((t.deliver bytes).handOn bytes).system = t.system := by
    rw [system_handOn, system_deliver]
  have hposition : ((t.deliver bytes).handOn bytes).position = t.position := by
    rw [position_handOn, position_deliver]
  have hparked : (((t.deliver bytes).handOn bytes).withSystem
      (t.execSystem returned stdout stderr)).Parked input := by
    have hreads := hgiven.reads
    rw [hsystem] at hreads
    refine hgiven.withSystem ?_ ⟨hstdin.trans hreads.stdin, ?_, ?_⟩ ?_
    · rw [hsystem]
      exact hparent
    · exact hoffset.symm ▸ hreads.bound
    · exact hoffset.symm ▸ hreads.le
    · rw [hsystem]
      exact hoffset.ge
  have hstep : (((t.deliver bytes).handOn bytes).withSystem
      (t.execSystem returned stdout stderr)).InStep := by
    have hstays : (((t.deliver bytes).handOn bytes).withSystem
        (t.execSystem returned stdout stderr)).position = t.position := by
      rw [← hposition, position, position, hsystem]
      exact congrArg _ hoffset
    show _ = ((t.deliver bytes).handOn bytes).taken ↔
      ((t.deliver bytes).handOn bytes).handedOn = false
    have hbefore : t.position = t.taken ↔ t.handedOn = false := h.inStep
    have hle : t.position ≤ t.taken := h.reads.le
    rw [hstays, taken_handOn, taken_deliver, handedOn_handOn, handedOn_deliver, ← hbefore,
      ← length_eq_zero_iff]
    omega
  show ((t.deliver (t.system.world.execStdin stdinFd)).move _).ended = true ∨
    ((t.deliver (t.system.world.execStdin stdinFd)).move _).Running input
  rw [move, system_deliver, execSystem_deliver, ← hbytes]
  exact hparked.endExec hstep

/-- A run goes on until it is over. -/
theorem Running.step {t : Intake} (h : t.Running input) (e : InputEvent) :
    (t.step e).ended = true ∨ (t.step e).Running input := by
  unfold Intake.step
  split
  next hended => exact .inl hended
  have hnothing : t.deliver [] = t := if_pos rfl
  cases e with
  | call c => exact .inr (h.call c)
  | vfork => exact .inr (hnothing.symm ▸ h.vforkReader)
  | fork => exact .inr (hnothing.symm ▸ h.forkReader)
  | exit2 => exact hnothing.symm ▸ h.toParked.endProcess h.inStep
  | exit => exact hnothing.symm ▸ h.toParked.endRuntime
  | exec returned stdout stderr => exact h.exec returned stdout stderr

/-! ### The law of standard input -/

/-- What the condition makes inductive. -/
theorem Running.contiguous_deliver {t : Intake} (h : t.Running input)
    (hds : Contiguous input 0 t.deliveries) (howns : t.takes e ≠ [] → t.handedOn = false) :
    Contiguous input 0 (t.deliver (t.takes e)).deliveries := by
  unfold deliver
  split
  · exact hds
  next hne =>
    rw [contiguous_append_iff, Nat.zero_add]
    exact ⟨hds, h.inStep.2 (howns hne), h.takes_eq e⟩

@[simp]
theorem deliveries_endRuntime (t : Intake) : t.endRuntime.deliveries = t.deliveries := by
  unfold Intake.endRuntime
  split <;> rfl

@[simp]
theorem deliveries_endProcess (t : Intake) : t.endProcess.deliveries = t.deliveries := by
  unfold Intake.endProcess
  split
  · rfl
  · exact t.deliveries_endRuntime

/-- Only what an event gives to the running process is given out. -/
theorem deliveries_move (t : Intake) (e : InputEvent) : (t.move e).deliveries = t.deliveries := by
  cases e with
  | call => rfl
  | vfork =>
    show t.vforkReader.deliveries = _
    unfold vforkReader
    split <;> rfl
  | fork =>
    show t.forkReader.deliveries = _
    unfold forkReader
    split <;> rfl
  | exit2 => exact t.deliveries_endProcess
  | exit => exact t.deliveries_endRuntime
  | exec =>
    have hhand : ∀ bytes, (t.handOn bytes).deliveries = t.deliveries := by
      intro bytes
      unfold handOn
      split <;> rfl
    show (endExec _).deliveries = _
    unfold endExec
    split
    · exact (deliveries_endRuntime _).trans (hhand _)
    · exact (deliveries_endProcess _).trans (hhand _)

/-- A process that takes bytes from a runtime that has given them away gets bytes of another. -/
theorem Running.handedOn_of_consumedOnce {t : Intake} (h : t.Running input)
    (hds : Contiguous input 0 t.deliveries)
    (honce : ((t.deliver (t.takes e)).move e).ConsumedOnce input) (hne : t.takes e ≠ []) :
    t.handedOn = false := by
  refine h.inStep.1 (by_contra fun hbehind => ?_)
  have hlt : t.position < 0 + (t.deliveries.map fun d => d.bytes.length).sum := by
    rw [Nat.zero_add]
    exact lt_of_le_of_ne h.reads.le hbehind
  obtain ⟨d, hd, hcovers⟩ := hds.exists_covers (Nat.zero_le _) hlt
  have hmem :
      (t.deliver (t.takes e)).deliveries = t.deliveries ++ [⟨t.reader, t.position, t.takes e⟩] := by
    rw [deliver, if_neg hne]
  refine honce.disjoint d ?_ ⟨t.reader, t.position, t.takes e⟩ ?_ ?_ t.position hcovers ?_
  · rw [deliveries_move, hmem]
    exact mem_append_left _ hd
  · rw [deliveries_move, hmem]
    exact mem_append_right _ (mem_singleton_self _)
  · -- the process itself was given nothing from its position on
    exact fun hreader => absurd (h.behind d hd hreader) (Nat.not_le.2 hcovers.2)
  · exact ⟨le_rfl, Nat.lt_add_of_pos_right (length_pos_iff.2 hne)⟩

theorem running_start (hparent : s.parent = none) (hoffset : s.runtime.stdinOffset = 0) :
    (start s).Running s.runtime.stdin := by
  have hposition : (start s).position = 0 := by
    rw [position, start, hoffset]
  refine ⟨⟨⟨drop_zero.symm, ?_, ?_⟩, (fun d hd => nomatch hd), Nat.zero_lt_one,
    forall_of_eq_none rfl, fun _ => hparent, forall_of_eq_none rfl⟩, (fun d hd => nomatch hd),
    iff_of_true hposition rfl⟩
  · exact hposition.le.trans (Nat.zero_le _)
  · exact hposition.le

/-- No byte of standard input is given to two processes, and what is given out in order is a prefix
of the input, exactly as long as no process takes bytes from a runtime that has given them to
somebody else: to a child command, or to a copied-memory fork that has ended. -/
theorem consumedOnce_iff (snapshot : Option World.SnapshotTree)
    (files rootFiles : List PackageFile) (cwd : Option Text) (stdin : Bytes)
    (events : List InputEvent) :
    Always step (fun t => t.ConsumedOnce stdin)
        (start (System.boot snapshot files rootFiles cwd stdin)) events ↔
      Along step TakesOwn (start (System.boot snapshot files rootFiles cwd stdin)) events := by
  refine always_iff_of_inductive (I := fun t => t.ended = true ∨ t.Running stdin)
    (c := fun t => Contiguous stdin 0 t.deliveries) ?_ (fun t _ => consumedOnce_of_contiguous) ?_ ?_
    (.inr (running_start (s := System.boot snapshot files rootFiles cwd stdin) rfl rfl))
      (show Contiguous stdin 0 [] from trivial) events
  · rintro t e (hended | hrunning)
    · exact .inl (by rw [step, if_pos hended]; exact hended)
    · exact hrunning.step e
  · rintro t e hinv hds honce hgoes hne
    have hrunning := hinv.resolve_left (by simp [hgoes])
    rw [step, if_neg (by simp [hgoes])] at honce
    exact hrunning.handedOn_of_consumedOnce hds honce hne
  · intro t e hinv hds howns
    unfold step
    split
    next => exact hds
    next hgoes =>
      rw [deliveries_move]
      exact (hinv.resolve_left hgoes).contiguous_deliver hds
        (howns (Bool.eq_false_iff.2 hgoes))

/-- A fork reads the only byte of the input and ends, and its parent reads the byte again. -/
def readTwice : List InputEvent :=
  [.fork, .call (.fdRead iovMemory 0 8 1 24), .exit, .call (.fdRead iovMemory 0 8 1 24)]

theorem not_consumedOnce_readTwice :
    ¬Always step (fun t => t.ConsumedOnce [7])
      (start (System.boot none [] [] none [7])) readTwice := by
  intro h
  have hdeliveries : (runAll step (start (System.boot none [] [] none [7])) readTwice).deliveries =
      [⟨1, 0, [7]⟩, ⟨0, 0, [7]⟩] := by
    decide
  have hdisjoint := h.last.disjoint
  rw [hdeliveries] at hdisjoint
  exact hdisjoint ⟨1, 0, [7]⟩ (by decide) ⟨0, 0, [7]⟩ (by decide) (by decide) 0 ⟨le_rfl, by decide⟩
    ⟨le_rfl, by decide⟩

end Intake

end WasmHost
