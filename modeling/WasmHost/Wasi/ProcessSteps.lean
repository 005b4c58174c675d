import WasmHost.Wasi.Process

/-!
# Steps of a process run

What the driver comes to after each call: where a guest that has unwound its stack goes on, and
what is left of a runtime whose child has ended.

* `ProcessRun.Invariant.step`: what holds of the runtimes of a run, by what the calls that change a
  table keep.
-/

namespace WasmHost

open Processes

theorem Memory.slice_store_self (mem : Memory) {start : ℕ} {bytes : Bytes}
    (h : start + bytes.length ≤ mem.byteLength) :
    (mem.store start bytes).slice start bytes.length = bytes := by
  have hlength : min bytes.length (mem.byteLength - start) = bytes.length := by omega
  refine List.ext_getElem ?_ fun i hi hi' => ?_
  · rw [Memory.length_slice, Memory.byteLength_store, hlength]
  · simp [Memory.slice, Memory.store, hi']

namespace JoinRequest

variable {r : JoinRequest} {requested : Option ℕ}

/-- A request that is served has room for its answer. -/
theorem room_of_requested (h : r.requested = .ok requested) :
    r.pidAt + wasixOptionPidSize ≤ r.mem.byteLength ∧
      r.statusAt + wasixJoinStatusSize ≤ r.mem.byteLength := by
  unfold JoinRequest.requested at h
  split at h
  · cases h
  next hroom =>
    rw [not_or, Nat.not_lt, Nat.not_lt] at hroom
    exact hroom

end JoinRequest

namespace Processes

variable {p : Processes} {vfork : ActiveVfork} {requested : Option ℕ} {child : ProcessRecord}

/-- The end of a process changes nothing but its record. -/
theorem markProcessExited_eq (p : Processes) (pid : ℕ) (code : Int) :
    p.markProcessExited pid code =
      { p with processes := (p.markProcessExited pid code).processes } := by
  unfold markProcessExited
  split <;> rfl

theorem activeVforkChild_eq_some_iff :
    p.activeVforkChild = some vfork ↔
      p.activeVfork = some vfork ∧ p.currentProcessId = vfork.childPid := by
  rw [activeVforkChild, Option.filter_eq_some_iff, decide_eq_true_eq]

/-- A runtime whose vfork child has ended. -/
def afterVfork (p : Processes) (vfork : ActiveVfork) (code : Int) : Processes :=
  { p.markProcessExited vfork.childPid code with activeVfork := none }.beginForkRewind
    vfork.childPid vfork.parentPid

/-- A runtime whose copied-memory fork has ended. -/
def afterCopyFork (p : Processes) (childPid parentPid : ℕ) (code : Int) : Processes :=
  (p.markProcessExited childPid code).beginForkRewind childPid parentPid

/-- The parent waits for the child that ends. -/
theorem beginVforkParentRewind_markProcessExited (h : p.activeVfork = some vfork) (code : Int) :
    (p.markProcessExited vfork.childPid code).beginVforkParentRewind vfork.childPid =
      some (p.afterVfork vfork code) := by
  unfold beginVforkParentRewind
  rw [markProcessExited_eq, h]
  dsimp only
  rw [if_pos rfl, afterVfork, markProcessExited_eq]

/-- A call of `proc_fork` enters a child into the table, or the table stays as it is. -/
theorem procFork_cases (hrewind : p.pendingForkRewind = none) (mem : Memory)
    (copyMemory pidPtr : Int) :
    (∃ errno, p.procFork mem copyMemory pidPtr = (p, .errno errno)) ∨
      p.activeVfork = none ∧ (p.procFork mem copyMemory pidPtr = (p.beginVfork, .unwinds) ∨
        p.copyForkRunner = true ∧
          p.procFork mem copyMemory pidPtr = (p.beginCopyFork, .unwinds)) := by
  have hfinish : p.finishForkRewind = none := by
    rw [finishForkRewind, hrewind]
    rfl
  unfold procFork
  rw [hfinish]
  split
  · exact .inl ⟨_, rfl⟩
  dsimp only
  split
  · split
    · exact .inl ⟨_, rfl⟩
    next hsupport =>
      simp only [not_or, not_not] at hsupport
      exact .inr ⟨hsupport.2.1, .inr ⟨Bool.eq_true_of_not_eq_false hsupport.2.2, rfl⟩⟩
  · split
    · exact .inl ⟨_, rfl⟩
    next hsupport =>
      simp only [not_or, not_not] at hsupport
      exact .inr ⟨hsupport.2, .inl rfl⟩

variable {r : JoinRequest}

/-- The status of an exited child is what the guest finds. -/
theorem procJoin_exited (hrequested : r.requested = .ok requested)
    (h : p.joinAnswer requested = .exited child) :
    (p.procJoin r).1 = p.reapProcess child.pid ∧ (p.procJoin r).2.2 = .success ∧
      (p.procJoin r).2.1.slice r.statusAt wasixJoinStatusSize =
        exitNormal (child.exitCode.getD 0) := by
  have hroom := (JoinRequest.room_of_requested hrequested).2
  rw [procJoin, hrequested]
  dsimp only
  rw [h]
  exact ⟨rfl, rfl, Memory.slice_store_self _ hroom⟩

/-- Only an exited child makes a join change the table. -/
theorem procJoin_unchanged
    (h : ∀ requested, r.requested = .ok requested → ∀ child,
      p.joinAnswer requested ≠ .exited child) : (p.procJoin r).1 = p := by
  unfold procJoin
  split
  · rfl
  next requested hrequested =>
    have hne := h requested hrequested
    split
    · rfl
    · rfl
    · rfl
    · next child hchild => exact absurd hchild (hne child)

/-- A process that is not a child of the caller is not reported. -/
theorem procJoin_stranger {n : ℕ} (hrequested : r.requested = .ok (some n))
    (h : ∀ record, p.processes.get n = some record → record.parentPid ≠ p.currentProcessId) :
    p.procJoin r = (p, r.answer (optionPid wasixOptionTagNone 0) statusNothing, .success) := by
  have hanswer : p.joinAnswer (some n) = .nothing := by
    rw [joinAnswer, processRecord]
    split
    · rfl
    next record hrecord => exact if_pos (h record hrecord)
  rw [procJoin, hrequested]
  dsimp only
  rw [hanswer]

/-- A child that is reported is an exited child of the caller. -/
theorem of_joinAnswer_exited (h : p.joinAnswer requested = .exited child) :
    (∃ n, p.processes.get n = some child) ∧ child.parentPid = p.currentProcessId ∧
      child.state = .exited := by
  cases requested with
  | none =>
    rw [joinAnswer] at h
    split at h
    next child' hfound =>
      obtain rfl := JoinAnswer.exited.inj h
      have hmem := List.mem_of_find?_eq_some hfound
      have hchild := List.find?_some hfound
      rw [Bool.and_eq_true, decide_eq_true_eq, decide_eq_true_eq] at hchild
      exact ⟨(OrdMap.mem_values _ _).1 hmem, hchild⟩
    · split at h <;> cases h
  | some n =>
    rw [joinAnswer, processRecord] at h
    split at h
    · cases h
    next record hrecord =>
      split at h
      · cases h
      next hparent =>
        split at h
        next hstate =>
          obtain rfl := JoinAnswer.exited.inj h
          exact ⟨⟨n, hrecord⟩, not_not.1 hparent, hstate⟩
        · cases h

end Processes

namespace Guest

variable (g : Guest)

/-- The child of a vfork, in the place of its parent. -/
def vforkChild : Guest :=
  { g.fork g.host.beginVfork with
    host :=
      { g.host.beginVfork with
        pendingStackUnwind := none
        activeVfork := some ⟨g.host.nextProcessId, g.host.currentProcessId⟩ }.beginForkRewind 0
          g.host.nextProcessId }

/-- The parent of a copied-memory fork, which waits. -/
def copyForkParent : Waiting :=
  ⟨{ g.fork g.host.beginCopyFork with
      host := { g.host.beginCopyFork with pendingStackUnwind := none } },
    g.host.nextProcessId, g.host.currentProcessId⟩

/-- The guest in a copied child. -/
def copyForkChild : Guest :=
  Guest.new ((Processes.copiedForkChild g.host.nextProcessId g.host.currentProcessId
    g.host.hasStackContinuationSupport).beginForkRewind 0 g.host.nextProcessId)

/-- Two guests whose tables and records are the same. What is pending, the turn and what `proc_fork`
has returned may differ. -/
structure SameTable (g g' : Guest) : Prop where
  host : g'.host =
    { g.host with
      pendingStackUnwind := g'.host.pendingStackUnwind
      pendingForkRewind := g'.host.pendingForkRewind }
  handedOut : g'.handedOut = g.handedOut
  exits : g'.exits = g.exits
  reports : g'.reports = g.reports

/-- The guest is unwound, and a rewind that is pending is in the process that runs. -/
structure Unwound : Prop where
  unwound : g.host.pendingStackUnwind = none
  rewinds : ∀ r, g.host.pendingForkRewind = some r → r.processId = g.host.currentProcessId

variable {g}

theorem sameTable_resume (h : g.Unwound) (turn : ℕ) :
    g.SameTable { g with turn := turn }.resume := by
  unfold resume finishForkRewind
  cases hpending : g.host.pendingForkRewind with
  | none => exact ⟨rfl, rfl, rfl, rfl⟩
  | some rewind => exact ⟨by simp [h.rewinds rewind hpending], rfl, rfl, rfl⟩

theorem pending_resume (g : Guest) : g.resume.host.pendingForkRewind = none ∧
    g.resume.host.pendingStackUnwind = g.host.pendingStackUnwind := by
  unfold resume finishForkRewind
  cases hpending : g.host.pendingForkRewind with
  | none => exact ⟨hpending, rfl⟩
  | some => exact ⟨rfl, rfl⟩

/-- A join reports an exited child, or it changes nothing. -/
theorem join_cases (g : Guest) (r : JoinRequest) :
    (∃ requested child, r.requested = .ok requested ∧
      g.host.joinAnswer requested = .exited child ∧
        g.join r =
          { g with
            host := g.host.reapProcess child.pid
            reports := g.reports ++
              [⟨g.host.currentProcessId, child.pid, exitNormal (child.exitCode.getD 0)⟩] }) ∨
      g.join r = g := by
  by_cases hexited : ∃ requested child, r.requested = .ok requested ∧
      g.host.joinAnswer requested = .exited child
  · obtain ⟨requested, child, hrequested, hanswer⟩ := hexited
    obtain ⟨hreap, -, hstatus⟩ := procJoin_exited hrequested hanswer
    refine .inl ⟨requested, child, hrequested, hanswer, ?_⟩
    rw [join, hrequested]
    simp only [Except.toOption, Option.map_some, hanswer, hreap, hstatus]
  · have hunchanged : (g.host.procJoin r).1 = g.host :=
      procJoin_unchanged fun requested hrequested child hanswer =>
        hexited ⟨requested, child, hrequested, hanswer⟩
    refine .inr ?_
    unfold join
    dsimp only
    split
    next child hanswer =>
      obtain ⟨requested, hrequested, hchild⟩ := Option.map_eq_some_iff.1 hanswer
      cases hsome : r.requested with
      | error => simp [hsome, Except.toOption] at hrequested
      | ok requested' =>
        rw [hsome] at hrequested
        exact absurd ⟨requested', child, hsome, Option.some.inj hrequested ▸ hchild⟩ hexited
    · rw [hunchanged]

/-- A join has nothing to do with what is pending. -/
theorem pending_join (g : Guest) (r : JoinRequest) :
    (g.join r).host.pendingStackUnwind = g.host.pendingStackUnwind ∧
      (g.join r).host.pendingForkRewind = g.host.pendingForkRewind := by
  have hjoin : (g.host.procJoin r).1.pendingStackUnwind = g.host.pendingStackUnwind ∧
      (g.host.procJoin r).1.pendingForkRewind = g.host.pendingForkRewind := by
    unfold procJoin reapProcess
    repeat' split
    all_goals exact ⟨rfl, rfl⟩
  unfold join
  split <;> exact hjoin

end Guest

namespace ProcessRun

variable {t : ProcessRun} {vfork : ActiveVfork}

/-- Between two calls nothing is pending. -/
structure Ready (t : ProcessRun) : Prop where
  running : t.outcome = none → t.guest.host.pendingStackUnwind = none ∧
    t.guest.host.pendingForkRewind = none
  waiting : ∀ w, t.waiting = some w → w.guest.host.pendingStackUnwind = none

/-- A call of `proc_fork` goes on in the child, or not at all. -/
theorem Ready.procFork (h : t.Ready) (hgoes : t.outcome = none) (mem : Memory)
    (copyMemory pidPtr : Int) :
    t.move (.procFork mem copyMemory pidPtr) = t ∨
      t.guest.host.activeVfork = none ∧
        (t.guest.host.procFork mem copyMemory pidPtr).2 = .unwinds ∧
          (t.move (.procFork mem copyMemory pidPtr) = t.nextTurn t.guest.vforkChild ∨
            t.guest.host.copyForkRunner = true ∧ t.move (.procFork mem copyMemory pidPtr) =
              { t with guest := t.guest.copyForkChild.resume
                       waiting := some t.guest.copyForkParent }) := by
  rcases procFork_cases (h.running hgoes).2 mem copyMemory pidPtr with
    ⟨errno, heq⟩ | ⟨hidle, heq | ⟨hrunner, heq⟩⟩
  · rw [move, heq]
    exact .inl rfl
  · rw [move, heq]
    exact .inr ⟨hidle, rfl, .inl rfl⟩
  · rw [move, heq]
    exact .inr ⟨hidle, rfl, .inr ⟨hrunner, rfl⟩⟩

/-- The end of a vfork child by `proc_exit2` takes a turn. -/
theorem procExit2_eq (hunwound : t.guest.host.pendingStackUnwind = none)
    (hvfork : t.guest.host.activeVforkChild = some vfork) (code : Int) :
    t.procExit2 code = t.nextTurn (t.guest.exited vfork.childPid (toUint32 code)
      (t.guest.host.afterVfork vfork (toUint32 code))) := by
  have hactive := (activeVforkChild_eq_some_iff.1 hvfork).1
  have hrewind := beginVforkParentRewind_markProcessExited hactive (toUint32 code)
  have hhost : { t.guest.host.markProcessExited vfork.childPid (toUint32 code) with
      pendingStackUnwind := none } =
        t.guest.host.markProcessExited vfork.childPid (toUint32 code) := by
    rw [markProcessExited_eq, hunwound]
  rw [procExit2, beginVforkChildExit, hvfork]
  simp only [Option.map_some, finishContinuationTurn, Guest.exited, hhost, hrewind]

/-- The end of a child command of a vfork child, in the first runtime. -/
theorem runProcessExec_eq (hwaiting : t.waiting = none)
    (hvfork : t.guest.host.activeVforkChild = some vfork) (code : Int) :
    t.runProcessExec code =
      { t with
        guest :=
          { t.guest.exited vfork.childPid (toUint32 code)
              (t.guest.host.afterVfork vfork (toUint32 code)) with turn := 0 }.resume } := by
  have hactive := (activeVforkChild_eq_some_iff.1 hvfork).1
  have hrewind := beginVforkParentRewind_markProcessExited hactive (toUint32 code)
  rw [runProcessExec, completeActiveVforkChild, hwaiting, hvfork]
  simp only [Option.bind_some, hrewind]

/-- What the calls that change a table keep, for the runtime that runs and for one that waits.
`admits` is asked of a runtime that makes a fork. -/
structure Invariant (P : Guest → Prop) (W : Waiting → Prop) (admits : Guest → Prop) : Prop where
  sameTable : ∀ {g g'}, P g → g.SameTable g' → P g'
  vfork : ∀ {g}, P g → g.host.activeVfork = none → admits g → P g.vforkChild
  copyFork : ∀ {g}, P g → g.host.activeVfork = none → g.host.copyForkRunner = true → admits g →
    P g.copyForkChild ∧ W g.copyForkParent
  exit : ∀ {g vfork}, P g → g.host.activeVforkChild = some vfork → ∀ code,
    P (g.exited vfork.childPid code (g.host.afterVfork vfork code))
  copyExit : ∀ {w}, W w → ∀ code,
    P (w.guest.exited w.childPid code (w.guest.host.afterCopyFork w.childPid w.parentPid code))
  join : ∀ {g}, P g → ∀ r, P (g.join r)

/-- A property of the runtimes of a run, between two calls. -/
structure Holds (P : Guest → Prop) (W : Waiting → Prop) (t : ProcessRun) : Prop where
  running : P t.guest
  waiting : ∀ w, t.waiting = some w → W w
  ready : t.Ready

/-- A fork that is accepted is one that the runtime admits. -/
def Admits (admits : Guest → Prop) (t : ProcessRun) : ProcessEvent → Prop
  | .procFork mem copyMemory pidPtr =>
      t.outcome = none → (t.guest.host.procFork mem copyMemory pidPtr).2 = .unwinds → admits t.guest
  | _ => True

namespace Invariant

variable {P : Guest → Prop} {W : Waiting → Prop} {admits : Guest → Prop}

variable {g : Guest}

theorem resume (h : Invariant P W admits) (hg : P g) (hunwound : g.Unwound) (turn : ℕ)
    (hwaiting : ∀ w, t.waiting = some w → W w ∧ w.guest.host.pendingStackUnwind = none) :
    Holds P W { t with guest := { g with turn := turn }.resume } := by
  obtain ⟨hrewind, hunwind⟩ := Guest.pending_resume { g with turn := turn }
  exact ⟨h.sameTable hg (Guest.sameTable_resume hunwound _), fun w hw => (hwaiting w hw).1,
    fun _ => ⟨hunwind.trans hunwound.unwound, hrewind⟩, fun w hw => (hwaiting w hw).2⟩

theorem nextTurn (h : Invariant P W admits) (hg : P g) (hunwound : g.Unwound)
    (hwaiting : ∀ w, t.waiting = some w → W w ∧ w.guest.host.pendingStackUnwind = none) :
    (t.nextTurn g).Holds P W := by
  unfold ProcessRun.nextTurn
  split
  · exact h.resume hg hunwound _ hwaiting
  · exact ⟨hg, fun w hw => (hwaiting w hw).1, (fun hgoes => nomatch hgoes),
      fun w hw => (hwaiting w hw).2⟩

theorem complete (h : Invariant P W admits) (ht : t.Holds P W) (code : Int) :
    (t.complete code).Holds P W := by
  unfold ProcessRun.complete
  split
  · exact ⟨ht.running, ht.waiting, (fun hgoes => nomatch hgoes), ht.ready.waiting⟩
  next w hw =>
    refine h.nextTurn (h.copyExit (ht.waiting w hw) code) ⟨?_, fun r hr => ?_⟩
      fun w' hw' => nomatch hw'
    · rw [Guest.exited, markProcessExited_eq]
      exact ht.ready.waiting w hw
    · rw [← Option.some.inj hr]
      rfl

theorem unwound_exit (hunwound : g.host.pendingStackUnwind = none) (vfork : ActiveVfork)
    (code : Int) : (g.exited vfork.childPid code (g.host.afterVfork vfork code)).Unwound := by
  refine ⟨?_, fun r hr => ?_⟩
  · rw [Guest.exited, afterVfork, markProcessExited_eq]
    exact hunwound
  · rw [← Option.some.inj hr]
    rfl

/-- One step keeps what holds of the runtimes of a run. -/
theorem step (h : Invariant P W admits) (ht : t.Holds P W) {e : ProcessEvent}
    (hadmits : t.Admits admits e) : (t.step e).Holds P W := by
  have hparent : ∀ w, t.waiting = some w → W w ∧ w.guest.host.pendingStackUnwind = none :=
    fun w hw => ⟨ht.waiting w hw, ht.ready.waiting w hw⟩
  have hfail : t.fail.Holds P W :=
    ⟨ht.running, ht.waiting, (fun hgoes => nomatch hgoes), ht.ready.waiting⟩
  unfold ProcessRun.step
  split
  swap
  · exact ht
  next hgoes =>
  obtain ⟨hunwound, hrewind⟩ := ht.ready.running hgoes
  cases e with
  | procFork mem copyMemory pidPtr =>
    rcases ht.ready.procFork hgoes mem copyMemory pidPtr with
      heq | ⟨hidle, hunwinds, heq | ⟨hrunner, heq⟩⟩
    · rw [heq]
      exact ht
    · rw [heq]
      refine h.nextTurn (h.vfork ht.running hidle (hadmits hgoes hunwinds)) ⟨rfl, fun r hr => ?_⟩
        hparent
      rw [← Option.some.inj hr]
      rfl
    · obtain ⟨hchild, hwaits⟩ := h.copyFork ht.running hidle hrunner (hadmits hgoes hunwinds)
      rw [heq]
      refine h.resume (t := { t with waiting := some t.guest.copyForkParent }) hchild
        ⟨rfl, fun r hr => ?_⟩ 0 fun w hw => ?_
      · rw [← Option.some.inj hr]
        rfl
      · exact Option.some.inj hw ▸ ⟨hwaits, rfl⟩
  | procJoin r =>
    obtain ⟨hunwind, hpending⟩ := t.guest.pending_join r
    exact ⟨h.join ht.running r, ht.waiting,
      fun _ => ⟨hunwind.trans hunwound, hpending.trans hrewind⟩, ht.ready.waiting⟩
  | procExit code => exact h.complete ht code
  | procExit2 code =>
    show (t.procExit2 code).Holds P W
    cases hvfork : t.guest.host.activeVforkChild with
    | none =>
      rw [procExit2, hvfork]
      exact h.complete ht code
    | some =>
      rw [procExit2_eq hunwound hvfork]
      exact h.nextTurn (h.exit ht.running hvfork _) (unwound_exit hunwound _ _) hparent
  | procExec how env command exitCode =>
    have hrun : ∀ code, (t.runProcessExec code).Holds P W := by
      intro code
      by_cases hvfork : t.waiting = none ∧ ∃ vfork, t.guest.host.activeVforkChild = some vfork
      · obtain ⟨hwaiting, vfork, hvfork⟩ := hvfork
        rw [runProcessExec_eq hwaiting hvfork]
        exact h.resume (h.exit ht.running hvfork _) (unwound_exit hunwound _ _) 0 hparent
      · unfold runProcessExec
        split
        next vfork _ hwaiting hactive _ => exact absurd ⟨hwaiting, vfork, hactive⟩ hvfork
        · exact h.complete ht code
    show (t.procExec how env command exitCode).Holds P W
    unfold procExec
    split
    · exact ht
    · exact h.complete ht _
    · exact hrun _
    · exact hfail
    · exact hfail
  | stackContinuation =>
    unfold move
    dsimp only
    split
    · show (t.nextTurn
        { t.guest with host := { t.guest.host with pendingStackUnwind := none } }).Holds P W
      have hsame : t.guest.SameTable
          { t.guest with host := { t.guest.host with pendingStackUnwind := none } } :=
        ⟨rfl, rfl, rfl, rfl⟩
      exact h.nextTurn (h.sameTable ht.running hsame)
        ⟨rfl, fun r hr => nomatch hrewind.symm.trans hr⟩ hparent
    · exact ht
  | returns =>
    rw [move, finishContinuationTurn, hunwound]
    exact h.complete ht 0

end Invariant

theorem ready_start (support : Bool) : (start support).Ready :=
  ⟨fun _ => ⟨rfl, rfl⟩, fun _ hw => nomatch hw⟩

end ProcessRun

end WasmHost
