import WasmHost.Wasi.ProcessSteps

/-!
# The return from a vfork

A vfork child runs in the place of its parent, whose stack is kept until the child ends. There are
several ways to end: `proc_exit2` unwinds the stack, the other imports throw, and the two drivers
treat what is thrown differently.

* `ProcessRun.givesBack_iff`: the end of a vfork child gives control back to its parent exactly when
  it ends by `proc_exit2` with a turn left, or by a child command that the first runtime has
  started.
-/

namespace WasmHost

open OrdMap

/-- The exit code with which an event ends the process that runs. `none`: it does not end it, or it
has no exit code. -/
def ProcessEvent.endCode : ProcessEvent → Option Int
  | .procExit code => some (toUint32 code)
  | .procExit2 code => some (toUint32 code)
  | .procExec how env command exitCode =>
      match how.signal env command with
      | .procExit code => some (toUint32 code)
      | .procExec => exitCode.map toUint32
      | .errno _ => none
      | .throws => none
  | _ => none

/-- The event is one of the ways to end a process. A call that returns an errno is not. -/
def ProcessEvent.Ends : ProcessEvent → Prop
  | .procExit _ => True
  | .procExit2 _ => True
  | .procExec how env command _ => ∀ errno, how.signal env command ≠ .errno errno
  | _ => False

/-- A table whose records know their pids, and that of a vfork child is there until it ends. -/
structure Guest.Forked (g : Guest) : Prop where
  pid : ∀ n r, g.host.processes.get n = some r → r.pid = n
  child : ∀ v, g.host.activeVfork = some v →
    g.host.processes.get v.childPid = some ⟨none, v.parentPid, v.childPid, .running⟩

namespace ProcessRun

/-- The end of a vfork child gives control back: the runtime goes on, `proc_fork` has returned the
pid of the child once more, in the parent, and the child is in the table with its exit code. -/
structure GivesBack (t : ProcessRun) (vfork : ActiveVfork) (e : ProcessEvent) : Prop where
  goes : (t.step e).outcome = none
  waiting : (t.step e).waiting = t.waiting
  returns : (t.step e).guest.returns = t.guest.returns ++ [⟨vfork.childPid, vfork.parentPid⟩]
  current : (t.step e).guest.host.currentProcessId = vfork.parentPid
  finished : (t.step e).guest.host.activeVfork = none
  exited : ∃ code, e.endCode = some code ∧
    (t.step e).guest.host.processes.get vfork.childPid =
      some ⟨some code, vfork.parentPid, vfork.childPid, .exited⟩

/-- A vfork child that ends gives control back. -/
def ReturnsFromVfork (t : ProcessRun) (e : ProcessEvent) : Prop :=
  t.outcome = none → ∀ vfork, t.guest.host.activeVforkChild = some vfork → e.Ends →
    t.GivesBack vfork e

/-- A vfork child ends by `proc_exit2` with a turn left, or by a command that can be run, in the
first runtime. -/
def EndsWell (t : ProcessRun) (e : ProcessEvent) : Prop :=
  t.outcome = none → t.guest.host.activeVforkChild ≠ none → e.Ends →
    match e with
    | .procExit2 _ => t.guest.turn + 1 < wasixContinuationMaxTurns
    | .procExec how env command exitCode =>
        how.signal env command = .procExec ∧ exitCode ≠ none ∧ t.waiting = none
    | _ => False

/-- What holds of the tables of every run. -/
abbrev Forked : ProcessRun → Prop :=
  Holds Guest.Forked fun w => w.guest.Forked ∧ w.guest.host.activeVfork = none

/-- A table with one more record keeps to its pids. -/
theorem pid_set {processes : OrdMap ℕ ProcessRecord}
    (h : ∀ n r, processes.get n = some r → r.pid = n) (record : ProcessRecord) {k n : ℕ}
    {r : ProcessRecord} (hpid : record.pid = k) (hget : (processes.set k record).get n = some r) :
    r.pid = n := by
  by_cases heq : n = k
  · subst heq
    exact Option.some.inj ((get_set_self _ _ _).symm.trans hget) ▸ hpid
  · exact h n r ((get_set_ne _ _ heq).symm.trans hget)

theorem pid_markProcessExited {p : Processes} (h : ∀ n r, p.processes.get n = some r → r.pid = n)
    (pid : ℕ) (code : Int) (n : ℕ) (r : ProcessRecord)
    (hget : (p.markProcessExited pid code).processes.get n = some r) : r.pid = n := by
  unfold Processes.markProcessExited at hget
  split at hget
  · exact h n r hget
  next record hrecord =>
    exact pid_set h { record with exitCode := some code, state := .exited } (h _ record hrecord)
      hget

theorem pid_new {runner support : Bool} (n : ℕ) (r : ProcessRecord)
    (hget : (Processes.new runner support).processes.get n = some r) : r.pid = n := by
  have hmem := (exists_mem_of_get_setAll _ _ hget).resolve_right (by simp)
  obtain ⟨rfl, rfl⟩ := Prod.mk.inj (List.mem_singleton.1 hmem)
  rfl

/-- No call takes the record of a vfork child out of the table before the child ends. -/
theorem invariant_forked : Invariant Guest.Forked
    (fun w => w.guest.Forked ∧ w.guest.host.activeVfork = none) fun _ => True where
  sameTable := by
    rintro g g' h ⟨hhost, -, -, -⟩
    have hprocesses : g'.host.processes = g.host.processes := by rw [hhost]
    have hvfork : g'.host.activeVfork = g.host.activeVfork := by rw [hhost]
    exact ⟨hprocesses ▸ h.pid, hprocesses ▸ hvfork ▸ h.child⟩
  vfork := by
    rintro g h hidle -
    refine ⟨fun n r hget =>
      pid_set h.pid ⟨none, g.host.currentProcessId, g.host.nextProcessId, .running⟩ rfl hget,
      fun v hv => ?_⟩
    rw [← Option.some.inj hv]
    exact get_set_self _ _ _
  copyFork := by
    rintro g h hidle - -
    refine ⟨⟨fun n r hget => ?_, fun v hv => by cases hv⟩, ⟨fun n r hget => ?_,
      fun v hv => by cases hidle.symm.trans hv⟩, hidle⟩
    · exact pid_set pid_new
        ⟨none, g.host.currentProcessId, g.host.nextProcessId, .running⟩ rfl hget
    · exact pid_set h.pid
        ⟨none, g.host.currentProcessId, g.host.nextProcessId, .running⟩ rfl hget
  exit := by
    intro g vfork h hvfork code
    refine ⟨fun n r hget => pid_markProcessExited h.pid vfork.childPid code n r hget,
      fun v hv => by cases hv⟩
  copyExit := by
    rintro w ⟨h, hidle⟩ code
    refine ⟨fun n r hget => pid_markProcessExited h.pid w.childPid code n r hget, fun v hv => ?_⟩
    rw [Guest.exited, Processes.afterCopyFork, Processes.markProcessExited_eq] at hv
    cases hidle.symm.trans hv
  join := by
    intro g h r
    rcases g.join_cases r with ⟨requested, child, -, hanswer, heq⟩ | heq
    swap
    · rwa [heq]
    obtain ⟨⟨m, hget⟩, -, hstate⟩ := Processes.of_joinAnswer_exited hanswer
    obtain rfl := h.pid m child hget
    -- what is reaped has ended, and a vfork child has not
    have hreap : ∀ n, (g.host.reapProcess child.pid).processes.get n = g.host.processes.get n ∨
        n = child.pid ∧ (g.host.reapProcess child.pid).processes.get n = none := by
      intro n
      unfold Processes.reapProcess
      split
      swap
      · exact .inl rfl
      by_cases heq : n = child.pid
      · exact .inr ⟨heq, heq ▸ get_delete_self _ _⟩
      · exact .inl (get_delete_ne _ heq)
    rw [heq]
    refine ⟨fun n r hn => ?_, fun v hv => ?_⟩
    · rcases hreap n with hsame | ⟨-, hnone⟩
      · exact h.pid n r (hsame.symm.trans hn)
      · cases hnone.symm.trans hn
    · have hactive : g.host.activeVfork = some v := by
        rw [← hv]
        unfold Processes.reapProcess
        split <;> rfl
      have hchild := h.child v hactive
      rcases hreap v.childPid with hsame | ⟨hpid, -⟩
      · exact hsame.trans hchild
      · rw [hpid, hget] at hchild
        cases hstate.symm.trans (congrArg ProcessRecord.state (Option.some.inj hchild))

theorem forked_start (support : Bool) : (start support).Forked :=
  ⟨⟨pid_new, fun _ hv => nomatch hv⟩, (fun _ hw => nomatch hw), ready_start support⟩

/-! ### The end of a vfork child -/

variable {t : ProcessRun} {vfork : ActiveVfork} {code : Int}

variable {e : ProcessEvent}

/-- A guest that has rewound to the call of its parent. -/
theorem givesBack_resume (h : t.Forked) (hvfork : t.guest.host.activeVforkChild = some vfork)
    (hcode : e.endCode = some code) (turn : ℕ)
    (hstep : t.step e =
      { t with
        guest :=
          { t.guest.exited vfork.childPid code (t.guest.host.afterVfork vfork code) with
            turn := turn }.resume })
    (hgoes : t.outcome = none) : t.GivesBack vfork e := by
  have hactive := (Processes.activeVforkChild_eq_some_iff.1 hvfork).1
  have hmarked : (t.guest.host.markProcessExited vfork.childPid code).processes =
      t.guest.host.processes.set vfork.childPid
        ⟨some code, vfork.parentPid, vfork.childPid, .exited⟩ := by
    rw [Processes.markProcessExited, h.running.child vfork hactive]
  refine ⟨?_, ?_, ?_, ?_, ?_, code, hcode, ?_⟩
  · rw [hstep]
    exact hgoes
  · rw [hstep]
  · rw [hstep]
    rfl
  · rw [hstep]
    rfl
  · rw [hstep]
    rfl
  · rw [hstep]
    show (t.guest.host.markProcessExited vfork.childPid code).processes.get vfork.childPid = _
    rw [hmarked]
    exact get_set_self _ _ _

theorem outcome_nextTurn_or (t : ProcessRun) (g : Guest) :
    (t.nextTurn g).outcome = some .failed ∨ (t.nextTurn g).waiting = t.waiting := by
  unfold nextTurn
  split
  · exact .inr rfl
  · exact .inl rfl

/-- The end of the runtime does not give control back within it. -/
theorem not_givesBack_complete (hstep : t.step e = t.complete code) : ¬t.GivesBack vfork e := by
  rintro ⟨hgoes, hwaiting, -, -, -, -⟩
  rw [hstep] at hgoes hwaiting
  unfold complete at hgoes hwaiting
  split at hgoes
  · cases hgoes
  next w hw =>
    rw [hw] at hwaiting
    rcases outcome_nextTurn_or { t with waiting := none } (w.guest.exited w.childPid code
      ((w.guest.host.markProcessExited w.childPid code).beginForkRewind w.childPid
        w.parentPid)) with
      hfailed | hsame
    · exact nomatch hfailed.symm.trans hgoes
    · exact nomatch hsame.symm.trans hwaiting

theorem not_givesBack_fail (hstep : t.step e = t.fail) : ¬t.GivesBack vfork e := by
  intro h
  have hgoes := h.goes
  rw [hstep] at hgoes
  cases hgoes

/-- A child command of a copied-memory fork ends its runtime. -/
theorem runProcessExec_of_waiting {w : Waiting} (h : t.waiting = some w) (code : Int) :
    t.runProcessExec code = t.complete code := by
  rw [runProcessExec, h]

theorem returnsFromVfork_iff (h : t.Forked) (e : ProcessEvent) :
    t.ReturnsFromVfork e ↔ t.EndsWell e := by
  constructor
  · intro hreturns hgoes hactive hends
    obtain ⟨vfork, hvfork⟩ := Option.ne_none_iff_exists'.1 hactive
    have hback := hreturns hgoes vfork hvfork hends
    have hunwound := (h.ready.running hgoes).1
    cases e with
    | procExit code =>
      have hstep : t.step (.procExit code) = t.complete code := by rw [step, if_pos hgoes, move]
      exact not_givesBack_complete hstep hback
    | procExit2 =>
      by_contra hlast
      have hgoes' := hback.goes
      rw [step, if_pos hgoes, move, procExit2_eq hunwound hvfork] at hgoes'
      unfold nextTurn at hgoes'
      split at hgoes'
      next hturn => exact hlast hturn
      · cases hgoes'
    | procExec how env command exitCode =>
      have hstep : t.step (.procExec how env command exitCode) =
          t.procExec how env command exitCode := by
        rw [step, if_pos hgoes, move]
      unfold procExec at hstep
      cases hsignal : how.signal env command with
      | errno errno => exact absurd hsignal (hends errno)
      | procExit =>
        rw [hsignal] at hstep
        exact absurd hback (not_givesBack_complete hstep)
      | throws =>
        rw [hsignal] at hstep
        exact absurd hback (not_givesBack_fail hstep)
      | procExec =>
        rw [hsignal] at hstep
        cases exitCode with
        | none => exact absurd hback (not_givesBack_fail hstep)
        | some =>
          refine ⟨hsignal, Option.some_ne_none _, ?_⟩
          cases hwaiting : t.waiting with
          | none => rfl
          | some =>
            dsimp only at hstep
            rw [runProcessExec_of_waiting hwaiting] at hstep
            exact absurd hback (not_givesBack_complete hstep)
    | _ => exact hends.elim
  · intro hwell hgoes vfork hvfork hends
    have hactive : t.guest.host.activeVforkChild ≠ none := by
      rw [hvfork]
      exact Option.some_ne_none _
    have hcond := hwell hgoes hactive hends
    have hunwound := (h.ready.running hgoes).1
    cases e with
    | procExit2 =>
      refine givesBack_resume h hvfork rfl (t.guest.turn + 1) ?_ hgoes
      rw [step, if_pos hgoes, move, procExit2_eq hunwound hvfork, nextTurn]
      exact if_pos hcond
    | procExec =>
      obtain ⟨hsignal, hruns, hwaiting⟩ := hcond
      obtain ⟨code, rfl⟩ := Option.ne_none_iff_exists'.1 hruns
      refine givesBack_resume h hvfork (show _ = some (toUint32 code) from ?_) 0 ?_ hgoes
      · rw [ProcessEvent.endCode, hsignal]
        rfl
      · rw [step, if_pos hgoes, move]
        unfold procExec
        rw [hsignal]
        exact runProcessExec_eq hwaiting hvfork code
    | _ => exact hcond.elim

/-- Every vfork child of a run gives control back to its parent when it ends, exactly when each of
them ends by `proc_exit2` with a turn of the driver left, or, in the first runtime, by starting a
command that has a name and an environment that can be read and that runs to its end. -/
theorem givesBack_iff (support : Bool) (events : List ProcessEvent) :
    Along step ReturnsFromVfork (start support) events ↔
      Along step EndsWell (start support) events :=
  along_iff (I := Forked)
    (fun t e h =>
      invariant_forked.step h (by cases e <;> first | exact fun _ _ => trivial | trivial))
    (fun _ e h => returnsFromVfork_iff h e) (forked_start support) events

/-- A vfork child that ends by `proc_exit` ends the run. -/
theorem not_givesBack_procExit :
    ¬Along step ReturnsFromVfork (start true) [.procFork iovMemory 0 16, .procExit 7] := by
  rintro ⟨-, hexit, -⟩
  have hactive : ((start true).step (.procFork iovMemory 0 16)).guest.host.activeVforkChild =
      some ⟨2, 1⟩ := by
    decide
  have hback := hexit (by decide) _ hactive trivial
  exact absurd hback.goes (by decide)

end ProcessRun

end WasmHost
