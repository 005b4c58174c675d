import WasmHost.Wasi.ProcessSteps

/-!
# The process table

What holds of the table of a runtime in every run: pids are not given out twice, and a child that
has ended is reported once, to the process that made it. `Guest.Sound` says what every process that
a runtime has made has come to.

* `ProcessRun.tables_lawful_iff`: the table is in order throughout a run exactly when no process
  makes a fork while the counter of its runtime stands at its own pid.
-/

namespace WasmHost

open OrdMap List Processes

namespace Guest

variable (g : Guest)

/-- The processes that this runtime has made. -/
def pids : List ℕ := g.handedOut.map HandedOut.pid

/-- Those that have ended. -/
def ended : List ℕ := g.exits.map Prod.fst

/-- Those that were reported. -/
def reported : List ℕ := g.reports.map Report.pid

/-- The call reports a process with a status that holds its exit code. -/
def Reports (r : JoinRequest) (pid : ℕ) (code : Int) : Prop :=
  (g.join r).reports = g.reports ++ [⟨g.host.currentProcessId, pid, exitNormal code⟩] ∧
    (g.host.procJoin r).2.2 = .success

/-- The runtime reports the process to its parent as soon as it asks for it by its number; when it
asks for any child, it reports this one or another that was not reported yet. -/
def Owes (pid : ℕ) (code : Int) : Prop :=
  ∀ o ∈ g.handedOut, o.pid = pid → o.parent = g.host.currentProcessId → ∀ r : JoinRequest,
    (r.requested = .ok (some o.number) → g.Reports r pid code) ∧
      (r.requested = .ok none → ∃ e ∈ g.exits, e.1 ∉ g.reported ∧ g.Reports r e.1 e.2)

/-- The law of the process table. -/
structure Lawful : Prop where
  fresh : ∀ o ∈ g.handedOut, o.number = o.pid ∧ o.pid ∉ o.present ∧ o.pid ≠ o.parent
  endsOnce : g.ended.Nodup
  /-- What is reported has ended with the exit code that is reported, and its parent learns it. -/
  reported : ∀ r ∈ g.reports, ∃ code, (r.pid, code) ∈ g.exits ∧ r.status = exitNormal code ∧
    ∃ o ∈ g.handedOut, o.pid = r.pid ∧ o.parent = r.joiner
  reportedOnce : g.reported.Nodup
  owed : ∀ e ∈ g.exits, e.1 ∉ g.reported → g.Owes e.1 e.2
  /-- A process that is no child of the caller is not reported, and the call changes nothing. -/
  stranger : ∀ r n, r.requested = .ok (some n) →
    (∀ record, g.host.processes.get n = some record →
      record.parentPid ≠ g.host.currentProcessId) →
    g.host.procJoin r =
      (g.host, r.answer (optionPid wasixOptionTagNone 0) statusNothing, .success) ∧
      (g.join r).reports = g.reports

/-- What every process of a runtime has come to. `first` is the process that the runtime was made
for; it and the root are in the table from the start. -/
structure Sound (first : ℕ) (g : Guest) : Prop where
  pid : ∀ n r, g.host.processes.get n = some r → r.pid = n
  own : first ∉ g.pids
  ancestor : ∀ n r, g.host.processes.get n = some r → n ∉ g.pids →
    r.state = .running ∧ r.parentPid < 2 ∧ r.parentPid < first ∧ (n = first ∨ n < 2)
  next : 2 ≤ g.host.nextProcessId
  handed : ∀ o ∈ g.handedOut, 2 ≤ o.pid ∧ o.pid < g.host.nextProcessId ∧ o.parent = first ∧
    o.number = o.pid ∧ o.pid ∉ o.present
  ended : ∀ e ∈ g.exits, e.1 ∈ g.pids
  endsOnce : g.ended.Nodup
  live : ∀ n ∈ g.pids, n ∉ g.ended → g.host.processes.get n = some ⟨none, first, n, .running⟩
  owed : ∀ e ∈ g.exits, e.1 ∉ g.reported →
    g.host.processes.get e.1 = some ⟨some e.2, first, e.1, .exited⟩
  reaped : ∀ n ∈ g.reported, g.host.processes.get n = none
  reports : ∀ r ∈ g.reports, r.joiner = first ∧ ∃ code, (r.pid, code) ∈ g.exits ∧
    r.status = exitNormal code
  reportedOnce : g.reported.Nodup
  idle : g.host.activeVfork = none → g.host.currentProcessId = first
  vfork : ∀ v, g.host.activeVfork = some v → v.parentPid = first ∧
    g.host.currentProcessId = v.childPid ∧ v.childPid ∈ g.pids ∧ v.childPid ∉ g.ended
  root : g.host.copyForkRunner = true → first = wasixRootPid

variable {g : Guest}

theorem reports_of_answer {r : JoinRequest} {requested : Option ℕ} {child : ProcessRecord}
    (hrequested : r.requested = .ok requested) (h : g.host.joinAnswer requested = .exited child) :
    g.Reports r child.pid (child.exitCode.getD 0) := by
  obtain ⟨hreap, hsuccess, hstatus⟩ := procJoin_exited hrequested h
  refine ⟨?_, hsuccess⟩
  rw [join, hrequested]
  simp only [Except.toOption, Option.map_some, h, hstatus]

namespace Sound

variable {first n child : ℕ}

section

variable (h : g.Sound first)
include h

theorem two_le (hn : n ∈ g.pids) : 2 ≤ n := by
  obtain ⟨o, ho, rfl⟩ := mem_map.1 hn
  exact (h.handed o ho).1

/-- The child that a join reports is a process of this runtime that has ended, and the one that
asks is its parent. -/
theorem joined {requested : Option ℕ} {child : ProcessRecord}
    (hanswer : g.host.joinAnswer requested = .exited child) :
    ∃ code, (child.pid, code) ∈ g.exits ∧ child.pid ∉ g.reported ∧
      child = ⟨some code, first, child.pid, .exited⟩ ∧ g.host.currentProcessId = first := by
  obtain ⟨⟨n, hget⟩, hparent, hstate⟩ := of_joinAnswer_exited hanswer
  obtain rfl := h.pid n child hget
  have hmade : child.pid ∈ g.pids := by
    by_contra hnot
    have hrunning := (h.ancestor _ _ hget hnot).1
    exact nomatch hrunning.symm.trans hstate
  have hended : child.pid ∈ g.ended := by
    by_contra hnot
    have hlive := Option.some.inj (hget.symm.trans (h.live _ hmade hnot))
    exact nomatch (congrArg ProcessRecord.state hlive).symm.trans hstate
  have hopen : child.pid ∉ g.reported := fun hreported =>
    nomatch hget.symm.trans (h.reaped _ hreported)
  obtain ⟨e, he, hpid⟩ := mem_map.1 hended
  have howed := h.owed e he (hpid ▸ hopen)
  rw [hpid] at howed
  have hchild := Option.some.inj (hget.symm.trans howed)
  refine ⟨e.2, hpid ▸ he, hopen, hchild, ?_⟩
  rw [← hparent, hchild]

/-- A runtime reports a process that has ended when its parent asks for it. -/
theorem owes {e : ℕ × Int} (he : e ∈ g.exits) (hopen : e.1 ∉ g.reported) :
    g.Owes e.1 e.2 := by
  intro o ho hpid hparent r
  have hfirst : first = g.host.currentProcessId := (h.handed o ho).2.2.1.symm.trans hparent
  have hget := h.owed e he hopen
  constructor
  · intro hrequested
    have hanswer : g.host.joinAnswer (some o.number) =
        .exited ⟨some e.2, first, e.1, .exited⟩ := by
      rw [(h.handed o ho).2.2.2.1, hpid, joinAnswer, processRecord, hget]
      simp [hfirst]
    exact reports_of_answer hrequested hanswer
  · intro hrequested
    obtain ⟨child, hfound⟩ : ∃ child, g.host.findExitedChild g.host.currentProcessId = some child :=
      Option.isSome_iff_exists.1 (List.find?_isSome.2
        ⟨_, (mem_values _ _).2 ⟨e.1, hget⟩, by simp [hfirst]⟩)
    have hanswer : g.host.joinAnswer none = .exited child := by
      rw [joinAnswer, hfound]
    obtain ⟨code, hcode, hchildOpen, hchild, -⟩ := h.joined hanswer
    refine ⟨(child.pid, code), hcode, hchildOpen, ?_⟩
    have hreports := reports_of_answer hrequested hanswer
    rwa [show child.exitCode = some code by rw [hchild]] at hreports

theorem lawful : g.Lawful := by
  refine ⟨fun o ho => ?_, h.endsOnce, fun r hr => ?_, h.reportedOnce, fun e he => h.owes he,
    fun r n hrequested hstranger => ?_⟩
  · obtain ⟨-, -, hparent, hnumber, hpresent⟩ := h.handed o ho
    refine ⟨hnumber, hpresent, fun heq => h.own ?_⟩
    exact mem_map.2 ⟨o, ho, heq.trans hparent⟩
  · obtain ⟨hjoiner, code, hcode, hstatus⟩ := h.reports r hr
    obtain ⟨o, ho, hpid⟩ := mem_map.1 (h.ended _ hcode)
    exact ⟨code, hcode, hstatus, o, ho, hpid, (h.handed o ho).2.2.1.trans hjoiner.symm⟩
  · have hjoin := procJoin_stranger hrequested hstranger
    refine ⟨hjoin, ?_⟩
    rcases g.join_cases r with ⟨requested, child, hrequested', hanswer, -⟩ | heq
    · obtain rfl := Except.ok.inj (hrequested.symm.trans hrequested')
      obtain ⟨⟨m, hget⟩, hparent, -⟩ := of_joinAnswer_exited hanswer
      have hfound : g.host.processes.get n = some child := by
        rw [joinAnswer, processRecord] at hanswer
        split at hanswer
        · cases hanswer
        next record hrecord => exact absurd hanswer (by simp [hstranger record hrecord])
      exact absurd hparent (hstranger child hfound)
    · rw [heq]

/-- A join that reports a child takes it out of the table. -/
theorem join (r : JoinRequest) : (g.join r).Sound first := by
  rcases g.join_cases r with ⟨requested, child, -, hanswer, heq⟩ | heq
  swap
  · rwa [heq]
  obtain ⟨code, hcode, hopen, hchild, hfirst⟩ := h.joined hanswer
  have hmade : child.pid ∈ g.pids := h.ended _ hcode
  have hreap : g.host.reapProcess child.pid =
      { g.host with processes := g.host.processes.delete child.pid } :=
    if_pos (by have := h.two_le hmade; unfold wasixRootPid; omega)
  have hreported : ∀ n, n ∈ g.reported ++ [child.pid] ↔ n ∈ g.reported ∨ n = child.pid :=
    fun n => by
    rw [mem_append, mem_singleton]
  have hold : ∀ n, n ≠ child.pid →
      (g.host.processes.delete child.pid).get n = g.host.processes.get n :=
    fun n hn => get_delete_ne _ hn
  rw [heq, hreap]
  have hreports : (g.reports ++ [(⟨g.host.currentProcessId, child.pid,
      exitNormal (child.exitCode.getD 0)⟩ : Report)]).map Report.pid =
        g.reported ++ [child.pid] := by
    rw [map_append, reported]
    rfl
  have hgone : ∀ {n record}, (g.host.processes.delete child.pid).get n = some record →
      n ≠ child.pid := by
    rintro _ _ hget rfl
    exact nomatch (get_delete_self _ _).symm.trans hget
  refine
    { pid := fun n r hget => ?_
      own := h.own
      ancestor := fun n r hget => ?_
      next := h.next
      handed := h.handed
      ended := h.ended
      endsOnce := h.endsOnce
      live := fun n hn hlive => ?_
      owed := fun e he howed => ?_
      reaped := fun n hn => ?_
      reports := fun r hr => ?_
      reportedOnce := ?_
      idle := h.idle
      vfork := h.vfork
      root := h.root }
  · exact h.pid n r ((hold n (hgone hget)).symm.trans hget)
  · exact h.ancestor n r ((hold n (hgone hget)).symm.trans hget)
  · have hne : n ≠ child.pid := by
      rintro rfl
      exact hlive (mem_map.2 ⟨_, hcode, rfl⟩)
    exact (hold n hne).trans (h.live n hn hlive)
  · change e.1 ∉ List.map _ _ at howed
    rw [hreports, hreported, not_or] at howed
    exact (hold _ howed.2).trans (h.owed e he howed.1)
  · change n ∈ List.map _ _ at hn
    rw [hreports, hreported] at hn
    by_cases heq : n = child.pid
    · rw [heq]
      exact get_delete_self _ _
    · exact (hold n heq).trans (h.reaped n (hn.resolve_right heq))
  · rcases mem_append.1 hr with hr | hr
    · exact h.reports r hr
    · obtain rfl := mem_singleton.1 hr
      exact ⟨hfirst, code, hcode, by rw [hchild]; rfl⟩
  · change (List.map _ _).Nodup
    rw [hreports]
    refine h.reportedOnce.append (nodup_singleton _) fun n hn hn' => ?_
    exact hopen (mem_singleton.1 hn' ▸ hn)

end

theorem pids_fork (g : Guest) (host : Processes) :
    (g.fork host).pids = g.pids ++ [g.host.nextProcessId] := by
  rw [pids, fork, map_append]
  rfl

/-- A fork gives out the number that the counter stands at, unless it is that of the process. -/
theorem fork (h : g.Sound first) (hidle : g.host.activeVfork = none)
    (hne : g.host.nextProcessId ≠ g.host.currentProcessId)
    (hlt : g.host.nextProcessId < 2 ^ 32) (unwind : ℕ → ℕ → StackUnwind) :
    (g.fork (g.host.beginFork unwind)).Sound first := by
  have hcurrent := h.idle hidle
  have hnew : g.host.nextProcessId ∉ g.pids := by
    intro hmem
    obtain ⟨o, ho, hpid⟩ := mem_map.1 hmem
    have := (h.handed o ho).2.1
    omega
  -- the root and the process of this runtime have other numbers, and so has everything it has made
  have habsent : g.host.processes.get g.host.nextProcessId = none := by
    rw [← has_eq_false_iff, Bool.eq_false_iff, Ne, has_iff]
    rintro ⟨record, hget⟩
    rcases (h.ancestor _ record hget hnew).2.2.2 with heq | hsmall
    · exact hne (heq.trans hcurrent.symm)
    · exact absurd h.next (Nat.not_le.2 hsmall)
  have hold : ∀ n record, n ≠ g.host.nextProcessId →
      (g.host.processes.set g.host.nextProcessId record).get n = g.host.processes.get n :=
    fun n record hn => get_set_ne _ _ hn
  have hpresent : ∀ {n record}, g.host.processes.get n = some record →
      n ≠ g.host.nextProcessId := by
    rintro _ _ hget rfl
    exact nomatch habsent.symm.trans hget
  have hended : g.host.nextProcessId ∉ g.ended := by
    intro hmem
    obtain ⟨e, he, hpid⟩ := mem_map.1 hmem
    exact hnew (hpid ▸ h.ended e he)
  refine
    { pid := fun n r hget => ?_
      own := ?_
      ancestor := fun n r hget hn => ?_
      next := h.next.trans (Nat.le_succ _)
      handed := fun o ho => ?_
      ended := fun e he => ?_
      endsOnce := h.endsOnce
      live := fun n hn hlive => ?_
      owed := fun e he hopen => ?_
      reaped := fun n hn => ?_
      reports := h.reports
      reportedOnce := h.reportedOnce
      idle := h.idle
      vfork := fun v hv => nomatch hidle.symm.trans hv
      root := h.root }
  · by_cases hn : n = g.host.nextProcessId
    · subst hn
      exact Option.some.inj ((get_set_self _ _ _).symm.trans hget) ▸ rfl
    · exact h.pid n r ((hold n _ hn).symm.trans hget)
  · rw [pids_fork, mem_append, mem_singleton, not_or]
    exact ⟨h.own, fun heq => hne (heq.symm.trans hcurrent.symm)⟩
  · rw [pids_fork, mem_append, mem_singleton, not_or] at hn
    exact h.ancestor n r ((hold n _ hn.2).symm.trans hget) hn.1
  · rcases mem_append.1 ho with ho | ho
    · obtain ⟨hle, hbelow, hrest⟩ := h.handed o ho
      exact ⟨hle, hbelow.trans (Nat.lt_succ_self _), hrest⟩
    · obtain rfl := mem_singleton.1 ho
      refine ⟨h.next, Nat.lt_succ_self _, hcurrent, Nat.mod_eq_of_lt hlt, fun hmem => ?_⟩
      obtain ⟨record, hvalue, hpid⟩ := mem_map.1 hmem
      obtain ⟨n, hget⟩ := (mem_values _ _).1 hvalue
      exact hpresent hget ((h.pid n record hget).symm.trans hpid)
  · rw [pids_fork]
    exact mem_append_left _ (h.ended e he)
  · rw [pids_fork, mem_append, mem_singleton] at hn
    rcases hn with hn | rfl
    · exact (hold n _ fun heq => hnew (heq ▸ hn)).trans (h.live n hn hlive)
    · exact (get_set_self _ _ _).trans (by rw [hcurrent])
  · have hget := h.owed e he hopen
    exact (hold e.1 _ (hpresent hget)).trans hget
  · refine (hold n _ ?_).trans (h.reaped n hn)
    rintro rfl
    obtain ⟨r, hr, hpid⟩ := mem_map.1 hn
    obtain ⟨-, code, hcode, -⟩ := h.reports r hr
    exact hended (mem_map.2 ⟨_, hcode, hpid⟩)

variable {host : Processes}

/-- The child of a vfork goes on in the place of its parent. -/
theorem enterVfork (h : g.Sound first) (hmade : child ∈ g.pids) (hlive : child ∉ g.ended)
    (hprocesses : host.processes = g.host.processes)
    (hnext : host.nextProcessId = g.host.nextProcessId) (hcurrent : host.currentProcessId = child)
    (hvfork : host.activeVfork = some ⟨child, first⟩)
    (hrunner : host.copyForkRunner = g.host.copyForkRunner) :
    ({ g with host := host } : Guest).Sound first where
  pid := hprocesses ▸ h.pid
  own := h.own
  ancestor := hprocesses ▸ h.ancestor
  next := hnext ▸ h.next
  handed := hnext ▸ h.handed
  ended := h.ended
  endsOnce := h.endsOnce
  live := hprocesses ▸ h.live
  owed := hprocesses ▸ h.owed
  reaped := hprocesses ▸ h.reaped
  reports := h.reports
  reportedOnce := h.reportedOnce
  idle := fun hnone => nomatch hnone.symm.trans hvfork
  vfork := fun v hv => by
    obtain rfl := Option.some.inj (hvfork.symm.trans hv)
    exact ⟨rfl, hcurrent, hmade, hlive⟩
  root := hrunner ▸ h.root

/-- The end of a process gives control back to the one that made it. -/
theorem exited (h : g.Sound first) {pid : ℕ} {code : Int} (hmade : pid ∈ g.pids)
    (hlive : pid ∉ g.ended)
    (hprocesses : host.processes = (g.host.markProcessExited pid code).processes)
    (hnext : host.nextProcessId = g.host.nextProcessId) (hcurrent : host.currentProcessId = first)
    (hvfork : host.activeVfork = none) (hrunner : host.copyForkRunner = g.host.copyForkRunner) :
    (g.exited pid code host).Sound first := by
  have hget := h.live pid hmade hlive
  have hset : host.processes =
      g.host.processes.set pid ⟨some code, first, pid, .exited⟩ := by
    rw [hprocesses, markProcessExited, hget]
  have hself : host.processes.get pid = some ⟨some code, first, pid, .exited⟩ :=
    hset ▸ get_set_self _ _ _
  have hold : ∀ n, n ≠ pid → host.processes.get n = g.host.processes.get n :=
    fun n hn => hset ▸ get_set_ne _ _ hn
  have hended : (g.exited pid code host).ended = g.ended ++ [pid] := by
    rw [Guest.ended, Guest.exited, map_append]
    rfl
  refine
    { pid := fun n r hn => ?_
      own := h.own
      ancestor := fun n r hn hnot => ?_
      next := hnext ▸ h.next
      handed := hnext ▸ h.handed
      ended := fun e he => ?_
      endsOnce := ?_
      live := fun n hn hopen => ?_
      owed := fun e he hopen => ?_
      reaped := fun n hn => ?_
      reports := fun r hr => ?_
      reportedOnce := h.reportedOnce
      idle := fun _ => hcurrent
      vfork := fun v hv => by cases hvfork.symm.trans hv
      root := hrunner ▸ h.root }
  · by_cases heq : n = pid
    · subst heq
      exact Option.some.inj (hself.symm.trans hn) ▸ rfl
    · exact h.pid n r ((hold n heq).symm.trans hn)
  · have hne : n ≠ pid := fun heq => hnot (heq ▸ hmade)
    exact h.ancestor n r ((hold n hne).symm.trans hn) hnot
  · rcases mem_append.1 he with he | he
    · exact h.ended e he
    · rw [mem_singleton.1 he]
      exact hmade
  · rw [hended]
    refine h.endsOnce.append (nodup_singleton _) fun n hn hn' => ?_
    exact hlive (mem_singleton.1 hn' ▸ hn)
  · rw [hended, mem_append, mem_singleton, not_or] at hopen
    exact (hold n hopen.2).trans (h.live n hn hopen.1)
  · rcases mem_append.1 he with hbefore | hnow
    · refine (hold _ fun heq => ?_).trans (h.owed e hbefore hopen)
      exact hlive (mem_map.2 ⟨e, hbefore, heq⟩)
    · rw [mem_singleton.1 hnow]
      exact hself
  · refine (hold n ?_).trans (h.reaped n hn)
    rintro rfl
    cases hget.symm.trans (h.reaped n hn)
  · obtain ⟨hjoiner, c, hc, hstatus⟩ := h.reports r hr
    exact ⟨hjoiner, c, mem_append_left _ hc, hstatus⟩

theorem sameTable (h : g.Sound first) {g' : Guest} (hsame : g.SameTable g') : g'.Sound first := by
  obtain ⟨hhost, hhanded, hexits, hreports⟩ := hsame
  obtain ⟨host, turn, handedOut, exits, reports, returns⟩ := g'
  dsimp only at hhost hhanded hexits hreports
  subst hhanded hexits hreports
  rw [hhost]
  exact ⟨h.pid, h.own, h.ancestor, h.next, h.handed, h.ended, h.endsOnce, h.live, h.owed, h.reaped,
    h.reports, h.reportedOnce, h.idle, h.vfork, h.root⟩

/-- The number that a fork gives out next has not ended. -/
theorem not_ended_nextProcessId (h : g.Sound first) : g.host.nextProcessId ∉ g.ended := by
  intro hended
  obtain ⟨e, he, hpid⟩ := mem_map.1 hended
  obtain ⟨o, ho, hpid'⟩ := mem_map.1 (h.ended e he)
  exact (h.handed o ho).2.1.ne (hpid'.trans hpid)

theorem made_fork (g : Guest) (host : Processes) : g.host.nextProcessId ∈ (g.fork host).pids :=
  (pids_fork g host).symm ▸ mem_append_right _ (mem_singleton_self _)

/-- A table that holds the root and the process of its runtime. -/
theorem of_new
    (hget : ∀ n r, host.processes.get n = some r → r.pid = n ∧ r.state = .running ∧
      r.parentPid < 2 ∧ r.parentPid < first ∧ (n = first ∨ n < 2))
    (hnext : host.nextProcessId = 2) (hcurrent : host.currentProcessId = first)
    (hvfork : host.activeVfork = none)
    (hrunner : host.copyForkRunner = true → first = wasixRootPid) :
    (Guest.new host).Sound first where
  pid := fun n r h => (hget n r h).1
  own := not_mem_nil
  ancestor := fun n r h _ => (hget n r h).2
  next := hnext.ge
  handed := fun _ ho => nomatch ho
  ended := fun _ he => nomatch he
  endsOnce := nodup_nil
  live := fun _ hn => nomatch hn
  owed := fun _ he => nomatch he
  reaped := fun _ hn => nomatch hn
  reports := fun _ hr => nomatch hr
  reportedOnce := nodup_nil
  idle := fun _ => hcurrent
  vfork := fun _ hv => nomatch hvfork.symm.trans hv
  root := hrunner

theorem get_root {r : ProcessRecord} {runner support : Bool}
    (h : (Processes.new runner support).processes.get n = some r) :
    n = wasixRootPid ∧ r = ⟨none, wasixRootParentPid, wasixRootPid, .running⟩ := by
  have hmem := (exists_mem_of_get_setAll _ _ h).resolve_right (by simp)
  exact Prod.mk.inj (mem_singleton.1 hmem)

theorem copiedForkChild {parent : ℕ} (hparent : parent < 2) (hchild : 2 ≤ child) (support : Bool) :
    (Guest.new ((Processes.copiedForkChild child parent support).beginForkRewind 0 child)).Sound
      child := by
  refine of_new (fun n r h => ?_) rfl rfl rfl (fun h => nomatch h)
  by_cases hn : n = child
  · subst hn
    obtain rfl := Option.some.inj ((get_set_self _ _ _).symm.trans h)
    exact ⟨rfl, rfl, hparent, hparent.trans_le hchild, .inl rfl⟩
  · obtain ⟨rfl, rfl⟩ := get_root ((get_set_ne _ _ hn).symm.trans h)
    exact ⟨rfl, rfl, Nat.zero_lt_two, Nat.zero_lt_two.trans_le hchild, .inr Nat.one_lt_two⟩

theorem root_new (support : Bool) :
    (Guest.new (Processes.new true support)).Sound wasixRootPid := by
  refine of_new (fun n r h => ?_) rfl rfl rfl (fun _ => rfl)
  obtain ⟨rfl, rfl⟩ := get_root h
  exact ⟨rfl, rfl, Nat.zero_lt_two, Nat.zero_lt_one, .inl rfl⟩

end Sound

/-- The counter of the runtime is at a pid that fits into 32 bits and is not that of the process. -/
def FreshPid (g : Guest) : Prop :=
  g.host.nextProcessId ≠ g.host.currentProcessId ∧ g.host.nextProcessId < 2 ^ 32

end Guest

/-- What holds of a runtime that waits: its child is in the table and has not ended. -/
structure Waiting.Sound (w : Waiting) : Prop where
  guest : w.guest.Sound w.parentPid
  alone : w.guest.host.activeVfork = none
  made : w.childPid ∈ w.guest.pids
  live : w.childPid ∉ w.guest.ended

namespace ProcessRun

/-- The law of every process table of a run. -/
def Lawful (t : ProcessRun) : Prop :=
  t.guest.Lawful ∧ ∀ w, t.waiting = some w → w.guest.Lawful

/-- What every process of a run has come to. -/
abbrev Sound : ProcessRun → Prop := Holds (fun g => ∃ first, g.Sound first) Waiting.Sound

variable {t : ProcessRun}

theorem Sound.lawful (h : t.Sound) : t.Lawful := by
  obtain ⟨first, hguest⟩ := h.running
  exact ⟨hguest.lawful, fun w hw => (h.waiting w hw).guest.lawful⟩

/-- Forks with fresh pids, ends and joins bring no table out of order. -/
theorem invariant_sound :
    Invariant (fun g => ∃ first, g.Sound first) Waiting.Sound Guest.FreshPid where
  sameTable := fun ⟨first, h⟩ hsame => ⟨first, h.sameTable hsame⟩
  vfork := by
    rintro g ⟨first, h⟩ hidle ⟨hne, hlt⟩
    refine ⟨first, (h.fork hidle hne hlt .vforkChild).enterVfork (Guest.Sound.made_fork g _)
      h.not_ended_nextProcessId rfl rfl rfl ?_ rfl⟩
    rw [← h.idle hidle]
    rfl
  copyFork := by
    rintro g ⟨first, h⟩ hidle hrunner ⟨hne, hlt⟩
    have hcurrent := h.idle hidle
    refine ⟨⟨g.host.nextProcessId, Guest.Sound.copiedForkChild ?_ h.next _⟩, ?_, hidle,
      Guest.Sound.made_fork g _, h.not_ended_nextProcessId⟩
    · rw [hcurrent, h.root hrunner]
      decide
    · show Guest.Sound g.host.currentProcessId _
      rw [hcurrent]
      exact (h.fork hidle hne hlt .copyForkChild).sameTable ⟨rfl, rfl, rfl, rfl⟩
  exit := by
    rintro g vfork ⟨first, h⟩ hvfork code
    obtain ⟨hactive, -⟩ := activeVforkChild_eq_some_iff.1 hvfork
    obtain ⟨hparent, -, hmade, hlive⟩ := h.vfork vfork hactive
    refine ⟨first, h.exited hmade hlive rfl ?_ hparent rfl ?_⟩
    · rw [afterVfork, markProcessExited_eq]
      rfl
    · rw [afterVfork, markProcessExited_eq]
      rfl
  copyExit := by
    intro w h code
    refine ⟨w.parentPid, h.guest.exited h.made h.live rfl ?_ rfl ?_ ?_⟩
    · rw [afterCopyFork, markProcessExited_eq]
      rfl
    · rw [afterCopyFork, markProcessExited_eq]
      exact h.alone
    · rw [afterCopyFork, markProcessExited_eq]
      rfl
  join := fun ⟨first, h⟩ r => ⟨first, h.join r⟩

theorem sound_start (support : Bool) : (start support).Sound :=
  ⟨⟨wasixRootPid, Guest.Sound.root_new support⟩, (fun _ hw => nomatch hw), ready_start support⟩

theorem handedOut_nextTurn (t : ProcessRun) (g : Guest) :
    (t.nextTurn g).guest.handedOut = g.handedOut := by
  have hresume : ∀ g : Guest, g.resume.handedOut = g.handedOut := by
    intro g
    unfold Guest.resume
    split <;> rfl
  unfold nextTurn
  split
  · exact hresume _
  · rfl

/-- A table in which a process is given the number of the one that made it, or one that does not
fit into 32 bits, is out of order. -/
theorem freshPid_of_lawful (h : t.Sound) {e : ProcessEvent} (hlawful : (t.step e).Lawful) :
    t.Admits Guest.FreshPid e := by
  cases e with
  | procFork mem copyMemory pidPtr =>
    intro hgoes hunwinds
    rw [step, if_pos hgoes] at hlawful
    -- what is given out is recorded, whichever runtime goes on
    have hfresh : ∀ {g : Guest} {host : Processes}, g.Lawful →
        g.handedOut = (t.guest.fork host).handedOut →
          t.guest.host.nextProcessId ≠ t.guest.host.currentProcessId ∧
            t.guest.host.nextProcessId < 2 ^ 32 := by
      intro g host hg hhanded
      obtain ⟨o, ho, rfl⟩ : ∃ o ∈ g.handedOut, o = ⟨t.guest.host.nextProcessId,
          t.guest.host.currentProcessId, t.guest.host.nextProcessId % 2 ^ 32,
            t.guest.host.processes.values.map ProcessRecord.pid⟩ := by
        rw [hhanded]
        exact ⟨_, mem_append_right _ (mem_singleton_self _), rfl⟩
      obtain ⟨hnumber, -, hne⟩ := hg.fresh _ ho
      have hnumber : t.guest.host.nextProcessId % 2 ^ 32 = t.guest.host.nextProcessId := hnumber
      exact ⟨hne, hnumber.symm ▸ Nat.mod_lt _ (by decide)⟩
    rcases procFork_cases (h.ready.running hgoes).2 mem copyMemory pidPtr with
      ⟨errno, heq⟩ | ⟨-, heq | ⟨-, heq⟩⟩
    · rw [heq] at hunwinds
      cases hunwinds
    · rw [move, heq] at hlawful
      exact hfresh hlawful.1 (handedOut_nextTurn _ _)
    · rw [move, heq] at hlawful
      exact hfresh (hlawful.2 _ rfl) rfl
  | _ => trivial

/-- The tables of a run are in order throughout exactly when every fork finds the counter of its
runtime below `2 ^ 32` and not at its own pid: then no pid is given out that a process of the table
has, every process that has ended is reported at most once, with its exit code and to its parent,
who only has to ask, and nobody else's question changes anything. -/
theorem tables_lawful_iff (support : Bool) (events : List ProcessEvent) :
    Always step Lawful (start support) events ↔
      Along step (Admits Guest.FreshPid) (start support) events :=
  always_iff_of_inductive (I := fun _ => True) (c := ProcessRun.Sound) (fun _ _ _ => trivial)
    (fun _ _ h => h.lawful) (fun _ _ _ h hlawful => freshPid_of_lawful h hlawful)
    (fun _ _ _ h hfresh => invariant_sound.step h hfresh) trivial (sound_start support) events

/-- The first fork in the first copied-memory fork of a run is given the pid of that process. -/
def forkInFork : List ProcessEvent :=
  [.procFork iovMemory 1 16, .procFork iovMemory 0 16]

theorem not_lawful_forkInFork : ¬Always step Lawful (start true) forkInFork := by
  intro h
  have hlawful : (runAll step (start true) forkInFork).Lawful := h.last
  have hhanded : (runAll step (start true) forkInFork).guest.handedOut = [⟨2, 2, 2, [1, 2]⟩] := by
    decide
  exact (hlawful.1.fresh ⟨2, 2, 2, [1, 2]⟩ (hhanded ▸ mem_singleton_self _)).2.2 rfl

end ProcessRun

end WasmHost
