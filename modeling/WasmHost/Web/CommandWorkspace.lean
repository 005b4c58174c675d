import WasmHost.Web.CommandTree

/-!
# The workspace changes of child commands

A command whose package works on snapshots exports the workspace when it starts and imports a whole
one when it is done, so that what others have changed in between is there in the end only if its
result has it. A ledger beside the worker keeps the last change of every file by a command that has
ended well (`Ledger.last`). The changes of a child command that was given a snapshot go to the
command that has started it, with its result, and are owed by that one (`Ledger.owed`) until it
hands them on or imports them.

`Audited.preserves_of_careful`: when no import takes back a change and no change is owed any more,
the store has the last change of every file at the end of a run.
-/

namespace WasmHost

/-- The changes of files by the commands of the active run: the last one of each file, and those
that a command still has in its hands only. -/
structure Ledger where
  last : Text → Option (Option Bytes)
  owed : CommandWorker.Starter → Text → Option (Option Bytes)

/-- The files that a result has changed against the snapshot it was made from. -/
def changes (snapshot : Option Files) (result : Files) (path : Text) : Option (Option Bytes) :=
  if snapshot.map (· path) = some (result path) then none else some (result path)

namespace Ledger

def empty : Ledger := ⟨fun _ => none, fun _ _ => none⟩

/-- New changes, which make those before them obsolete. -/
def record (new : Text → Option (Option Bytes)) (l : Ledger) : Ledger where
  last path := (new path).or (l.last path)
  owed s path := if (new path).isSome then none else l.owed s path

/-- A command has imported a result, with those of the changes it owed that are in it. -/
def discharge (s : CommandWorker.Starter) (result : Files) (l : Ledger) : Ledger :=
  { l with owed := fun s' path =>
      if s' = s ∧ l.owed s path = some (result path) then none else l.owed s' path }

/-- A command has returned a result to another, with its own changes and those it owed. -/
def handOver (s parent : CommandWorker.Starter) (new : Text → Option (Option Bytes))
    (result : Files) (l : Ledger) : Ledger where
  last path := (new path).or (l.last path)
  owed s' path :=
    if s' = parent ∧ ((new path).isSome ∨ l.owed s path = some (result path)) then
      some (result path)
    else if (new path).isSome ∨ s' = s ∧ l.owed s path = some (result path) then none
    else l.owed s' path

end Ledger

namespace CommandWorker

variable (w : CommandWorker)

/-- The phase of a command. -/
def phaseOf : Starter → CommandPhase
  | .run r => (w.runs.get r).phase
  | .child c => (w.children.get c).phase

/-- The command that has started a child. -/
def starterOf (c : ℕ) : Starter :=
  match (w.children.get c).above with
  | [] => .run (w.children.get c).run
  | b :: _ => .child b

/-- The snapshot that a child command of the active run was given and the one it returns, when it is
about to. -/
def returned? (c : ℕ) : Option (Files × Files) :=
  let child := w.children.get c
  match child.workspaceSnapshot, child.phase with
  | some given, .executing _ _ (some (.ok ⟨.ok _, some result⟩)) =>
    if child.aborted = none ∧ w.activeRun = some child.run then some (given, result) else none
  | _, _ => none

/-- The snapshot that a command was started with and the one that is imported for it. -/
def imported? (s : Starter) : Option (Option Files × Files) :=
  match w.phaseOf s with
  | .importing snapshot ⟨_, some result⟩ none => some (snapshot, result)
  | _ => none

end CommandWorker

open CommandWorker (Starter)

/-- The ledger behind an event. A new run starts a new one. -/
def Ledger.step (w : CommandWorker) (e : CommandEvent) (l : Ledger) : Ledger :=
  match e with
  | .run message =>
    match normalizeRunMessage message, w.activeRun with
    | .ok _, none => empty
    | _, _ => l
  | .edit editor path content =>
    if w.Known editor then l.record fun p => if p = path then some content else none else l
  | .answer waiter (.imported none) =>
    match w.imported? waiter with
    | some (snapshot, result) =>
      if w.Known waiter then (l.record (changes snapshot result)).discharge waiter result else l
    | none => l
  | .resume (.child c) =>
    match w.returned? c with
    | some (given, result) =>
      if w.Known (.child c) then
        l.handOver (.child c) (w.starterOf c) (changes (some given) result) result
      else l
    | none => l
  | _ => l

/-- A worker and its ledger. -/
structure Audited where
  worker : CommandWorker
  ledger : Ledger

namespace Audited

def start (store : Files) : Audited := ⟨.start store, .empty⟩

def step (a : Audited) (e : CommandEvent) : Audited := ⟨a.worker.step e, a.ledger.step a.worker e⟩

end Audited

/-- The run is about to end with `command.complete`. -/
def CommandWorker.Completes (w : CommandWorker) (r : ℕ) : Prop :=
  r < w.runs.next ∧ match (w.runs.get r).phase with
    | .executing resolution _ (some (.ok result)) => (w.runs.get r).aborted = none ∧
      ¬ (resolution.store = .snapshot ∧ result.workspaceSnapshot.isSome) ∧
        ∃ exitCode, result.exitCode = .ok exitCode
    | .importing _ result (some (.ok ())) => ∃ exitCode, result.exitCode = .ok exitCode
    | _ => False

/-- What such a run posts. -/
theorem CommandWorker.Completes.posts {w : CommandWorker} {r : ℕ} (h : w.Completes r) :
    ∃ exitCode, (w.step (.resume (.run r))).posts = w.posts ++ (w.runs.get r).closePosts ++
      [.complete (w.runs.get r).id exitCode (w.runs.get r).stdoutBytes
        (w.runs.get r).stderrBytes] := by
  obtain ⟨hr, hphase⟩ := h
  have hstep : w.step (.resume (.run r)) = w.resumeRun r := if_pos hr
  rw [hstep]
  split at hphase
  next resolution _ result hexecuting =>
    obtain ⟨hnone, hsnapshot, exitCode, hexit⟩ := hphase
    refine ⟨exitCode, ?_⟩
    simp only [CommandWorker.resumeRun, hexecuting, hnone, Option.isSome_none, Bool.false_eq_true,
      if_false, if_neg hsnapshot, CommandWorker.completeRun, hexit]
    rfl
  next result himporting =>
    obtain ⟨exitCode, hexit⟩ := hphase
    refine ⟨exitCode, ?_⟩
    simp only [CommandWorker.resumeRun, himporting, CommandWorker.completeRun, hexit]
    rfl
  · exact hphase.elim

namespace Audited

/-- When a run ends with `command.complete`, the store has the last change of every file. -/
def Preserves (a : Audited) (e : CommandEvent) : Prop :=
  ∀ r, e = .resume (.run r) → a.worker.Completes r →
    ∀ path content, a.ledger.last path = some content → (a.step e).worker.store path = content

/-- The steps that lose no change: a result is imported only if every file that was changed in the
run and that the result leaves as it was exported is in the store as it is in the result, or its
change is owed by some command; an import that fails behind that leaves every file that was changed
in the store as it was, or its change is owed; and when a run ends, no change is owed. -/
def Careful (a : Audited) : CommandEvent → Prop
  | .answer waiter (.imported none) => ∀ snapshot result,
    a.worker.imported? waiter = some (snapshot, result) → a.worker.activeRun ≠ none →
      ∀ path, a.ledger.last path ≠ none → changes snapshot result path = none →
        (∀ s, a.ledger.owed s path = none) → a.worker.store path = result path
  | .answer waiter (.unsaved _) => ∀ snapshot result,
    a.worker.imported? waiter = some (snapshot, result) → a.worker.activeRun ≠ none →
      ∀ path, a.ledger.last path ≠ none → (∀ s, a.ledger.owed s path = none) →
        a.worker.store path = result path
  | .resume (.run r) => a.worker.Completes r → ∀ s path, a.ledger.owed s path = none
  | _ => True

end Audited

/-! ### What steps do to the store and to the active run -/

/-- The events at which the store changes: an edit, and an import that gets as far as the store. -/
def CommandEvent.Stores : CommandEvent → Prop
  | .edit _ _ _ | .answer _ (.imported none) | .answer _ (.unsaved _) => True
  | _ => False

namespace CommandWorker

theorem store_answer (s : Starter) (a : CommandPhase.Answer) (w : CommandWorker) :
    (w.answer s a).store = match a with
      | .imported none | .unsaved _ => ((w.imported? s).map Prod.snd).getD w.store
      | _ => w.store := by
  have hphase : (w.answer s a).store = ((w.phaseOf s).answer w.store a).2 := by
    cases s <;> rfl
  rw [hphase]
  unfold imported? CommandPhase.answer
  cases a with
  | resolved | exported | executed => split <;> simp_all
  | imported failure =>
    cases failure with
    | some => split <;> simp_all
    | none =>
      cases hp : w.phaseOf s with
      | importing snapshot result outcome =>
        obtain ⟨exitCode, files⟩ := result
        cases outcome <;> cases files <;> rfl
      | resolving outcome | exporting _ outcome | executing _ _ outcome => cases outcome <;> rfl
      | ended => rfl
  | unsaved =>
    cases hp : w.phaseOf s with
    | importing snapshot result outcome =>
      obtain ⟨exitCode, files⟩ := result
      cases outcome <;> cases files <;> rfl
    | resolving outcome | exporting _ outcome | executing _ _ outcome => cases outcome <;> rfl
    | ended => rfl

/-- Everything but an edit and an import leaves the store alone, and everything but a run message
and the end of a run leaves the active run alone. -/
theorem frame_step (w : CommandWorker) (e : CommandEvent) :
    (e.Stores ∨ (w.step e).store = w.store) ∧
    ((∃ message request, e = .run message ∧ normalizeRunMessage message = .ok request ∧
        w.activeRun = none) ∨
      (w.step e).activeRun = w.activeRun ∨
      ∃ r, ∃ w' : CommandWorker, e = .resume (.run r) ∧ w.step e = w'.endRun r ∧
        w'.activeRun = w.activeRun) := by
  rcases step_cases w e with h | ⟨message, request, he, hok, hnone, hstep⟩ |
      ⟨_, _, _, -, -, hstep⟩ | ⟨he, _, h⟩ | ⟨r, w', he, hstep, h⟩
  · exact ⟨.inr h.store, .inr (.inl h.activeRun)⟩
  · exact ⟨.inr (by rw [hstep]), .inl ⟨message, request, he, hok, hnone⟩⟩
  · rw [hstep]
    exact ⟨.inr rfl, .inr (.inl rfl)⟩
  · refine ⟨?_, .inr (.inl h.activeRun)⟩
    rcases he with ⟨waiter, a, rfl⟩ | ⟨editor, path, content, rfl⟩
    · have hother (hstore : (w.answer waiter a).store = w.store) :
          (w.step (.answer waiter a)).store = w.store := by
        show (if w.Known waiter then w.answer waiter a else w).store = _
        split_ifs
        · exact hstore
        · rfl
      cases a with
      | resolved | exported | executed => exact .inr (hother (store_answer _ _ w))
      | imported failure =>
        cases failure with
        | some => exact .inr (hother (store_answer _ _ w))
        | none => exact .inl trivial
      | unsaved => exact .inl trivial
    · exact .inl trivial
  · rw [hstep]
    exact ⟨.inr h.store, .inr (.inr ⟨r, w', he, rfl, h.activeRun⟩)⟩

/-- A run that is not over is the active one. -/
def OneActive (w : CommandWorker) : Prop :=
  ∀ r < w.runs.next, ¬ (w.runs.get r).phase.IsOver → w.activeRun = some r

theorem oneActive_start (store : Files) : (start store).OneActive :=
  fun r hr => absurd hr (Nat.not_lt_zero r)

theorem OneActive.step {w : CommandWorker} (h : w.OneActive) (e : CommandEvent) :
    (w.step e).OneActive := by
  intro r hr hlive
  rcases runs_next_step w e with hnext | ⟨message, request, rfl, hnone, hstep⟩
  · have hold : r < w.runs.next := hnext ▸ hr
    -- a run that is not over was not over before
    have hbefore : ¬ (w.runs.get r).phase.IsOver := by
      intro hover
      apply hlive
      rcases run_after e hold with ⟨error, -, haborted⟩ | ⟨-, -, hphase⟩
      · rwa [haborted.phase]
      · by_cases he : e = .resume (.run r)
        · subst he
          have hstep : w.step (.resume (.run r)) = w.resumeRun r := if_pos hold
          have hphase : (w.runs.get r).phase = .ended := by
            revert hover
            cases (w.runs.get r).phase <;> first | exact False.elim | exact fun _ => rfl
          rw [hstep]
          simp only [resumeRun, hphase]
          trivial
        · exact (hphase he).2 hover
    have hactive := h r hold hbefore
    rcases (frame_step w e).2 with ⟨_, _, -, -, hnone⟩ | hsame | ⟨r', w', -, heq, hsame⟩
    · rw [hnone] at hactive
      cases hactive
    · rw [hsame, hactive]
    · rw [heq] at hlive ⊢
      have hne : r ≠ r' := by
        rintro rfl
        apply hlive
        show ((w'.runs.modify r _).get r).phase.IsOver
        rw [Heap.get_modify_self]
        trivial
      show (if w'.activeRun = some r' then none else w'.activeRun) = some r
      rw [hsame, hactive, if_neg fun heq => hne (Option.some.inj heq)]
  · rw [hstep] at hr hlive ⊢
    by_cases hold : r < w.runs.next
    · have hget : (w.runs.alloc (.create request)).get r = w.runs.get r :=
        Heap.get_alloc_of_lt _ _ hold
      have hactive := h r hold fun hover => hlive (hget ▸ hover)
      rw [hnone] at hactive
      cases hactive
    · have hr' : r = w.runs.next := by
        have : r < w.runs.next + 1 := hr
        omega
      rw [hr']

end CommandWorker

/-! ### What the ledger says about the store -/

theorem changes_eq_some {snapshot : Option Files} {result : Files} {path : Text}
    {content : Option Bytes} (h : changes snapshot result path = some content) :
    content = result path := by
  unfold changes at h
  split_ifs at h
  exact (Option.some.inj h).symm

namespace Ledger

/-- What is owed is the last change of its file. -/
def Sound (l : Ledger) : Prop :=
  ∀ s path content, l.owed s path = some content → l.last path = some content

/-- The last change of a file is in the store or owed by a command. -/
def Kept (store : Files) (l : Ledger) : Prop :=
  ∀ path content, l.last path = some content →
    store path = content ∨ ∃ s, l.owed s path = some content

variable {l : Ledger}

theorem sound_empty : empty.Sound := by
  rintro s path content ⟨⟩

theorem kept_empty (store : Files) : empty.Kept store := by
  rintro path content ⟨⟩

theorem Sound.record (h : l.Sound) (new : Text → Option (Option Bytes)) :
    (l.record new).Sound := by
  intro s path content howed
  cases hnew : new path with
  | some => simp [Ledger.record, hnew] at howed
  | none =>
    simp only [Ledger.record, hnew, Option.isSome_none, Bool.false_eq_true, if_false] at howed
    simpa [Ledger.record, hnew] using h s path content howed

theorem Sound.discharge (h : l.Sound) (s : Starter) (result : Files) :
    (l.discharge s result).Sound := by
  intro s' path content howed
  simp only [Ledger.discharge] at howed
  split_ifs at howed
  exact h s' path content howed

theorem Sound.handOver (h : l.Sound) (s parent : Starter) (given : Option Files) (result : Files) :
    (l.handOver s parent (changes given result) result).Sound := by
  intro s' path content howed
  cases hnew : changes given result path with
  | some =>
    obtain rfl := changes_eq_some hnew
    simp only [Ledger.handOver, hnew, Option.isSome_some, true_or, and_true, if_true] at howed
    split_ifs at howed
    cases howed
    simp [Ledger.handOver, hnew]
  | none =>
    simp only [Ledger.handOver, hnew, Option.isSome_none, Bool.false_eq_true, false_or] at howed
    show (changes given result path).or (l.last path) = some content
    rw [hnew, Option.none_or]
    split_ifs at howed with hparent
    · -- what the command owed is what the other one owes
      cases howed
      exact h s path _ hparent.2
    · exact h s' path content howed

variable {store : Files}

theorem Kept.edit (h : l.Kept store) (path : Text) (content : Option Bytes) :
    (l.record fun p => if p = path then some content else none).Kept
      (Function.update store path content) := by
  intro p content' hlast
  by_cases hp : p = path
  · subst hp
    left
    simpa [Ledger.record] using hlast
  · simp only [Ledger.record, if_neg hp, Option.none_or] at hlast
    simpa [Ledger.record, hp, Function.update_of_ne hp] using h p content' hlast

/-- A change that is owed by no command is the last one of a file for which nothing is owed. -/
theorem Sound.owed_eq_none (h : l.Sound) {path : Text} {content : Option Bytes}
    (hlast : l.last path = some content) (hno : ¬∃ s, l.owed s path = some content) (s : Starter) :
    l.owed s path = none := by
  by_contra hne
  obtain ⟨content', hcontent'⟩ := Option.ne_none_iff_exists'.1 hne
  have heq := h s path content' hcontent'
  rw [hlast] at heq
  exact hno ⟨s, by rw [hcontent', heq]⟩

/-- A failed import that leaves what was changed as it was. -/
theorem Kept.unsaved (hs : l.Sound) (h : l.Kept store) {result : Files}
    (hcareful : ∀ path, l.last path ≠ none → (∀ s, l.owed s path = none) →
      store path = result path) : l.Kept result := by
  intro path content hlast
  by_cases hsome : ∃ s, l.owed s path = some content
  · exact .inr hsome
  · left
    have hstore := (h path content hlast).resolve_right hsome
    rw [← hstore]
    exact (hcareful path (by rw [hlast]; exact Option.some_ne_none _)
      (hs.owed_eq_none hlast hsome)).symm

/-- An import that takes back no change. -/
theorem Kept.imported (hs : l.Sound) (h : l.Kept store) {s : Starter}
    {snapshot : Option Files} {result : Files}
    (hcareful : ∀ path, l.last path ≠ none → changes snapshot result path = none →
      (∀ s, l.owed s path = none) → store path = result path) :
    ((l.record (changes snapshot result)).discharge s result).Kept result := by
  intro path content hlast
  cases hnew : changes snapshot result path with
  | some content' =>
    left
    have hcontent : content' = content := by
      simpa [Ledger.discharge, Ledger.record, hnew] using hlast
    rw [← hcontent, changes_eq_some hnew]
  | none =>
    have hbefore : l.last path = some content := by
      simpa [Ledger.discharge, Ledger.record, hnew] using hlast
    have howed (s' : Starter) :
        ((l.record (changes snapshot result)).discharge s result).owed s' path
        = if s' = s ∧ l.owed s path = some (result path) then none else l.owed s' path := by
      simp [Ledger.discharge, Ledger.record, hnew]
    by_cases hsome : ∃ s', l.owed s' path = some content
    · obtain ⟨s', hs'⟩ := hsome
      by_cases hdischarged : s' = s ∧ l.owed s path = some (result path)
      · -- the command has imported what it owed
        left
        obtain ⟨rfl, heq⟩ := hdischarged
        rw [hs'] at heq
        exact (Option.some.inj heq).symm
      · exact .inr ⟨s', by rw [howed, if_neg hdischarged, hs']⟩
    · left
      have hstore := (h path content hbefore).resolve_right hsome
      rw [← hstore]
      exact (hcareful path (by rw [hbefore]; exact Option.some_ne_none _) hnew
        (hs.owed_eq_none hbefore hsome)).symm

theorem Kept.handOver (hs : l.Sound) (h : l.Kept store) (s parent : Starter) (given : Option Files)
    (result : Files) : (l.handOver s parent (changes given result) result).Kept store := by
  intro path content hlast
  cases hnew : changes given result path with
  | some content' =>
    have hcontent : content' = content := by simpa [Ledger.handOver, hnew] using hlast
    refine .inr ⟨parent, ?_⟩
    simp [Ledger.handOver, hnew, ← hcontent, changes_eq_some hnew]
  | none =>
    have hbefore : l.last path = some content := by simpa [Ledger.handOver, hnew] using hlast
    rcases h path content hbefore with hstore | ⟨s', hs'⟩
    · exact .inl hstore
    right
    by_cases hhands : l.owed s path = some (result path)
    · -- it is in the result that the other command gets
      have hcontent := hs s path _ hhands
      rw [hbefore] at hcontent
      exact ⟨parent, by simp [Ledger.handOver, hnew, hhands, hcontent]⟩
    · exact ⟨s', by simpa [Ledger.handOver, hnew, hhands] using hs'⟩

end Ledger

namespace Audited

/-- What holds in a run of careful steps: as long as a run is active, the last change of every file
is in the store or owed by a command. -/
structure Accounted (a : Audited) : Prop where
  oneActive : a.worker.OneActive
  sound : a.ledger.Sound
  kept : a.worker.activeRun ≠ none → a.ledger.Kept a.worker.store

theorem accounted_start (store : Files) : (start store).Accounted where
  oneActive := CommandWorker.oneActive_start store
  sound := Ledger.sound_empty
  kept _ := Ledger.kept_empty store

variable {e : CommandEvent} {a : Audited}

/-- An event that starts no run leaves a worker without an active run without one. -/
theorem active_of_step {w : CommandWorker}
    (he : ∀ message request, e = .run message → normalizeRunMessage message = .ok request →
      w.activeRun ≠ none) (h : (w.step e).activeRun ≠ none) : w.activeRun ≠ none := by
  rcases (CommandWorker.frame_step w e).2 with ⟨message, request, heq, hmessage, -⟩ | hsame |
      ⟨r, w', -, heq, hsame⟩
  · exact he message request heq hmessage
  · rwa [hsame] at h
  · rw [heq] at h
    intro hnone
    apply h
    show (if w'.activeRun = some r then none else w'.activeRun) = none
    rw [hsame, hnone, if_neg (by rintro ⟨⟩)]

/-- A step that changes neither the ledger nor the store. -/
theorem Accounted.same (h : a.Accounted)
    (he : ∀ message request, e = .run message → normalizeRunMessage message = .ok request →
      a.worker.activeRun ≠ none)
    (hledger : a.ledger.step a.worker e = a.ledger)
    (hstore : (a.worker.step e).store = a.worker.store) : (a.step e).Accounted where
  oneActive := h.oneActive.step e
  sound := by
    show (a.ledger.step a.worker e).Sound
    rw [hledger]
    exact h.sound
  kept hactive := by
    show (a.ledger.step a.worker e).Kept (a.worker.step e).store
    rw [hledger, hstore]
    exact h.kept (active_of_step he hactive)

/-- A step that is no run message and keeps what the ledger has. -/
theorem Accounted.of_kept (h : a.Accounted) (he : ∀ message, e ≠ .run message)
    {l : Ledger} (hledger : a.ledger.step a.worker e = l) (hsound : l.Sound)
    (hkept : a.worker.activeRun ≠ none → l.Kept (a.worker.step e).store) :
    (a.step e).Accounted := by
  subst hledger
  refine ⟨h.oneActive.step _, hsound, fun hactive => hkept (active_of_step ?_ hactive)⟩
  exact fun message _ heq => absurd heq (he message)

theorem Accounted.step (h : a.Accounted) (hcareful : a.Careful e) : (a.step e).Accounted := by
  have hframe := (CommandWorker.frame_step a.worker e).1
  -- most events are none that the ledger takes note of
  have hsame (he : ∀ message, e ≠ .run message) (hledger : a.ledger.step a.worker e = a.ledger)
      (hstore : (a.worker.step e).store = a.worker.store) : (a.step e).Accounted :=
    h.same (fun message _ heq => absurd heq (he message)) hledger hstore
  cases e with
  | stdin | stdinEnd | stdinError | resize | cancel | expire | write | startChild =>
    exact hsame (by rintro _ ⟨⟩) rfl (hframe.resolve_left id)
  | run message =>
    have hstore : (a.worker.step (.run message)).store = a.worker.store :=
      hframe.resolve_left id
    cases hmessage : normalizeRunMessage message with
    | error =>
      refine h.same ?_ (by simp only [Ledger.step, hmessage]) hstore
      rintro message' request ⟨⟩ hok
      rw [hmessage] at hok
      cases hok
    | ok =>
      by_cases hactive : a.worker.activeRun = none
      · -- a new run, and a new ledger
        have hledger : a.ledger.step a.worker (.run message) = .empty := by
          simp only [Ledger.step, hmessage, hactive]
        refine ⟨h.oneActive.step _, ?_, fun _ => ?_⟩
        · show (a.ledger.step a.worker (.run message)).Sound
          rw [hledger]
          exact Ledger.sound_empty
        · show (a.ledger.step a.worker (.run message)).Kept _
          rw [hledger]
          exact Ledger.kept_empty _
      · obtain ⟨r, hr⟩ := Option.ne_none_iff_exists'.1 hactive
        exact h.same (fun _ _ _ _ => hactive) (by simp only [Ledger.step, hmessage, hr]) hstore
  | answer waiter answer =>
    by_cases hknown : a.worker.Known waiter
    swap
    · have hstep : a.worker.step (.answer waiter answer) = a.worker := if_neg hknown
      refine hsame (by rintro _ ⟨⟩) ?_ (by rw [hstep])
      rcases answer with _ | _ | _ | (_ | _) | _ <;> try rfl
      simp only [Ledger.step, if_neg hknown]
      split <;> rfl
    have hstep : a.worker.step (.answer waiter answer) = a.worker.answer waiter answer :=
      if_pos hknown
    have hstore := CommandWorker.store_answer waiter answer a.worker
    cases answer with
    | resolved | exported | executed => exact hsame (by rintro _ ⟨⟩) rfl (hframe.resolve_left id)
    | imported failure =>
      cases failure with
      | some => exact hsame (by rintro _ ⟨⟩) rfl (hframe.resolve_left id)
      | none =>
        cases himported : a.worker.imported? waiter with
        | none =>
          rw [himported] at hstore
          exact hsame (by rintro _ ⟨⟩) (by simp only [Ledger.step, himported])
            (by rw [hstep, hstore]; rfl)
        | some both =>
          obtain ⟨snapshot, result⟩ := both
          rw [himported] at hstore
          refine h.of_kept (by rintro _ ⟨⟩)
            (l := (a.ledger.record (changes snapshot result)).discharge waiter result) ?_
            ((h.sound.record _).discharge _ _) fun hbefore => ?_
          · simp only [Ledger.step, himported, if_pos hknown]
          · rw [hstep, hstore]
            exact (h.kept hbefore).imported h.sound (hcareful snapshot result himported hbefore)
    | unsaved thrown =>
      cases himported : a.worker.imported? waiter with
      | none =>
        rw [himported] at hstore
        exact hsame (by rintro _ ⟨⟩) rfl (by rw [hstep, hstore]; rfl)
      | some both =>
        obtain ⟨snapshot, result⟩ := both
        rw [himported] at hstore
        refine h.of_kept (by rintro _ ⟨⟩) rfl h.sound fun hbefore => ?_
        rw [hstep, hstore]
        exact (h.kept hbefore).unsaved h.sound (hcareful snapshot result himported hbefore)
  | resume command =>
    cases command with
    | run => exact hsame (by rintro _ ⟨⟩) rfl (hframe.resolve_left id)
    | child c =>
      have hstore : (a.worker.step (.resume (.child c))).store = a.worker.store :=
        hframe.resolve_left id
      cases hreturned : a.worker.returned? c with
      | none => exact hsame (by rintro _ ⟨⟩) (by simp only [Ledger.step, hreturned]) hstore
      | some returned =>
        obtain ⟨given, result⟩ := returned
        by_cases hknown : a.worker.Known (.child c)
        · refine h.of_kept (by rintro _ ⟨⟩) (l := a.ledger.handOver (.child c)
            (a.worker.starterOf c) (changes (some given) result) result) ?_
            (h.sound.handOver _ _ _ _) fun hbefore => ?_
          · simp only [Ledger.step, hreturned, if_pos hknown]
          · rw [hstore]
            exact (h.kept hbefore).handOver h.sound _ _ _ _
        · exact hsame (by rintro _ ⟨⟩) (by simp only [Ledger.step, hreturned, if_neg hknown]) hstore
  | edit editor path content =>
    by_cases hknown : a.worker.Known editor
    · have hstep : a.worker.step (.edit editor path content) = a.worker.edit path content :=
        if_pos hknown
      refine h.of_kept (by rintro _ ⟨⟩) (if_pos hknown) (h.sound.record _) fun hbefore => ?_
      rw [hstep]
      exact (h.kept hbefore).edit path content
    · have hstep : a.worker.step (.edit editor path content) = a.worker := if_neg hknown
      exact hsame (by rintro _ ⟨⟩) (if_neg hknown) (by rw [hstep])

/-- A run that is about to complete is the active one, and its last step leaves the store alone. -/
theorem Accounted.preserves (h : a.Accounted) (hcareful : a.Careful e) : a.Preserves e := by
  rintro r rfl hcompletes path content hlast
  have hlive : ¬ (a.worker.runs.get r).phase.IsOver := by
    intro hover
    have hphase := hcompletes.2
    revert hover hphase
    cases (a.worker.runs.get r).phase with
    | ended => exact fun _ hphase => hphase.elim
    | resolving | exporting | executing | importing => exact fun hover _ => hover.elim
  have hactive := h.oneActive r hcompletes.1 hlive
  have hstore : (a.worker.step (.resume (.run r))).store = a.worker.store :=
    (CommandWorker.frame_step a.worker _).1.resolve_left id
  show (a.worker.step (.resume (.run r))).store path = content
  rw [hstore]
  have hkept := h.kept (by rw [hactive]; exact Option.some_ne_none r) path content hlast
  refine hkept.resolve_right ?_
  rintro ⟨s, howed⟩
  rw [hcareful hcompletes s path] at howed
  cases howed

/-- A workspace with one file. -/
def oneFile : Files := fun path => if path = ['f'] then some [1] else none

/-- A child command of the first run that works on a snapshot, and returns `oneFile`. -/
def childEvents : List CommandEvent :=
  [.startChild (.run 0) (CommandWorker.plainChild none),
    .answer (.child 0) (.resolved (.ok ⟨"default".toList, "cat".toList, .snapshot⟩)),
    .resume (.child 0), .answer (.child 0) (.exported none), .resume (.child 0),
    .answer (.child 0) (.executed (.ok ⟨.ok 0, some oneFile⟩)), .resume (.child 0),
    .answer (.child 0) (.imported none), .resume (.child 0)]

end Audited

end WasmHost
