import WasmHost.Web.CommandAnswers

/-!
# Aborts in a tree of commands

The first abort of a run is the reason of its signal, the error of its standard input and what its
terminal message reports; a command that is aborted has nothing below it that goes on, takes no more
output, and nothing below it imports a snapshot any more. The signal of a child command follows the
run and not the command that started it, an abort overwrites the error of the one before it, and
no signal interrupts the import of a result. `CommandWorker.Calm` says which steps stay clear of
that. Whether a child command below a run listens to its signal is `CommandWorker.Linked`, which
holds in every state.
-/

namespace WasmHost

open Heap CommandWorker

namespace ByteStream

variable {ε : Type}

theorem error_of_push {alreadyClosed : ε} {bytes : Bytes} {s t : ByteStream ε}
    (h : s.push alreadyClosed bytes = .ok t) : t.error = s.error := by
  unfold push at h
  split at h
  · cases h
  · split at h
    · cases h
    · split_ifs at h <;> cases h <;> rfl

theorem error_of_finish {alreadyClosed : ε} {s t : ByteStream ε}
    (h : s.finish alreadyClosed = .ok t) : t.error = s.error := by
  unfold finish at h
  split_ifs at h
  cases h
  rfl

end ByteStream

/-- The command imports a workspace. -/
def CommandPhase.IsImporting : CommandPhase → Prop
  | .importing _ _ _ => True
  | _ => False

namespace CommandWorker

/-! ### The aborts of a step -/

/-- What a chunk of standard input does to the stream. -/
def pushStdin (message : ChunkMessage) (stdin : ByteStream CommandError) :
    Except CommandError (ByteStream CommandError) := do
  let bytes ← stdinChunkFromMessage message
  stdin.push .stdinAlreadyClosed bytes

/-- The run that a message about input aborts. -/
def stdinAbort (w : CommandWorker) (id : Option Text)
    (f : ByteStream CommandError → Except CommandError (ByteStream CommandError)) :
    Option (ℕ × CommandError) :=
  match w.activeRunWith? id with
  | none => none
  | some r =>
    match f (w.runs.get r).stdin with
    | .ok _ => none
    | .error error => some (r, error)

/-- The run that an event aborts, with the error. -/
def abortOf (w : CommandWorker) : CommandEvent → Option (ℕ × CommandError)
  | .stdin id message => w.stdinAbort id (pushStdin message)
  | .stdinEnd id => w.stdinAbort id (ByteStream.finish .stdinAlreadyClosed)
  | .stdinError id error => w.stdinAbort id fun _ => .error (errorFromStdinMessage error)
  | .cancel id => (w.activeRunWith? id).map fun r => (r, .cancelledError)
  | .expire (.run r) =>
    if r < w.runs.next ∧ (w.runs.get r).timer then some (r, .timeoutError) else none
  | _ => none

/-! ### The claims on a state and on a step -/

/-- A state in which the first abort of every command has reached everything that depends on it. -/
structure Settled (w : CommandWorker) : Prop where
  /-- The reason of the signal is the error of the standard input and the one to be reported. -/
  first : ∀ r < w.runs.next, ∀ error, (w.runs.get r).aborted = some error →
    (w.runs.get r).stdin.error = some error ∧ (w.runs.get r).abortError = some error
  /-- With a run every child command that has not returned is aborted. -/
  belowRun : ∀ c < w.children.next, (w.runs.get (w.children.get c).run).aborted.isSome →
    ¬ (w.children.get c).phase.IsOver → (w.children.get c).aborted.isSome
  /-- With a child command every one below it that has not returned is aborted. -/
  belowChild : ∀ c < w.children.next, ∀ a ∈ (w.children.get c).above,
    (w.children.get a).aborted.isSome → ¬ (w.children.get c).phase.IsOver →
      (w.children.get c).aborted.isSome

/-- The command or one that it stands below is aborted. -/
def AbortedAbove (w : CommandWorker) (c : ℕ) : Prop :=
  (w.runs.get (w.children.get c).run).aborted.isSome = true ∨
    ∃ a ∈ (w.children.get c).above, (w.children.get a).aborted.isSome = true

/-- A step that respects the aborts behind it. -/
structure Respects (w : CommandWorker) (e : CommandEvent) : Prop where
  /-- The reason of a signal stays. -/
  runReason : ∀ r < w.runs.next, ∀ error, (w.runs.get r).aborted = some error →
    ((w.step e).runs.get r).aborted = some error
  childReason : ∀ c < w.children.next, ∀ error, (w.children.get c).aborted = some error →
    ((w.step e).children.get c).aborted = some error
  /-- An aborted run that comes to its end reports the reason of its signal. -/
  report : ∀ r < w.runs.next, ∀ error, (w.runs.get r).aborted = some error →
    ¬ (w.runs.get r).phase.IsOver → ((w.step e).runs.get r).phase.IsOver →
      (w.step e).posts = w.posts ++ (w.runs.get r).closePosts ++
        [.error (some (w.runs.get r).id) error (w.runs.get r).stdoutBytes
          (w.runs.get r).stderrBytes]
  /-- An aborted run takes no output. -/
  runOutput : ∀ r < w.runs.next, (w.runs.get r).aborted.isSome → ∀ stream,
    ((w.step e).runs.get r).bytes stream = (w.runs.get r).bytes stream
  /-- Nor does an aborted child command. -/
  childOutput : ∀ c < w.children.next, (w.children.get c).aborted.isSome →
    ((w.step e).children.get c).stdoutBytes = (w.children.get c).stdoutBytes ∧
      ((w.step e).children.get c).stderrBytes = (w.children.get c).stderrBytes ∧
      ((w.step e).children.get c).stdoutChunks = (w.children.get c).stdoutChunks ∧
      ((w.step e).children.get c).stderrChunks = (w.children.get c).stderrChunks
  /-- No child command below an aborted command goes on to import a snapshot. -/
  noImport : ∀ c < w.children.next, w.AbortedAbove c →
    ((w.step e).children.get c).phase.IsImporting → (w.children.get c).phase.IsImporting

/-- The steps that leave no command behind: a run is aborted once, or again with the same error, an
aborted run does not end with a result, no child command is aborted by its own timer while one below
it goes on, and none starts another after that. -/
def Calm (w : CommandWorker) (e : CommandEvent) : Prop :=
  (∀ r error, w.abortOf e = some (r, error) →
    (w.runs.get r).aborted = none ∨ (w.runs.get r).aborted = some error) ∧
  match e with
  | .resume (.run r) => ∀ snapshot result,
    (w.runs.get r).phase = .importing snapshot result (some (.ok ())) →
    (w.runs.get r).aborted = none
  | .expire (.child a) => (w.children.get a).timer = true →
    (w.children.get a).aborted = none → ∀ c < w.children.next, a ∈ (w.children.get c).above →
      (w.children.get c).phase.IsOver ∨ (w.children.get c).aborted.isSome = true
  | .startChild (.child b) _ =>
    (w.runs.get (w.children.get b).run).aborted.isSome = true ∨
      ∀ a ∈ b :: (w.children.get b).above, (w.children.get a).aborted = none
  | _ => True

/-! ### What a step does to a run -/

/-- What an abort leaves of a run. -/
structure AbortedRun (error : CommandError) (run run' : ActiveRun) : Prop where
  aborted : run'.aborted = some (run.aborted.getD error)
  abortError : run'.abortError = some error
  stdin : run'.stdin.error = some (run.stdin.error.getD error)
  phase : run'.phase = run.phase
  bytes : ∀ stream, run'.bytes stream = run.bytes stream

/-- A run behind a step that does not abort it. -/
structure KeptRun (run run' : ActiveRun) : Prop where
  aborted : run'.aborted = run.aborted
  abortError : run'.abortError = run.abortError
  stdin : run'.stdin.error = run.stdin.error

theorem KeptRun.refl (run : ActiveRun) : KeptRun run run := ⟨rfl, rfl, rfl⟩

variable {run run' : ActiveRun}

theorem SameRun.kept (h : SameRun run run') : KeptRun run run' :=
  ⟨h.aborted, h.abortError, by rw [h.stdin]⟩

theorem abortedRun_abort (error : CommandError) (run : ActiveRun) :
    AbortedRun error run (run.abort error) where
  aborted := rfl
  abortError := rfl
  stdin := ByteStream.fail_error error run.stdin
  phase := rfl
  bytes stream := by cases stream <;> rfl

theorem abortedRun_failStdin (error : CommandError) (run : ActiveRun) :
    AbortedRun error run ({ run with stdin := run.stdin.fail error }.abort error) where
  aborted := rfl
  abortError := rfl
  stdin := by
    show ((run.stdin.fail error).fail error).error = _
    rw [ByteStream.fail_error, ByteStream.fail_error]
    rfl
  phase := rfl
  bytes stream := by cases stream <;> rfl

variable {w : CommandWorker} {e : CommandEvent} {r c : ℕ} {error : CommandError}
    {child child' child'' : ChildCommand} (store : Files) {id : Option Text}
    {f : ByteStream CommandError → Except CommandError (ByteStream CommandError)}

/-- An event that aborts a run is `abortRun` at it. -/
theorem step_of_abort (h : w.abortOf e = some (r, error)) :
    ∃ f, w.step e = abortRun r error (w.modifyRun r f) ∧
      (f (w.runs.get r)).aborted = (w.runs.get r).aborted ∧
      AbortedRun error (w.runs.get r) ((f (w.runs.get r)).abort error) := by
  have hstdin (id : Option Text) (g) (hstep : w.step e = w.onStdin id g)
      (hid : w.stdinAbort id g = some (r, error)) :
      ∃ f, w.step e = abortRun r error (w.modifyRun r f) ∧
        (f (w.runs.get r)).aborted = (w.runs.get r).aborted ∧
        AbortedRun error (w.runs.get r) ((f (w.runs.get r)).abort error) := by
    unfold stdinAbort at hid
    split at hid
    · cases hid
    next r' hr =>
      split at hid
      · cases hid
      next error' herror =>
        cases hid
        refine ⟨fun run => { run with stdin := run.stdin.fail error }, ?_, rfl,
          abortedRun_failStdin error _⟩
        rw [hstep]
        simp only [onStdin, hr, herror]
        rfl
  cases e with
  | stdin id | stdinEnd id => exact hstdin id _ rfl h
  | stdinError id fields =>
    exact hstdin id (fun _ => .error (errorFromStdinMessage fields)) rfl h
  | cancel =>
    obtain ⟨r', hr, heq⟩ := Option.map_eq_some_iff.1 h
    cases heq
    refine ⟨fun run => run, ?_, rfl, abortedRun_abort _ _⟩
    have hsame : w.modifyRun r (fun run => run) = w := by
      rw [modifyRun, modify_of_eq _ rfl]
    rw [hsame]
    simp only [step, cancel, hr]
  | expire timer =>
    cases timer with
    | child => cases h
    | run =>
      simp only [abortOf] at h
      split_ifs at h with htimer
      cases h
      refine ⟨fun run => { run with timer := false }, ?_, rfl, ?_⟩
      · have hknown : w.Known (.run r) := htimer.1
        simp only [step, if_pos hknown, expire, htimer.2, if_true]
      · exact ⟨rfl, rfl, ByteStream.fail_error _ _, rfl, fun stream => by cases stream <;> rfl⟩
  | run | resize | answer | resume | write | startChild | edit => cases h

/-- A run behind a step that does not abort it: if it is aborted, it has taken no output. -/
structure QuietRun (run run' : ActiveRun) : Prop extends KeptRun run run' where
  bytes : run.aborted.isSome = true → ∀ stream, run'.bytes stream = run.bytes stream

theorem QuietRun.refl (run : ActiveRun) : QuietRun run run := ⟨.refl run, fun _ _ => rfl⟩

theorem SameRun.quiet (h : SameRun run run') : QuietRun run run' where
  toKeptRun := h.kept
  bytes _ stream := by
    cases stream
    · exact h.stdoutBytes
    · exact h.stderrBytes

theorem runs_modifyRun {r r' : ℕ} {f : ActiveRun → ActiveRun}
    (hf : r = r' → QuietRun (w.runs.get r) (f (w.runs.get r)) ∧
      (f (w.runs.get r)).phase = (w.runs.get r).phase) :
    QuietRun (w.runs.get r) ((w.modifyRun r' f).runs.get r) ∧
      ((w.modifyRun r' f).runs.get r).phase = (w.runs.get r).phase := by
  dsimp only [modifyRun]
  by_cases hr : r = r'
  · rw [← hr, get_modify_self]
    exact hf hr
  · rw [get_modify_ne _ _ hr]
    exact ⟨.refl _, rfl⟩

theorem runs_onStdin (hf : ∀ s t, f s = .ok t → t.error = s.error) (h : w.stdinAbort id f = none)
    (r : ℕ) :
    QuietRun (w.runs.get r) ((w.onStdin id f).runs.get r) ∧
      ((w.onStdin id f).runs.get r).phase = (w.runs.get r).phase := by
  cases hr : w.activeRunWith? id with
  | none =>
    simp only [onStdin, hr, answerUnknown]
    split_ifs <;> exact ⟨.refl _, rfl⟩
  | some r' =>
    cases hstdin : f (w.runs.get r').stdin with
    | error error =>
      -- an error aborts the run
      simp [stdinAbort, hr, hstdin] at h
    | ok =>
      simp only [onStdin, hr, hstdin]
      refine runs_modifyRun ?_
      rintro rfl
      exact ⟨⟨⟨rfl, rfl, hf _ _ hstdin⟩, fun _ stream => by cases stream <;> rfl⟩, rfl⟩

theorem runs_writeRun (r' r : ℕ) (stream : OutputStream) (bytes : Bytes) (w : CommandWorker) :
    QuietRun (w.runs.get r) ((w.writeRun r' stream bytes).runs.get r) ∧
      ((w.writeRun r' stream bytes).runs.get r).phase = (w.runs.get r).phase := by
  unfold writeRun
  split_ifs with haborted
  · exact ⟨.refl _, rfl⟩
  · refine runs_modifyRun (w := w) ?_
    rintro rfl
    refine ⟨⟨?_, fun h => absurd h haborted⟩, ?_⟩
    · cases stream <;> exact ⟨rfl, rfl, rfl⟩
    · cases stream <;> rfl

theorem runs_write (r : ℕ) (writer : Starter) (stream : OutputStream) (chunk : ChunkValue)
    (w : CommandWorker) : QuietRun (w.runs.get r) ((w.write writer stream chunk).runs.get r) ∧
      ((w.write writer stream chunk).runs.get r).phase = (w.runs.get r).phase := by
  unfold write
  split
  · exact ⟨.refl _, rfl⟩
  next bytes _ =>
    cases writer with
    | run r' => exact runs_writeRun r' r stream bytes w
    | child c =>
      obtain ⟨children, heq | ⟨-, heq⟩⟩ := writeChain_cases (w.children.get c).run stream bytes
        (c :: (w.children.get c).above) w
      · dsimp only
        rw [heq]
        exact ⟨.refl _, rfl⟩
      · dsimp only
        rw [heq]
        exact runs_writeRun _ r stream bytes { w with children }

/-- A run behind an event that aborts no run: it is over only when it goes on. -/
def RunStays (w : CommandWorker) (e : CommandEvent) (r : ℕ) (w' : CommandWorker) : Prop :=
  QuietRun (w.runs.get r) (w'.runs.get r) ∧
    (e ≠ .resume (.run r) → ((w'.runs.get r).phase.IsOver ↔ (w.runs.get r).phase.IsOver))

/-- What an event that aborts no run does to a run. -/
theorem run_of_quiet (h : w.abortOf e = none) (hr : r < w.runs.next) :
    w.RunStays e r (w.step e) := by
  have hsame {w' : CommandWorker} (hruns : w'.runs = w.runs) : w.RunStays e r w' := by
    unfold RunStays
    rw [hruns]
    exact ⟨.refl _, fun _ => Iff.rfl⟩
  have hphase {w' : CommandWorker} (hquiet : QuietRun (w.runs.get r) (w'.runs.get r) ∧
      (w'.runs.get r).phase = (w.runs.get r).phase) : w.RunStays e r w' :=
    ⟨hquiet.1, fun _ => by rw [hquiet.2]⟩
  have hguard {p : Prop} [Decidable p] {w' : CommandWorker} (h : w.RunStays e r w') :
      w.RunStays e r (if p then w' else w) := by
    split_ifs
    · exact h
    · exact hsame rfl
  cases e with
  | run message =>
    show w.RunStays _ r (w.runCommand message)
    unfold runCommand
    split
    · exact hsame rfl
    · split
      · exact hsame rfl
      · refine hphase ?_
        rw [get_alloc_of_lt _ _ hr]
        exact ⟨.refl _, rfl⟩
  | stdin id message =>
    refine hphase (runs_onStdin (fun s t hst => ?_) h r)
    obtain ⟨bytes, -, hpush⟩ : ∃ bytes, stdinChunkFromMessage message = .ok bytes ∧
        s.push .stdinAlreadyClosed bytes = .ok t := by
      unfold pushStdin at hst
      cases hchunk : stdinChunkFromMessage message with
      | error => rw [hchunk] at hst; cases hst
      | ok bytes => exact ⟨bytes, rfl, by rw [hchunk] at hst; exact hst⟩
    exact ByteStream.error_of_push hpush
  | stdinEnd => exact hphase (runs_onStdin (fun _ _ => ByteStream.error_of_finish) h r)
  | stdinError id fields =>
    have hnone : w.stdinAbort id (fun _ => .error (errorFromStdinMessage fields)) = none := h
    exact hphase (runs_onStdin (by rintro _ _ ⟨⟩) hnone r)
  | resize id message =>
    refine hphase ?_
    show QuietRun _ ((w.handleTerminalResize id message).runs.get r) ∧
      ((w.handleTerminalResize id message).runs.get r).phase = _
    unfold handleTerminalResize
    split
    · unfold answerUnknown
      split_ifs <;> exact ⟨.refl _, rfl⟩
    next r' _ =>
      split
      · refine runs_modifyRun ?_
        rintro rfl
        exact ⟨⟨⟨rfl, rfl, rfl⟩, fun _ stream => by cases stream <;> rfl⟩, rfl⟩
      · exact ⟨.refl _, rfl⟩
  | cancel id =>
    have hnone : w.activeRunWith? id = none := by
      simpa [abortOf] using h
    refine hsame ?_
    simp only [step, cancel, hnone]
  | expire timer =>
    cases timer with
    | run r' =>
      refine hsame ?_
      have hnot : ¬ (r' < w.runs.next ∧ (w.runs.get r').timer = true) := by
        simpa [abortOf] using h
      show (if r' < w.runs.next then w.expire r' else w).runs = _
      split_ifs with hknown
      · unfold expire
        rw [if_neg fun htimer => hnot ⟨hknown, htimer⟩]
      · rfl
    | child c => exact hguard (hsame (runs_expireChild c w).1)
  | answer waiter a =>
    refine hguard ?_
    cases waiter with
    | child => exact hsame rfl
    | run r' =>
      dsimp only [RunStays, answer]
      by_cases hrr : r = r'
      · subst hrr
        rw [get_modify_self]
        exact ⟨⟨⟨rfl, rfl, rfl⟩, fun _ stream => by cases stream <;> rfl⟩,
          fun _ => isOver_answer _ _ _⟩
      · rw [get_modify_ne _ _ hrr]
        exact ⟨.refl _, fun _ => Iff.rfl⟩
  | resume command =>
    cases command with
    | child c => exact hguard (hsame (runs_resumeChild c w).1)
    | run r' =>
      refine hguard ?_
      by_cases hrr : r = r'
      · subst hrr
        exact ⟨(stepAt_resumeRun r w).sameRun.quiet, fun hne => absurd rfl hne⟩
      · obtain ⟨f, _, hf, -⟩ := stepAt_resumeRun r' w
        unfold RunStays
        rw [hf, get_modify_ne _ _ hrr]
        exact ⟨.refl _, fun _ => Iff.rfl⟩
  | write writer stream chunk =>
    exact hguard (hphase (runs_write r writer stream chunk w))
  | startChild starter fields => exact hguard (hsame (runs_startChild starter fields w).1)
  | edit => exact hguard (hsame rfl)

/-! ### What a step does to a child command -/

/-- What a child command has taken as output is the same. -/
structure SameOutput (child child' : ChildCommand) : Prop where
  stdoutBytes : child'.stdoutBytes = child.stdoutBytes
  stderrBytes : child'.stderrBytes = child.stderrBytes
  stdoutChunks : child'.stdoutChunks = child.stdoutChunks
  stderrChunks : child'.stderrChunks = child.stderrChunks

theorem SameOutput.refl (child : ChildCommand) : SameOutput child child := ⟨rfl, rfl, rfl, rfl⟩

theorem SameOutput.trans (h : SameOutput child child') (h' : SameOutput child' child'') :
    SameOutput child child'' :=
  ⟨h'.stdoutBytes.trans h.stdoutBytes, h'.stderrBytes.trans h.stderrBytes,
    h'.stdoutChunks.trans h.stdoutChunks, h'.stderrChunks.trans h.stderrChunks⟩

/-- A child command behind a step: it stays in its place, stops listening to its run at its end
only, takes no output once it is aborted, and does not go on to an import then. -/
structure KeptChild (child child' : ChildCommand) : Prop where
  run : child'.run = child.run
  above : child'.above = child.above
  linked : child'.linked = child.linked ∨ child'.phase.IsOver
  ended : child.phase.IsOver → child'.phase.IsOver
  output : child.aborted.isSome = true → SameOutput child child'
  importing : child'.phase.IsImporting → child.phase.IsImporting ∨ child.aborted = none

theorem KeptChild.refl (child : ChildCommand) : KeptChild child child :=
  ⟨rfl, rfl, .inl rfl, id, fun _ => .refl child, .inl⟩

/-- A child command that has only taken output. -/
structure Took (child child' : ChildCommand) : Prop where
  run : child'.run = child.run
  above : child'.above = child.above
  linked : child'.linked = child.linked
  aborted : child'.aborted = child.aborted
  phase : child'.phase = child.phase
  output : child.aborted.isSome = true → SameOutput child child'

theorem Took.refl (child : ChildCommand) : Took child child :=
  ⟨rfl, rfl, rfl, rfl, rfl, fun _ => .refl child⟩

theorem Took.trans (h : Took child child') (h' : Took child' child'') :
    Took child child'' where
  run := h'.run.trans h.run
  above := h'.above.trans h.above
  linked := h'.linked.trans h.linked
  aborted := h'.aborted.trans h.aborted
  phase := h'.phase.trans h.phase
  output haborted := (h.output haborted).trans (h'.output (by rw [h.aborted]; exact haborted))

theorem Took.kept (h : Took child child') :
    KeptChild child child' where
  run := h.run
  above := h.above
  linked := .inl h.linked
  ended hover := by rwa [h.phase]
  output := h.output
  importing himporting := .inl (by rwa [h.phase] at himporting)

theorem took_takeOutput (h : child.aborted.isSome = false) (stream : OutputStream) (bytes : Bytes) :
    Took child (takeOutput stream bytes child) := by
  cases stream <;>
    exact ⟨rfl, rfl, rfl, rfl, rfl, fun haborted => absurd haborted (by simp [h])⟩

theorem children_writeRun (r : ℕ) (stream : OutputStream) (bytes : Bytes) (w : CommandWorker) :
    (w.writeRun r stream bytes).children = w.children := by
  unfold writeRun
  split_ifs <;> rfl

theorem took_writeChain (r : ℕ) (stream : OutputStream) (bytes : Bytes) (chain : List ℕ)
    (w : CommandWorker) (c : ℕ) :
    Took (w.children.get c) ((w.writeChain r stream bytes chain).children.get c) := by
  induction chain generalizing w with
  | nil =>
    show Took _ ((w.writeRun r stream bytes).children.get c)
    rw [children_writeRun]
    exact .refl _
  | cons d above ih =>
    have hmodify (haborted : ¬ (w.children.get d).aborted.isSome = true) :
        Took (w.children.get c)
          ((w.modifyChild d (takeOutput stream bytes)).children.get c) := by
      show Took _ ((w.children.modify d _).get c)
      by_cases hcd : c = d
      · subst hcd
        rw [get_modify_self]
        exact took_takeOutput (by simpa using haborted) stream bytes
      · rw [get_modify_ne _ _ hcd]
        exact .refl _
    unfold writeChain
    split_ifs with haborted hmode
    · exact .refl _
    · exact (hmodify haborted).trans (ih _)
    · exact hmodify haborted

theorem took_write (writer : Starter) (stream : OutputStream) (chunk : ChunkValue)
    (w : CommandWorker) (c : ℕ) :
    Took (w.children.get c) ((w.write writer stream chunk).children.get c) := by
  unfold write
  split
  · exact .refl _
  · cases writer with
    | run =>
      rw [children_writeRun]
      exact .refl _
    | child => exact took_writeChain _ _ _ _ w c

theorem kept_endChild (child : ChildCommand) :
    KeptChild child { child with linked := false, timer := false, phase := .ended } :=
  ⟨rfl, rfl, .inr trivial, fun _ => trivial, fun _ => ⟨rfl, rfl, rfl, rfl⟩, False.elim⟩

/-- A child command that goes on to its next wait. -/
theorem kept_phase (hlive : ¬ child.phase.IsOver) {phase : CommandPhase}
    (h : phase.IsImporting → child.aborted = none) :
    KeptChild child { child with phase := phase } :=
  ⟨rfl, rfl, .inl rfl, fun hover => absurd hover hlive, fun _ => ⟨rfl, rfl, rfl, rfl⟩,
    fun himporting => .inr (h himporting)⟩

theorem kept_modifyChild {c d : ℕ} {f : ChildCommand → ChildCommand}
    (hf : KeptChild (w.children.get d) (f (w.children.get d)) ∧
      (f (w.children.get d)).aborted = (w.children.get d).aborted) :
    KeptChild (w.children.get c) ((w.modifyChild d f).children.get c) ∧
      ((w.modifyChild d f).children.get c).aborted = (w.children.get c).aborted := by
  dsimp only [modifyChild]
  by_cases hcd : c = d
  · subst hcd
    rwa [get_modify_self]
  · rw [get_modify_ne _ _ hcd]
    exact ⟨.refl _, rfl⟩

theorem kept_resumeChild (w : CommandWorker) (d c : ℕ) :
    KeptChild (w.children.get c) ((w.resumeChild d).children.get c) ∧
      ((w.resumeChild d).children.get c).aborted = (w.children.get c).aborted := by
  -- every branch changes the child `d` or nothing
  have hend : KeptChild (w.children.get c) ((w.endChild d).children.get c) ∧
      ((w.endChild d).children.get c).aborted = (w.children.get c).aborted :=
    kept_modifyChild ⟨kept_endChild _, rfl⟩
  have hphase (hlive : ¬ (w.children.get d).phase.IsOver) (phase : CommandPhase)
      (h : phase.IsImporting → (w.children.get d).aborted = none) :
      KeptChild (w.children.get c)
          ((w.modifyChild d fun child => { child with phase := phase }).children.get c) ∧
        ((w.modifyChild d fun child => { child with phase := phase }).children.get c).aborted =
          (w.children.get c).aborted :=
    kept_modifyChild ⟨kept_phase hlive h, rfl⟩
  have hsame : KeptChild (w.children.get c) (w.children.get c) ∧
      (w.children.get c).aborted = (w.children.get c).aborted := ⟨.refl _, rfl⟩
  unfold resumeChild
  dsimp only
  split
  · exact hsame
  next outcome hp =>
    have hlive : ¬ (w.children.get d).phase.IsOver := by rw [hp]; exact id
    split_ifs
    · exact hend
    · split
      · exact hsame
      · exact hend
      · refine hphase hlive _ fun himporting => ?_
        split_ifs at himporting
        · exact himporting.elim
        · exact himporting.elim
  next resolution outcome hp =>
    have hlive : ¬ (w.children.get d).phase.IsOver := by rw [hp]; exact id
    split
    · exact hsame
    · exact hend
    · exact hphase hlive _ False.elim
  next resolution snapshot outcome hp =>
    have hlive : ¬ (w.children.get d).phase.IsOver := by rw [hp]; exact id
    split_ifs with haborted
    · exact hend
    · split
      · exact hsame
      · exact hend
      · split_ifs
        · exact hphase hlive _ fun _ => by simpa using haborted
        · exact hend
  next snapshot result outcome hp =>
    split
    · exact hsame
    · exact hend

theorem isImporting_answer (phase : CommandPhase) (a : CommandPhase.Answer) :
    (phase.answer store a).1.IsImporting ↔ phase.IsImporting := by
  unfold CommandPhase.answer
  split <;> exact Iff.rfl

theorem children_onStdin (h : w.stdinAbort id f = none) :
    (w.onStdin id f).children = w.children := by
  cases hr : w.activeRunWith? id with
  | none =>
    simp only [onStdin, hr, answerUnknown]
    split_ifs <;> rfl
  | some r =>
    cases hstdin : f (w.runs.get r).stdin with
    | error => simp [stdinAbort, hr, hstdin] at h
    | ok => simp only [onStdin, hr, hstdin, modifyRun]

/-- The timer of a child command that expires. -/
def Expires (w : CommandWorker) (e : CommandEvent) (c : ℕ) : Prop :=
  e = .expire (.child c) ∧ (w.children.get c).timer = true

/-- A child command behind an event that aborts no run: only its own timer aborts it. -/
def ChildStays (w : CommandWorker) (e : CommandEvent) (c : ℕ) (w' : CommandWorker) : Prop :=
  KeptChild (w.children.get c) (w'.children.get c) ∧
    ((w'.children.get c).aborted = (w.children.get c).aborted ∨ w.Expires e c ∧
      (w'.children.get c).aborted = some ((w.children.get c).aborted.getD .timeoutError))

/-- What an event that aborts no run does to a child command. -/
theorem child_of_quiet (h : w.abortOf e = none) (hc : c < w.children.next) :
    w.ChildStays e c (w.step e) := by
  have hsame {w' : CommandWorker} (hchildren : w'.children = w.children) : w.ChildStays e c w' := by
    unfold ChildStays
    rw [hchildren]
    exact ⟨.refl _, .inl rfl⟩
  have hguard {p : Prop} [Decidable p] {w' : CommandWorker} (h : w.ChildStays e c w') :
      w.ChildStays e c (if p then w' else w) := by
    split_ifs
    · exact h
    · exact hsame rfl
  cases e with
  | run message =>
    refine hsame ?_
    show (w.runCommand message).children = _
    unfold runCommand
    split
    · rfl
    · split <;> rfl
  | stdin | stdinEnd => exact hsame (children_onStdin h)
  | stdinError id fields =>
    exact hsame (children_onStdin (f := fun _ => .error (errorFromStdinMessage fields)) h)
  | resize id message =>
    refine hsame ?_
    show (w.handleTerminalResize id message).children = _
    unfold handleTerminalResize
    split
    · unfold answerUnknown
      split_ifs <;> rfl
    · split <;> rfl
  | cancel id =>
    have hnone : w.activeRunWith? id = none := by
      simpa [abortOf] using h
    refine hsame ?_
    simp only [step, cancel, hnone]
  | expire timer =>
    cases timer with
    | run r =>
      have hnot : ¬ (r < w.runs.next ∧ (w.runs.get r).timer = true) := by
        simpa [abortOf] using h
      refine hsame ?_
      show (if r < w.runs.next then w.expire r else w).children = _
      split_ifs with hknown
      · unfold expire
        rw [if_neg fun htimer => hnot ⟨hknown, htimer⟩]
      · rfl
    | child d =>
      refine hguard ?_
      refine iteInduction (motive := w.ChildStays _ c) (fun htimer => ?_) fun _ => hsame rfl
      dsimp only [ChildStays, modifyChild]
      by_cases hcd : c = d
      · subst hcd
        rw [get_modify_self]
        exact ⟨⟨rfl, rfl, .inl rfl, id, fun _ => ⟨rfl, rfl, rfl, rfl⟩, .inl⟩,
          .inr ⟨⟨rfl, htimer⟩, rfl⟩⟩
      · rw [get_modify_ne _ _ hcd]
        exact ⟨.refl _, .inl rfl⟩
  | answer waiter a =>
    refine hguard ?_
    cases waiter with
    | run => exact hsame rfl
    | child d =>
      refine (kept_modifyChild (w := w) ⟨?_, rfl⟩).imp_right .inl
      exact ⟨rfl, rfl, .inl rfl, (isOver_answer _ _ _).2, fun _ => ⟨rfl, rfl, rfl, rfl⟩,
        fun himporting => .inl ((isImporting_answer _ _ _).1 himporting)⟩
  | resume command =>
    cases command with
    | run r =>
      obtain ⟨_, _, _, _, _, _, hchildren, -⟩ := stepAt_resumeRun r w
      exact hguard (hsame hchildren)
    | child d =>
      have hkept := kept_resumeChild w d c
      exact hguard ⟨hkept.1, .inl hkept.2⟩
  | write writer stream chunk =>
    have htook := took_write writer stream chunk w c
    exact hguard ⟨htook.kept, .inl htook.aborted⟩
  | startChild =>
    refine hguard ?_
    unfold startChild
    split
    · exact hsame rfl
    · have hget (child : ChildCommand) : (w.children.alloc child).get c = w.children.get c :=
        get_alloc_of_lt _ _ hc
      dsimp only [ChildStays]
      rw [hget]
      exact ⟨.refl _, .inl rfl⟩
  | edit => exact hguard (hsame rfl)

/-- What an abort of a run does to a child command. -/
theorem child_of_abort (h : w.abortOf e = some (r, error)) (c : ℕ) :
    KeptChild (w.children.get c) ((w.step e).children.get c) ∧
      ((w.step e).children.get c).aborted =
        if (w.runs.get r).aborted = none ∧ (w.children.get c).run = r ∧ (w.children.get c).linked ∧
          (w.children.get c).aborted = none then some error else (w.children.get c).aborted := by
  obtain ⟨f, hstep, hf, -⟩ := step_of_abort h
  have hchildren : (w.step e).children = if (w.runs.get r).aborted = none then
      w.children.map (abortLinked r error) else w.children := by
    rw [hstep]
    show (if ((w.runs.modify r f).get r).aborted = none then _ else _) = _
    rw [get_modify_self, hf]
    rfl
  rw [hchildren]
  by_cases hnone : (w.runs.get r).aborted = none
  · rw [if_pos hnone, get_map]
    unfold abortLinked
    simp only [hnone, true_and]
    split_ifs with hlinked
    · exact ⟨⟨rfl, rfl, .inl rfl, id, fun _ => ⟨rfl, rfl, rfl, rfl⟩, .inl⟩, rfl⟩
    · exact ⟨.refl _, rfl⟩
  · rw [if_neg hnone, if_neg fun hall => hnone hall.1]
    exact ⟨.refl _, rfl⟩

/-- What an abort does to a run. -/
theorem run_of_abort (h : w.abortOf e = some (r, error)) :
    AbortedRun error (w.runs.get r) ((w.step e).runs.get r) ∧
      ∀ j ≠ r, (w.step e).runs.get j = w.runs.get j := by
  obtain ⟨f, hstep, -, haborted⟩ := step_of_abort h
  have hruns : (w.step e).runs = (w.runs.modify r f).modify r (ActiveRun.abort error) := by
    rw [hstep]
    rfl
  rw [hruns, modify_modify]
  refine ⟨?_, fun j hj => get_modify_ne _ _ hj⟩
  rw [get_modify_self]
  exact haborted

/-! ### What is new behind a step -/

/-- The store, the active run and the numbers of the commands stay. -/
structure Framed (w w' : CommandWorker) : Prop where
  store : w'.store = w.store
  activeRun : w'.activeRun = w.activeRun
  runs : w'.runs.next = w.runs.next
  children : w'.children.next = w.children.next

theorem Framed.refl (w : CommandWorker) : Framed w w := ⟨rfl, rfl, rfl, rfl⟩

theorem framed_writeChain (r : ℕ) (stream : OutputStream) (bytes : Bytes) (chain : List ℕ)
    (w : CommandWorker) : Framed w (w.writeChain r stream bytes chain) := by
  induction chain generalizing w with
  | nil =>
    unfold writeChain writeRun
    split_ifs <;> exact ⟨rfl, rfl, rfl, rfl⟩
  | cons c above ih =>
    unfold writeChain
    split_ifs
    · exact ⟨rfl, rfl, rfl, rfl⟩
    · obtain ⟨hstore, hactive, hruns, hchildren⟩ := ih (w.modifyChild c _)
      exact ⟨hstore, hactive, hruns, hchildren⟩
    · exact ⟨rfl, rfl, rfl, rfl⟩

theorem framed_abortRun (r : ℕ) (error : CommandError) (w : CommandWorker) :
    Framed w (w.abortRun r error) := by
  unfold abortRun
  split_ifs <;> exact ⟨rfl, rfl, rfl, rfl⟩

theorem framed_answerUnknown (id : Option Text) (error : CommandError) (w : CommandWorker) :
    Framed w (w.answerUnknown id error) := by
  unfold answerUnknown
  split_ifs <;> exact ⟨rfl, rfl, rfl, rfl⟩

theorem framed_onStdin (id : Option Text)
    (f : ByteStream CommandError → Except CommandError (ByteStream CommandError))
    (w : CommandWorker) : Framed w (w.onStdin id f) := by
  unfold onStdin
  split
  · exact framed_answerUnknown _ _ w
  · split
    · exact ⟨rfl, rfl, rfl, rfl⟩
    · obtain ⟨hstore, hactive, hruns, hchildren⟩ := framed_abortRun _ _ (w.modifyRun _ _)
      exact ⟨hstore, hactive, hruns, hchildren⟩

theorem framed_resumeChild (c : ℕ) (w : CommandWorker) : Framed w (w.resumeChild c) := by
  unfold resumeChild
  dsimp only
  repeat' split
  all_goals exact ⟨rfl, rfl, rfl, rfl⟩

/-- A run that is taken up again stays active or comes to its end. -/
theorem resumeRun_end (r : ℕ) (w : CommandWorker) : (w.resumeRun r).activeRun = w.activeRun ∨
    ∃ w' : CommandWorker, w.resumeRun r = w'.endRun r ∧ w'.activeRun = w.activeRun := by
  have hfail (thrown : CommandThrown) (w : CommandWorker) :
      ∃ w' : CommandWorker, w.failRun r thrown = w'.endRun r ∧ w'.activeRun = w.activeRun := by
    unfold failRun
    dsimp only
    split
    · exact ⟨w, rfl, rfl⟩
    · split_ifs
      · exact ⟨_, rfl, rfl⟩
      · exact ⟨_, rfl, rfl⟩
  have hcomplete (result : ExecutorResult) :
      ∃ w' : CommandWorker, w.completeRun r result = w'.endRun r ∧ w'.activeRun = w.activeRun := by
    unfold completeRun
    split
    · exact ⟨_, rfl, rfl⟩
    · exact hfail _ (w.postOutputStreamClose r)
  unfold resumeRun
  dsimp only
  split
  · exact .inl rfl
  · split_ifs
    · exact .inr (hfail _ w)
    · split
      · exact .inl rfl
      · exact .inr (hfail _ w)
      · exact .inl rfl
  · split
    · exact .inl rfl
    · exact .inr (hfail _ w)
    · exact .inl rfl
  · split_ifs
    · exact .inr (hfail _ w)
    · split
      · exact .inl rfl
      · exact .inr (hfail _ w)
      · split_ifs
        · exact .inl rfl
        · exact .inr (hcomplete _)
  · split
    · exact .inl rfl
    · exact .inr (hfail _ w)
    · exact .inr (hcomplete _)

/-- What an event may do besides changing commands in place. -/
theorem step_cases (w : CommandWorker) (e : CommandEvent) :
    Framed w (w.step e) ∨
    (∃ message request, e = .run message ∧ normalizeRunMessage message = .ok request ∧
      w.activeRun = none ∧ w.step e = { w with
        runs := w.runs.alloc (.create request)
        activeRun := some w.runs.next }) ∨
    (∃ starter fields request, e = .startChild starter fields ∧ w.Known starter ∧
      w.step e = { w with children := w.children.alloc (w.newChild starter request) }) ∨
    (((∃ waiter a, e = .answer waiter a) ∨ ∃ editor path content, e = .edit editor path content) ∧
      ∃ store, Framed { w with store } (w.step e)) ∨
    ∃ r, ∃ w' : CommandWorker, e = .resume (.run r) ∧ w.step e = w'.endRun r ∧ Framed w w' := by
  have hguard {p : Prop} [Decidable p] {w' : CommandWorker} (h : Framed w w') :
      Framed w (if p then w' else w) := by
    split_ifs
    · exact h
    · exact .refl w
  cases e with
  | run message =>
    simp only [step, runCommand]
    split
    · exact .inl ⟨rfl, rfl, rfl, rfl⟩
    next request hmessage =>
      split
      · exact .inl ⟨rfl, rfl, rfl, rfl⟩
      next hnone => exact .inr (.inl ⟨message, request, rfl, hmessage, hnone, rfl⟩)
  | stdin id message => exact .inl (framed_onStdin id (pushStdin message) w)
  | stdinEnd id => exact .inl (framed_onStdin id _ w)
  | stdinError id fields => exact .inl (framed_onStdin id (fun _ => .error _) w)
  | resize =>
    left
    simp only [step, handleTerminalResize]
    split
    · exact framed_answerUnknown _ _ w
    · split <;> exact ⟨rfl, rfl, rfl, rfl⟩
  | cancel =>
    left
    simp only [step, cancel]
    split
    · exact .refl w
    · exact framed_abortRun _ _ w
  | expire timer =>
    left
    cases timer with
    | run r =>
      refine hguard ?_
      unfold expire
      split_ifs
      · obtain ⟨hstore, hactive, hruns, hchildren⟩ := framed_abortRun r _ (w.modifyRun r _)
        exact ⟨hstore, hactive, hruns, hchildren⟩
      · exact .refl w
    | child =>
      refine hguard ?_
      unfold expireChild
      split_ifs <;> exact ⟨rfl, rfl, rfl, rfl⟩
  | answer waiter a =>
    refine .inr (.inr (.inr (.inl ⟨.inl ⟨waiter, a, rfl⟩, ?_⟩)))
    show ∃ store, Framed { w with store } (if w.Known waiter then w.answer waiter a else w)
    split_ifs
    · cases waiter <;> exact ⟨_, rfl, rfl, rfl, rfl⟩
    · exact ⟨w.store, .refl w⟩
  | resume command =>
    cases command with
    | run r =>
      by_cases hknown : w.Known (.run r)
      · have hstep : w.step (.resume (.run r)) = w.resumeRun r := if_pos hknown
        rw [hstep]
        obtain ⟨f, _, hf, -, -, -, hchildren, hstore, -⟩ := stepAt_resumeRun r w
        have hruns : (w.resumeRun r).runs.next = w.runs.next := by rw [hf]; rfl
        rcases resumeRun_end r w with hactive | ⟨w', heq, hactive⟩
        · exact .inl ⟨hstore, hactive, hruns, congrArg Heap.next hchildren⟩
        · rw [heq] at hstore hruns hchildren ⊢
          exact .inr (.inr (.inr (.inr ⟨r, w', rfl, rfl, hstore, hactive, hruns,
            congrArg Heap.next hchildren⟩)))
      · have hstep : w.step (.resume (.run r)) = w := if_neg hknown
        rw [hstep]
        exact .inl (.refl w)
    | child c => exact .inl (hguard (framed_resumeChild c w))
  | write writer stream chunk =>
    refine .inl (hguard ?_)
    unfold write
    split
    · exact ⟨rfl, rfl, rfl, rfl⟩
    · cases writer
      · exact framed_writeChain _ _ _ [] w
      · exact framed_writeChain _ _ _ _ w
  | startChild starter fields =>
    by_cases hknown : w.Known starter
    · have hstep : w.step (.startChild starter fields) = w.startChild starter fields :=
        if_pos hknown
      rw [hstep]
      unfold startChild
      split
      · exact .inl ⟨rfl, rfl, rfl, rfl⟩
      next request _ => exact .inr (.inr (.inl ⟨starter, fields, request, rfl, hknown, rfl⟩))
    · have hstep : w.step (.startChild starter fields) = w := if_neg hknown
      rw [hstep]
      exact .inl (.refl w)
  | edit editor path content =>
    refine .inr (.inr (.inr (.inl ⟨.inr ⟨editor, path, content, rfl⟩, ?_⟩)))
    show ∃ store, Framed { w with store } (if w.Known editor then w.edit path content else w)
    split_ifs
    · exact ⟨_, rfl, rfl, rfl, rfl⟩
    · exact ⟨w.store, .refl w⟩

/-- Which child commands an event adds. -/
theorem children_next_step (w : CommandWorker) (e : CommandEvent) :
    (w.step e).children.next = w.children.next ∨ ∃ starter fields request,
      e = .startChild starter fields ∧ w.Known starter ∧
        w.step e = { w with children := w.children.alloc (w.newChild starter request) } := by
  rcases step_cases w e with h | ⟨_, _, -, -, -, hstep⟩ | h | ⟨-, _, h⟩ | ⟨r, w', -, hstep, h⟩
  · exact .inl h.children
  · exact .inl (by rw [hstep])
  · exact .inr h
  · exact .inl h.children
  · exact .inl (by rw [hstep]; exact h.children)

/-- Which runs an event adds. -/
theorem runs_next_step (w : CommandWorker) (e : CommandEvent) :
    (w.step e).runs.next = w.runs.next ∨ ∃ message request,
      e = .run message ∧ w.activeRun = none ∧ w.step e = { w with
        runs := w.runs.alloc (.create request)
        activeRun := some w.runs.next } := by
  rcases step_cases w e with h | ⟨message, request, he, -, hnone, hstep⟩ |
      ⟨_, _, _, -, -, hstep⟩ | ⟨-, _, h⟩ | ⟨r, w', -, hstep, h⟩
  · exact .inl h.runs
  · exact .inr ⟨message, request, he, hnone, hstep⟩
  · exact .inl (by rw [hstep])
  · exact .inl h.runs
  · exact .inl (by rw [hstep]; exact h.runs)

/-! ### Which signals are linked -/

/-- What holds in every state: a child command that has not returned is aborted or listens to a run
that is not. -/
structure Linked (w : CommandWorker) : Prop where
  known : ∀ c < w.children.next, (w.children.get c).run < w.runs.next
  above : ∀ c < w.children.next, ∀ a ∈ (w.children.get c).above,
    a < c ∧ (w.children.get a).run = (w.children.get c).run
  listens : ∀ c < w.children.next, (w.children.get c).phase.IsOver ∨
    (w.children.get c).aborted.isSome = true ∨
      (w.children.get c).linked = true ∧ (w.runs.get (w.children.get c).run).aborted = none
  stdin : ∀ r < w.runs.next, (w.runs.get r).stdin.error = (w.runs.get r).aborted

theorem lineage_known {starter : Starter} (h : w.Known starter) :
    (w.lineage starter).1 < w.runs.next := by
  cases starter with
  | run => exact h
  | child => exact h.2

/-- A child command behind a step, an old one or a new one. -/
theorem child_step (hc : c < (w.step e).children.next) : c < w.children.next ∨ c = w.children.next ∧
      ∃ starter fields request, e = .startChild starter fields ∧ w.Known starter ∧
        (w.step e).runs = w.runs ∧ (w.step e).children.get c = w.newChild starter request ∧
          ∀ d < w.children.next, (w.step e).children.get d = w.children.get d := by
  rcases children_next_step w e with hnext | ⟨starter, fields, request, he, hknown, hstep⟩
  · exact .inl (hnext ▸ hc)
  · by_cases hlt : c < w.children.next
    · exact .inl hlt
    · have hc' : c = w.children.next := by
        rw [hstep] at hc
        have : c < w.children.next + 1 := hc
        omega
      refine .inr ⟨hc', starter, fields, request, he, hknown, ?_⟩
      rw [hstep, hc']
      exact ⟨rfl, get_alloc_next _ _, fun d hd => get_alloc_of_lt _ _ hd⟩

/-- A run behind a step, an old one or a new one. -/
theorem run_step (hr : r < (w.step e).runs.next) : r < w.runs.next ∨
      ∃ request, (w.step e).runs.get r = .create request := by
  rcases runs_next_step w e with hnext | ⟨_, request, -, -, hstep⟩
  · exact .inl (hnext ▸ hr)
  · by_cases hlt : r < w.runs.next
    · exact .inl hlt
    · rw [hstep] at hr ⊢
      have hr' : r = w.runs.next := by
        have : r < w.runs.next + 1 := hr
        omega
      exact .inr ⟨request, by rw [hr', get_alloc_next]⟩

theorem runs_next_le (w : CommandWorker) (e : CommandEvent) :
    w.runs.next ≤ (w.step e).runs.next := by
  rcases runs_next_step w e with hnext | ⟨_, _, -, -, hstep⟩
  · exact hnext.ge
  · rw [hstep]
    exact Nat.le_succ w.runs.next

/-- A run behind a step: aborted by it or not. -/
theorem run_after (e : CommandEvent) (hr : r < w.runs.next) :
    (∃ error, w.abortOf e = some (r, error) ∧
      AbortedRun error (w.runs.get r) ((w.step e).runs.get r)) ∨
    (∀ error, w.abortOf e ≠ some (r, error)) ∧
      QuietRun (w.runs.get r) ((w.step e).runs.get r) ∧
      (e ≠ .resume (.run r) →
        (((w.step e).runs.get r).phase.IsOver ↔ (w.runs.get r).phase.IsOver)) := by
  cases habort : w.abortOf e with
  | none => exact .inr ⟨by rintro error ⟨⟩, run_of_quiet habort hr⟩
  | some aborted =>
    obtain ⟨r', error⟩ := aborted
    obtain ⟨haborted, hothers⟩ := run_of_abort habort
    by_cases hrr : r = r'
    · subst hrr
      exact .inl ⟨error, rfl, haborted⟩
    · rw [hothers r hrr]
      refine .inr ⟨fun error' heq => ?_, .refl _, fun _ => Iff.rfl⟩
      cases heq
      exact hrr rfl

/-- A child command behind a step: aborted with its run, by its timer, or not. -/
theorem child_after (e : CommandEvent) (hc : c < w.children.next) :
    KeptChild (w.children.get c) ((w.step e).children.get c) ∧
      (((w.step e).children.get c).aborted = (w.children.get c).aborted ∨
        (∃ error, w.abortOf e = some ((w.children.get c).run, error) ∧
          (w.children.get c).aborted = none ∧
            ((w.step e).children.get c).aborted = some error) ∨
        w.Expires e c ∧ ((w.step e).children.get c).aborted =
          some ((w.children.get c).aborted.getD .timeoutError)) := by
  cases habort : w.abortOf e with
  | none =>
    obtain ⟨hkept, hsame | hexpires⟩ := child_of_quiet habort hc
    · exact ⟨hkept, .inl hsame⟩
    · exact ⟨hkept, .inr (.inr hexpires)⟩
  | some aborted =>
    obtain ⟨r, error⟩ := aborted
    obtain ⟨hkept, haborted⟩ := child_of_abort habort c
    refine ⟨hkept, ?_⟩
    split_ifs at haborted with hall
    · obtain ⟨-, hrun, -, hnone⟩ := hall
      exact .inr (.inl ⟨error, by rw [hrun], hnone, haborted⟩)
    · exact .inl haborted

/-- Nothing takes the abort of a child command back. -/
theorem child_aborted_step (e : CommandEvent) (hc : c < w.children.next)
    (h : (w.children.get c).aborted = some error) :
    ((w.step e).children.get c).aborted = some error := by
  obtain ⟨-, hsame | ⟨_, -, hnone, -⟩ | ⟨-, hsome⟩⟩ := child_after e hc
  · rw [hsame, h]
  · rw [h] at hnone
    cases hnone
  · rw [hsome, h, Option.getD_some]

theorem Linked.step (h : w.Linked) (e : CommandEvent) : (w.step e).Linked where
  known c hc := by
    rcases child_step hc with hold | ⟨rfl, starter, _, request, -, hknown, hruns, hget, -⟩
    · rw [(child_after e hold).1.run]
      exact Nat.lt_of_lt_of_le (h.known c hold) (runs_next_le w e)
    · rw [hget, hruns]
      exact lineage_known hknown
  above c hc a ha := by
    rcases child_step hc with hold | ⟨rfl, starter, _, request, -, hknown, -, hget, hothers⟩
    · rw [(child_after e hold).1.above] at ha
      obtain ⟨hlt, hrun⟩ := h.above c hold a ha
      refine ⟨hlt, ?_⟩
      rw [(child_after e hold).1.run, (child_after e (hlt.trans hold)).1.run, hrun]
    · rw [hget] at ha ⊢
      cases starter with
      | run => exact absurd ha List.not_mem_nil
      | child b =>
        rcases List.mem_cons.1 ha with rfl | ha
        · exact ⟨hknown.1, by rw [hothers _ hknown.1]; rfl⟩
        · obtain ⟨hlt, hrun⟩ := h.above b hknown.1 a ha
          refine ⟨hlt.trans hknown.1, ?_⟩
          rw [hothers a (hlt.trans hknown.1), hrun]
          rfl
  listens c hc := by
    rcases child_step hc with hold | ⟨rfl, starter, _, request, -, -, hruns, hget, -⟩
    · obtain ⟨hkept, -⟩ := child_after e hold
      rcases h.listens c hold with hover | haborted | ⟨hlinked, hnone⟩
      · exact .inl (hkept.ended hover)
      · obtain ⟨error, herror⟩ := Option.isSome_iff_exists.1 haborted
        exact .inr (.inl (by rw [child_aborted_step e hold herror]; rfl))
      · rcases run_after e (h.known c hold) with ⟨error, habort, -⟩ | ⟨-, hquiet, -⟩
        · -- the signal of the run reaches the child, if it is not aborted yet
          right; left
          have haborted := (child_of_abort habort c).2
          by_cases hc0 : (w.children.get c).aborted = none
          · rw [haborted, if_pos ⟨hnone, rfl, hlinked, hc0⟩]
            rfl
          · rw [haborted, if_neg fun hall => hc0 hall.2.2.2]
            exact Option.isSome_iff_ne_none.2 hc0
        · rcases hkept.linked with hsame | hover
          · right; right
            rw [hsame, hkept.run, hquiet.aborted]
            exact ⟨hlinked, hnone⟩
          · exact .inl hover
    · right
      rw [hget, hruns]
      show (w.runs.get _).aborted.isSome = true ∨ (w.runs.get _).aborted.isNone = true ∧ _
      cases hreason : (w.runs.get (w.lineage starter).1).aborted with
      | some => exact .inl rfl
      | none => exact .inr ⟨rfl, hreason⟩
  stdin r hr := by
    rcases run_step hr with hold | ⟨request, hget⟩
    · rcases run_after e hold with ⟨error, -, haborted⟩ | ⟨-, hquiet, -⟩
      · rw [haborted.stdin, haborted.aborted, h.stdin r hold]
      · rw [hquiet.stdin, hquiet.aborted, h.stdin r hold]
    · rw [hget]
      rfl

theorem linked_start : (start store).Linked where
  known c hc := absurd hc (Nat.not_lt_zero c)
  above c hc := absurd hc (Nat.not_lt_zero c)
  listens c hc := absurd hc (Nat.not_lt_zero c)
  stdin r hr := absurd hr (Nat.not_lt_zero r)

/-! ### Calm steps -/

theorem Settled.step (h : w.Settled) (hl : w.Linked) (hcalm : w.Calm e) : (w.step e).Settled where
  first r hr error herror := by
    refine ⟨((hl.step e).stdin r hr).trans herror, ?_⟩
    rcases run_step hr with hold | ⟨request, hget⟩
    · rcases run_after e hold with ⟨error', habort, haborted⟩ | ⟨-, hquiet, -⟩
      · rw [haborted.aborted] at herror
        rw [haborted.abortError, ← herror]
        -- a second abort has the error of the first
        rcases hcalm.1 r error' habort with hnone | hsame
        · rw [hnone]
          rfl
        · rw [hsame]
          rfl
      · rw [hquiet.abortError]
        rw [hquiet.aborted] at herror
        exact (h.first r hold error herror).2
    · rw [hget] at herror
      cases herror
  belowRun c hc haborted hlive := by
    rcases (hl.step e).listens c hc with hover | hsome | ⟨-, hnone⟩
    · exact absurd hover hlive
    · exact hsome
    · rw [hnone] at haborted
      cases haborted
  belowChild c hc a ha haborted hlive := by
    rcases child_step hc with hold |
      ⟨rfl, starter, fields, request, he, hknown, hruns, hget, hothers⟩
    · obtain ⟨hkept, -⟩ := child_after e hold
      rw [hkept.above] at ha
      have hlive' : ¬ (w.children.get c).phase.IsOver := fun hover => hlive (hkept.ended hover)
      obtain ⟨hlt, hrun⟩ := hl.above c hold a ha
      have hc' (hsome : (w.children.get c).aborted.isSome = true) :
          ((w.step e).children.get c).aborted.isSome = true := by
        obtain ⟨error, herror⟩ := Option.isSome_iff_exists.1 hsome
        rw [child_aborted_step e hold herror]
        rfl
      by_cases hbefore : (w.children.get a).aborted.isSome = true
      · exact hc' (h.belowChild c hold a ha hbefore hlive')
      obtain ⟨-, hsame | ⟨error, habort, -, -⟩ | ⟨⟨he, htimer⟩, -⟩⟩ :=
        child_after e (hlt.trans hold)
      · rw [hsame] at haborted
        exact absurd haborted hbefore
      · -- the run is aborted, and with it whatever listens to it
        refine (hl.step e).listens c hc |>.resolve_left hlive |>.resolve_right ?_
        rintro ⟨-, hnone⟩
        rw [hrun] at habort
        rw [hkept.run, (run_of_abort habort).1.aborted] at hnone
        cases hnone
      · subst he
        have hnone : (w.children.get a).aborted = none := by simpa using hbefore
        exact hc' ((hcalm.2 htimer hnone c hold ha).resolve_left hlive')
    · subst he
      rw [hget] at ha ⊢
      cases starter with
      | run => exact absurd ha List.not_mem_nil
      | child b =>
        rcases hcalm.2 with hsome | hnone
        · exact hsome
        · have halt : a < w.children.next := by
            rcases List.mem_cons.1 ha with rfl | ha
            · exact hknown.1
            · exact (hl.above b hknown.1 a ha).1.trans hknown.1
          rw [hothers a halt, hnone a ha] at haborted
          cases haborted

/-- What an aborted run posts at its end. -/
theorem failRun_of_aborted {reason : CommandError} (haborted : (w.runs.get r).aborted = some reason)
    (herror : (w.runs.get r).abortError = some error) (thrown : CommandThrown) :
    (w.failRun r thrown).posts = w.posts ++ (w.runs.get r).closePosts ++
      [.error (some (w.runs.get r).id) error (w.runs.get r).stdoutBytes
        (w.runs.get r).stderrBytes] := by
  have hnormalize : (w.runs.get r).normalizeRunError thrown = some error := by
    simp only [ActiveRun.normalizeRunError, haborted, herror]
  unfold failRun
  simp only [hnormalize]
  rw [if_neg (by simp [herror])]
  rfl

theorem posts_resumeRun
    (haborted : (w.runs.get r).aborted = some error)
    (herror : (w.runs.get r).abortError = some error)
    (hcalm : ∀ snapshot result, (w.runs.get r).phase = .importing snapshot result (some (.ok ())) →
      (w.runs.get r).aborted = none)
    (hlive : ¬ (w.runs.get r).phase.IsOver) (hover : ((w.resumeRun r).runs.get r).phase.IsOver) :
    (w.resumeRun r).posts = w.posts ++ (w.runs.get r).closePosts ++
      [.error (some (w.runs.get r).id) error (w.runs.get r).stdoutBytes
        (w.runs.get r).stderrBytes] := by
  have hsome : (w.runs.get r).aborted.isSome = true := by rw [haborted]; rfl
  have hfail := failRun_of_aborted haborted herror
  cases hphase : (w.runs.get r).phase with
  | ended => exact absurd (by rw [hphase]; trivial) hlive
  | resolving | executing =>
    simp only [resumeRun, hphase, hsome, if_true]
    exact hfail _
  | exporting resolution outcome =>
    simp only [resumeRun, hphase] at hover ⊢
    cases outcome with
    | none => exact absurd hover hlive
    | some outcome =>
      cases outcome with
      | error thrown => exact hfail thrown
      | ok =>
        dsimp only [modifyRun] at hover
        rw [get_modify_self] at hover
        exact hover.elim
  | importing snapshot result outcome =>
    simp only [resumeRun, hphase] at hover ⊢
    cases outcome with
    | none => exact absurd hover hlive
    | some outcome =>
      cases outcome with
      | error thrown => exact hfail thrown
      | ok =>
        have hnone := hcalm snapshot result hphase
        rw [haborted] at hnone
        cases hnone

theorem Settled.respects (h : w.Settled) (hcalm : w.Calm e) : w.Respects e where
  runReason r hr error herror := by
    rcases run_after e hr with ⟨error', -, haborted⟩ | ⟨-, hquiet, -⟩
    · rw [haborted.aborted, herror, Option.getD_some]
    · rw [hquiet.aborted, herror]
  childReason c hc error herror := child_aborted_step e hc herror
  report r hr error herror hlive hover := by
    rcases run_after e hr with ⟨error', -, haborted⟩ | ⟨-, hquiet, hphase⟩
    · rw [haborted.phase] at hover
      exact absurd hover hlive
    · by_cases he : e = .resume (.run r)
      · subst he
        have hstep : w.step (.resume (.run r)) = w.resumeRun r := if_pos hr
        rw [hstep] at hover ⊢
        exact posts_resumeRun herror (h.first r hr error herror).2 hcalm.2 hlive hover
      · exact absurd ((hphase he).1 hover) hlive
  runOutput r hr hsome stream := by
    rcases run_after e hr with ⟨error, -, haborted⟩ | ⟨-, hquiet, -⟩
    · exact haborted.bytes stream
    · exact hquiet.bytes hsome stream
  childOutput c hc hsome := by
    have hsame := (child_after e hc).1.output hsome
    exact ⟨hsame.stdoutBytes, hsame.stderrBytes, hsame.stdoutChunks, hsame.stderrChunks⟩
  noImport c hc habove himporting := by
    obtain ⟨hkept, -⟩ := child_after e hc
    by_cases hlive : (w.children.get c).phase.IsOver
    · -- one that has returned goes on to nothing
      have hover := hkept.ended hlive
      generalize ((w.step e).children.get c).phase = phase at hover himporting
      cases phase <;> first | exact hover.elim | exact himporting.elim
    · refine (hkept.importing himporting).resolve_right fun hnone => ?_
      have hsome : (w.children.get c).aborted.isSome = true := by
        rcases habove with hrun | ⟨a, ha, haborted⟩
        · exact h.belowRun c hc hrun hlive
        · exact h.belowChild c hc a ha haborted hlive
      rw [hnone] at hsome
      cases hsome

theorem settled_start : (start store).Settled where
  first r hr := absurd hr (Nat.not_lt_zero r)
  belowRun c hc := absurd hc (Nat.not_lt_zero c)
  belowChild c hc := absurd hc (Nat.not_lt_zero c)

/-- In a run of calm steps the first abort of every command is the one that counts, it reaches
everything below the command, and nothing below it acts for it any more. -/
theorem firstAbort_of_calm (store : Files) (es : List CommandEvent)
    (h : Along step Calm (start store) es) :
    Always step Settled (start store) es ∧ Along step Respects (start store) es := by
  have hboth : Always step (fun w => w.Settled ∧ w.Linked) (start store) es :=
    Always.of_along (fun w e hw hcalm => ⟨hw.1.step hw.2 hcalm, hw.2.step e⟩)
      ⟨settled_start store, linked_start store⟩ h
  refine ⟨hboth.mono fun _ hw => hw.1, ?_⟩
  have hcalm : Along step (fun w e => (w.Settled ∧ w.Linked) ∧ w.Calm e) (start store) es :=
    (hboth.along fun _ _ hw => hw).and h
  exact hcalm.mono fun _ _ hw => hw.1.1.respects hw.2

/-! ### Two runs -/

/-- A child command with nothing but its name and a time limit. -/
def plainChild (timeoutMs : Option NumberValue) : ChildFields where
  args := .items []
  command := some "cat".toList
  stdin := ⟨none, none, none, none⟩
  stdout := none
  stderr := none
  timeoutMs := timeoutMs
  workspaceSnapshot := none

/-- A run that has started a child command with a time limit, and that one another. -/
def nestedEvents : List CommandEvent :=
  [.run (plainRun "a" "sh"),
    .answer (.run 0) (.resolved (.ok ⟨"default".toList, "sh".toList, .none⟩)), .resume (.run 0),
    .startChild (.run 0) (plainChild (some (.finite 10))), .startChild (.child 0) (plainChild none)]

/-- A run with two child commands that is cancelled. -/
theorem firstAbort_of_calm_cancelled :
    Always step Settled (start fun _ => none)
        (nestedEvents ++ [.cancel (some ['a']), .resume (.child 1), .resume (.run 0)]) ∧
      Along step Respects (start fun _ => none)
        (nestedEvents ++ [.cancel (some ['a']), .resume (.child 1), .resume (.run 0)]) := by
  refine firstAbort_of_calm _ _ ⟨⟨by rintro _ _ ⟨⟩, trivial⟩, ⟨by rintro _ _ ⟨⟩, trivial⟩,
    ⟨by rintro _ _ ⟨⟩, by rintro _ _ ⟨⟩⟩, ⟨by rintro _ _ ⟨⟩, trivial⟩, ⟨by rintro _ _ ⟨⟩, .inr ?_⟩,
    ⟨?_, trivial⟩, ⟨by rintro _ _ ⟨⟩, trivial⟩, ⟨by rintro _ _ ⟨⟩, by rintro _ _ ⟨⟩⟩, trivial⟩
  · intro a ha
    rw [List.mem_singleton.1 ha]
    rfl
  · rintro r error ⟨⟩
    exact .inl rfl

/-- A child command whose time is up while the one it has started goes on. -/
theorem not_firstAbort_timeout :
    ¬ (Always step Settled (start fun _ => none) (nestedEvents ++ [.expire (.child 0)]) ∧
      Along step Respects (start fun _ => none) (nestedEvents ++ [.expire (.child 0)])) := by
  rintro ⟨h, -⟩
  have hsome := h.last.belowChild 1 (by decide) 0 (by decide) rfl (by decide)
  exact absurd hsome (by decide)

end CommandWorker

end WasmHost
