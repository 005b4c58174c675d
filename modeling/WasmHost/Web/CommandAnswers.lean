import WasmHost.Lib.Conversation
import WasmHost.Lib.Run
import WasmHost.Web.CommandWorker

/-!
# One terminal message for each command

In a run of the worker whose steps are orderly, every command with an id of its own is answered by
the close of both of its streams and one terminal message, which counts the bytes that were posted,
and nothing with its id follows. `CommandWorker.Held` carries the induction: as long as a command is
not over its conversation is open and its counters are those of the chunks in it.
-/

namespace WasmHost

open Heap List Conversation CommandWorker

namespace CommandPost

/-- The messages of a command that goes on. -/
def Progress : CommandPost → Prop
  | .started _ _ _ _ _ => True
  | .output _ _ _ => True
  | _ => False

def Final (m : CommandPost) : Prop := ¬ m.Progress

/-- How many bytes of a stream the messages bring. -/
def bytesOf (stream : OutputStream) : List CommandPost → ℕ
  | [] => 0
  | .output _ s chunk :: ms => (if s = stream then chunk.length else 0) + bytesOf stream ms
  | _ :: ms => bytesOf stream ms

/-- A terminal message with these counts. -/
def TerminalWith (stdoutBytes stderrBytes : ℕ) : CommandPost → Prop
  | .complete _ _ out err => out = stdoutBytes ∧ err = stderrBytes
  | .error _ _ out err => out = stdoutBytes ∧ err = stderrBytes
  | _ => False

/-- The conversation of a command has ended as it should. -/
def Answered (id : Text) (ms : List CommandPost) : Prop :=
  ∃ answer, TerminalWith (bytesOf .stdout ms) (bytesOf .stderr ms) answer ∧
    ClosedBy Final [.close id .stdout, .close id .stderr, answer] ms

theorem bytesOf_append (stream : OutputStream) (ms ns : List CommandPost) :
    bytesOf stream (ms ++ ns) = bytesOf stream ms + bytesOf stream ns := by
  induction ms with
  | nil => simp [bytesOf]
  | cons m ms ih =>
    cases m <;> simp only [cons_append, bytesOf, ih]
    omega

end CommandPost

namespace ActiveRun

/-- The bytes of an output. -/
def bytes (run : ActiveRun) : OutputStream → ℕ
  | .stdout => run.stdoutBytes
  | .stderr => run.stderrBytes

/-- The run was aborted, and knows with what error. -/
def Spoken (run : ActiveRun) : Prop := run.aborted.isSome = true ∧ run.abortError.isSome = true

end ActiveRun

/-- The exit code can be made a number, or what that throws can be reported. -/
def ExecutorResult.Reportable (result : ExecutorResult) : Prop :=
  ∀ thrown, result.exitCode = .error thrown → thrown.Reportable

/-- What the phase has been told of can be reported. -/
def CommandPhase.Reportable : CommandPhase → Prop
  | .resolving outcome => ∀ thrown, outcome = some (.error thrown) → thrown.Reportable
  | .exporting _ outcome => ∀ thrown, outcome = some (.error thrown) → thrown.Reportable
  | .executing _ _ outcome => (∀ thrown, outcome = some (.error thrown) → thrown.Reportable) ∧
    ∀ result, outcome = some (.ok result) → result.Reportable
  | .importing _ result outcome => result.Reportable ∧
    ∀ thrown, outcome = some (.error thrown) → thrown.Reportable
  | .ended => True

/-- An answer whose errors can be reported. -/
def CommandPhase.Answer.Reportable : CommandPhase.Answer → Prop
  | .resolved outcome => ∀ thrown, outcome = .error thrown → thrown.Reportable
  | .exported failure => ∀ thrown, failure = some thrown → thrown.Reportable
  | .executed outcome => (∀ thrown, outcome = .error thrown → thrown.Reportable) ∧
    ∀ result, outcome = .ok result → result.Reportable
  | .imported failure => ∀ thrown, failure = some thrown → thrown.Reportable
  | .unsaved thrown => thrown.Reportable

namespace CommandWorker

/-- The messages with an id. -/
def conversation (id : Text) (w : CommandWorker) : List CommandPost :=
  of CommandPost.id (some id) w.posts

/-- The run was accepted, and no other one with its id. -/
def Own (w : CommandWorker) (r : ℕ) : Prop :=
  r < w.runs.next ∧ ∀ j < w.runs.next, (w.runs.get j).id = (w.runs.get r).id → j = r

/-- Every command with an id of its own that is over was answered as it should be, and nothing with
its id has followed; of one that is not over there was nothing but its start and its output. -/
def OneTerminal (w : CommandWorker) : Prop :=
  ∀ r, w.Own r →
    if (w.runs.get r).phase.IsOver then
      CommandPost.Answered (w.runs.get r).id (w.conversation (w.runs.get r).id)
    else Open CommandPost.Final (w.conversation (w.runs.get r).id)

/-! ### Orderly steps -/

/-- The id belongs to no command with an id of its own. -/
def Stray (w : CommandWorker) (id : Option Text) : Prop :=
  ∀ r, w.Own r → some (w.runs.get r).id ≠ id

/-- What a chain of child commands is given goes through to the run. -/
def PassesOn (w : CommandWorker) (stream : OutputStream) (chain : List ℕ) : Prop :=
  ∀ c ∈ chain, (w.children.get c).aborted = none ∧ (w.children.get c).mode stream = .inherit

/-- The run whose writer a write comes to. -/
def Reaches (w : CommandWorker) (stream : OutputStream) (r : ℕ) : Starter → Prop
  | .run r' => r' = r
  | .child c => (w.children.get c).run = r ∧ w.PassesOn stream (c :: (w.children.get c).above)

/-- The steps that give no command a message behind its end or a second terminal message, and none
that leaves it without one. -/
def Orderly (w : CommandWorker) : CommandEvent → Prop
  | .run message =>
    match normalizeRunMessage message, w.activeRun with
    | .error _, _ => w.Stray message.answerId
    | .ok request, some _ => w.Stray (some request.id)
    | .ok request, none =>
      w.conversation request.id = [] ∨ ∃ r < w.runs.next, (w.runs.get r).id = request.id
  | .stdin id _ => w.activeRunWith? id ≠ none ∨ w.Stray id
  | .stdinEnd id => w.activeRunWith? id ≠ none ∨ w.Stray id
  | .stdinError id _ => w.activeRunWith? id ≠ none ∨ w.Stray id
  | .resize id message =>
    w.activeRunWith? id ≠ none ∧ (terminalResizeFromMessage message).isOk = true ∨ w.Stray id
  | .answer (.run r) a => w.Own r → a.Reportable ∨ (w.runs.get r).Spoken
  | .write writer stream chunk =>
    ∀ r, w.Own r → w.Reaches stream r writer →
      ¬ (w.runs.get r).phase.IsOver ∨ (w.runs.get r).aborted.isSome = true ∨
        (toUint8Array chunk).isOk = false
  | _ => True

/-! ### What a run and its conversation have in common -/

/-- A run and its conversation fit together. -/
inductive Held (run : ActiveRun) (ms : List CommandPost) : Prop
  | live (hphase : ¬ run.phase.IsOver) (hopen : Open CommandPost.Final ms)
    (hclosed : run.stdoutClosed = false ∧ run.stderrClosed = false)
    (hbytes : ∀ stream, run.bytes stream = CommandPost.bytesOf stream ms)
    (hreport : run.Spoken ∨ run.phase.Reportable)
  | ended (hphase : run.phase.IsOver) (hms : CommandPost.Answered run.id ms)

def AllHeld (w : CommandWorker) : Prop :=
  ∀ r, w.Own r → Held (w.runs.get r) (w.conversation (w.runs.get r).id)

variable {w w' w'' : CommandWorker} {ms : List CommandPost} {r : ℕ} {run run' : ActiveRun}
    {f : ActiveRun → ActiveRun} (id : Option Text) {phase : CommandPhase} {thrown : CommandThrown}
    {a : CommandPhase.Answer} {stream : OutputStream}

theorem AllHeld.oneTerminal (h : w.AllHeld) : w.OneTerminal := by
  intro r hr
  cases h r hr with
  | live hphase hopen _ _ _ =>
    rw [if_neg hphase]
    exact hopen
  | ended hphase hms =>
    rw [if_pos hphase]
    exact hms

theorem conversation_post_ne {id : Text} (hms : ∀ m ∈ ms, m.id ≠ some id) :
    of CommandPost.id (some id) (w.posts ++ ms) =
      w.conversation id := by
  rw [of_append, of_of_forall_ne _ hms, append_nil]
  rfl

theorem conversation_post_self {id : Text} (hms : ∀ m ∈ ms, m.id = some id) :
    of CommandPost.id (some id) (w.posts ++ ms) =
      w.conversation id ++ ms := by
  rw [of_append, of_of_forall _ hms]
  rfl

/-- The ids of the runs stay as they are. -/
theorem Own.of_sameIds (hnext : w'.runs.next = w.runs.next)
    (hids : ∀ j, (w'.runs.get j).id = (w.runs.get j).id) (h : w'.Own r) : w.Own r := by
  obtain ⟨hr, hown⟩ := h
  rw [hnext] at hr
  refine ⟨hr, fun j hj hid => hown j (hnext ▸ hj) ?_⟩
  rw [hids, hids, hid]

/-- A step changes one run, which keeps its id, and posts messages with that. -/
structure PostsAt (r : ℕ) (ms : List CommandPost) (w w' : CommandWorker) : Prop where
  next : w'.runs.next = w.runs.next
  others : ∀ j ≠ r, w'.runs.get j = w.runs.get j
  id : (w'.runs.get r).id = (w.runs.get r).id
  posts : w'.posts = w.posts ++ ms
  ids : ∀ m ∈ ms, m.id = some (w.runs.get r).id

/-- Such a step goes on with the conversation of the run. -/
structure Speaks (r : ℕ) (ms : List CommandPost) (w w' : CommandWorker) : Prop
    extends PostsAt r ms w w' where
  held : ∀ conversation, Held (w.runs.get r) conversation →
    Held (w'.runs.get r) (conversation ++ ms)

theorem Speaks.refl (r : ℕ) (w : CommandWorker) : Speaks r [] w w where
  next := rfl
  others _ _ := rfl
  id := rfl
  posts := (append_nil _).symm
  ids m hm := absurd hm not_mem_nil
  held conversation h := by rwa [append_nil]

/-- A step at one run keeps all of them held if it keeps that one held. -/
theorem AllHeld.step_at (h : w.AllHeld)
    (hstep : PostsAt r ms w w') (hknown : r < w.runs.next ∨ ms = [])
    (hr : w.Own r → Held (w.runs.get r) (w.conversation (w.runs.get r).id) →
      Held (w'.runs.get r) (w.conversation (w.runs.get r).id ++ ms)) : w'.AllHeld := by
  have hids : ∀ j, (w'.runs.get j).id = (w.runs.get j).id := by
    intro j
    by_cases hj : j = r
    · rw [hj, hstep.id]
    · rw [hstep.others j hj]
  intro j hj
  have hown : w.Own j := hj.of_sameIds hstep.next hids
  rw [hids, conversation, hstep.posts]
  by_cases hjr : j = r
  · subst hjr
    rw [conversation_post_self hstep.ids]
    exact hr hown (h j hown)
  · rw [hstep.others j hjr, conversation_post_ne]
    · exact h j hown
    · -- another run has another id
      intro m hm heq
      rw [hstep.ids m hm, Option.some.injEq] at heq
      rcases hknown with hknown | rfl
      · exact hjr (hown.2 r hknown heq).symm
      · exact not_mem_nil hm

theorem AllHeld.of_speaks (h : w.AllHeld) (hstep : Speaks r ms w w')
    (hknown : r < w.runs.next ∨ ms = []) : w'.AllHeld :=
  h.step_at hstep.toPostsAt hknown fun _ => hstep.held _

/-- Nothing that the conversations depend on has changed. -/
theorem AllHeld.congr (h : w.AllHeld) (hruns : w'.runs = w.runs) (hposts : w'.posts = w.posts) :
    w'.AllHeld := by
  intro r hr
  rw [hruns, conversation, hposts]
  exact h r ⟨hruns ▸ hr.1, fun j hj hid => hr.2 j (hruns ▸ hj) (hruns ▸ hid)⟩

theorem AllHeld.postStray (h : w.AllHeld) {id : Option Text} (hid : w.Stray id)
    (error : CommandError) : (w.postCommandError id error).AllHeld := by
  intro r hr
  show Held _ (of CommandPost.id (some (w.runs.get r).id) (w.posts ++ [_]))
  rw [conversation_post_ne]
  · exact h r hr
  · intro m hm heq
    rw [mem_singleton.1 hm] at heq
    exact hid r hr heq.symm

/-! ### Steps without messages -/

/-- The runs differ in nothing that a conversation shows. -/
structure Alike (run run' : ActiveRun) : Prop where
  id : run'.id = run.id
  phase : run'.phase.IsOver ↔ run.phase.IsOver
  stdoutClosed : run'.stdoutClosed = run.stdoutClosed
  stderrClosed : run'.stderrClosed = run.stderrClosed
  bytes : ∀ stream, run'.bytes stream = run.bytes stream
  report : run.Spoken ∨ run.phase.Reportable → run'.Spoken ∨ run'.phase.Reportable

theorem Alike.trans {run'' : ActiveRun} (h : Alike run run') (h' : Alike run' run'') :
    Alike run run'' where
  id := h'.id.trans h.id
  phase := h'.phase.trans h.phase
  stdoutClosed := h'.stdoutClosed.trans h.stdoutClosed
  stderrClosed := h'.stderrClosed.trans h.stderrClosed
  bytes stream := (h'.bytes stream).trans (h.bytes stream)
  report hrun := h'.report (h.report hrun)

theorem Held.alike (h : Held run ms) (ha : Alike run run') : Held run' ms := by
  cases h with
  | live hphase hopen hclosed hbytes hreport =>
    refine .live (mt ha.phase.1 hphase) hopen ?_ (fun stream => ?_) (ha.report hreport)
    · rw [ha.stdoutClosed, ha.stderrClosed]
      exact hclosed
    · rw [ha.bytes, hbytes]
  | ended hphase hms => exact .ended (ha.phase.2 hphase) (ha.id ▸ hms)

/-- A run is changed in a way that no conversation shows. -/
theorem postsAt_modify (hruns : w'.runs = w.runs.modify r f)
    (hid : (f (w.runs.get r)).id = (w.runs.get r).id) (hposts : w'.posts = w.posts ++ ms)
    (hms : ∀ m ∈ ms, m.id = some (w.runs.get r).id) : PostsAt r ms w w' where
  next := by rw [hruns, next_modify]
  others j hj := by rw [hruns, get_modify_ne _ _ hj]
  id := by rw [hruns, get_modify_self, hid]
  posts := hposts
  ids := hms

theorem AllHeld.alike (h : w.AllHeld) (r : ℕ) (f : ActiveRun → ActiveRun)
    (hruns : w'.runs = w.runs.modify r f) (hposts : w'.posts = w.posts)
    (hid : (f (w.runs.get r)).id = (w.runs.get r).id)
    (ha : w.Own r → Alike (w.runs.get r) (f (w.runs.get r))) : w'.AllHeld := by
  have hstep : PostsAt r [] w w' :=
    postsAt_modify hruns hid (by rw [hposts, append_nil]) (by simp)
  refine h.step_at hstep (.inr rfl) fun hown hheld => ?_
  rw [hruns, get_modify_self, append_nil]
  exact hheld.alike (ha hown)

/-- A step that posts nothing and leaves the runs alike. -/
structure Still (w w' : CommandWorker) : Prop where
  next : w'.runs.next = w.runs.next
  posts : w'.posts = w.posts
  alike : ∀ r, Alike (w.runs.get r) (w'.runs.get r)

theorem Alike.refl (run : ActiveRun) : Alike run run :=
  ⟨rfl, Iff.rfl, rfl, rfl, fun _ => rfl, fun h => h⟩

theorem Still.trans (h : Still w w') (h' : Still w' w'') : Still w w'' :=
  ⟨h'.next.trans h.next, h'.posts.trans h.posts, fun r => (h.alike r).trans (h'.alike r)⟩

theorem still_of_runs (hruns : w'.runs = w.runs) (hposts : w'.posts = w.posts) : Still w w' :=
  ⟨by rw [hruns], hposts, fun r => by rw [hruns]; exact .refl _⟩

theorem Still.refl (w : CommandWorker) : Still w w := still_of_runs rfl rfl

theorem still_modify (hruns : w'.runs = w.runs.modify r f) (hposts : w'.posts = w.posts)
    (ha : Alike (w.runs.get r) (f (w.runs.get r))) : Still w w' where
  next := by rw [hruns, next_modify]
  posts := hposts
  alike j := by
    rw [hruns]
    by_cases hj : j = r
    · subst hj
      rwa [get_modify_self]
    · rw [get_modify_ne _ _ hj]
      exact .refl _

theorem still_modifyRun (ha : Alike (w.runs.get r) (f (w.runs.get r))) :
    Still w (w.modifyRun r f) :=
  still_modify rfl rfl ha

theorem AllHeld.of_still (h : w.AllHeld) (hstill : Still w w') : w'.AllHeld := by
  intro r hr
  have hown : w.Own r := hr.of_sameIds hstill.next fun j => (hstill.alike j).id
  rw [(hstill.alike r).id, conversation, hstill.posts]
  exact (h r hown).alike (hstill.alike r)

theorem alike_abort (error : CommandError) (run : ActiveRun) : Alike run (run.abort error) where
  id := rfl
  phase := Iff.rfl
  stdoutClosed := rfl
  stderrClosed := rfl
  bytes stream := by cases stream <;> rfl
  report _ := .inl ⟨rfl, rfl⟩

theorem alike_stdin (run : ActiveRun) (stdin : ByteStream CommandError) :
    Alike run { run with stdin := stdin } where
  id := rfl
  phase := Iff.rfl
  stdoutClosed := rfl
  stderrClosed := rfl
  bytes stream := by cases stream <;> rfl
  report hrun := hrun

theorem alike_timer (run : ActiveRun) (timer : Bool) : Alike run { run with timer := timer } where
  id := rfl
  phase := Iff.rfl
  stdoutClosed := rfl
  stderrClosed := rfl
  bytes stream := by cases stream <;> rfl
  report hrun := hrun

theorem alike_terminal (run : ActiveRun) (size : TerminalSize) :
    Alike run { run with terminal := size } where
  id := rfl
  phase := Iff.rfl
  stdoutClosed := rfl
  stderrClosed := rfl
  bytes stream := by cases stream <;> rfl
  report hrun := hrun

theorem still_abortRun (r : ℕ) (error : CommandError) (w : CommandWorker) :
    Still w (w.abortRun r error) := still_modify rfl rfl (alike_abort error _)

theorem still_failStdin (r : ℕ) (error : CommandError) (w : CommandWorker) :
    Still w (w.failStdin r error) := by
  have hstdin : Still w (w.modifyRun r fun run => { run with stdin := run.stdin.fail error }) :=
    still_modifyRun (alike_stdin _ _)
  exact hstdin.trans (still_abortRun r error _)

theorem still_expire (r : ℕ) (w : CommandWorker) : Still w (w.expire r) := by
  unfold expire
  split_ifs
  · have htimer : Still w (w.modifyRun r fun run => { run with timer := false }) :=
      still_modifyRun (alike_timer _ _)
    exact htimer.trans (still_abortRun r _ _)
  · exact .refl w

theorem still_cancel (w : CommandWorker) : Still w (w.cancel id) := by
  unfold cancel
  split
  · exact .refl w
  · exact still_abortRun _ _ w

/-- A message about a run that is not there is answered, or does nothing. -/
theorem effect_answerUnknown (error : CommandError) (w : CommandWorker) :
    Still w (w.answerUnknown id error) ∨
      w.answerUnknown id error = w.postCommandError id error := by
  unfold answerUnknown
  split_ifs
  · exact .inl (.refl w)
  · exact .inr rfl

/-- A message about standard input posts nothing if there is a run for it. -/
theorem effect_onStdin (f : ByteStream CommandError → Except CommandError (ByteStream CommandError))
    (w : CommandWorker) : Still w (w.onStdin id f) ∨ w.activeRunWith? id = none ∧
      ∃ error, w.onStdin id f = w.postCommandError id error := by
  cases hr : w.activeRunWith? id with
  | none =>
    simp only [onStdin, hr]
    exact (effect_answerUnknown id _ w).imp_right fun heq => ⟨trivial, _, heq⟩
  | some r =>
    left
    simp only [onStdin, hr]
    split
    · exact still_modifyRun (alike_stdin _ _)
    · exact still_failStdin r _ w

theorem effect_handleTerminalResize (message : TerminalFields) (w : CommandWorker) :
    Still w (w.handleTerminalResize id message) ∨
      (w.activeRunWith? id = none ∨ (terminalResizeFromMessage message).isOk = false) ∧
        ∃ error, w.handleTerminalResize id message = w.postCommandError id error := by
  cases hr : w.activeRunWith? id with
  | none =>
    simp only [handleTerminalResize, hr]
    exact (effect_answerUnknown id _ w).imp_right fun heq => ⟨.inl trivial, _, heq⟩
  | some =>
    simp only [handleTerminalResize, hr]
    cases terminalResizeFromMessage message with
    | ok => exact .inl (still_modifyRun (alike_terminal _ _))
    | error error => exact .inr ⟨.inr rfl, error, rfl⟩

theorem AllHeld.onStdin (h : w.AllHeld) {id : Option Text}
    (hok : w.activeRunWith? id ≠ none ∨ w.Stray id)
    (f : ByteStream CommandError → Except CommandError (ByteStream CommandError)) :
    (w.onStdin id f).AllHeld := by
  rcases effect_onStdin id f w with hstill | ⟨hnone, error, heq⟩
  · exact h.of_still hstill
  · rw [heq]
    exact h.postStray (hok.resolve_left fun hsome => hsome hnone) error

theorem AllHeld.handleTerminalResize (h : w.AllHeld) {id : Option Text} {message : TerminalFields}
    (hok : w.Orderly (.resize id message)) : (w.handleTerminalResize id message).AllHeld := by
  rcases effect_handleTerminalResize id message w with hstill | ⟨hcase, error, heq⟩
  · exact h.of_still hstill
  · rw [heq]
    refine h.postStray (hok.resolve_left fun hsome => ?_) error
    rcases hcase with hnone | hbad
    · exact hsome.1 hnone
    · rw [hbad] at hsome
      exact Bool.false_ne_true hsome.2

/-! ### Answers -/

theorem isOver_answer (store : Files) (phase : CommandPhase) (a : CommandPhase.Answer) :
    (phase.answer store a).1.IsOver ↔ phase.IsOver := by
  unfold CommandPhase.answer
  split <;> exact Iff.rfl

theorem reportable_answer {store : Files} (h : phase.Reportable) (ha : a.Reportable) :
    (phase.answer store a).1.Reportable := by
  unfold CommandPhase.answer
  split
  · intro thrown hthrown
    exact ha thrown (Option.some_inj.1 hthrown)
  · rintro thrown ⟨⟩
  · rintro _ ⟨⟩
    exact ha _ rfl
  · exact ⟨fun thrown hthrown => ha.1 thrown (Option.some_inj.1 hthrown),
      fun result hresult => ha.2 result (Option.some_inj.1 hresult)⟩
  · exact ⟨h.1, by rintro thrown ⟨⟩⟩
  · refine ⟨h.1, ?_⟩
    rintro _ ⟨⟩
    exact ha _ rfl
  · refine ⟨h.1, ?_⟩
    rintro _ ⟨⟩
    exact ha
  · exact h

theorem AllHeld.answer (h : w.AllHeld) {waiter : Starter} (hok : w.Orderly (.answer waiter a)) :
    (w.answer waiter a).AllHeld := by
  cases waiter with
  | child => exact h.congr rfl rfl
  | run r =>
    let answered := (w.runs.get r).phase.answer w.store a
    refine h.alike r (fun run => { run with phase := answered.1 }) rfl rfl rfl fun hown =>
      { id := rfl, phase := isOver_answer _ _ _, stdoutClosed := rfl, stderrClosed := rfl
        bytes := fun stream => by cases stream <;> rfl, report := ?_ }
    rintro (hspoken | hreport)
    · exact .inl hspoken
    · rcases hok hown with ha | hspoken
      · exact .inr (reportable_answer hreport ha)
      · exact .inl hspoken

/-! ### Output -/

/-- What a chain of writers does: it changes child commands only, or hands the bytes on to the
run. -/
theorem writeChain_cases (r : ℕ) (stream : OutputStream) (bytes : Bytes) (chain : List ℕ)
    (w : CommandWorker) : ∃ children, w.writeChain r stream bytes chain = { w with children } ∨
      w.PassesOn stream chain ∧
        w.writeChain r stream bytes chain = writeRun r stream bytes { w with children } := by
  induction chain generalizing w with
  | nil => exact ⟨w.children, .inr ⟨by simp [PassesOn], rfl⟩⟩
  | cons c above ih =>
    unfold writeChain
    split_ifs with haborted hmode
    · exact ⟨w.children, .inl rfl⟩
    · obtain ⟨children, heq | ⟨hpasses, heq⟩⟩ := ih (w.modifyChild c (takeOutput stream bytes))
      · exact ⟨children, .inl heq⟩
      · refine ⟨children, .inr ⟨?_, heq⟩⟩
        have hc : (w.children.get c).aborted = none := by simpa using haborted
        intro d hd
        rcases mem_cons.1 hd with rfl | hd
        · exact ⟨hc, hmode⟩
        -- the writer above sees the child commands as they were, but for what they have taken
        have hpass := hpasses d hd
        simp only [modifyChild, get_modify] at hpass
        split_ifs at hpass with hdc
        · rw [hdc]
          exact ⟨hc, hmode⟩
        · exact hpass
    · exact ⟨_, .inl rfl⟩

theorem postsAt_writeRun (r : ℕ) (stream : OutputStream) (bytes : Bytes) (w : CommandWorker) :
    ∃ ms, PostsAt r ms w (w.writeRun r stream bytes) ∧
      (¬ (w.runs.get r).phase.IsOver ∨ (w.runs.get r).aborted.isSome = true →
        Speaks r ms w (w.writeRun r stream bytes)) := by
  unfold writeRun
  split_ifs with haborted
  · exact ⟨[], (Speaks.refl r w).toPostsAt, fun _ => .refl r w⟩
  have hposts : PostsAt r [.output (w.runs.get r).id stream bytes] w
      ((w.modifyRun r (ActiveRun.count stream bytes.length)).post
        [.output (w.runs.get r).id stream bytes]) :=
    postsAt_modify rfl (by cases stream <;> rfl) rfl (by simp [CommandPost.id])
  refine ⟨_, hposts, fun hok => ⟨hposts, fun conversation hheld => ?_⟩⟩
  show Held ((w.runs.modify r _).get r) _
  rw [get_modify_self]
  have hlive := hok.resolve_right haborted
  cases hheld with
  | ended hphase _ => exact absurd hphase hlive
  | live hphase hopen hclosed hbytes hreport =>
    refine .live ?_ (hopen.snoc ?_) ?_ (fun s => ?_) ?_
    · cases stream <;> exact hphase
    · simp [CommandPost.Final, CommandPost.Progress]
    · cases stream <;> exact hclosed
    · rw [CommandPost.bytesOf_append, ← hbytes s]
      cases stream <;> cases s <;> simp [ActiveRun.count, ActiveRun.bytes, CommandPost.bytesOf]
    · cases stream <;> exact hreport

theorem AllHeld.writeRun (h : w.AllHeld) (hknown : r < w.runs.next) {bytes : Bytes}
    (hok : w.Own r → ¬ (w.runs.get r).phase.IsOver ∨ (w.runs.get r).aborted.isSome = true) :
    (w.writeRun r stream bytes).AllHeld := by
  obtain ⟨ms, hposts, hspeaks⟩ := postsAt_writeRun r stream bytes w
  exact h.step_at hposts (.inl hknown) fun hown => (hspeaks (hok hown)).held _

theorem AllHeld.write (h : w.AllHeld) {writer : Starter} (hknown : w.Known writer)
    {chunk : ChunkValue} (hok : w.Orderly (.write writer stream chunk)) :
    (w.write writer stream chunk).AllHeld := by
  unfold CommandWorker.write
  split
  · exact h
  next bytes hbytes =>
    have hvalid : (toUint8Array chunk).isOk ≠ false := by
      rw [hbytes]; simp [Except.isOk, Except.toBool]
    have hrun (r : ℕ) (hreaches : w.Reaches stream r writer) (hown : w.Own r) :
        ¬ (w.runs.get r).phase.IsOver ∨ (w.runs.get r).aborted.isSome = true :=
      (or_assoc.2 (hok r hown hreaches)).resolve_right hvalid
    cases writer with
    | run r => exact h.writeRun hknown (hrun r rfl)
    | child c =>
      obtain ⟨children, heq | ⟨hpasses, heq⟩⟩ := writeChain_cases (w.children.get c).run stream
        bytes (c :: (w.children.get c).above) w
      · show (w.writeChain _ _ _ _).AllHeld
        rw [heq]
        exact h.congr rfl rfl
      · show (w.writeChain _ _ _ _).AllHeld
        rw [heq]
        have hcongr : AllHeld { w with children } := h.congr rfl rfl
        exact hcongr.writeRun hknown.2 (hrun _ ⟨rfl, hpasses⟩)

/-! ### Steps at one run -/

/-- The runs have the same id, counts and standard input, and the same aborts behind them. -/
structure SameRun (run run' : ActiveRun) : Prop where
  id : run'.id = run.id
  stdoutBytes : run'.stdoutBytes = run.stdoutBytes
  stderrBytes : run'.stderrBytes = run.stderrBytes
  aborted : run'.aborted = run.aborted
  abortError : run'.abortError = run.abortError
  stdin : run'.stdin = run.stdin

/-- A step changes one run, which stays the same run, and posts messages with its id. It leaves the
child commands and the store alone. -/
def StepAt (r : ℕ) (w w' : CommandWorker) : Prop :=
  ∃ (f : ActiveRun → ActiveRun) (ms : List CommandPost), w'.runs = w.runs.modify r f ∧
    SameRun (w.runs.get r) (f (w.runs.get r)) ∧ w'.posts = w.posts ++ ms ∧
    (∀ m ∈ ms, m.id = some (w.runs.get r).id) ∧ w'.children = w.children ∧ w'.store = w.store ∧
    (w'.activeRun = w.activeRun ∨ w'.activeRun = none)

theorem StepAt.refl (r : ℕ) (w : CommandWorker) : StepAt r w w :=
  ⟨id, [], (modify_of_eq _ rfl).symm, ⟨rfl, rfl, rfl, rfl, rfl, rfl⟩, (append_nil _).symm,
    by simp, rfl, rfl, .inl rfl⟩

theorem StepAt.sameRun (h : StepAt r w w') : SameRun (w.runs.get r) (w'.runs.get r) := by
  obtain ⟨f, _, hf, hsame, -⟩ := h
  rw [hf, get_modify_self]
  exact hsame

theorem StepAt.trans (h : StepAt r w w') (h' : StepAt r w' w'') : StepAt r w w'' := by
  have hsame := h.sameRun
  have hsame' := h'.sameRun
  obtain ⟨f, ms, hf, -, hposts, hms, hchildren, hstore, hactive⟩ := h
  obtain ⟨g, ns, hg, -, hgposts, hns, hgchildren, hgstore, hgactive⟩ := h'
  rw [hsame.id] at hns
  have hget : w''.runs = w.runs.modify r fun run => g (f run) := by
    rw [hg, hf, modify_modify]
  refine ⟨fun run => g (f run), ms ++ ns, hget, ?_, by rw [hgposts, hposts, append_assoc],
    fun m hm => (mem_append.1 hm).elim (hms m) (hns m), hgchildren.trans hchildren,
    hgstore.trans hstore, ?_⟩
  · rw [hget, get_modify_self] at hsame'
    exact ⟨hsame'.id.trans hsame.id, hsame'.stdoutBytes.trans hsame.stdoutBytes,
      hsame'.stderrBytes.trans hsame.stderrBytes, hsame'.aborted.trans hsame.aborted,
      hsame'.abortError.trans hsame.abortError, hsame'.stdin.trans hsame.stdin⟩
  · rcases hgactive with heq | hnone
    · rwa [heq]
    · exact .inr hnone

theorem stepAt_post (hms : ∀ m ∈ ms, m.id = some (w.runs.get r).id) : StepAt r w (w.post ms) :=
  ⟨fun run => run, ms, (modify_of_eq _ rfl).symm, ⟨rfl, rfl, rfl, rfl, rfl, rfl⟩, rfl, hms, rfl,
    rfl, .inl rfl⟩

theorem stepAt_modifyRun (hf : SameRun (w.runs.get r) (f (w.runs.get r))) :
    StepAt r w (w.modifyRun r f) :=
  ⟨f, [], rfl, hf, (append_nil _).symm, by simp, rfl, rfl, .inl rfl⟩

theorem activeRun_endRun (r : ℕ) (w : CommandWorker) :
    (w.endRun r).activeRun = w.activeRun ∨ (w.endRun r).activeRun = none := by
  unfold endRun
  split_ifs
  · exact .inr rfl
  · exact .inl rfl

theorem stepAt_endRun (r : ℕ) (w : CommandWorker) : StepAt r w (w.endRun r) :=
  ⟨ActiveRun.finish, [], rfl, ⟨rfl, rfl, rfl, rfl, rfl, rfl⟩, (append_nil _).symm, by simp, rfl,
    rfl, activeRun_endRun r w⟩

theorem id_of_mem_closePosts {m : CommandPost} (h : m ∈ run.closePosts) : m.id = some run.id := by
  unfold ActiveRun.closePosts at h
  rcases mem_append.1 h with h | h
  all_goals
    split_ifs at h
    · exact absurd h not_mem_nil
    · rw [mem_singleton.1 h]
      rfl

theorem stepAt_postOutputStreamClose (r : ℕ) (w : CommandWorker) :
    StepAt r w (w.postOutputStreamClose r) :=
  (stepAt_post fun _ => id_of_mem_closePosts).trans
    (stepAt_modifyRun ⟨rfl, rfl, rfl, rfl, rfl, rfl⟩)

theorem stepAt_answer {answer : CommandPost} (hanswer : answer.id = some (w.runs.get r).id) :
    StepAt r w (((w.postOutputStreamClose r).post [answer]).endRun r) := by
  refine ((stepAt_postOutputStreamClose r w).trans (stepAt_post ?_)).trans (stepAt_endRun r _)
  intro m hm
  rw [mem_singleton.1 hm, hanswer, (stepAt_postOutputStreamClose r w).sameRun.id]

theorem stepAt_failRun (r : ℕ) (thrown : CommandThrown) (w : CommandWorker) :
    StepAt r w (w.failRun r thrown) := by
  unfold failRun
  dsimp only
  split
  · exact stepAt_endRun r w
  · split_ifs
    · exact (stepAt_postOutputStreamClose r w).trans (stepAt_endRun r _)
    · exact stepAt_answer rfl

theorem stepAt_completeRun (r : ℕ) (result : ExecutorResult) (w : CommandWorker) :
    StepAt r w (w.completeRun r result) := by
  unfold completeRun
  split
  · exact stepAt_answer rfl
  · exact (stepAt_postOutputStreamClose r w).trans (stepAt_failRun r _ _)

theorem stepAt_resumeRun (r : ℕ) (w : CommandWorker) : StepAt r w (w.resumeRun r) := by
  unfold resumeRun
  dsimp only
  split
  · exact .refl r w
  · split_ifs
    · exact stepAt_failRun r _ w
    · split
      · exact .refl r w
      · exact stepAt_failRun r _ w
      · exact (stepAt_post (by simp [CommandPost.id])).trans
          (stepAt_modifyRun ⟨rfl, rfl, rfl, rfl, rfl, rfl⟩)
  · split
    · exact .refl r w
    · exact stepAt_failRun r _ w
    · exact stepAt_modifyRun ⟨rfl, rfl, rfl, rfl, rfl, rfl⟩
  · split_ifs
    · exact stepAt_failRun r _ w
    · split
      · exact .refl r w
      · exact stepAt_failRun r _ w
      · split_ifs
        · exact stepAt_modifyRun ⟨rfl, rfl, rfl, rfl, rfl, rfl⟩
        · exact stepAt_completeRun r _ w
  · split
    · exact .refl r w
    · exact stepAt_failRun r _ w
    · exact stepAt_completeRun r _ w

theorem StepAt.postsAt (h : StepAt r w w') : ∃ ms, PostsAt r ms w w' := by
  have hid := h.sameRun.id
  obtain ⟨f, ms, hf, hsame, hposts, hms, -⟩ := h
  exact ⟨ms, postsAt_modify hf hsame.id hposts hms⟩

/-! ### Ends -/

/-- Closing both streams and answering with the counts of the run ends a conversation well. -/
theorem answered_of_live {answer : CommandPost} (hopen : Open CommandPost.Final ms)
    (hbytes : ∀ stream, run.bytes stream = CommandPost.bytesOf stream ms)
    (hanswer : CommandPost.TerminalWith run.stdoutBytes run.stderrBytes answer) :
    CommandPost.Answered run.id
      (ms ++ [.close run.id .stdout, .close run.id .stderr, answer]) := by
  have hout (stream : OutputStream) : CommandPost.bytesOf stream
      (ms ++ [.close run.id .stdout, .close run.id .stderr, answer]) = run.bytes stream := by
    rw [CommandPost.bytesOf_append, hbytes]
    cases answer <;> simp_all [CommandPost.bytesOf, CommandPost.TerminalWith]
  refine ⟨answer, ?_, hopen.close _⟩
  rw [hout, hout]
  exact hanswer

/-- A run that ends with its closes and a terminal message. -/
theorem speaks_ended (hlive : ¬ (w.runs.get r).phase.IsOver) (answer : CommandPost)
    (hanswer : CommandPost.TerminalWith (w.runs.get r).stdoutBytes
      (w.runs.get r).stderrBytes answer)
    (hid : answer.id = some (w.runs.get r).id) (f : ActiveRun → ActiveRun)
    (hruns : w'.runs = w.runs.modify r f) (hphase : (f (w.runs.get r)).phase = .ended)
    (hfid : (f (w.runs.get r)).id = (w.runs.get r).id)
    (hposts : w'.posts = w.posts ++ ((w.runs.get r).closePosts ++ [answer])) :
    ∃ ms, Speaks r ms w w' := by
  have hstep : PostsAt r ((w.runs.get r).closePosts ++ [answer]) w w' := by
    refine postsAt_modify hruns hfid hposts fun m hm => ?_
    rcases mem_append.1 hm with hm | hm
    · exact id_of_mem_closePosts hm
    · rw [mem_singleton.1 hm, hid]
  refine ⟨_, hstep, fun conversation hheld => ?_⟩
  rw [hruns, get_modify_self]
  refine .ended (by rw [hphase]; trivial) ?_
  rw [hfid]
  cases hheld with
  | ended hover _ => exact absurd hover hlive
  | live _ hopen hclosed hbytes _ =>
    have hclose : (w.runs.get r).closePosts =
        [.close (w.runs.get r).id .stdout, .close (w.runs.get r).id .stderr] := by
      simp [ActiveRun.closePosts, hclosed]
    rw [hclose]
    exact answered_of_live hopen hbytes hanswer

theorem normalizeCommandError_of_reportable {stage : String} (h : thrown.Reportable) :
    ∃ error, normalizeCommandError stage thrown = some error := by
  cases thrown with
  | unreadable | unpostable => exact h.elim
  | error error => exact ⟨error, rfl⟩
  | abort | kinded | plain => exact ⟨_, rfl⟩

/-- What a run that fails posts, if it was aborted or what was thrown can be reported. -/
theorem failRun_eq (h : (w.runs.get r).Spoken ∨ thrown.Reportable) :
    ∃ error, w.failRun r thrown = ((w.postOutputStreamClose r).post
      [.error (some (w.runs.get r).id) error (w.runs.get r).stdoutBytes
        (w.runs.get r).stderrBytes]).endRun r := by
  obtain ⟨error, herror⟩ : ∃ error, (w.runs.get r).normalizeRunError thrown = some error := by
    unfold ActiveRun.normalizeRunError
    split
    · exact ⟨_, rfl⟩
    next hnot =>
      refine normalizeCommandError_of_reportable (h.resolve_left ?_)
      rintro ⟨haborted, herror⟩
      obtain ⟨reason, hreason⟩ := Option.isSome_iff_exists.1 haborted
      obtain ⟨error, herror⟩ := Option.isSome_iff_exists.1 herror
      exact hnot _ _ hreason herror
  refine ⟨error, ?_⟩
  unfold failRun
  simp only [herror]
  rw [if_neg]
  rintro ⟨hnone, hnot⟩
  rcases h with hspoken | hreport
  · have := hspoken.2
    rw [hnone] at this
    exact Bool.false_ne_true this
  · exact hnot hreport

theorem speaks_failRun (hlive : ¬ (w.runs.get r).phase.IsOver)
    (hthrown : (w.runs.get r).Spoken ∨ thrown.Reportable) :
    ∃ ms, Speaks r ms w (w.failRun r thrown) := by
  obtain ⟨error, heq⟩ := failRun_eq hthrown
  rw [heq]
  refine speaks_ended hlive (.error (some (w.runs.get r).id) error _ _) ⟨rfl, rfl⟩ rfl
    (fun run => run.closed.finish) ?_ rfl rfl ?_
  · exact modify_modify _ _ _ _
  · exact append_assoc _ _ _

theorem speaks_completeRun (hlive : ¬ (w.runs.get r).phase.IsOver) {result : ExecutorResult}
    (hresult : (w.runs.get r).Spoken ∨ result.Reportable) :
    ∃ ms, Speaks r ms w (w.completeRun r result) := by
  unfold completeRun
  split
  next exitCode _ =>
    refine speaks_ended hlive (.complete (w.runs.get r).id exitCode _ _) ⟨rfl, rfl⟩ rfl
      (fun run => run.closed.finish) ?_ rfl rfl ?_
    · exact modify_modify _ _ _ _
    · exact append_assoc _ _ _
  next thrown hthrown =>
    -- the streams are closed already when the exit code turns out to be none
    have hget : (w.postOutputStreamClose r).runs.get r = (w.runs.get r).closed :=
      get_modify_self _ _ _
    have hspoken : ((w.postOutputStreamClose r).runs.get r).Spoken ∨ thrown.Reportable := by
      rw [hget]
      exact hresult.imp_right fun hreport => hreport thrown hthrown
    obtain ⟨error, heq⟩ := failRun_eq hspoken
    rw [heq, hget]
    refine speaks_ended hlive (.error (some (w.runs.get r).id) error _ _) ⟨rfl, rfl⟩ rfl
      (fun run => run.closed.closed.finish) ?_ rfl rfl ?_
    · show ((w.runs.modify r _).modify r _).modify r _ = _
      rw [modify_modify, modify_modify]
    · show ((w.posts ++ _) ++ ((w.postOutputStreamClose r).runs.get r).closePosts) ++ [_] = _
      rw [hget]
      simp [ActiveRun.closePosts, ActiveRun.closed, ActiveRun.id]

/-- A run that goes on to its next wait. -/
theorem alike_phase (hlive : ¬ run.phase.IsOver) (hphase : ¬ phase.IsOver)
    (hreport : run.Spoken ∨ phase.Reportable) :
    Alike run { run with phase := phase } where
  id := rfl
  phase := iff_of_false hphase hlive
  stdoutClosed := rfl
  stderrClosed := rfl
  bytes stream := by cases stream <;> rfl
  report _ := hreport

/-- A run that has found its package. -/
theorem speaks_started (hlive : ¬ (w.runs.get r).phase.IsOver) {packageId command cwd : Text}
    {args : List Text} (hphase : ¬ phase.IsOver) (hreport : phase.Reportable) :
    ∃ ms, Speaks r ms w
      ((w.post [.started (w.runs.get r).id packageId command args cwd]).modifyRun r
      fun run => { run with phase := phase }) := by
  have hruns : ((w.post [.started (w.runs.get r).id packageId command args cwd]).modifyRun r
      fun run => { run with phase := phase }).runs =
        w.runs.modify r fun run => { run with phase := phase } := rfl
  refine ⟨_, postsAt_modify hruns rfl rfl (by simp [CommandPost.id]), fun conversation hheld => ?_⟩
  rw [hruns, get_modify_self]
  cases hheld with
  | ended hover _ => exact absurd hover hlive
  | live _ hopen hclosed hbytes _ =>
    refine .live hphase (hopen.snoc ?_) hclosed (fun stream => ?_) (.inr hreport)
    · simp [CommandPost.Final, CommandPost.Progress]
    · rw [CommandPost.bytesOf_append, ← hbytes stream]
      cases stream <;> rfl

theorem speaks_phase (hlive : ¬ (w.runs.get r).phase.IsOver) (hphase : ¬ phase.IsOver)
    (hreport : (w.runs.get r).Spoken ∨ phase.Reportable) :
    ∃ ms, Speaks r ms w (w.modifyRun r fun run => { run with phase := phase }) := by
  have hruns : (w.modifyRun r fun run => { run with phase := phase }).runs =
      w.runs.modify r fun run => { run with phase := phase } := rfl
  refine ⟨[], postsAt_modify hruns rfl (append_nil _).symm (by simp), fun _ hheld => ?_⟩
  rw [hruns, get_modify_self, append_nil]
  exact hheld.alike (alike_phase hlive hphase hreport)

/-- A run that is taken up again goes on with its conversation. -/
theorem speaks_resumeRun (r : ℕ) (w : CommandWorker) : ∃ ms, Speaks r ms w (w.resumeRun r) := by
  by_cases hlive : (w.runs.get r).phase.IsOver
  · have hover : (w.runs.get r).phase = .ended := by
      revert hlive
      cases (w.runs.get r).phase <;> first | exact False.elim | exact fun _ => rfl
    have hsame : w.resumeRun r = w := by
      simp only [resumeRun, hover]
    rw [hsame]
    exact ⟨[], .refl r w⟩
  by_cases hreport : (w.runs.get r).Spoken ∨ (w.runs.get r).phase.Reportable
  swap
  · -- no conversation is held by such a run
    obtain ⟨ms, hposts⟩ := (stepAt_resumeRun r w).postsAt
    refine ⟨ms, hposts, fun conversation hheld => ?_⟩
    cases hheld with
    | ended hphase _ => exact absurd hphase hlive
    | live _ _ _ _ hheld => exact absurd hheld hreport
  unfold resumeRun
  dsimp only
  split
  · exact ⟨[], .refl r w⟩
  next outcome hphase =>
    rw [hphase] at hreport
    split_ifs
    · exact speaks_failRun hlive (.inr trivial)
    · cases outcome with
      | none => exact ⟨[], .refl r w⟩
      | some outcome =>
        cases outcome with
        | error thrown =>
          exact speaks_failRun hlive (hreport.imp_right fun hreport => hreport thrown rfl)
        | ok =>
          refine speaks_started hlive ?_ ?_
          · split_ifs <;> exact id
          · split_ifs
            · rintro _ ⟨⟩
            · exact ⟨by rintro _ ⟨⟩, by rintro _ ⟨⟩⟩
  next resolution outcome hphase =>
    rw [hphase] at hreport
    cases outcome with
    | none => exact ⟨[], .refl r w⟩
    | some outcome =>
      cases outcome with
      | error thrown =>
        exact speaks_failRun hlive (hreport.imp_right fun hreport => hreport thrown rfl)
      | ok => exact speaks_phase hlive id (.inr ⟨by rintro _ ⟨⟩, by rintro _ ⟨⟩⟩)
  next resolution snapshot outcome hphase =>
    rw [hphase] at hreport
    split_ifs
    · exact speaks_failRun hlive (.inr trivial)
    · cases outcome with
      | none => exact ⟨[], .refl r w⟩
      | some outcome =>
        cases outcome with
        | error thrown =>
          exact speaks_failRun hlive (hreport.imp_right fun hreport => hreport.1 thrown rfl)
        | ok result =>
          have hresult : (w.runs.get r).Spoken ∨ result.Reportable :=
            hreport.imp_right fun hreport => hreport.2 result rfl
          dsimp only
          split_ifs
          · exact speaks_phase hlive id (hresult.imp_right fun hresult => ⟨hresult, by rintro _ ⟨⟩⟩)
          · exact speaks_completeRun hlive hresult
  next snapshot result outcome hphase =>
    rw [hphase] at hreport
    cases outcome with
    | none => exact ⟨[], .refl r w⟩
    | some outcome =>
      cases outcome with
      | error thrown =>
        exact speaks_failRun hlive (hreport.imp_right fun hreport => hreport.2 thrown rfl)
      | ok => exact speaks_completeRun hlive (hreport.imp_right fun hreport => hreport.1)

/-! ### Run messages -/

theorem AllHeld.runCommand (h : w.AllHeld) {message : RunMessage} (hok : w.Orderly (.run message)) :
    (w.runCommand message).AllHeld := by
  simp only [Orderly] at hok
  unfold CommandWorker.runCommand
  cases hmessage : normalizeRunMessage message with
  | error error =>
    rw [hmessage] at hok
    exact h.postStray hok error
  | ok request =>
    rw [hmessage] at hok
    cases hactive : w.activeRun with
    | some =>
      rw [hactive] at hok
      exact h.postStray hok _
    | none =>
      rw [hactive] at hok
      intro r hr
      obtain ⟨hlt, hown⟩ := hr
      have hnew : ((w.runs.alloc (.create request)).get w.runs.next).id = request.id := by
        rw [get_alloc_next]
        rfl
      have hold (j : ℕ) (hj : j < w.runs.next) :
          (w.runs.alloc (.create request)).get j = w.runs.get j := get_alloc_of_lt _ _ hj
      have hlt' : r < w.runs.next + 1 := hlt
      show Held ((w.runs.alloc (.create request)).get r)
        (w.conversation ((w.runs.alloc (.create request)).get r).id)
      by_cases hr : r = w.runs.next
      · -- the new run
        subst hr
        have hempty : w.conversation request.id = [] := by
          refine hok.resolve_right ?_
          rintro ⟨j, hj, hid⟩
          have := hown j (Nat.lt_succ_of_lt hj)
            ((congrArg ActiveRun.id (hold j hj)).trans (hid.trans hnew.symm))
          omega
        rw [hnew, hempty, get_alloc_next]
        refine .live id open_nil ⟨rfl, rfl⟩ (fun stream => ?_) (.inr (by rintro _ ⟨⟩))
        cases stream <;> rfl
      · have hr' : r < w.runs.next := by omega
        rw [hold r hr']
        refine h r ⟨hr', fun j hj hid => hown j (Nat.lt_succ_of_lt hj) ?_⟩
        rw [hold j hj, hold r hr', hid]

/-! ### Runs of the worker -/

theorem runs_startChild (starter : Starter) (fields : ChildFields) (w : CommandWorker) :
    (w.startChild starter fields).runs = w.runs ∧
      (w.startChild starter fields).posts = w.posts := by
  unfold startChild
  split <;> exact ⟨rfl, rfl⟩

theorem runs_expireChild (c : ℕ) (w : CommandWorker) :
    (w.expireChild c).runs = w.runs ∧ (w.expireChild c).posts = w.posts := by
  unfold expireChild
  split_ifs <;> exact ⟨rfl, rfl⟩

theorem runs_resumeChild (c : ℕ) (w : CommandWorker) :
    (w.resumeChild c).runs = w.runs ∧ (w.resumeChild c).posts = w.posts := by
  unfold resumeChild
  dsimp only
  repeat' split
  all_goals exact ⟨rfl, rfl⟩

theorem AllHeld.step {e : CommandEvent} (h : w.AllHeld) (hok : w.Orderly e) :
    (w.step e).AllHeld := by
  cases e with
  | run => exact h.runCommand hok
  | stdin | stdinEnd | stdinError => exact h.onStdin hok _
  | resize => exact h.handleTerminalResize hok
  | cancel id => exact h.of_still (still_cancel id w)
  | expire timer =>
    cases timer with
    | run r =>
      show (if _ then _ else w).AllHeld
      split_ifs
      · exact h.of_still (still_expire r w)
      · exact h
    | child c =>
      show (if _ then _ else w).AllHeld
      split_ifs
      · exact h.congr (runs_expireChild c w).1 (runs_expireChild c w).2
      · exact h
  | answer =>
    show (if _ then _ else w).AllHeld
    split_ifs
    · exact h.answer hok
    · exact h
  | resume command =>
    cases command with
    | run r =>
      show (if _ then _ else w).AllHeld
      split_ifs with hknown
      · obtain ⟨ms, hspeaks⟩ := speaks_resumeRun r w
        exact h.of_speaks hspeaks (.inl hknown)
      · exact h
    | child c =>
      show (if _ then _ else w).AllHeld
      split_ifs
      · exact h.congr (runs_resumeChild c w).1 (runs_resumeChild c w).2
      · exact h
  | write =>
    show (if _ then _ else w).AllHeld
    split_ifs with hknown
    · exact h.write hknown hok
    · exact h
  | startChild starter fields =>
    show (if _ then _ else w).AllHeld
    split_ifs
    · exact h.congr (runs_startChild starter fields w).1 (runs_startChild starter fields w).2
    · exact h
  | edit =>
    show (if _ then _ else w).AllHeld
    split_ifs
    · exact h.congr rfl rfl
    · exact h

theorem allHeld_start (store : Files) : (start store).AllHeld := by
  rintro r ⟨hr, -⟩
  exact absurd hr (Nat.not_lt_zero r)

/-- Orderly steps answer every command with one terminal message. -/
theorem oneTerminal_of_orderly (store : Files) (es : List CommandEvent)
    (h : Along step Orderly (start store) es) : Always step OneTerminal (start store) es := by
  have hheld : Always step AllHeld (start store) es :=
    Always.of_along (fun _ _ hw hok => AllHeld.step hw hok) (allHeld_start store) h
  exact hheld.mono fun _ hw => hw.oneTerminal

/-! ### Two runs -/

/-- A command with nothing but its name. -/
def plainRun (id command : String) : RunMessage where
  messageId := some id.toList
  id := some id.toList
  args := .items []
  command := some command.toList
  cwd := none
  diagnostics := none
  env := .fields []
  httpTransport := none
  stdin := ⟨none, none, none, none⟩
  packageId := .absent
  stdinOpen := true
  terminal := none
  timeoutMs := none

/-- A command up to its result. -/
def plainEvents : List CommandEvent :=
  [.run (plainRun "a" "cat"),
    .answer (.run 0) (.resolved (.ok ⟨"default".toList, "cat".toList, .none⟩)), .resume (.run 0),
    .write (.run 0) .stdout (.text "x".toList), .answer (.run 0) (.executed (.ok ⟨.ok 0, none⟩)),
    .resume (.run 0)]

/-- A command that writes and ends, and a message about another one. -/
theorem oneTerminal_of_orderly_plain :
    Always step OneTerminal (start fun _ => none) (plainEvents ++ [.stdinEnd (some ['b'])]) := by
  refine oneTerminal_of_orderly _ _ ⟨.inl rfl, fun _ => .inl (by rintro _ ⟨⟩), trivial, ?_,
    fun _ => .inl ⟨by rintro _ ⟨⟩, by rintro _ ⟨⟩ _ ⟨⟩⟩, trivial, .inr ?_, trivial⟩
  · rintro r - rfl
    exact .inl id
  · rintro r ⟨hr, -⟩
    have hr0 : r = 0 := Nat.lt_one_iff.1 hr
    subst hr0
    decide

/-- The end of standard input that arrives behind the end of its command. -/
theorem not_oneTerminal_lateStdin :
    ¬ Always step OneTerminal (start fun _ => none) (plainEvents ++ [.stdinEnd (some ['a'])]) := by
  intro h
  obtain ⟨answer, -, hclosed⟩ : CommandPost.Answered ['a']
      [.started ['a'] "default".toList "cat".toList [] "/workspace".toList,
        .output ['a'] .stdout [120], .close ['a'] .stdout, .close ['a'] .stderr,
        .complete ['a'] 0 1 0, .error (some ['a']) unknownStdin 0 0] :=
    h.last 0 ⟨Nat.one_pos, fun j hj _ => Nat.lt_one_iff.1 hj⟩
  exact hclosed.open_take (.close ['a'] .stdout) (by simp) id

end CommandWorker

end WasmHost
