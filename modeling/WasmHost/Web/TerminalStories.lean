import WasmHost.Web.TerminalSession

/-!
# The story of a run

What the worker posts for a run is its output, the closes of both streams and a terminal message, or
an answer to the run message only (`CommandPost.Story`). This module says what a session makes of
the next message of a story (`TerminalSession.Shows.handle`), and what a step of the worker or a
message to it adds to the story of a run (`CommandWorker.effect_work`, `SessionMessage.effect`).
-/

namespace WasmHost

open List Conversation CommandPost

/-- What the sink has to be told of the messages of a run that goes on. -/
def CommandPost.sinkCalls : List CommandPost → List SinkCall
  | [] => []
  | .started _ packageId command args cwd :: ms =>
    .started packageId command args cwd :: sinkCalls ms
  | .output _ stream chunk :: ms => .write stream chunk :: sinkCalls ms
  | _ :: ms => sinkCalls ms

/-- The messages that the worker answers if it has no run with their id. -/
def SessionMessage.Asks (id : Text) : SessionMessage → Prop
  | .stdin id' _ | .stdinEnd id' | .stdinError id' _ | .resize id' _ _ => id' = id
  | .run _ _ | .cancel _ => False

/-- The steps of a worker whose executors write while their run goes on only, and whose errors can
be reported. -/
def CommandWorker.Plain (w : CommandWorker) : CommandEvent → Prop
  | .answer (.run r) a => a.Reportable ∨ (w.runs.get r).Spoken
  | .write writer stream chunk => ∀ r, w.Reaches stream r writer →
    ¬ (w.runs.get r).phase.IsOver ∨ (w.runs.get r).aborted.isSome = true ∨
      (toUint8Array chunk).isOk = false
  | _ => True

/-! ### The story of a run -/

namespace CommandPost

/-- A run that goes on or has ended: with its closes and a terminal message, or with an answer to
the run message only. -/
inductive Story : List CommandPost → Prop
  | live {ms : List CommandPost} (hopen : Open Final ms) : Story ms
  | answered {front : List CommandPost} {id id' : Text} {answer : CommandPost}
    (hopen : Open Final front) (hanswer : answer.outcome?.isSome = true) :
    Story (front ++ [.close id .stdout, .close id' .stderr, answer])
  | refused {answer : CommandPost} (hanswer : answer.outcome?.isSome = true) : Story [answer]

/-- There is a terminal message. -/
def Complete (ms : List CommandPost) : Prop := ∃ m ∈ ms, m.outcome?.isSome = true

variable {m : CommandPost} {rest : List CommandPost}

theorem final_of_outcome (h : m.outcome?.isSome = true) : Final m := by
  cases m with
  | complete | error => exact fun hprogress => hprogress
  | started | output | close => cases h

theorem not_complete_of_open {ms : List CommandPost} (h : Open Final ms) : ¬ Complete ms := by
  rintro ⟨m, hm, houtcome⟩
  exact h m hm (final_of_outcome houtcome)

theorem sinkCalls_append (ms ns : List CommandPost) :
    sinkCalls (ms ++ ns) = sinkCalls ms ++ sinkCalls ns := by
  induction ms with
  | nil => rfl
  | cons m ms ih => cases m <;> simp [sinkCalls, ih]

theorem sinkCalls_of_outcome (h : m.outcome?.isSome = true) : sinkCalls [m] = [] := by
  cases m with
  | complete | error => rfl
  | started | output | close => cases h

/-- The place of a message in a story, and what stands before and behind it. -/
inductive Place (got : List CommandPost) (m : CommandPost) (rest : List CommandPost) : Prop
  | progress (hopen : Open Final got) (hm : m.Progress)
  | stdout (id : Text) (hopen : Open Final got) (hm : m = .close id .stdout)
  | stderr (front : List CommandPost) (id id' : Text) (hopen : Open Final front)
    (hgot : got = front ++ [.close id .stdout]) (hm : m = .close id' .stderr)
  | answer (front : List CommandPost) (id id' : Text) (hopen : Open Final front)
    (hgot : got = front ++ [.close id .stdout, .close id' .stderr])
    (hm : m.outcome?.isSome = true) (hrest : rest = [])
  | refusal (hgot : got = []) (hm : m.outcome?.isSome = true) (hrest : rest = [])

theorem Story.place {got : List CommandPost} (h : Story (got ++ m :: rest)) : Place got m rest := by
  generalize hms : got ++ m :: rest = ms at h
  cases h with
  | live hopen =>
    subst hms
    refine .progress (fun n hn => hopen n (mem_append_left _ hn)) ?_
    exact not_not.1 (hopen m (mem_append_right _ mem_cons_self))
  | refused hanswer =>
    cases got with
    | nil =>
      cases hms
      exact .refusal rfl hanswer rfl
    | cons => simp at hms
  | @answered front id id' answer hopen hanswer =>
    rcases append_eq_append_iff.1 hms with ⟨tail, hfront, htail⟩ | ⟨tail, hgot, htail⟩
    · -- the message stands in front of the closes, or is the first of them
      cases tail with
      | nil =>
        simp only [append_nil] at hfront
        cases htail
        subst hfront
        exact .stdout id hopen rfl
      | cons n tail =>
        cases htail
        subst hfront
        refine .progress (fun n hn => hopen n (mem_append_left _ hn)) ?_
        exact not_not.1 (hopen m (mem_append_right _ mem_cons_self))
    · subst hgot
      match tail, htail with
      | [], htail =>
        cases htail
        exact .stdout id (by simpa using hopen) rfl
      | [_], htail =>
        cases htail
        exact .stderr front id id' hopen rfl rfl
      | [_, _], htail =>
        cases htail
        exact .answer front id id' hopen rfl hanswer rfl
      | _ :: _ :: _ :: tail, htail => simp at htail

/-- Behind a close there is no output. -/
theorem Story.sinkCalls_eq_nil {front : List CommandPost} {id : Text} {stream : OutputStream}
    (h : Story (front ++ .close id stream :: rest)) : sinkCalls rest = [] := by
  generalize hms : front ++ .close id stream :: rest = ms at h
  have hfinal : (close id stream).Final := fun hprogress => hprogress
  cases h with
  | live hopen =>
    subst hms
    exact absurd hfinal (hopen _ (mem_append_right _ mem_cons_self))
  | refused hanswer =>
    cases front with
    | nil =>
      cases hms
      cases hanswer
    | cons => simp at hms
  | @answered front' id₁ id₂ answer hopen hanswer =>
    rcases append_eq_append_iff.1 hms with ⟨tail, hfront, htail⟩ | ⟨tail, hgot, htail⟩
    · cases tail with
      | nil =>
        cases htail
        exact sinkCalls_of_outcome hanswer
      | cons =>
        -- the close would stand among the output
        cases htail
        subst hfront
        exact absurd hfinal (hopen _ (mem_append_right _ mem_cons_self))
    · match tail, htail with
      | [], htail =>
        cases htail
        exact sinkCalls_of_outcome hanswer
      | [_], htail =>
        cases htail
        exact sinkCalls_of_outcome hanswer
      | [_, _], htail =>
        cases htail
        cases hanswer
      | _ :: _ :: _ :: tail, htail => simp at htail

end CommandPost

/-! ### What a message does to the session -/

namespace TerminalSession

/-- The record of the last start. -/
def record (s : TerminalSession) : StartRecord := s.records (s.starts - 1)

/-- What has been closed, and what the sink was told of the messages that have come. -/
inductive Shows (s : TerminalSession) (got : List CommandPost) : Prop
  | output (hopen : Open CommandPost.Final got)
    (hclosed : s.stdoutClosed = false ∧ s.stderrClosed = false)
    (hsink : s.record.sink = CommandPost.sinkCalls got)
  | half (front : List CommandPost) (id : Text) (hopen : Open CommandPost.Final front)
    (hgot : got = front ++ [.close id .stdout])
    (hclosed : s.stdoutClosed = true ∧ s.stderrClosed = false)
    (hsink : s.record.sink = CommandPost.sinkCalls front ++ [.close .stdout])
  | closed (front : List CommandPost) (id id' : Text) (hopen : Open CommandPost.Final front)
    (hgot : got = front ++ [.close id .stdout, .close id' .stderr])
    (hclosed : s.stdoutClosed = true ∧ s.stderrClosed = true)
    (hsink : s.record.sink = CommandPost.sinkCalls front ++ [.close .stdout, .close .stderr])

variable {s : TerminalSession} {got rest : List CommandPost}

/-- What has come to a session that goes on has no terminal message in it. -/
theorem Shows.not_complete (h : s.Shows got) : ¬ CommandPost.Complete got := by
  rintro ⟨m, hm, houtcome⟩
  have hfront {front ending : List CommandPost} (hopen : Open CommandPost.Final front)
      (hending : ∀ n ∈ ending, n.outcome? = none) (hgot : got = front ++ ending) : False := by
    rw [hgot] at hm
    rcases mem_append.1 hm with hm | hm
    · exact hopen m hm (final_of_outcome houtcome)
    · rw [hending m hm] at houtcome
      cases houtcome
  cases h with
  | output hopen => exact hfront hopen (by simp) (append_nil _).symm
  | half _ _ hopen hgot | closed _ _ _ hopen hgot =>
    exact hfront hopen (by simp [outcome?]) hgot

/-- What the sink was told so far is the start of what it has to be told. -/
theorem Shows.isPrefix (h : s.Shows got) (hstory : CommandPost.Story (got ++ rest)) :
    s.record.sink <+:
      sinkCalls (got ++ rest) ++ [.close .stdout, .close .stderr] := by
  cases h with
  | output _ _ hsink =>
    rw [hsink, sinkCalls_append, append_assoc]
    exact prefix_append _ _
  | half front id _ hgot _ hsink =>
    subst hgot
    have hnil : sinkCalls rest = [] := by
      rw [append_assoc] at hstory
      exact hstory.sinkCalls_eq_nil
    rw [hsink, sinkCalls_append, sinkCalls_append, hnil]
    exact ⟨[.close .stderr], by simp [sinkCalls]⟩
  | closed front id id' _ hgot _ hsink =>
    subst hgot
    have hnil : sinkCalls ([.close id' .stderr] ++ rest) = [] := by
      rw [append_assoc] at hstory
      exact hstory.sinkCalls_eq_nil
    have hrest : sinkCalls rest = [] := hnil
    rw [hsink, sinkCalls_append, sinkCalls_append, hrest]
    exact ⟨[], by simp [sinkCalls]⟩

/-- The session is at the same start, and the records of the others are as they were. -/
structure SameStart (s s' : TerminalSession) : Prop where
  starts : s'.starts = s.starts
  records : ∀ j ≠ s.starts - 1, s'.records j = s.records j

theorem record_note (f : StartRecord → StartRecord) (s : TerminalSession) :
    (s.note f).record = f s.record := Function.update_self ..

@[simp]
theorem record_tell (call : SinkCall) (s : TerminalSession) :
    (s.tell call).record = ⟨s.record.sink ++ [call], s.record.settlements⟩ := record_note ..

theorem sameStart_note (f : StartRecord → StartRecord) (s : TerminalSession) :
    SameStart s (s.note f) := ⟨rfl, fun _ hj => Function.update_of_ne hj ..⟩

theorem SameStart.trans {s' s'' : TerminalSession} (h : SameStart s s') (h' : SameStart s' s'') :
    SameStart s s'' :=
  ⟨h'.starts.trans h.starts, fun j hj =>
    (h'.records j (by rw [h.starts]; exact hj)).trans (h.records j hj)⟩

theorem sameStart_closeOutput (stream : OutputStream) (s : TerminalSession) :
    SameStart s (s.closeOutput stream) := by
  unfold closeOutput
  split_ifs
  · exact ⟨rfl, fun _ _ => rfl⟩
  · cases stream <;> exact ⟨rfl, fun _ hj => Function.update_of_ne hj ..⟩

theorem sameStart_finish (outcome : RunOutcome) (s : TerminalSession) :
    SameStart s (s.finish outcome) := by
  have htold : SameStart s (tell (.exit outcome) (closeOutput .stderr (closeOutput .stdout s))) :=
    ((sameStart_closeOutput .stdout s).trans (sameStart_closeOutput .stderr _)).trans
      (sameStart_note _ _)
  have hnoted := htold.trans (sameStart_note
    (fun record => { record with settlements := record.settlements ++ [outcome.settlement] }) _)
  exact ⟨hnoted.starts, hnoted.records⟩

theorem sameStart_handleMessage (m : CommandPost) (s : TerminalSession) :
    SameStart s (s.handleMessage m) := by
  unfold handleMessage
  split_ifs
  · cases m with
    | started | output => exact sameStart_note _ s
    | close => exact sameStart_closeOutput _ s
    | complete | error => exact sameStart_finish _ s
  · exact ⟨rfl, fun _ _ => rfl⟩

theorem record_closeOutput (stream : OutputStream) (s : TerminalSession) :
    (s.closeOutput stream).record = if s.closed stream then s.record
      else ⟨s.record.sink ++ [.close stream], s.record.settlements⟩ := by
  unfold closeOutput
  split_ifs
  · rfl
  · cases stream <;> exact record_tell _ _

theorem closed_closeOutput (s : TerminalSession) :
    (s.closeOutput .stdout).closed .stderr = s.stderrClosed := by
  unfold closeOutput
  split_ifs <;> rfl

/-- What is left of a session that has finished. -/
theorem record_finish {calls : List SinkCall} (outcome : RunOutcome)
    (h : (s.stdoutClosed = false ∧ s.stderrClosed = false ∧ s.record.sink = calls) ∨
      (s.stdoutClosed = true ∧ s.stderrClosed = true ∧
        s.record.sink = calls ++ [.close .stdout, .close .stderr])) :
    (s.finish outcome).completion = false ∧ (s.finish outcome).record =
      ⟨calls ++ [.close .stdout, .close .stderr, .exit outcome],
        s.record.settlements ++ [outcome.settlement]⟩ := by
  refine ⟨rfl, ?_⟩
  have hnote : (s.finish outcome).record =
      ⟨(tell (.exit outcome) (closeOutput .stderr (closeOutput .stdout s))).record.sink,
        (tell (.exit outcome) (closeOutput .stderr (closeOutput .stdout s))).record.settlements ++
          [outcome.settlement]⟩ := Function.update_self ..
  rw [hnote, record_tell, record_closeOutput, closed_closeOutput, record_closeOutput]
  rcases h with ⟨hout, herr, hsink⟩ | ⟨hout, herr, hsink⟩ <;> simp [closed, hout, herr, hsink]

/-- The next message of a story: the session goes on, or is settled. -/
theorem Shows.handle {m : CommandPost} (h : s.Shows got) (hplace : CommandPost.Place got m rest)
    (hcompletion : s.completion = true) (hid : m.id = s.id) :
    ((s.handleMessage m).completion = true ∧ (s.handleMessage m).id = s.id ∧
      (s.handleMessage m).record.settlements = s.record.settlements ∧
        (s.handleMessage m).Shows (got ++ [m])) ∨
    ((s.handleMessage m).completion = false ∧ rest = [] ∧ ∃ outcome, m.outcome? = some outcome ∧
      (s.handleMessage m).record = ⟨sinkCalls (got ++ [m]) ++
          [.close .stdout, .close .stderr, .exit outcome],
        s.record.settlements ++ [outcome.settlement]⟩) := by
  have hfinish {outcome : RunOutcome} (hsome : m.outcome? = some outcome) :
      s.handleMessage m = s.finish outcome := by
    unfold handleMessage
    rw [if_pos ⟨hcompletion, hid⟩]
    cases m <;> cases hsome <;> rfl
  have hfinal (id : Text) (stream : OutputStream) : (close id stream).Final :=
    fun hprogress => hprogress
  have houtput (hgot : Open CommandPost.Final got) :
      s.stdoutClosed = false ∧ s.stderrClosed = false ∧
        s.record.sink = sinkCalls got := by
    cases h with
    | output _ hclosed hsink => exact ⟨hclosed.1, hclosed.2, hsink⟩
    | half _ id _ hfront | closed _ id _ _ hfront =>
      exact absurd (hfinal id .stdout) (hgot _ (by simp [hfront]))
  cases hplace with
  | progress hgot hm =>
    obtain ⟨hout, herr, hsink⟩ := houtput hgot
    left
    unfold handleMessage
    rw [if_pos ⟨hcompletion, hid⟩]
    cases m with
    | started | output =>
      refine ⟨hcompletion, rfl, by rw [record_tell],
        .output (hgot.snoc fun hf => hf hm) ⟨hout, herr⟩ ?_⟩
      rw [record_tell, sinkCalls_append, hsink]
      rfl
    | close | complete | error => exact hm.elim
  | stdout id hgot hm =>
    obtain ⟨hout, herr, hsink⟩ := houtput hgot
    subst hm
    left
    have hclose : s.handleMessage (.close id .stdout) =
        tell (.close .stdout) { s with stdoutClosed := true } := by
      unfold handleMessage
      rw [if_pos ⟨hcompletion, hid⟩]
      simp only [closeOutput, TerminalSession.closed, hout, Bool.false_eq_true, if_false]
    rw [hclose]
    refine ⟨hcompletion, rfl, by rw [record_tell]; rfl, .half got id hgot rfl ⟨rfl, herr⟩ ?_⟩
    rw [record_tell]
    show s.record.sink ++ _ = _
    rw [hsink]
  | stderr front id id' hfront hgot hm =>
    subst hm hgot
    left
    have hhalf : s.stdoutClosed = true ∧ s.stderrClosed = false ∧
        s.record.sink = sinkCalls front ++ [.close .stdout] := by
      cases h with
      | output hopen => exact absurd (hfinal id .stdout) (hopen _ (by simp))
      | half front' id'' _ hgot hclosed hsink =>
        obtain ⟨rfl, -⟩ := append_inj' hgot rfl
        exact ⟨hclosed.1, hclosed.2, hsink⟩
      | closed front' id'' id₃ _ hgot =>
        have hlast := congrArg List.getLast? hgot
        simp at hlast
    obtain ⟨hout, herr, hsink⟩ := hhalf
    have hclose : s.handleMessage (.close id' .stderr) =
        tell (.close .stderr) { s with stderrClosed := true } := by
      unfold handleMessage
      rw [if_pos ⟨hcompletion, hid⟩]
      simp only [closeOutput, TerminalSession.closed, herr, Bool.false_eq_true, if_false]
    rw [hclose]
    refine ⟨hcompletion, rfl, by rw [record_tell]; rfl,
      .closed front id id' hfront (by simp) ⟨hout, rfl⟩ ?_⟩
    rw [record_tell]
    show s.record.sink ++ _ = _
    rw [hsink, append_assoc]
    rfl
  | answer front id id' hfront hgot hm hrest =>
    right
    subst hgot
    obtain ⟨outcome, hsome⟩ := Option.isSome_iff_exists.1 hm
    have hclosed : s.stdoutClosed = true ∧ s.stderrClosed = true ∧ s.record.sink =
        sinkCalls front ++ [.close .stdout, .close .stderr] := by
      cases h with
      | output hopen => exact absurd (hfinal id .stdout) (hopen _ (by simp))
      | half front' id'' _ hgot =>
        have hlast := congrArg List.getLast? hgot
        simp at hlast
      | closed front' id'' id₃ _ hgot hclosed hsink =>
        obtain ⟨rfl, -⟩ := append_inj' hgot rfl
        exact ⟨hclosed.1, hclosed.2, hsink⟩
    obtain ⟨hcompletion', hrecord⟩ := record_finish outcome (.inr hclosed)
    rw [hfinish hsome]
    refine ⟨hcompletion', hrest, outcome, hsome, ?_⟩
    rw [hrecord, sinkCalls_append, sinkCalls_append, sinkCalls_of_outcome hm]
    simp [sinkCalls]
  | refusal hgot hm hrest =>
    right
    subst hgot
    obtain ⟨outcome, hsome⟩ := Option.isSome_iff_exists.1 hm
    obtain ⟨hcompletion', hrecord⟩ := record_finish outcome (.inl (houtput open_nil))
    rw [hfinish hsome]
    refine ⟨hcompletion', hrest, outcome, hsome, ?_⟩
    rw [hrecord, nil_append, sinkCalls_of_outcome hm]
    rfl

end TerminalSession

/-! ### What the worker does to the conversations -/

namespace CommandPost

variable {id : Text} {ms : List CommandPost}

theorem Answered.complete (h : Answered id ms) : Complete ms := by
  obtain ⟨answer, hanswer, front, rfl, -⟩ := h
  refine ⟨answer, by simp, ?_⟩
  cases answer <;> first | rfl | exact hanswer.elim

/-- Nothing can follow the end of a conversation. -/
theorem Answered.eq_nil {ns : List CommandPost} (h : Answered id ms) (h' : Answered id (ms ++ ns)) :
    ns = [] := by
  obtain ⟨answer, -, front, rfl, -⟩ := h
  obtain ⟨answer', -, front', heq, hopen⟩ := h'
  by_contra hne
  -- the first close of the shorter one stands in front of the end of the longer one
  have hlength := congrArg List.length heq
  have hpos := length_pos_of_ne_nil hne
  simp only [length_append, length_cons, length_nil] at hlength
  have hlt : front.length < front'.length := by omega
  have hget := congrArg (·[front.length]?) heq
  simp only [append_assoc, List.getElem?_append_right (Nat.le_refl _), Nat.sub_self,
    List.getElem?_append_left hlt] at hget
  refine hopen (.close id .stdout) (mem_of_getElem? hget.symm) fun hprogress => hprogress

end CommandPost

theorem Held.story {run : ActiveRun} {ms : List CommandPost} (h : CommandWorker.Held run ms) :
    CommandPost.Story ms := by
  cases h with
  | live _ hopen => exact .live hopen
  | ended _ hanswered =>
    obtain ⟨answer, hanswer, front, rfl, hopen⟩ := hanswered
    refine .answered hopen ?_
    cases answer <;> first | rfl | exact hanswer.elim

namespace CommandWorker

variable {w : CommandWorker}

/-- A run whose conversation is complete says nothing more. -/
theorem Speaks.eq_nil {r : ℕ} {ms : List CommandPost} {w' : CommandWorker} (h : Speaks r ms w w')
    {conversation : List CommandPost} (hheld : Held (w.runs.get r) conversation)
    (hcomplete : CommandPost.Complete conversation) : ms = [] := by
  have hheld' := h.held conversation hheld
  cases hheld with
  | live _ hopen => exact absurd hcomplete (not_complete_of_open hopen)
  | ended _ hanswered =>
    cases hheld' with
    | live _ hopen =>
      obtain ⟨m, hm, houtcome⟩ := hanswered.complete
      exact absurd (final_of_outcome houtcome) (hopen m (mem_append_left _ hm))
    | ended _ hanswered' =>
      rw [h.id] at hanswered'
      exact hanswered.eq_nil hanswered'

theorem still_answer {waiter : Starter} {a : CommandPhase.Answer} (h : w.Plain (.answer waiter a)) :
    Still w (w.answer waiter a) := by
  cases waiter with
  | child => exact still_of_runs rfl rfl
  | run r =>
    let answered := (w.runs.get r).phase.answer w.store a
    refine still_modify (f := fun run => { run with phase := answered.1 }) rfl rfl
      { id := rfl, phase := isOver_answer _ _ _, stdoutClosed := rfl, stderrClosed := rfl
        bytes := fun stream => by cases stream <;> rfl, report := ?_ }
    rintro (hspoken | hreport)
    · exact .inl hspoken
    · rcases h with ha | hspoken
      · exact .inr (reportable_answer hreport ha)
      · exact .inl hspoken

/-- What the worker does on its own posts nothing, or goes on with the conversation of one run. -/
theorem effect_work {e : CommandEvent} (he : ¬ e.IsMessage) (hplain : w.Plain e) :
    Still w (w.step e) ∨
      ∃ r < w.runs.next, w.runOf? e = some r ∧ ∃ ms, Speaks r ms w (w.step e) := by
  have hguard {p : Prop} [Decidable p] {w' : CommandWorker} (h : Still w w') :
      Still w (if p then w' else w) := by
    split_ifs
    · exact h
    · exact .refl w
  cases e with
  | run | stdin | stdinEnd | stdinError | resize | cancel => exact absurd trivial he
  | expire timer =>
    left
    cases timer with
    | run r => exact hguard (still_expire r w)
    | child c => exact hguard (still_of_runs (runs_expireChild c w).1 (runs_expireChild c w).2)
  | answer => exact .inl (hguard (still_answer hplain))
  | resume command =>
    cases command with
    | run r =>
      by_cases hknown : w.Known (.run r)
      · have hstep : w.step (.resume (.run r)) = w.resumeRun r := if_pos hknown
        rw [hstep]
        exact .inr ⟨r, hknown, rfl, speaks_resumeRun r w⟩
      · have hstep : w.step (.resume (.run r)) = w := if_neg hknown
        rw [hstep]
        exact .inl (.refl w)
    | child c =>
      exact .inl (hguard (still_of_runs (runs_resumeChild c w).1 (runs_resumeChild c w).2))
  | write writer stream chunk =>
    by_cases hknown : w.Known writer
    swap
    · have hstep : w.step (.write writer stream chunk) = w := if_neg hknown
      rw [hstep]
      exact .inl (.refl w)
    have hstep : w.step (.write writer stream chunk) = w.write writer stream chunk := if_pos hknown
    rw [hstep]
    unfold CommandWorker.write
    split
    · exact .inl (.refl w)
    next bytes hbytes =>
      have hlive (r : ℕ) (hreaches : w.Reaches stream r writer) :
          ¬ (w.runs.get r).phase.IsOver ∨ (w.runs.get r).aborted.isSome = true := by
        refine (or_assoc.2 (hplain r hreaches)).resolve_right ?_
        rw [hbytes]
        exact fun h => Bool.noConfusion h
      cases writer with
      | run r =>
        obtain ⟨ms, -, hspeaks⟩ := postsAt_writeRun r stream bytes w
        exact .inr ⟨r, hknown, rfl, ms, hspeaks (hlive r rfl)⟩
      | child c =>
        obtain ⟨children, heq | ⟨hpasses, heq⟩⟩ := writeChain_cases (w.children.get c).run stream
          bytes (c :: (w.children.get c).above) w
        · dsimp only
          rw [heq]
          exact .inl (still_of_runs rfl rfl)
        · dsimp only
          rw [heq]
          obtain ⟨ms, -, hspeaks⟩ := postsAt_writeRun (w.children.get c).run stream bytes
            { w with children }
          obtain ⟨⟨hnext, hothers, hid, hposts, hids⟩, hheld⟩ := hspeaks (hlive _ ⟨rfl, hpasses⟩)
          exact .inr ⟨_, hknown.2, rfl, ms, ⟨hnext, hothers, hid, hposts, hids⟩, hheld⟩
  | startChild starter fields =>
    exact .inl (hguard (still_of_runs (runs_startChild starter fields w).1
      (runs_startChild starter fields w).2))
  | edit => exact .inl (hguard (still_of_runs rfl rfl))

end CommandWorker

namespace SessionMessage

/-- The message starts a run. -/
def IsRun : SessionMessage → Prop
  | .run _ _ => True
  | _ => False

theorem isOk_terminalResize (columns rows : TerminalDimension) : (terminalResizeFromMessage
    ⟨some (.finite columns.value), some (.finite rows.value)⟩).isOk = true := by
  have hsize (d : TerminalDimension) (field : String) :
      WasmHost.terminalSizeValue (.finite d.value) field = .ok ((d.value : ℚ).num.toNat) := by
    have hvalue : (d.value : ℚ).den = 1 ∧ 0 < (d.value : ℚ) ∧ (d.value : ℚ) < 2 ^ 53 :=
      ⟨rfl, by exact_mod_cast d.pos, by exact_mod_cast d.safe⟩
    simp only [WasmHost.terminalSizeValue]
    rw [if_pos hvalue]
  simp only [terminalResizeFromMessage, Option.getD_some, hsize]
  rfl

/-- A message about a run posts nothing if there is a run for it. -/
theorem effect {m : SessionMessage} (hm : ¬ m.IsRun) (w : CommandWorker) :
    CommandWorker.Still w (w.step m.event) ∨ ∃ id error, m.Asks id ∧
      w.activeRunWith? (some id) = none ∧ w.step m.event = w.postCommandError (some id) error := by
  cases m with
  | run => exact absurd trivial hm
  | stdin id chunk =>
    refine (CommandWorker.effect_onStdin (some id)
      (CommandWorker.pushStdin ⟨some (.bytes chunk), none⟩) w).imp_right ?_
    rintro ⟨hnone, error, heq⟩
    exact ⟨id, error, rfl, hnone, heq⟩
  | stdinEnd id =>
    refine (CommandWorker.effect_onStdin (some id)
      (ByteStream.finish .stdinAlreadyClosed) w).imp_right ?_
    rintro ⟨hnone, error, heq⟩
    exact ⟨id, error, rfl, hnone, heq⟩
  | stdinError id fields =>
    refine (CommandWorker.effect_onStdin (some id)
      (fun _ => .error (errorFromStdinMessage fields)) w).imp_right ?_
    rintro ⟨hnone, error, heq⟩
    exact ⟨id, error, rfl, hnone, heq⟩
  | resize id columns rows =>
    refine (CommandWorker.effect_handleTerminalResize (some id) _ w).imp_right ?_
    rintro ⟨hnone, error, heq⟩
    refine ⟨id, error, rfl, hnone.resolve_right ?_, heq⟩
    rw [isOk_terminalResize]
    exact Bool.noConfusion
  | cancel id => exact .inl (CommandWorker.still_cancel (some id) w)

end SessionMessage

/-- A run message is refused, or makes a run. -/
theorem CommandWorker.effect_runCommand (message : RunMessage) (w : CommandWorker) :
    (∃ id error, w.step (.run message) = w.postCommandError id error ∧
      (id = message.answerId ∨
        ∃ request, normalizeRunMessage message = .ok request ∧ id = some request.id)) ∨
    ∃ request, normalizeRunMessage message = .ok request ∧
      w.step (.run message) =
        { w with runs := w.runs.alloc (.create request), activeRun := some w.runs.next } := by
  simp only [CommandWorker.step, CommandWorker.runCommand]
  cases hmessage : normalizeRunMessage message with
  | error error => exact .inl ⟨_, error, rfl, .inl rfl⟩
  | ok request =>
    cases w.activeRun with
    | some => exact .inl ⟨_, _, rfl, .inr ⟨request, rfl, rfl⟩⟩
    | none => exact .inr ⟨request, rfl, rfl⟩

end WasmHost
