import WasmHost.Lib.Except
import WasmHost.Web.TerminalStories

/-!
# What a terminal reports of its runs

The outcome that settles the promise of a start and what the sink is told in between are those of
the run that the worker has made of that start, in every run of the system in which no id is used
again while a message with it is under way (`Terminal.Clear`). While a session listens, the posts
with its id that are still to come are the rest of what the worker has posted for its run, and only
behind the terminal one of them there may be others (`Terminal.Listens`).
-/

namespace WasmHost

open List Conversation

namespace Terminal

/-- What became of a start is what the worker has posted for its run: the promise is settled once at
most and with the outcome of the run, and the sink is told all of the output in order, the close of
either stream, and the exit. -/
structure Reports (t : Terminal) (k : ℕ) : Prop where
  once : (t.session.records k).settlements.length ≤ 1
  pending : (t.session.records k).settlements = [] →
    (t.session.records k).sink <+:
      CommandPost.sinkCalls (t.produced k) ++ [.close .stdout, .close .stderr]
  settled : ∀ settlement ∈ (t.session.records k).settlements,
    ∃ m outcome, (t.produced k).getLast? = some m ∧ m.outcome? = some outcome ∧
      settlement = outcome.settlement ∧ (t.session.records k).sink =
        CommandPost.sinkCalls (t.produced k) ++ [.close .stdout, .close .stderr, .exit outcome]

/-- Nothing is under way, and the worker has nothing to do. -/
def Quiet (t : Terminal) : Prop :=
  t.sent = [] ∧ t.received = t.worker.posts.length ∧ t.worker.activeRun = none

/-- Every start is reported, and those that are over or cannot go on are settled. -/
def AllReported (t : Terminal) : Prop :=
  ∀ k < t.session.starts, t.Reports k ∧
    (k + 1 < t.session.starts ∨ t.Quiet → (t.session.records k).settlements ≠ [])

end Terminal

/-! ### The condition -/

/-- A start takes an id that no message under way has, in either direction, and the run that the
worker makes of it has no other one. -/
def Terminal.Clear (t : Terminal) : TerminalEvent → Prop
  | .call (.start run) => ∀ message session id,
    t.session.start run = some (message, session) → session.id = some id →
      (∀ m ∈ t.sent, ¬ m.Asks id) ∧
      (∀ m ∈ t.worker.posts.drop t.received, m.id ≠ some id) ∧
      ∀ request, normalizeRunMessage message = .ok request → request.id = id
  | .work e => t.worker.Plain e
  | _ => True

namespace Terminal

/-! ### The invariant -/

/-- A message about the run with the id, if it is answered at all. -/
def Follows (id : Text) (m : SessionMessage) : Prop := ¬ m.IsRun ∧ ∀ id', m.Asks id' → id' = id

/-- The posts with an id that are still to come. -/
def coming (t : Terminal) (id : Text) : List CommandPost :=
  of CommandPost.id (some id) (t.worker.posts.drop t.received)

/-- Where the run of a start is: its message is under way, it was refused, or the worker has it. -/
inductive Whereabouts (t : Terminal) (k : ℕ) (id : Text) : Prop
  | waiting (older newer : List SessionMessage) (message : RunMessage)
    (hsent : t.sent = older ++ .run k message :: newer)
    (holder : ∀ m ∈ older, ¬ m.IsRun ∧ ¬ m.Asks id) (hnewer : ∀ m ∈ newer, Follows id m)
    (hid : message.answerId = some id)
    (hrequest : ∀ request, normalizeRunMessage message = .ok request → request.id = id)
    (hnone : ∀ r < t.worker.runs.next, t.startOf r ≠ k) (hempty : t.produced k = [])
  | refused (hsent : ∀ m ∈ t.sent, Follows id m) (hnone : ∀ r < t.worker.runs.next, t.startOf r ≠ k)
    (error : CommandError) (hproduced : t.produced k = [.error (some id) error 0 0])
  | arrived (hsent : ∀ m ∈ t.sent, Follows id m) (r : ℕ) (hr : r < t.worker.runs.next)
    (hstart : t.startOf r = k) (hid : (t.worker.runs.get r).id = id)

/-- The session listens for the run of the last start. Of what the worker has posted for that it has
got a part and the rest is to come; something else with the id comes only behind the end. -/
structure Listens (t : Terminal) (id : Text) (got rest late : List CommandPost) : Prop where
  named : t.session.id = some id
  starts : 0 < t.session.starts
  unsettled : t.session.record.settlements = []
  produced : t.produced (t.session.starts - 1) = got ++ rest
  coming : t.coming id = rest ++ late
  late : late = [] ∨ CommandPost.Complete (t.produced (t.session.starts - 1))
  shows : t.session.Shows got
  whereabouts : t.Whereabouts (t.session.starts - 1) id

/-- A start whose promise is settled, as it should be. -/
def Settled (t : Terminal) (k : ℕ) : Prop :=
  ∃ front m outcome, t.produced k = front ++ [m] ∧ m.outcome? = some outcome ∧
    t.session.records k = ⟨CommandPost.sinkCalls (t.produced k) ++
      [.close .stdout, .close .stderr, .exit outcome], [outcome.settlement]⟩

/-- What holds of a terminal in every state of a clear run. -/
structure Sound (t : Terminal) : Prop where
  bound : t.received ≤ t.worker.posts.length
  oneActive : t.worker.OneActive
  startOf_lt : ∀ r < t.worker.runs.next, t.startOf r < t.session.starts
  startOf_inj :
    ∀ r < t.worker.runs.next, ∀ j < t.worker.runs.next, t.startOf r = t.startOf j → r = j
  held : ∀ r < t.worker.runs.next,
    CommandWorker.Held (t.worker.runs.get r) (t.produced (t.startOf r))
  fresh : ∀ k ≥ t.session.starts, t.produced k = [] ∧ t.session.records k = ⟨[], []⟩
  past : ∀ k < t.session.starts,
    k + 1 < t.session.starts ∨ t.session.completion = false → t.Settled k
  idle : t.session.completion = false → ∀ m ∈ t.sent, ¬ m.IsRun
  listens : t.session.completion = true → ∃ id got rest late, t.Listens id got rest late

theorem sound_start (store : Files) : (start store).Sound where
  bound := Nat.le_refl 0
  oneActive := CommandWorker.oneActive_start store
  startOf_lt r hr := absurd hr (Nat.not_lt_zero r)
  startOf_inj r hr := absurd hr (Nat.not_lt_zero r)
  held r hr := absurd hr (Nat.not_lt_zero r)
  fresh _ _ := ⟨rfl, rfl⟩
  past k hk := absurd hk (Nat.not_lt_zero k)
  idle _ _ hm := absurd hm not_mem_nil
  listens h := Bool.noConfusion h

variable {t : Terminal} {k : ℕ}

theorem Settled.complete (h : t.Settled k) : CommandPost.Complete (t.produced k) := by
  obtain ⟨front, m, outcome, hproduced, houtcome, -⟩ := h
  rw [hproduced]
  exact ⟨m, by simp, by rw [houtcome]; rfl⟩

theorem Settled.move {t' : Terminal} (h : t.Settled k) (hproduced : t'.produced k = t.produced k)
    (hrecord : t'.session.records k = t.session.records k) : t'.Settled k := by
  unfold Settled
  rw [hproduced, hrecord]
  exact h

/-- The story of the run that the session listens for. -/
theorem Whereabouts.story (h : t.Sound) {id : Text} (hw : t.Whereabouts k id) :
    CommandPost.Story (t.produced k) := by
  cases hw with
  | waiting _ _ _ _ _ _ _ _ _ hempty =>
    rw [hempty]
    exact .live open_nil
  | refused _ _ error hproduced =>
    rw [hproduced]
    exact .refused rfl
  | arrived _ r hr hstart _ =>
    rw [← hstart]
    exact Held.story (h.held r hr)

end Terminal

namespace Terminal

/-! ### The worker takes a step -/

variable {t : Terminal} {w : CommandWorker} {ms : List CommandPost}

/-- What is still to come when the worker has posted more. -/
theorem coming_append (hbound : t.received ≤ t.worker.posts.length) (ms : List CommandPost)
    (id : Text) :
    of CommandPost.id (some id) ((t.worker.posts ++ ms).drop t.received) =
      t.coming id ++ of CommandPost.id (some id) ms := by
  rw [drop_append_of_le_length hbound, of_append]
  rfl

theorem Sound.bound_of_posts (h : t.Sound) (hposts : w.posts = t.worker.posts ++ ms) :
    t.received ≤ w.posts.length := by
  rw [hposts, length_append]
  exact Nat.le_add_right_of_le h.bound

/-- A step of the worker that leaves the runs alike, and posts nothing for the run that the session
listens for, unless that is over. -/
theorem Sound.of_alike (h : t.Sound)
    {sent : List SessionMessage} (hone : w.OneActive) (hnext : w.runs.next = t.worker.runs.next)
    (halike : ∀ r, CommandWorker.Alike (t.worker.runs.get r) (w.runs.get r))
    (hposts : w.posts = t.worker.posts ++ ms)
    (hidle : t.session.completion = false → ∀ m ∈ sent, ¬ m.IsRun)
    (hwhereabouts : ∀ id, t.session.id = some id → t.Whereabouts (t.session.starts - 1) id →
      { t with worker := w, sent := sent }.Whereabouts (t.session.starts - 1) id ∧
        (of CommandPost.id (some id) ms = [] ∨
          CommandPost.Complete (t.produced (t.session.starts - 1)))) :
    Sound { t with worker := w, sent := sent } where
  bound := h.bound_of_posts hposts
  oneActive := hone
  startOf_lt r hr := h.startOf_lt r (hnext ▸ hr)
  startOf_inj r hr j hj := h.startOf_inj r (hnext ▸ hr) j (hnext ▸ hj)
  held r hr := (h.held r (hnext ▸ hr)).alike (halike r)
  fresh := h.fresh
  past := h.past
  idle := hidle
  listens hcompletion := by
    obtain ⟨id, got, rest, late, hl⟩ := h.listens hcompletion
    obtain ⟨hw, hms⟩ := hwhereabouts id hl.named hl.whereabouts
    have hcoming : coming { t with worker := w, sent := sent } id =
        rest ++ (late ++ of CommandPost.id (some id) ms) := by
      show of CommandPost.id (some id) (w.posts.drop t.received) = _
      rw [hposts, coming_append h.bound, hl.coming, append_assoc]
    refine ⟨id, got, rest, _, hl.named, hl.starts, hl.unsettled, hl.produced, hcoming, ?_, hl.shows,
      hw⟩
    rcases hms with hms | hcomplete
    · rw [hms, append_nil]
      exact hl.late
    · exact .inr hcomplete

theorem newPosts_of_posts {w' : CommandWorker} (h : w'.posts = w.posts ++ ms) :
    newPosts w w' = ms := by
  rw [newPosts, h, drop_left]

/-- A run is where it was as long as the worker has the same runs and what it has posted for this
one stays the same, also when a message about a run has arrived. -/
theorem Whereabouts.move {t' : Terminal} {k : ℕ} {id : Text} (h : t.Whereabouts k id)
    (hsent : t'.sent = t.sent ∨ ∃ m, ¬ m.IsRun ∧ t.sent = m :: t'.sent)
    (hnext : t'.worker.runs.next = t.worker.runs.next)
    (hids : ∀ r, (t'.worker.runs.get r).id = (t.worker.runs.get r).id)
    (hstartOf : t'.startOf = t.startOf) (hproduced : t'.produced k = t.produced k) :
    t'.Whereabouts k id := by
  have hmem : ∀ m ∈ t'.sent, m ∈ t.sent := by
    rcases hsent with heq | ⟨n, -, heq⟩ <;> rw [heq]
    · exact fun m hm => hm
    · exact fun m hm => mem_cons_of_mem n hm
  have hnone (h : ∀ r < t.worker.runs.next, t.startOf r ≠ k) :
      ∀ r < t'.worker.runs.next, t'.startOf r ≠ k := by
    rw [hnext, hstartOf]
    exact h
  cases h with
  | waiting older newer message hold holder hnewer hid hrequest hearlier hempty =>
    rcases hsent with heq | ⟨m, hm, heq⟩
    · exact .waiting older newer message (heq.trans hold) holder hnewer hid hrequest
        (hnone hearlier)
        (hproduced.trans hempty)
    · cases older with
      | nil =>
        cases heq.symm.trans hold
        exact absurd trivial hm
      | cons o older =>
        exact .waiting older newer message (List.cons.inj (heq.symm.trans hold)).2
          (fun n hn => holder n (mem_cons_of_mem _ hn)) hnewer hid hrequest (hnone hearlier)
          (hproduced.trans hempty)
  | refused hfollows hearlier error herror =>
    exact .refused (fun m hm => hfollows m (hmem m hm)) (hnone hearlier) error
      (hproduced.trans herror)
  | arrived hfollows r hr hstart hid =>
    exact .arrived (fun m hm => hfollows m (hmem m hm)) r (hnext.symm ▸ hr)
      ((congrFun hstartOf r).trans hstart) ((hids r).trans hid)

/-- The run of a start that is over has nothing more to say. -/
theorem Sound.speaks_nil (h : t.Sound) {r : ℕ} (hr : r < t.worker.runs.next)
    (hspeaks : CommandWorker.Speaks r ms t.worker w)
    (hcomplete : CommandPost.Complete (t.produced (t.startOf r))) : ms = [] :=
  hspeaks.eq_nil (h.held r hr) hcomplete

theorem Sound.work (h : t.Sound) {e : CommandEvent} (he : ¬ e.IsMessage)
    (hplain : t.worker.Plain e) :
    (t.work e).Sound := by
  have hone := h.oneActive.step e
  rcases CommandWorker.effect_work he hplain with hstill | ⟨r, hr, hrun, ms, hspeaks⟩
  · have hnil : newPosts t.worker (t.worker.step e) = [] :=
      newPosts_of_posts (by rw [hstill.posts, append_nil])
    have hwork : t.work e = { t with worker := t.worker.step e } := by
      unfold Terminal.work
      cases t.worker.runOf? e with
      | none => rfl
      | some =>
        dsimp only
        rw [hnil, append_nil, Function.update_eq_self]
    rw [hwork]
    exact h.of_alike hone hstill.next hstill.alike (by rw [hstill.posts, append_nil]) h.idle
      fun id _ hw =>
        ⟨hw.move (.inl rfl) hstill.next (fun r => (hstill.alike r).id) rfl rfl, .inl rfl⟩
  · have hwork : t.work e =
        { t with
          worker := t.worker.step e
          produced :=
            Function.update t.produced (t.startOf r) (t.produced (t.startOf r) ++ ms) } := by
      unfold Terminal.work
      rw [hrun]
      dsimp only
      rw [newPosts_of_posts hspeaks.posts]
    have hids (j : ℕ) : ((t.worker.step e).runs.get j).id = (t.worker.runs.get j).id := by
      by_cases hj : j = r
      · rw [hj, hspeaks.id]
      · rw [hspeaks.others j hj]
    -- nothing is added to the story of another start, or of one that is over
    have hother {k : ℕ} (hk : t.Settled k) :
        Function.update t.produced (t.startOf r) (t.produced (t.startOf r) ++ ms) k =
          t.produced k := by
      by_cases hkr : k = t.startOf r
      · subst hkr
        rw [h.speaks_nil hr hspeaks hk.complete, append_nil, Function.update_eq_self]
      · exact Function.update_of_ne hkr ..
    rw [hwork]
    refine ⟨h.bound_of_posts hspeaks.posts, hone, fun j hj => ?_, fun j hj i hi => ?_,
      fun j hj => ?_, fun k hk => ?_, fun k hk hpast => ?_, h.idle, fun hcompletion => ?_⟩
    · exact h.startOf_lt j (hspeaks.next ▸ hj)
    · exact h.startOf_inj j (hspeaks.next ▸ hj) i (hspeaks.next ▸ hi)
    · have hj' : j < t.worker.runs.next := hspeaks.next ▸ hj
      show CommandWorker.Held ((t.worker.step e).runs.get j)
        (Function.update t.produced (t.startOf r) _ (t.startOf j))
      by_cases hjr : j = r
      · subst hjr
        rw [Function.update_self]
        exact hspeaks.held _ (h.held j hj')
      · have hne : t.startOf j ≠ t.startOf r := fun heq => hjr (h.startOf_inj j hj' r hr heq)
        rw [Function.update_of_ne hne, hspeaks.others j hjr]
        exact h.held j hj'
    · refine ⟨?_, (h.fresh k hk).2⟩
      have hne : k ≠ t.startOf r := Nat.ne_of_gt (Nat.lt_of_lt_of_le (h.startOf_lt r hr) hk)
      show Function.update t.produced (t.startOf r) _ k = []
      rw [Function.update_of_ne hne]
      exact (h.fresh k hk).1
    · have hsettled := h.past k hk hpast
      exact hsettled.move (hother hsettled) rfl
    · obtain ⟨id, got, rest, late, hl⟩ := h.listens hcompletion
      have hbound := h.bound
      by_cases hk : t.startOf r = t.session.starts - 1
      · -- the run that the session listens for
        have hmsid : ∀ m ∈ ms, m.id = some id := by
          cases hl.whereabouts with
          | waiting _ _ _ _ _ _ _ _ hnone | refused _ hnone => exact absurd hk (hnone r hr)
          | arrived _ r' hr' hstart hid =>
            obtain rfl : r = r' := h.startOf_inj r hr r' hr' (hk.trans hstart.symm)
            rw [← hid]
            exact hspeaks.ids
        have hproduced : Function.update t.produced (t.startOf r)
            (t.produced (t.startOf r) ++ ms) (t.session.starts - 1) = got ++ (rest ++ ms) := by
          rw [hk, Function.update_self, hl.produced, append_assoc]
        have hcoming : t.coming id ++ of CommandPost.id (some id) ms = (rest ++ ms) ++ late := by
          rw [hl.coming, of_of_forall _ hmsid]
          rcases hl.late with rfl | hcomplete
          · simp
          · have hnil := h.speaks_nil hr hspeaks (by rw [hk]; exact hcomplete)
            simp [hnil]
        refine ⟨id, got, rest ++ ms, late, hl.named, hl.starts, hl.unsettled, hproduced, ?_, ?_,
          hl.shows, ?_⟩
        · show of CommandPost.id (some id) ((t.worker.step e).posts.drop t.received) = _
          rw [hspeaks.posts, coming_append hbound, hcoming]
        · rcases hl.late with hlate | hcomplete
          · exact .inl hlate
          · right
            have hnil := h.speaks_nil hr hspeaks (by rw [hk]; exact hcomplete)
            rw [hnil, append_nil, Function.update_eq_self]
            exact hcomplete
        · cases hl.whereabouts with
          | waiting _ _ _ _ _ _ _ _ hnone | refused _ hnone => exact absurd hk (hnone r hr)
          | arrived hsent r' hr' hstart hid =>
            exact .arrived hsent r' (hspeaks.next.symm ▸ hr') hstart ((hids r').trans hid)
      · -- a run of an earlier start
        have hlt := h.startOf_lt r hr
        have hsettled := h.past (t.startOf r) hlt (.inl (by omega))
        obtain rfl := h.speaks_nil hr hspeaks hsettled.complete
        have hsame : Function.update t.produced (t.startOf r) (t.produced (t.startOf r) ++ []) =
            t.produced := by
          rw [append_nil, Function.update_eq_self]
        rw [hsame]
        refine ⟨id, got, rest, late, hl.named, hl.starts, hl.unsettled, hl.produced, ?_, hl.late,
          hl.shows, hl.whereabouts.move (.inl rfl) hspeaks.next hids rfl rfl⟩
        show of CommandPost.id (some id) ((t.worker.step e).posts.drop t.received) = _
        rw [hspeaks.posts, coming_append hbound, hl.coming, of_nil, append_nil]

end Terminal

namespace Terminal

/-! ### A message arrives at the worker -/

variable {t : Terminal} {sent : List SessionMessage} {m : SessionMessage}

theorem receive_cons (hsent : t.sent = m :: sent) (hm : ¬ m.IsRun) :
    t.receive = { t with worker := t.worker.step m.event, sent := sent } := by
  unfold Terminal.receive
  rw [hsent]
  cases m with
  | run => exact absurd trivial hm
  | stdin | stdinEnd | stdinError | resize | cancel => rfl

/-- A message about a run. -/
theorem Sound.receiveFollower (h : t.Sound) (hsent : t.sent = m :: sent) (hm : ¬ m.IsRun) :
    { t with worker := t.worker.step m.event, sent := sent }.Sound := by
  have hone := h.oneActive.step m.event
  have hidle : t.session.completion = false → ∀ n ∈ sent, ¬ n.IsRun := fun hcompletion n hn =>
    h.idle hcompletion n (hsent ▸ mem_cons_of_mem m hn)
  -- one message less is under way, and the run is where it was
  have hmove {w : CommandWorker} {k : ℕ} {id : Text} (hw : t.Whereabouts k id)
      (hnext : w.runs.next = t.worker.runs.next)
      (halike : ∀ r, CommandWorker.Alike (t.worker.runs.get r) (w.runs.get r)) :
      { t with worker := w, sent := sent }.Whereabouts k id :=
    hw.move (.inr ⟨m, hm, hsent⟩) hnext (fun r => (halike r).id) rfl rfl
  rcases SessionMessage.effect hm t.worker with hstill | ⟨id', error, hasks, hnone, heq⟩
  · exact h.of_alike hone hstill.next hstill.alike (by rw [hstill.posts, append_nil]) hidle
      fun id _ hw => ⟨hmove hw hstill.next hstill.alike, .inl rfl⟩
  · have hposts : (t.worker.step m.event).posts =
        t.worker.posts ++ [.error (some id') error 0 0] := by rw [heq]; rfl
    have hruns : (t.worker.step m.event).runs = t.worker.runs := by rw [heq]; rfl
    have halike (r : ℕ) :
        CommandWorker.Alike (t.worker.runs.get r) ((t.worker.step m.event).runs.get r) := by
      rw [hruns]
      exact .refl _
    refine h.of_alike hone (by rw [hruns]) halike hposts hidle fun id _ hw =>
      ⟨hmove hw (by rw [hruns]) halike, ?_⟩
    by_cases hid : id' = id
    swap
    · left
      refine of_of_forall_ne _ fun n hn heq' => hid ?_
      rw [mem_singleton.1 hn] at heq'
      exact Option.some.inj heq'
    -- the message is about the run of the session, which is not there any more
    subst hid
    right
    cases hw with
    | waiting older newer message hold holder =>
      rw [hsent] at hold
      cases older with
      | nil =>
        cases hold
        exact absurd trivial hm
      | cons =>
        cases hold
        exact absurd hasks (holder m mem_cons_self).2
    | refused _ _ error' hproduced =>
      rw [hproduced]
      exact ⟨_, mem_singleton_self _, rfl⟩
    | arrived _ r hr hstart hid =>
      rw [← hstart]
      cases h.held r hr with
      | ended _ hanswered => exact hanswered.complete
      | live hphase =>
        have hactive := h.oneActive r hr hphase
        rw [CommandWorker.activeRunWith?, hactive] at hnone
        simp [hid] at hnone

/-- The message of a start. -/
theorem Sound.receiveRun (h : t.Sound) {k : ℕ} {message : RunMessage}
    (hsent : t.sent = .run k message :: sent) : t.receive.Sound := by
  have hone := h.oneActive.step (.run message)
  have hcompletion : t.session.completion = true := by
    by_contra hfalse
    exact h.idle (by simpa using hfalse) (.run k message) (hsent ▸ mem_cons_self) trivial
  obtain ⟨id, got, rest, late, hl⟩ := h.listens hcompletion
  -- it is the one of the run that the session listens for
  have hwaiting : k = t.session.starts - 1 ∧ message.answerId = some id ∧
      (∀ request, normalizeRunMessage message = .ok request → request.id = id) ∧
      (∀ m ∈ sent, Follows id m) ∧ (∀ r < t.worker.runs.next, t.startOf r ≠ k) ∧
      t.produced k = [] := by
    cases hl.whereabouts with
    | waiting older newer message' hold holder hnewer hid hrequest hnone hempty =>
      rw [hsent] at hold
      cases older with
      | nil =>
        cases hold
        exact ⟨rfl, hid, hrequest, hnewer, hnone, hempty⟩
      | cons =>
        cases hold
        exact absurd trivial (holder (.run k message) mem_cons_self).1
    | refused hfollows | arrived hfollows =>
      exact absurd trivial (hfollows (.run k message) (hsent ▸ mem_cons_self)).1
  obtain ⟨rfl, hid, hrequest, hfollows, hnone, hempty⟩ := hwaiting
  have hstarts := hl.starts
  have hreceive : t.receive =
      { t with
        sent := sent
        worker := t.worker.step (.run message)
        startOf := Function.update t.startOf t.worker.runs.next (t.session.starts - 1)
        produced := Function.update t.produced (t.session.starts - 1)
          (newPosts t.worker (t.worker.step (.run message))) } := by
    unfold Terminal.receive
    rw [hsent]
    dsimp only [SessionMessage.event]
    rw [hempty, nil_append]
  have hgot : got = [] ∧ rest = [] := by
    have hproduced := hl.produced
    rw [hempty] at hproduced
    exact append_eq_nil_iff.1 hproduced.symm
  obtain ⟨rfl, rfl⟩ := hgot
  have hlate : late = [] := by
    refine hl.late.resolve_right ?_
    rw [hempty]
    rintro ⟨m, hm, -⟩
    exact not_mem_nil hm
  subst hlate
  have hold (r : ℕ) (hr : r < t.worker.runs.next) :
      Function.update t.startOf t.worker.runs.next (t.session.starts - 1) r = t.startOf r :=
    Function.update_of_ne (Nat.ne_of_lt hr) ..
  have hother (j : ℕ) (hj : j ≠ t.session.starts - 1) (ms : List CommandPost) :
      Function.update t.produced (t.session.starts - 1) ms j = t.produced j :=
    Function.update_of_ne hj ..
  have hnew : Function.update t.startOf t.worker.runs.next (t.session.starts - 1)
      t.worker.runs.next = t.session.starts - 1 := Function.update_self ..
  -- the worker refuses it, or makes a run of it
  obtain ⟨ms, hposts, hget, hmade⟩ : ∃ ms,
      (t.worker.step (.run message)).posts = t.worker.posts ++ ms ∧
        (∀ r < t.worker.runs.next,
          (t.worker.step (.run message)).runs.get r = t.worker.runs.get r) ∧
        ((t.worker.step (.run message)).runs.next = t.worker.runs.next ∧
            (∃ error, ms = [.error (some id) error 0 0]) ∨
          ∃ request, (t.worker.step (.run message)).runs = t.worker.runs.alloc (.create request) ∧
            request.id = id ∧ ms = []) := by
    rcases CommandWorker.effect_runCommand message t.worker with
      ⟨id', error, heq, hid'⟩ | ⟨request, hmessage, heq⟩
    · obtain rfl : id' = some id := by
        rcases hid' with rfl | ⟨request, hmessage, rfl⟩
        · exact hid
        · rw [hrequest request hmessage]
      exact ⟨_, by rw [heq]; rfl, fun r _ => by rw [heq]; rfl, .inl ⟨by rw [heq]; rfl, error, rfl⟩⟩
    · refine ⟨[], by rw [heq, append_nil], fun r hr => ?_,
        .inr ⟨request, by rw [heq], hrequest request hmessage, rfl⟩⟩
      rw [heq]
      exact Heap.get_alloc_of_lt _ _ hr
  have hcases {r : ℕ} (hr : r < (t.worker.step (.run message)).runs.next) :
      r < t.worker.runs.next ∨ r = t.worker.runs.next := by
    rcases hmade with ⟨hnext, -⟩ | ⟨request, hruns, -⟩
    · exact .inl (hnext ▸ hr)
    · rw [hruns, Heap.next_alloc] at hr
      omega
  rw [hreceive, newPosts_of_posts hposts]
  refine ⟨h.bound_of_posts hposts, hone, fun r hr => ?_, fun r hr j hj => ?_, fun r hr => ?_,
    fun j hj => ?_, fun j hj hor => ?_, fun hfalse => ?_, fun _ => ⟨id, [], ms, [], hl.named,
      hstarts, hl.unsettled, Function.update_self .., ?_, .inl rfl, hl.shows, ?_⟩⟩
  · show Function.update t.startOf _ _ r < t.session.starts
    rcases hcases hr with hr | rfl
    · rw [hold r hr]
      exact h.startOf_lt r hr
    · rw [hnew]
      omega
  · show Function.update t.startOf _ _ r = Function.update t.startOf _ _ j → r = j
    rcases hcases hr with hr | rfl <;> rcases hcases hj with hj | rfl
    · rw [hold r hr, hold j hj]
      exact h.startOf_inj r hr j hj
    · rw [hold r hr, hnew]
      exact fun heq => absurd heq (hnone r hr)
    · rw [hold j hj, hnew]
      exact fun heq => absurd heq.symm (hnone j hj)
    · exact fun _ => rfl
  · show CommandWorker.Held ((t.worker.step (.run message)).runs.get r)
      (Function.update t.produced _ _ (Function.update t.startOf _ _ r))
    rcases hcases hr with hr' | rfl
    · rw [hold r hr', hother _ (hnone r hr'), hget r hr']
      exact h.held r hr'
    · rcases hmade with ⟨hnext, -⟩ | ⟨request, hruns, -, rfl⟩
      · exact absurd (hnext ▸ hr) (Nat.lt_irrefl _)
      · rw [hnew, Function.update_self, hruns, Heap.get_alloc_next]
        refine .live (fun hover => hover) open_nil ⟨rfl, rfl⟩ (fun stream => ?_)
          (.inr (by rintro _ ⟨⟩))
        cases stream <;> rfl
  · have hj' : j ≥ t.session.starts := hj
    refine ⟨?_, (h.fresh j hj).2⟩
    show Function.update t.produced _ _ j = []
    rw [hother j (by omega)]
    exact (h.fresh j hj).1
  · have hlt : j + 1 < t.session.starts := hor.resolve_right (by rw [hcompletion]; exact nofun)
    exact (h.past j hj hor).move (hother j (by omega) ms) rfl
  · rw [hcompletion] at hfalse
    cases hfalse
  · show of CommandPost.id (some id)
      ((t.worker.step (.run message)).posts.drop t.received) = _
    have hmsid : ∀ m ∈ ms, m.id = some id := by
      rcases hmade with ⟨-, error, rfl⟩ | ⟨-, -, -, rfl⟩ <;> simp [CommandPost.id]
    rw [hposts, coming_append h.bound, hl.coming, of_of_forall _ hmsid, append_nil,
      nil_append, append_nil]
  · rcases hmade with ⟨hnext, error, rfl⟩ | ⟨request, hruns, hid', -⟩
    · refine .refused hfollows (fun r hr => ?_) error (Function.update_self ..)
      have hr' : r < t.worker.runs.next := hnext ▸ hr
      show Function.update t.startOf _ _ r ≠ _
      rw [hold r hr']
      exact hnone r hr'
    · refine .arrived hfollows t.worker.runs.next ?_ hnew ?_
      · show t.worker.runs.next < (t.worker.step (.run message)).runs.next
        rw [hruns, Heap.next_alloc]
        exact Nat.lt_succ_self _
      · show ((t.worker.step (.run message)).runs.get t.worker.runs.next).id = id
        rw [hruns, Heap.get_alloc_next]
        exact hid'

theorem Sound.receive (h : t.Sound) : t.receive.Sound := by
  cases hsent : t.sent with
  | nil =>
    have hsame : t.receive = t := by
      unfold Terminal.receive
      rw [hsent]
    rw [hsame]
    exact h
  | cons m sent =>
    by_cases hm : m.IsRun
    · cases m with
      | run => exact h.receiveRun hsent
      | stdin | stdinEnd | stdinError | resize | cancel => exact hm.elim
    · rw [receive_cons hsent hm]
      exact h.receiveFollower hsent hm

end Terminal

namespace Terminal

/-! ### A call at the session -/

variable {run : SessionRun} {message : RunMessage} {s s' : TerminalSession} {t : Terminal}
    {id : Text} {request : RunRequest} {c : SessionCall} {m : SessionMessage}

theorem normalizeRunMessage_eq (h : TerminalSession.normalizeRunMessage run = some (id, message)) :
    message.messageId = some id ∧ message.id = run.inner.or (some id) ∧
      id = trim (run.id.getD []) ∧ id ≠ [] := by
  unfold TerminalSession.normalizeRunMessage at h
  simp only [Option.bind_eq_bind] at h
  split_ifs at h with hempty
  obtain ⟨terminal, -, heq⟩ := Option.bind_eq_some_iff.1 h
  cases heq
  exact ⟨rfl, rfl, rfl, hempty⟩

/-- What a start that does not throw leaves. -/
theorem start_eq_some (h : s.start run = some (message, s')) :
    s.completion = false ∧ ∃ id,
      TerminalSession.normalizeRunMessage run = some (id, message) ∧ s' =
        { s with
          id := some id
          completion := true
          stdoutClosed := false
          stderrClosed := false
          starts := s.starts + 1 } := by
  unfold TerminalSession.start at h
  split_ifs at h with hcompletion
  obtain ⟨⟨id, message'⟩, hnormalize, heq⟩ := Option.map_eq_some_iff.1 h
  cases heq
  exact ⟨by simpa using hcompletion, id, hnormalize, rfl⟩

/-- The id of a run that the worker takes. -/
theorem normalizeRunMessage_id (h : normalizeRunMessage message = .ok request) :
    nonEmptyString (message.id.or message.messageId) "startup" = .ok request.id := by
  unfold normalizeRunMessage at h
  obtain ⟨id, hid, h⟩ := Except.bind_eq_ok_iff.1 h
  obtain ⟨args, -, h⟩ := Except.bind_eq_ok_iff.1 h
  obtain ⟨command, -, h⟩ := Except.bind_eq_ok_iff.1 h
  obtain ⟨cwd, -, h⟩ := Except.bind_eq_ok_iff.1 h
  obtain ⟨diagnostics, -, h⟩ := Except.bind_eq_ok_iff.1 h
  obtain ⟨env, -, h⟩ := Except.bind_eq_ok_iff.1 h
  obtain ⟨initialStdin, -, h⟩ := Except.bind_eq_ok_iff.1 h
  obtain ⟨packageId, -, h⟩ := Except.bind_eq_ok_iff.1 h
  obtain ⟨terminal, -, h⟩ := Except.bind_eq_ok_iff.1 h
  obtain ⟨timeoutMs, -, h⟩ := Except.bind_eq_ok_iff.1 h
  cases h
  exact hid

/-- A run that has no other one in it is started under the id that the session reads. -/
theorem request_id_of_start (h : s.start run = some (message, s')) (hid : s'.id = some id)
    (hinner : run.inner = none) (hrequest : normalizeRunMessage message = .ok request) :
    request.id = id := by
  obtain ⟨-, id', hnormalize, rfl⟩ := start_eq_some h
  obtain rfl := Option.some.inj hid
  obtain ⟨-, hmessage, htrim, hne⟩ := normalizeRunMessage_eq hnormalize
  have hname := normalizeRunMessage_id hrequest
  rw [hmessage, hinner, Option.none_or, Option.some_or, nonEmptyString, Option.getD_some, htrim,
    trim_trim, if_neg (htrim ▸ hne)] at hname
  rw [htrim]
  exact (Except.ok.inj hname).symm

/-- What a call but `start` posts is about the run of the session. -/
theorem follows_message? (h : s.message? c = some m) :
    ¬ m.IsRun ∧ ∀ id, m.Asks id → s.id = some id := by
  cases c with
  | start => cases h
  | writeStdin =>
    simp only [TerminalSession.message?, Option.bind_eq_bind] at h
    obtain ⟨bytes, -, h⟩ := Option.bind_eq_some_iff.1 h
    obtain ⟨id, hid, heq⟩ := Option.bind_eq_some_iff.1 h
    cases heq
    exact ⟨fun hrun => hrun, fun id' hasks => by rw [hid, show id = id' from hasks]⟩
  | resize =>
    simp only [TerminalSession.message?, Option.bind_eq_bind] at h
    obtain ⟨size', -, h⟩ := Option.bind_eq_some_iff.1 h
    obtain ⟨id, hid, heq⟩ := Option.bind_eq_some_iff.1 h
    cases heq
    exact ⟨fun hrun => hrun, fun id' hasks => by rw [hid, show id = id' from hasks]⟩
  | closeStdin | errorStdin | cancel =>
    obtain ⟨id, hid, rfl⟩ := Option.map_eq_some_iff.1 h
    refine ⟨fun hrun => hrun, fun id' hasks => ?_⟩
    first | exact hasks.elim | rw [hid, show id = id' from hasks]

/-- A call that posts one more message. -/
theorem Sound.send (h : t.Sound) (hm : ¬ m.IsRun)
    (hasks : ∀ id, m.Asks id → t.session.id = some id) :
    { t with sent := t.sent ++ [m] }.Sound := by
  refine ⟨h.bound, h.oneActive, h.startOf_lt, h.startOf_inj, h.held, h.fresh, h.past,
    fun hcompletion n hn => ?_, fun hcompletion => ?_⟩
  · rcases mem_append.1 hn with hn | hn
    · exact h.idle hcompletion n hn
    · rw [mem_singleton.1 hn]
      exact hm
  · obtain ⟨id, got, rest, late, hl⟩ := h.listens hcompletion
    have hfollows : Follows id m := ⟨hm, fun id' hid' => by
      have hid := hasks id' hid'
      rw [hl.named] at hid
      exact (Option.some.inj hid).symm⟩
    have hsnoc {l : List SessionMessage} (hl : ∀ n ∈ l, Follows id n) :
        ∀ n ∈ l ++ [m], Follows id n := by
      intro n hn
      rcases mem_append.1 hn with hn | hn
      · exact hl n hn
      · rw [mem_singleton.1 hn]
        exact hfollows
    refine ⟨id, got, rest, late, hl.named, hl.starts, hl.unsettled, hl.produced, hl.coming, hl.late,
      hl.shows, ?_⟩
    cases hl.whereabouts with
    | waiting older newer message hsent holder hnewer hid hrequest hnone hempty =>
      refine .waiting older (newer ++ [m]) message ?_ holder
        (hsnoc hnewer) hid hrequest hnone hempty
      rw [hsent, append_assoc, cons_append]
    | refused hsent hnone error hproduced => exact .refused (hsnoc hsent) hnone error hproduced
    | arrived hsent r hr hstart hid => exact .arrived (hsnoc hsent) r hr hstart hid

/-- A start. -/
theorem Sound.start (h : t.Sound) {session : TerminalSession}
    (hstart : t.session.start run = some (message, session)) (hclear : t.Clear (.call (.start run)))
    :
    { t with session, sent := t.sent ++ [SessionMessage.run t.session.starts message] }.Sound := by
  obtain ⟨hcompletion, id, hnormalize, rfl⟩ := start_eq_some hstart
  obtain ⟨hasks, hposts, hrequest⟩ := hclear message _ id hstart rfl
  obtain ⟨hproduced, hrecord⟩ := h.fresh t.session.starts (Nat.le_refl _)
  refine ⟨h.bound, h.oneActive, fun r hr => Nat.lt_succ_of_lt (h.startOf_lt r hr), h.startOf_inj,
    h.held, fun k hk => h.fresh k (Nat.le_of_succ_le hk), fun k hk hpast => ?_, Bool.noConfusion,
    fun _ => ⟨id, [], [], [], rfl, Nat.succ_pos _, ?_, hproduced, ?_, .inl rfl, ?_, ?_⟩⟩
  · -- the starts before this one are over
    have hlt : k < t.session.starts := by
      have hk' : k + 1 < t.session.starts + 1 := hpast.resolve_right (by rintro ⟨⟩)
      omega
    exact h.past k hlt (.inr hcompletion)
  · show (t.session.records t.session.starts).settlements = []
    rw [hrecord]
  · exact of_of_forall_ne _ hposts
  · refine .output open_nil ⟨rfl, rfl⟩ ?_
    show (t.session.records t.session.starts).sink = []
    rw [hrecord]
  · exact .waiting t.sent [] message rfl
      (fun m hm => ⟨h.idle hcompletion m hm, hasks m hm⟩) (by simp)
      (by rw [RunMessage.answerId, (normalizeRunMessage_eq hnormalize).1, Option.some_or]) hrequest
      (fun r hr => Nat.ne_of_lt (h.startOf_lt r hr)) hproduced

theorem Sound.call (h : t.Sound) (hclear : t.Clear (.call c)) : (t.call c).Sound := by
  have hother (hne : ∀ run, c ≠ .start run) : (t.call c).Sound := by
    cases hmessage : t.session.message? c with
    | none =>
      have hsame : t.call c = t := by
        cases c <;> first | exact absurd rfl (hne _) | simp only [Terminal.call, hmessage]
      rw [hsame]
      exact h
    | some m =>
      have hcall : t.call c = { t with sent := t.sent ++ [m] } := by
        cases c <;> first | exact absurd rfl (hne _) | simp only [Terminal.call, hmessage]
      obtain ⟨hm, hasks⟩ := follows_message? hmessage
      rw [hcall]
      exact h.send hm hasks
  cases c with
  | start run =>
    cases hstart : t.session.start run with
    | none =>
      simp only [Terminal.call, hstart]
      exact h
    | some started =>
      obtain ⟨message, session⟩ := started
      simp only [Terminal.call, hstart]
      exact h.start hstart hclear
  | writeStdin | closeStdin | errorStdin | resize | cancel => exact hother (by rintro _ ⟨⟩)

/-! ### A post arrives at the session -/

theorem Sound.deliver (h : t.Sound) : t.deliver.Sound := by
  cases hdrop : t.worker.posts.drop t.received with
  | nil =>
    have hsame : t.deliver = t := by
      unfold Terminal.deliver
      rw [hdrop]
    rw [hsame]
    exact h
  | cons m ms =>
    have hdeliver : t.deliver =
        { t with session := t.session.handleMessage m, received := t.received + 1 } := by
      unfold Terminal.deliver
      rw [hdrop]
    have hlt : t.received < t.worker.posts.length := by
      by_contra hle
      rw [drop_eq_nil_of_le (Nat.le_of_not_lt hle)] at hdrop
      cases hdrop
    have htail : t.worker.posts.drop (t.received + 1) = ms := by
      rw [← drop_drop, hdrop]
      rfl
    obtain ⟨hstarts, hrecords⟩ := TerminalSession.sameStart_handleMessage m t.session
    rw [hdeliver]
    by_cases hours : t.session.completion = true ∧ m.id = t.session.id
    swap
    · -- the session does not listen, or not to this one
      have hsame : t.session.handleMessage m = t.session := if_neg hours
      rw [hsame]
      refine ⟨hlt, h.oneActive, h.startOf_lt, h.startOf_inj, h.held, h.fresh, h.past, h.idle,
        fun hcompletion => ?_⟩
      obtain ⟨id, got, rest, late, hl⟩ := h.listens hcompletion
      have hne : m.id ≠ some id := fun heq => hours ⟨hcompletion, heq.trans hl.named.symm⟩
      refine ⟨id, got, rest, late, hl.named, hl.starts, hl.unsettled, hl.produced, ?_, hl.late,
        hl.shows, hl.whereabouts.move (.inl rfl) rfl (fun _ => rfl) rfl rfl⟩
      show of CommandPost.id (some id) (t.worker.posts.drop (t.received + 1)) = _
      rw [htail, ← hl.coming, coming, hdrop]
      exact (filter_cons_of_neg (by simpa using hne)).symm
    obtain ⟨hcompletion, hmid⟩ := hours
    obtain ⟨id, got, rest, late, hl⟩ := h.listens hcompletion
    have hcoming : m :: of CommandPost.id (some id) ms = rest ++ late := by
      rw [← hl.coming, coming, hdrop]
      exact (filter_cons_of_pos (by simpa using hmid.trans hl.named)).symm
    cases rest with
    | nil =>
      -- behind the end nothing is listened to
      exfalso
      refine hl.shows.not_complete ?_
      have hproduced := hl.produced
      rw [append_nil] at hproduced
      rw [← hproduced]
      refine hl.late.resolve_left ?_
      rintro rfl
      cases hcoming
    | cons m' rest =>
      obtain ⟨rfl, hrest⟩ := List.cons.inj hcoming
      have hstory := hl.whereabouts.story h
      rw [hl.produced] at hstory
      have hpast (k : ℕ) (hk : k + 1 < t.session.starts) :
          { t with session := t.session.handleMessage m, received := t.received + 1 }.Settled k :=
        (h.past k (Nat.lt_of_succ_lt hk) (.inl hk)).move rfl (hrecords k (by omega))
      have hfresh (k : ℕ) (hk : k ≥ (t.session.handleMessage m).starts) :
          t.produced k = [] ∧ (t.session.handleMessage m).records k = ⟨[], []⟩ := by
        have hk' : k ≥ t.session.starts := hstarts ▸ hk
        have := hl.starts
        rw [hrecords k (by omega)]
        exact h.fresh k hk'
      have hlast : (t.session.handleMessage m).starts - 1 = t.session.starts - 1 := by rw [hstarts]
      rcases hl.shows.handle hstory.place hcompletion hmid with
        ⟨hcompletion', hid', hsettlements, hshows⟩ | ⟨hcompletion', rfl, outcome, houtcome, hrecord⟩
      · refine ⟨hlt, h.oneActive, fun r hr => ?_, h.startOf_inj, h.held, hfresh, fun k hk hor => ?_,
          fun hfalse => ?_, fun _ => ⟨id, got ++ [m], rest, late, hid'.trans hl.named, ?_,
            hsettlements.trans hl.unsettled, ?_, ?_, ?_, hshows, ?_⟩⟩
        · show t.startOf r < (t.session.handleMessage m).starts
          rw [hstarts]
          exact h.startOf_lt r hr
        · refine hpast k ?_
          have hk' : k + 1 < (t.session.handleMessage m).starts :=
            hor.resolve_right (by rw [hcompletion']; exact nofun)
          rwa [hstarts] at hk'
        · rw [hcompletion'] at hfalse
          cases hfalse
        · show 0 < (t.session.handleMessage m).starts
          rw [hstarts]
          exact hl.starts
        · show t.produced ((t.session.handleMessage m).starts - 1) = _
          rw [hlast, hl.produced, append_assoc]
          rfl
        · show of CommandPost.id (some id) (t.worker.posts.drop (t.received + 1)) = _
          rw [htail]
          exact hrest
        · show late = [] ∨
            CommandPost.Complete (t.produced ((t.session.handleMessage m).starts - 1))
          rw [hlast]
          exact hl.late
        · show Whereabouts _ ((t.session.handleMessage m).starts - 1) id
          rw [hlast]
          exact hl.whereabouts.move (.inl rfl) rfl (fun _ => rfl) rfl rfl
      · -- the promise is settled
        have hproduced : t.produced (t.session.starts - 1) = got ++ [m] := hl.produced
        refine ⟨hlt, h.oneActive, fun r hr => ?_, h.startOf_inj, h.held, hfresh, fun k hk hor => ?_,
          fun _ n hn => ?_, fun htrue => ?_⟩
        · show t.startOf r < (t.session.handleMessage m).starts
          rw [hstarts]
          exact h.startOf_lt r hr
        · have hk' : k < t.session.starts := hstarts ▸ hk
          by_cases hkl : k = t.session.starts - 1
          · subst hkl
            refine ⟨got, m, outcome, hproduced, houtcome, ?_⟩
            rw [← hlast]
            show (t.session.handleMessage m).record = _
            rw [hrecord, hl.unsettled, hlast]
            rw [hproduced]
            rfl
          · exact hpast k (by omega)
        · cases hl.whereabouts with
          | waiting _ _ _ _ _ _ _ _ _ hempty =>
            rw [hempty] at hproduced
            simp at hproduced
          | refused hsent | arrived hsent => exact (hsent n hn).1
        · rw [hcompletion'] at htrue
          cases htrue

end Terminal

namespace Terminal

/-! ### Runs of the system -/

variable {t : Terminal}

theorem Sound.step {e : TerminalEvent} (h : t.Sound) (hclear : t.Clear e) : (t.step e).Sound := by
  cases e with
  | call => exact h.call hclear
  | receive => exact h.receive
  | work e =>
    show (if e.IsMessage then t else t.work e).Sound
    split_ifs with he
    · exact h
    · exact h.work he hclear
  | deliver => exact h.deliver

theorem Settled.reports {k : ℕ} (h : t.Settled k) : t.Reports k := by
  obtain ⟨front, m, outcome, hproduced, houtcome, hrecord⟩ := h
  refine ⟨by rw [hrecord]; exact Nat.le_refl 1, fun hnil => ?_, fun settlement hmem => ?_⟩
  · rw [hrecord] at hnil
    cases hnil
  · rw [hrecord] at hmem ⊢
    exact ⟨m, outcome, by rw [hproduced]; simp, houtcome, mem_singleton.1 hmem, rfl⟩

theorem Sound.allReported (h : t.Sound) : t.AllReported := by
  intro k hk
  by_cases hpast : k + 1 < t.session.starts ∨ t.session.completion = false
  · have hsettled := h.past k hk hpast
    refine ⟨hsettled.reports, fun _ hnil => ?_⟩
    obtain ⟨_, _, _, _, _, hrecord⟩ := hsettled
    rw [hrecord] at hnil
    cases hnil
  · obtain ⟨hlast, hcompletion⟩ := not_or.1 hpast
    obtain rfl : k = t.session.starts - 1 := by omega
    obtain ⟨id, got, rest, late, hl⟩ := h.listens (by simpa using hcompletion)
    have hnil : (t.session.records (t.session.starts - 1)).settlements = [] := hl.unsettled
    have hstory := hl.whereabouts.story h
    rw [hl.produced] at hstory
    refine ⟨⟨by rw [hnil]; exact Nat.zero_le 1, fun _ => ?_, fun settlement hmem => ?_⟩,
      fun hor => ?_⟩
    · rw [hl.produced]
      exact hl.shows.isPrefix hstory
    · rw [hnil] at hmem
      exact absurd hmem not_mem_nil
    · -- nothing is to come, so that the end would be there already
      obtain ⟨hsent, hreceived, hactive⟩ := hor.resolve_left hlast
      have hcoming : t.coming id = [] := by
        rw [coming, hreceived, drop_length, of_nil]
      rw [hl.coming] at hcoming
      have hproduced := hl.produced
      rw [(append_eq_nil_iff.1 hcoming).1, append_nil] at hproduced
      refine absurd ?_ hl.shows.not_complete
      rw [← hproduced]
      cases hl.whereabouts with
      | waiting older newer message hold =>
        rw [hsent] at hold
        simp at hold
      | refused _ _ error herror =>
        rw [herror]
        exact ⟨_, mem_singleton_self _, rfl⟩
      | arrived _ r hr hstart =>
        rw [← hstart]
        cases h.held r hr with
        | ended _ hanswered => exact hanswered.complete
        | live hphase =>
          have := h.oneActive r hr hphase
          rw [hactive] at this
          cases this

/-- A terminal whose starts take their ids clear of what is under way reports every run as its
own. -/
theorem allReported_of_clear (store : Files) (es : List TerminalEvent)
    (h : Along step Clear (start store) es) : Always step AllReported (start store) es := by
  have hsound : Always step Sound (start store) es :=
    Always.of_along (fun _ _ ht hclear => Sound.step ht hclear) (sound_start store) h
  exact hsound.mono fun _ ht => ht.allReported

end Terminal

namespace Terminal

/-! ### Two runs -/

/-- A start under the id `a`. -/
def plainStart : SessionRun where
  id := some ['a']
  terminal := none
  inner := none
  fields := { CommandWorker.plainRun "a" "cat" with id := none, messageId := none }

/-- A command that writes and ends. -/
def plainWork : List TerminalEvent :=
  [.call (.start plainStart), .receive,
    .work (.answer (.run 0) (.resolved (.ok ⟨"default".toList, "cat".toList, .none⟩))),
    .work (.resume (.run 0)), .work (.write (.run 0) .stdout (.text "x".toList)),
    .work (.answer (.run 0) (.executed (.ok ⟨.ok 0, none⟩))), .work (.resume (.run 0))]

/-- The id is used again when everything has arrived. -/
theorem allReported_of_clear_again : Always step AllReported (start fun _ => none)
    (plainWork ++
      [.deliver, .deliver, .deliver, .deliver, .deliver, .call (.start plainStart)]) := by
  refine allReported_of_clear _ _ ⟨fun message session id hstart hid => ⟨?_, ?_, ?_⟩, trivial,
    .inl ?_, trivial, ?_, .inl ⟨?_, ?_⟩, trivial, trivial, trivial, trivial, trivial, trivial,
    fun message session id hstart hid => ⟨?_, ?_, ?_⟩, trivial⟩
  · exact fun m hm => absurd hm not_mem_nil
  · exact fun m hm => absurd hm not_mem_nil
  · exact fun request => request_id_of_start hstart hid rfl
  · rintro _ ⟨⟩
  · rintro r rfl
    exact .inl id
  · rintro _ ⟨⟩
  · rintro _ ⟨⟩ _ ⟨⟩
  · exact fun m hm => absurd hm not_mem_nil
  · exact fun m hm => absurd hm not_mem_nil
  · exact fun request => request_id_of_start hstart hid rfl

/-- Input that crosses with the end of a command, and the answer to it that arrives when the id is
used again. -/
theorem not_allReported_lateStdin : ¬ Always step AllReported (start fun _ => none)
    (plainWork ++ [.call .closeStdin, .receive, .deliver, .deliver, .deliver, .deliver, .deliver,
      .call (.start plainStart), .deliver]) := by
  intro h
  obtain ⟨⟨-, -, hsettled⟩, -⟩ := h.last 1 (Nat.lt_succ_self 1)
  obtain ⟨m, outcome, hlast, -⟩ := hsettled
    (.rejected "invalid_request".toList "unknown browser command stdin stream".toList
      "stdio".toList) (mem_singleton_self _)
  cases hlast

end Terminal

end WasmHost
