import WasmHost.Wasi.Process
import WasmHost.Web.CommandMessages

/-!
# The arguments of executed programs

How the arguments of `proc_exec`, `proc_exec2` and `proc_exec3` reach the program that is executed:
as lines in the memory of the guest, in the request that the raw WASI executor makes of them,
through the bridge of an execution worker, through the command worker, and through the executor of
the package the command belongs to. The executor of WebC packages drops a first argument that has
the name of the command, and the one of raw WASI modules drops nothing.

* `ExecCall.executed`: the arguments that the program is started with.
* `ExecCall.arrivesUnchanged_iff_fits`: exactly when they are its own name and what the guest passed
  behind `argv[0]`.
-/

namespace WasmHost

open List

/-- The name of a command, as a loader makes it. -/
abbrev CommandName := TrimmedText

/-- The fields of a child command that name the program and its arguments. -/
structure ChildCommandRequest where
  args : List Text
  command : Text
  wasixExecArgv0 : Bool
  deriving DecidableEq

/-- A command of a WebC package. -/
structure WebcCommand where
  name : CommandName
  execName : Option CommandName
  mainArgs : List Text

/-- The command that is executed: the command of a raw WASI module, or one of a WebC package. -/
inductive ExecTarget
  | wasiModule (command : CommandName)
  | webc (command : WebcCommand)

/-- A call of the guest. Its arguments are lines in its memory. -/
structure ExecCall where
  how : ExecImport
  env : Bytes
  name : Bytes
  argv0 : Bytes
  args : List Bytes

/-! ### From the guest to the request -/

/-- The arguments in the memory of the guest, one to a line. -/
def ExecCall.argsText (c : ExecCall) : Bytes := List.intercalate [0x0A] (c.argv0 :: c.args)

/-- The request of `throwProcExec`, if the call gets there. -/
def ExecCall.request (c : ExecCall) : Option ChildCommandRequest :=
  if c.how.signal (Utf8.textDecode c.env) (Utf8.textDecode c.name) = .procExec then
    some {
      args := wasixLineList (Utf8.textDecode c.argsText)
      command := trim (Utf8.textDecode c.name)
      wasixExecArgv0 := true }
  else none

/-! ### From the request to the executor -/

/-- `workerChildCommandRequest`: the copy that a guest in a worker posts, or `none` where it
throws. -/
def ChildCommandRequest.workerCopy (value : ChildCommandRequest) : Option ChildCommandRequest :=
  if trim value.command = [] then none
  else some { value with command := trim value.command }

/-- What `normalizeChildCommandRequest` keeps of the name and the arguments. -/
def ChildCommandRequest.normalize (run : ChildCommandRequest) :
    Except CommandError ChildCommandRequest := do
  let args ← normalizeStringList (.items (run.args.map some)) "startup"
  let command ← nonEmptyString (some run.command) "startup"
  return { args, command, wasixExecArgv0 := run.wasixExecArgv0 }

/-! ### The executors -/

/-- The last name of a path. -/
def commandBasename (value : Text) : Text :=
  (((trim value).splitOn '/').filter (· ≠ [])).getLast?.getD (trim value)

def WebcCommand.programName (command : WebcCommand) : Text := (command.execName.getD command.name).1

/-- The first argument is taken for the name of the command. -/
def WebcCommand.Names (command : WebcCommand) (first : Text) : Prop :=
  commandBasename first = commandBasename command.name.1 ∨
    commandBasename first = commandBasename command.programName

/-- Names can be compared. -/
instance (command : WebcCommand) : DecidablePred command.Names := fun first =>
  inferInstanceAs (Decidable (commandBasename first = commandBasename command.name.1 ∨
    commandBasename first = commandBasename command.programName))

/-- The arguments behind the name. -/
def stripWasixExecArgv0 (command : WebcCommand) : List Text → List Text
  | [] => []
  | first :: rest => if command.Names first then rest else first :: rest

/-- The arguments of the program, its own name first. -/
def ExecTarget.programArgs (request : ChildCommandRequest) : ExecTarget → List Text
  | .wasiModule command => command.1 :: request.args
  | .webc command =>
      command.programName :: (command.mainArgs ++
        if request.wasixExecArgv0 then stripWasixExecArgv0 command request.args
        else request.args)

/-- The arguments that the program is started with, by a guest that runs in a worker or not. -/
def ExecCall.executed (c : ExecCall) (inWorker : Bool) (target : ExecTarget) :
    Option (List Text) := do
  let request ← c.request
  let request ← if inWorker then request.workerCopy else some request
  let run ← request.normalize.toOption
  return target.programArgs run

/-! ### The property -/

/-- The name of the program, and the arguments of its package. -/
def ExecTarget.ownArgs : ExecTarget → List Text
  | .wasiModule command => [command.1]
  | .webc command => command.programName :: command.mainArgs

/-- The program is started with its own arguments and the ones behind `argv[0]`, byte by byte. -/
def ExecCall.ArrivesUnchanged (c : ExecCall) (inWorker : Bool) (target : ExecTarget) : Prop :=
  (c.executed inWorker target).map (List.map encodeText) =
    some (target.ownArgs.map encodeText ++ c.args)

/-- The arguments can be compared. -/
instance (c : ExecCall) (inWorker : Bool) (target : ExecTarget) :
    Decidable (c.ArrivesUnchanged inWorker target) := inferInstanceAs (Decidable (_ = _))

/-- The bytes of a line: UTF-8, not empty, and without line ends. -/
def LineBytes (b : Bytes) : Prop := wasixLineList (Utf8.decode b) = [Utf8.decode b] ∧
  encodeText (Utf8.decode b) = b

/-- What is left of `argv[0]`: its lines that are not empty. -/
def ExecCall.argv0Lines (c : ExecCall) : List Text := wasixLineList (Utf8.textDecode c.argv0)

/-- `argv[0]` is nothing that the executor would have to drop, or one line that it drops. -/
def ExecTarget.DropsArgv0 (c : ExecCall) : ExecTarget → Prop
  | .wasiModule _ => c.argv0Lines = []
  | .webc command =>
      (c.argv0Lines = [] ∧ ∀ first ∈ c.args.head?, ¬command.Names (Utf8.decode first)) ∨
        ∃ first, c.argv0Lines = [first] ∧ command.Names first

/-- The later arguments are lines, and the executor of the target deals with `argv[0]`. -/
def ExecCall.Fits (c : ExecCall) (target : ExecTarget) : Prop :=
  (∀ b ∈ c.args, LineBytes b) ∧ target.DropsArgv0 c

/-! ### Lines -/

theorem wasixLineList_append (a b : Text) :
    wasixLineList (a ++ '\n' :: b) = wasixLineList a ++ wasixLineList b := by
  unfold wasixLineList
  rw [splitOnP_append_cons a b (by simp), filter_append]

variable {t line : Text}

theorem ne_nil_of_mem_wasixLineList (h : line ∈ wasixLineList t) : line ≠ [] := by
  unfold wasixLineList at h
  simpa using (mem_filter.1 h).2

/-- The parts of a list do not hold what cuts them apart. -/
theorem not_of_mem_splitOnP {α : Type} {p : α → Bool} {l part : List α} (h : part ∈ l.splitOnP p) :
    ∀ x ∈ part, p x = false := by
  induction l generalizing part with
  | nil =>
    obtain rfl : part = [] := by simpa using h
    simp
  | cons y l ih =>
    rw [splitOnP_cons_eq_if_modifyHead] at h
    obtain ⟨first, rest, hsplit⟩ := exists_cons_of_ne_nil (splitOnP_ne_nil p l)
    rw [hsplit] at h ih
    by_cases hy : p y = true
    · rw [if_pos hy] at h
      rcases mem_cons.1 h with rfl | h
      · simp
      · exact ih h
    · rw [if_neg hy, modifyHead_cons] at h
      rcases mem_cons.1 h with rfl | h
      · intro x hx
        rcases mem_cons.1 hx with rfl | hx
        · simpa using hy
        · exact ih mem_cons_self x hx
      · exact ih (mem_cons_of_mem _ h)

/-- A line has no lines but itself. -/
theorem wasixLineList_of_mem (h : line ∈ wasixLineList t) : wasixLineList line = [line] := by
  have hne := ne_nil_of_mem_wasixLineList h
  unfold wasixLineList at h
  have hends := not_of_mem_splitOnP (mem_filter.1 h).1
  rw [wasixLineList, splitOnP_eq_singleton hends]
  simp [hne]

/-- Line ends cut the bytes of the arguments apart. -/
theorem decode_line_end (a b : Bytes) :
    Utf8.decode (a ++ 0x0A :: b) = Utf8.decode a ++ '\n' :: Utf8.decode b := by
  have hend : ¬Utf8.Continuation 0x0A := by decide
  have hnewline : Utf8.encode ['\n'] = [0x0A] := by decide
  rw [Utf8.decode_append (by simpa using hend)]
  have hcut : Utf8.decode (0x0A :: b) = '\n' :: Utf8.decode b := by
    rw [← singleton_append, ← hnewline, Utf8.decode_encode_append, singleton_append]
  rw [hcut]

theorem textDecode_line_end (a b : Bytes) :
    Utf8.textDecode (a ++ 0x0A :: b) = Utf8.textDecode a ++ '\n' :: Utf8.decode b := by
  unfold Utf8.textDecode
  rw [decode_line_end]
  cases Utf8.decode a with
  | nil => rfl
  | cons c t =>
    show (if c = '\uFEFF' then t ++ '\n' :: Utf8.decode b else c :: (t ++ '\n' :: Utf8.decode b)) =
      (if c = '\uFEFF' then t else c :: t) ++ '\n' :: Utf8.decode b
    split_ifs <;> rfl

theorem wasixLineList_intercalate (first : Bytes) (rest : List Bytes) :
    wasixLineList (Utf8.decode (List.intercalate [0x0A] (first :: rest))) =
      (first :: rest).flatMap fun b => wasixLineList (Utf8.decode b) := by
  induction rest generalizing first with
  | nil => simp
  | cons second rest ih =>
    rw [intercalate_cons_cons, append_assoc, singleton_append, decode_line_end,
      wasixLineList_append, ih]
    rfl

/-- The arguments of the request. -/
theorem wasixLineList_argsText (c : ExecCall) : wasixLineList (Utf8.textDecode c.argsText) =
    c.argv0Lines ++ c.args.flatMap fun b => wasixLineList (Utf8.decode b) := by
  unfold ExecCall.argsText ExecCall.argv0Lines
  cases hargs : c.args with
  | nil => simp
  | cons =>
    rw [intercalate_cons_cons, append_assoc, singleton_append, textDecode_line_end,
      wasixLineList_append, wasixLineList_intercalate]

/-! ### The way of the request -/

@[simp]
theorem normalizeStringList_map_some (args : List Text) (stage : String) :
    normalizeStringList (.items (args.map some)) stage = .ok args := by
  unfold normalizeStringList
  induction args with
  | nil => rfl
  | cons first rest ih =>
    simp only [map_cons, mapM_cons, Option.elim_some, ih]
    rfl

/-- A call that gets to the request has a name. -/
theorem trim_ne_nil_of_signal {how : ExecImport} {env command : Text}
    (h : how.signal env command = .procExec) : trim command ≠ [] := by
  intro hblank
  cases how <;> simp only [ExecImport.signal, throwProcExec, hblank, if_true] at h
  · cases h
  · split_ifs at h
  · split_ifs at h

/-- The request comes through every layer as it was made. -/
theorem ExecCall.executed_of_request {c : ExecCall} (h : c.request ≠ none) (inWorker : Bool)
    (target : ExecTarget) :
    c.executed inWorker target = some (target.programArgs
      ⟨wasixLineList (Utf8.textDecode c.argsText), trim (Utf8.textDecode c.name), true⟩) := by
  have hsignal : c.how.signal (Utf8.textDecode c.env) (Utf8.textDecode c.name) = .procExec := by
    by_contra hnot
    exact h (if_neg hnot)
  have hname := trim_ne_nil_of_signal hsignal
  have hnormal : ∀ args, ChildCommandRequest.normalize
      ⟨args, trim (Utf8.textDecode c.name), true⟩ =
        .ok ⟨args, trim (Utf8.textDecode c.name), true⟩ := by
    intro args
    have hnonempty : nonEmptyString (some (trim (Utf8.textDecode c.name))) "startup" =
        .ok (trim (Utf8.textDecode c.name)) := by
      simp only [nonEmptyString, Option.getD_some, trim_trim, hname, if_false]
    rw [ChildCommandRequest.normalize, normalizeStringList_map_some, hnonempty]
    rfl
  rw [executed, request, if_pos hsignal]
  cases inWorker with
  | false =>
    show (ChildCommandRequest.normalize _).toOption >>= _ = _
    rw [hnormal]
    rfl
  | true =>
    show (ChildCommandRequest.workerCopy _ >>= fun request =>
      request.normalize.toOption >>= fun run => some (target.programArgs run)) = _
    rw [ChildCommandRequest.workerCopy, trim_trim, if_neg hname]
    show (ChildCommandRequest.normalize _).toOption >>= _ = _
    rw [hnormal]
    rfl

/-! ### Arguments and lines -/

variable {args : List Bytes} {lines : List Text}

/-- What is passed on unchanged are the bytes of lines. -/
theorem lineBytes_of_map (hlines : ∀ line ∈ lines, wasixLineList line = [line])
    (h : lines.map encodeText = args) : ∀ b ∈ args, LineBytes b := by
  subst h
  refine forall_mem_map.2 fun line hline => ?_
  rw [LineBytes, utf8Decode_encodeText]
  exact ⟨hlines line hline, rfl⟩

theorem map_encodeText_eq_iff (hargs : ∀ b ∈ args, LineBytes b) :
    lines.map encodeText = args ↔ lines = args.map Utf8.decode := by
  constructor
  · rintro rfl
    rw [map_map]
    refine ((map_congr_left fun line _ => ?_).trans (map_id lines)).symm
    exact utf8Decode_encodeText line
  · rintro rfl
    rw [map_map]
    refine (map_congr_left fun b hb => ?_).trans (map_id args)
    exact (hargs b hb).2

theorem flatMap_wasixLineList (hargs : ∀ b ∈ args, LineBytes b) :
    (args.flatMap fun b => wasixLineList (Utf8.decode b)) = args.map Utf8.decode := by
  induction args with
  | nil => rfl
  | cons first rest ih =>
    rw [flatMap_cons, (hargs first mem_cons_self).1,
      ih fun b hb => hargs b (mem_cons_of_mem _ hb)]
    rfl

/-- The executor leaves the later arguments when `argv[0]` is gone already and none of them has the
name, or when `argv[0]` has it. -/
theorem stripWasixExecArgv0_append (command : WebcCommand) (lines rest : List Text) :
    stripWasixExecArgv0 command (lines ++ rest) = rest ↔
      (lines = [] ∧ ∀ first ∈ rest.head?, ¬command.Names first) ∨
        ∃ first, lines = [first] ∧ command.Names first := by
  cases lines with
  | nil =>
    cases rest with
    | nil => simp [stripWasixExecArgv0]
    | cons first rest =>
      by_cases hnames : command.Names first <;> simp [stripWasixExecArgv0, hnames]
  | cons first more =>
    by_cases hnames : command.Names first
    · simp [stripWasixExecArgv0, hnames]
    · have hlength : first :: (more ++ rest) ≠ rest := by
        intro heq
        have := congrArg List.length heq
        rw [length_cons, length_append] at this
        omega
      simp [stripWasixExecArgv0, hnames, hlength]

/-- The program is started with the arguments of the guest behind `argv[0]` exactly when they
fit. -/
theorem ExecCall.arrivesUnchanged_iff_fits {c : ExecCall} (h : c.request ≠ none) (inWorker : Bool)
    (target : ExecTarget) : c.ArrivesUnchanged inWorker target ↔ c.Fits target := by
  set later := c.args.flatMap fun b => wasixLineList (Utf8.decode b) with hlater
  -- every argument that a program gets from the guest is a line
  have hlines : ∀ line ∈ c.argv0Lines ++ later, wasixLineList line = [line] := by
    intro line hline
    rw [hlater, ← wasixLineList_argsText] at hline
    exact wasixLineList_of_mem hline
  have hstrip : ∀ command, ∀ line ∈ stripWasixExecArgv0 command (c.argv0Lines ++ later),
      wasixLineList line = [line] := by
    intro command line hline
    refine hlines line ?_
    cases hargs : c.argv0Lines ++ later with
    | nil => rwa [hargs] at hline
    | cons first rest =>
      rw [hargs, stripWasixExecArgv0] at hline
      split_ifs at hline
      · exact mem_cons_of_mem _ hline
      · exact hline
  have hall : (∀ b ∈ c.args, LineBytes b) → later = c.args.map Utf8.decode :=
    fun hargs => flatMap_wasixLineList hargs
  rw [ExecCall.ArrivesUnchanged, executed_of_request h, wasixLineList_argsText, Option.map_some,
    Option.some.injEq, ExecCall.Fits]
  cases target with
  | wasiModule command =>
    show encodeText command.1 :: (c.argv0Lines ++ later).map encodeText =
      encodeText command.1 :: c.args ↔ _
    rw [List.cons.injEq, and_iff_right rfl]
    constructor
    · intro hmap
      have hargs := lineBytes_of_map hlines hmap
      rw [map_encodeText_eq_iff hargs, ← hall hargs] at hmap
      exact ⟨hargs, append_left_eq_self.1 hmap⟩
    · rintro ⟨hargs, hnone⟩
      rw [map_encodeText_eq_iff hargs, ← hall hargs]
      exact append_left_eq_self.2 hnone
  | webc command =>
    show ((command.programName :: (command.mainArgs ++
        stripWasixExecArgv0 command (c.argv0Lines ++ later))).map encodeText =
      (command.programName :: command.mainArgs).map encodeText ++ c.args) ↔ _
    rw [← cons_append, map_append, append_right_inj]
    have hhead : (∀ b ∈ c.args, LineBytes b) →
        ((∀ first ∈ later.head?, ¬command.Names first) ↔
          ∀ first ∈ c.args.head?, ¬command.Names (Utf8.decode first)) := by
      intro hargs
      rw [hall hargs, List.head?_map]
      simp
    constructor
    · intro hmap
      have hargs := lineBytes_of_map (hstrip command) hmap
      rw [map_encodeText_eq_iff hargs, ← hall hargs, stripWasixExecArgv0_append,
        hhead hargs] at hmap
      exact ⟨hargs, hmap⟩
    · rintro ⟨hargs, hdrops⟩
      rw [map_encodeText_eq_iff hargs, ← hall hargs, stripWasixExecArgv0_append, hhead hargs]
      exact hdrops

/-- `ls -l`, with its name as the first argument, to a command of a WebC package. -/
theorem ExecCall.arrivesUnchanged_iff_fits_ls :
    let ls : CommandName := ⟨['l', 's'], by decide⟩
    let call : ExecCall := ⟨.procExec, [], [0x6C, 0x73], [0x6C, 0x73], [[0x2D, 0x6C]]⟩
    call.ArrivesUnchanged false (.webc ⟨ls, none, []⟩) ↔ call.Fits (.webc ⟨ls, none, []⟩) :=
  ExecCall.arrivesUnchanged_iff_fits (by decide) false _

/-- A raw WASI module is given `argv[0]` as a parameter. -/
theorem ExecCall.not_arrivesUnchanged_wasiModule :
    ¬ExecCall.ArrivesUnchanged ⟨.procExec, [], [0x6C, 0x73], [0x6C, 0x73], [[0x2D, 0x6C]]⟩ false
      (.wasiModule ⟨['l', 's'], by decide⟩) := by
  decide

end WasmHost
