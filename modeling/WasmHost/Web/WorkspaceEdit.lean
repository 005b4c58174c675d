import WasmHost.Lib.SplitInfix
import WasmHost.Text
import WasmHost.Workspace.Operations

/-!
# Edits of workspace files

The command `workspace-edit` of `codex-browser.js`, which replaces the first occurrence of a text in
a file of the workspace store. The file is decoded, edited as a text and encoded again, so that what
the decoder does not keep is lost: bytes that are no UTF-8, and a byte-order mark at the start.

* `Store.runCodexBrowserWorkspaceEdit`: the command.
* `Store.EditsTargetOnly`: the file changes at the first occurrence of the bytes of the target, and
  nowhere else.
* `editsTargetOnly_iff_editable`: exactly when it does.
-/

namespace WasmHost

open List

open Utf8

/-- A `BrowserCodexBrowserError`. -/
structure CodexBrowserError where
  kind : String
  message : String
  stage : String
  exitCode : Option ℕ
  deriving DecidableEq

/-- The arguments of an edit. -/
structure WorkspaceEditArgs where
  expected : Text
  path : Text
  replacement : Text

/-- An argument that is not empty. -/
def requiredEditArg (value : Option Text) (message : String) : Except CodexBrowserError Text :=
  match value with
  | none | some [] => .error ⟨"invalid_request", message, "startup", some 2⟩
  | some text => .ok text

/-- An argument that may be empty. -/
def optionalEditArg (value : Option Text) : Except CodexBrowserError Text :=
  match value with
  | none => .error ⟨"invalid_request", "codex-browser workspace-edit requires replacement text",
      "startup", some 2⟩
  | some text => .ok text

/-- The arguments of an edit. -/
def workspaceEditArgs (args : List Text) : Except CodexBrowserError WorkspaceEditArgs := do
  let expected ← requiredEditArg args[1]? "codex-browser workspace-edit requires target text"
  let path ← requiredEditArg args[0]?
    "codex-browser workspace-edit requires a workspace file path"
  let replacement ← optionalEditArg args[2]?
  return { expected, path, replacement }

/-- The names of the kinds of a `BrowserWorkspaceError`. -/
def WorkspaceErrorKind.name : WorkspaceErrorKind → String
  | .invalidPath => "invalid_path"
  | .notFile => "not_file"
  | .notFound => "not_found"
  | .notDirectory => "not_directory"
  | .alreadyExists => "already_exists"
  | .notEmpty => "not_empty"
  | .invalidSnapshot => "invalid_snapshot"
  | .invalidContent => "invalid_content"
  | .unsupported => "unsupported"
  | .transport => "transport"

def workspaceEditError (error : WorkspaceError) : CodexBrowserError :=
  ⟨error.kind.name, "codex-browser workspace-edit failed: " ++ error.message, "workspace", some 1⟩

def targetNotFound : CodexBrowserError :=
  ⟨"invalid_request", "codex-browser workspace-edit target text was not found", "runtime", some 1⟩

/-- Where the command looks at the signal. -/
inductive EditStage
  | instantiated | read | written
  deriving DecidableEq

/-- Fails behind an abort. -/
def throwIfEditAborted (aborted : Bool) : Except CodexBrowserError Unit :=
  if aborted then .error ⟨"cancelled", "codex-browser command cancelled", "runtime", some 130⟩
  else .ok ()

/-- What the command writes to standard output as JSON, and returns. -/
structure WorkspaceEditResult where
  afterBytes : ℕ
  beforeBytes : ℕ
  path : Text
  replacements : ℕ
  deriving DecidableEq

/-- The text after the edit. -/
def editedText (current expected replacement : Text) : Option Text :=
  (splitInfix expected current).map fun (before, after) => before ++ replacement ++ after

namespace Store

/-- What the command reads, and the text it is about to write. -/
def readEdit (s : Store) (instantiated : Except CodexBrowserError Unit) (aborted : EditStage → Bool)
    (args : List Text) : Except CodexBrowserError (WorkspaceEditArgs × Bytes × Text) := do
  instantiated
  throwIfEditAborted (aborted .instantiated)
  let edit ← workspaceEditArgs args
  let currentBytes ← (s.readFile edit.path).mapError workspaceEditError
  throwIfEditAborted (aborted .read)
  match editedText (Utf8.textDecode currentBytes) edit.expected edit.replacement with
  | none => .error targetNotFound
  | some next => return (edit, currentBytes, next)

/-- The command: the store after it, and what it returns. Its package may fail to be instantiated,
and it may be cancelled. -/
def runCodexBrowserWorkspaceEdit (s : Store) (now : ℕ)
    (instantiated : Except CodexBrowserError Unit)
    (aborted : EditStage → Bool) (args : List Text) :
    Store × Except CodexBrowserError WorkspaceEditResult :=
  match s.readEdit instantiated aborted args with
  | .error error => (s, .error error)
  | .ok (edit, currentBytes, next) =>
    match s.writeFile now edit.path (encodeText next) with
    | .error error => (s, .error (workspaceEditError error))
    | .ok (written, stat) =>
      (written, do
        throwIfEditAborted (aborted .written)
        return {
          afterBytes := (encodeText next).length
          beforeBytes := currentBytes.length
          path := stat.path
          replacements := 1 })

/-- An edit that nothing interrupts. -/
def workspaceEdit (s : Store) (now : ℕ) (path target replacement : Text) :
    Store × Except CodexBrowserError WorkspaceEditResult :=
  s.runCodexBrowserWorkspaceEdit now (.ok ()) (fun _ => false) [path, target, replacement]

end Store

/-! ### The property -/

/-- The file with the first occurrence of the bytes of the target replaced. -/
def replaceFirst (content : Bytes) (target replacement : Text) : Option Bytes :=
  (splitInfix (encodeText target) content).map fun (before, after) =>
    before ++ encodeText replacement ++ after

/-- The edit replaces the first occurrence of the bytes of the target in the file, keeps every other
byte of it and everything else in the store, and reports the sizes; or there is no occurrence, and
it reports that and keeps the store. -/
def Store.EditsTargetOnly (s : Store) (now : ℕ) (path : Text) (content : Bytes)
    (target replacement : Text) : Prop :=
  match replaceFirst content target replacement with
  | some edited => ∃ written result,
      s.workspaceEdit now path target replacement = (written, .ok result) ∧
        written.readFile path = .ok edited ∧
        written.directories = s.directories ∧
        (∀ k, normalizeWorkspacePath path ≠ .ok k → written.files.get k = s.files.get k) ∧
        result.beforeBytes = content.length ∧ result.afterBytes = edited.length ∧
        result.replacements = 1
  | none => s.workspaceEdit now path target replacement = (s, .error targetNotFound)

/-- The file is UTF-8 without a byte-order mark at its start, or the target is neither in its text
nor in its bytes. -/
def Editable (content : Bytes) (target : Text) : Prop :=
  Utf8.Plain content ∨
    ¬target <:+: Utf8.textDecode content ∧ ¬encodeText target <:+: content

/-- The condition can be checked before an edit. -/
instance (content : Bytes) (target : Text) : Decidable (Editable content target) :=
  inferInstanceAs (Decidable (_ ∨ _ ∧ _))

/-! ### Texts and their bytes -/

variable {target replacement : Text}

theorem splitInfix_encode {text : Text} (hne : target ≠ []) :
    splitInfix (encode target) (encode text) =
      (splitInfix target text).map fun (before, after) =>
        (encode before, encode after) := by
  cases hsplit : splitInfix target text with
  | none =>
    rw [Option.map_none, splitInfix_eq_none_iff]
    rintro ⟨before, after, hinfix⟩
    rw [append_assoc] at hinfix
    obtain ⟨s, u, rfl, -, -⟩ := encode_infix hne hinfix.symm
    refine absurd ⟨s, u, ?_⟩ (splitInfix_eq_none_iff.1 hsplit)
    rw [append_assoc]
  | some parts =>
    obtain ⟨before, after⟩ := parts
    obtain ⟨htext, hfirst⟩ := splitInfix_eq_some_iff.1 hsplit
    rw [Option.map_some, splitInfix_eq_some_iff]
    refine ⟨by simp only [htext, encode_append], fun start rest hcut => ?_⟩
    obtain ⟨s, u, hs, rfl, -⟩ := encode_infix hne hcut
    have hle : before.length ≤ s.length := hfirst s u hs
    have hpre : before <+: s := by
      have hleft : before <+: text := ⟨target ++ after, htext.symm⟩
      exact prefix_of_prefix_length_le hleft ⟨target ++ u, hs.symm⟩ hle
    obtain ⟨more, rfl⟩ := hpre
    rw [encode_append, length_append]
    exact Nat.le_add_right _ _

theorem withoutBom_eq (t : Text) : t = withoutBom t ∨ t = '\uFEFF' :: withoutBom t := by
  cases t with
  | nil => exact .inl rfl
  | cons c t =>
    by_cases hc : c = '\uFEFF'
    · exact .inr (by rw [withoutBom, if_pos hc, hc])
    · exact .inl (by rw [withoutBom, if_neg hc])

/-- In bytes that are no plain text, the edited text is never the edited bytes. -/
theorem edited_ne {before after : Bytes} {s u : Text} (hne : target ≠ [])
    (hplain : ¬Utf8.Plain (before ++ (encode target ++ after)))
    (htext : textDecode (before ++ (encode target ++ after)) = s ++ (target ++ u)) :
    encode (s ++ replacement ++ u) ≠ before ++ encode replacement ++ after := by
  intro hedited
  set content := before ++ (encode target ++ after) with hcontent
  have hhead : ∀ x ∈ (encode target ++ after).head?, ¬Utf8.Continuation x := by
    obtain ⟨x, rest, hx⟩ := exists_cons_of_ne_nil (mt encode_eq_nil_iff.1 hne)
    intro y hy
    refine not_continuation_of_mem_head?_encode (t := target) ?_
    rw [hx] at hy ⊢
    exact hy
  have hfull : decode content = decode before ++ (target ++ decode after) := by
    rw [hcontent, decode_append hhead, decode_encode_append]
  have hbom : decode content = s ++ (target ++ u) ∨
      decode content = '\uFEFF' :: (s ++ (target ++ u)) := by
    rw [← htext]
    exact withoutBom_eq _
  rw [append_assoc before, append_assoc s] at hedited
  rcases append_eq_encode hedited.symm with
    ⟨w, v, hw, rfl, hrest⟩ | ⟨w, c, v, left, right, hw, hcut, rfl, hrest⟩
  · -- both sides of the target are text: only the mark can be missing
    have hv : v = replacement ++ decode after := by
      rw [← decode_encode v, ← hrest, decode_encode_append]
    have hafter : encode (decode after) = after := by
      rw [hv, encode_append] at hrest
      exact (append_cancel_left hrest).symm
    rcases hbom with hbom | hbom
    · apply hplain
      rw [Utf8.Plain, htext, ← hbom, hfull, decode_encode, hcontent]
      simp only [encode_append, hafter]
    · have hlength := congrArg List.length hw
      have hlength' := congrArg List.length (hfull.symm.trans hbom)
      simp only [hv, decode_encode, length_append, length_cons] at hlength hlength'
      omega
  · -- the target stood inside a character, so there is no replacement
    have hnil : replacement = [] := by
      by_contra hreplacement
      obtain ⟨x, right', rfl⟩ := exists_cons_of_ne_nil hcut.right_ne
      obtain ⟨y, rest, hy⟩ :=
        exists_cons_of_ne_nil (mt encode_eq_nil_iff.1 hreplacement)
      have hxy : y = x := by
        rw [hy, cons_append, cons_append, List.cons.injEq] at hrest
        exact hrest.1
      refine not_continuation_of_mem_head?_encode (t := replacement) (b := x) ?_
        (hcut.continuation x mem_cons_self)
      rw [hy, hxy]
      rfl
    subst hnil
    obtain rfl : after = right ++ encode v := by simpa using hrest
    have hdecoded : decode content = w ++ [replacement] ++
        (target ++ (List.replicate right.length replacement ++ v)) := by
      rw [hfull, decode_encode_append, hcut.decode_left, decode_append_encode, hcut.decode_right]
    have hpos : right.length ≠ 0 := by simpa using hcut.right_ne
    rcases hbom with hbom | hbom
    · have hlength := congrArg List.length hw
      have hlength' := congrArg List.length (hdecoded.symm.trans hbom)
      simp only [length_append, length_cons, length_nil, length_replicate] at hlength hlength'
      omega
    · -- the mark stands in neither of the two parts of the character
      have hcount := congrArg (List.count '\uFEFF') hw
      have hcount' := congrArg (List.count '\uFEFF') (hdecoded.symm.trans hbom)
      have hreplacement : replacement ≠ '\uFEFF' := by decide
      simp only [count_append, count_cons_self, count_cons_of_ne hreplacement,
        count_nil, count_replicate, count_cons] at hcount hcount'
      simp only [beq_iff_eq, hreplacement, if_false] at hcount hcount'
      omega

/-- The edited text is the edited bytes exactly in files that are editable. -/
theorem edited_iff_editable {content : Bytes} (hne : target ≠ []) :
    (editedText (textDecode content) target replacement).map encodeText =
        replaceFirst content target replacement ↔
      Editable content target := by
  have hencode : encodeText = encode := funext encodeText_eq_encode
  unfold editedText replaceFirst Editable
  rw [hencode]
  by_cases hplain : Utf8.Plain content
  · have hbytes : content = encode (textDecode content) := hplain.symm
    simp only [hplain, true_or, iff_true]
    nth_rewrite 2 [hbytes]
    rw [splitInfix_encode hne]
    cases splitInfix target (textDecode content) with
    | none => rfl
    | some => simp
  · simp only [hplain, false_or, ← splitInfix_eq_none_iff]
    cases htext : splitInfix target (textDecode content) with
    | none =>
      cases hsplit : splitInfix (encode target) content <;> simp
    | some parts =>
      obtain ⟨s, u⟩ := parts
      cases hsplit : splitInfix (encode target) content with
      | none => simp
      | some cut =>
        obtain ⟨before, after⟩ := cut
        obtain ⟨hcontent, -⟩ := splitInfix_eq_some_iff.1 hsplit
        obtain ⟨hs, -⟩ := splitInfix_eq_some_iff.1 htext
        rw [hcontent] at hplain hs
        have hedited : encode (s ++ replacement ++ u) ≠
            before ++ encode replacement ++ after := edited_ne hne hplain hs
        simpa using hedited

/-! ### The store -/

namespace Store

variable {s : Store} {replacement : Text}

variable {path target : Text} {content : Bytes}

theorem files_of_readFile (h : s.readFile path = .ok content) :
    ∃ k record, normalizeWorkspacePath path = .ok k ∧ s.files.get k = some record ∧
      record.content = content := by
  obtain ⟨k, hk, hread⟩ := Except.bind_eq_ok_iff.1 h
  split at hread
  next record hrecord =>
    obtain rfl : record.content = content := Except.ok.inj hread
    exact ⟨k, record, hk, hrecord, rfl⟩
  · split at hread <;> cases hread

/-- A file that can be read can be written, and nothing else changes. -/
theorem Valid.writeFile_of_readFile (hs : s.Valid) (h : s.readFile path = .ok content) (now : ℕ)
    (next : Bytes) :
    ∃ written stat, s.writeFile now path next = .ok (written, stat) ∧
      written.readFile path = .ok next ∧ written.directories = s.directories ∧
      ∀ k, normalizeWorkspacePath path ≠ .ok k → written.files.get k = s.files.get k := by
  obtain ⟨k, record, hk, hrecord, -⟩ := files_of_readFile h
  have hfile : s.files.has k = true := OrdMap.has_of_get hrecord
  have hdirectory : s.directories.has k = false := hs.disjoint k hfile
  have hroot : k ≠ [] := by
    rintro rfl
    rw [hs.root] at hdirectory
    cases hdirectory
  have hparent : s.requireParentDirectory k = .ok () := by
    have hhas := hs.fileParent k hfile
    have hnot : s.files.has (parentPath k) = false := by
      by_contra hfiles
      rw [hs.disjoint _ (by simpa using hfiles)] at hhas
      cases hhas
    simp [requireParentDirectory, hhas, hnot]
  let entry : StoreFile := ⟨next, now, workspacePath k⟩
  refine ⟨{ s with files := s.files.set k entry }, publicFileStat (workspacePath k) entry,
    ?_, ?_, rfl, ?_⟩
  · refine Except.bind_eq_ok_iff.2 ⟨k, hk, ?_⟩
    rw [if_neg hroot, hdirectory, if_neg Bool.false_ne_true, hparent]
    rfl
  · refine Except.bind_eq_ok_iff.2 ⟨k, hk, ?_⟩
    simp only [OrdMap.get_set_self]
    rfl
  · intro j hj
    refine OrdMap.get_set_ne _ _ ?_
    rintro rfl
    exact hj hk

/-- The arguments are complete when the file can be read. -/
theorem readEdit_of_readFile (h : s.readFile path = .ok content) (hne : target ≠ [])
    (replacement : Text) :
    s.readEdit (.ok ()) (fun _ => false) [path, target, replacement] =
      match editedText (textDecode content) target replacement with
      | none => .error targetNotFound
      | some next => .ok (⟨target, path, replacement⟩, content, next) := by
  have hpath : path ≠ [] := by
    rintro rfl
    obtain ⟨k, -, hk, -⟩ := files_of_readFile h
    cases hk
  have hargs : workspaceEditArgs [path, target, replacement] = .ok ⟨target, path, replacement⟩ := by
    obtain ⟨c, target', rfl⟩ := exists_cons_of_ne_nil hne
    obtain ⟨d, path', rfl⟩ := exists_cons_of_ne_nil hpath
    rfl
  rw [readEdit, hargs]
  show ((s.readFile path).mapError workspaceEditError >>= _) = _
  rw [h]
  rfl

theorem workspaceEdit_of_none (h : s.readFile path = .ok content) (hne : target ≠ [])
    (hnone : editedText (textDecode content) target replacement = none) (now : ℕ) :
    s.workspaceEdit now path target replacement = (s, .error targetNotFound) := by
  rw [workspaceEdit, runCodexBrowserWorkspaceEdit, readEdit_of_readFile h hne, hnone]

theorem Valid.workspaceEdit_of_some (hs : s.Valid) (h : s.readFile path = .ok content)
    (hne : target ≠ []) {next : Text}
    (hsome : editedText (textDecode content) target replacement = some next) (now : ℕ) :
    ∃ written result, s.workspaceEdit now path target replacement = (written, .ok result) ∧
      written.readFile path = .ok (encodeText next) ∧ written.directories = s.directories ∧
      (∀ k, normalizeWorkspacePath path ≠ .ok k → written.files.get k = s.files.get k) ∧
      result.beforeBytes = content.length ∧ result.afterBytes = (encodeText next).length ∧
      result.replacements = 1 := by
  obtain ⟨written, stat, hwrite, hread, hdirectories, hfiles⟩ :=
    hs.writeFile_of_readFile h now (encodeText next)
  refine ⟨written, ⟨(encodeText next).length, content.length, stat.path, 1⟩, ?_, hread,
    hdirectories, hfiles, rfl, rfl, rfl⟩
  rw [workspaceEdit, runCodexBrowserWorkspaceEdit, readEdit_of_readFile h hne, hsome]
  simp only [hwrite]
  rfl

/-- The edit does what is asked exactly when the edited text is the edited bytes. -/
theorem Valid.editsTargetOnly_iff (hs : s.Valid) (h : s.readFile path = .ok content)
    (hne : target ≠ []) (replacement : Text) (now : ℕ) :
    s.EditsTargetOnly now path content target replacement ↔
      (editedText (textDecode content) target replacement).map encodeText =
        replaceFirst content target replacement := by
  unfold EditsTargetOnly
  cases htext : editedText (textDecode content) target replacement with
  | none =>
    have hrun := workspaceEdit_of_none h hne htext now
    cases replaceFirst content target replacement with
    | none | some => simp [hrun]
  | some =>
    obtain ⟨written, result, hrun, hread, hrest⟩ := hs.workspaceEdit_of_some h hne htext now
    cases replaceFirst content target replacement with
    | none => simp [hrun]
    | some =>
      rw [Option.map_some, Option.some.injEq]
      constructor
      · rintro ⟨written', result', hrun', hread', -⟩
        obtain ⟨rfl, -⟩ := Prod.mk.inj (hrun.symm.trans hrun')
        exact Except.ok.inj (hread.symm.trans hread')
      · rintro rfl
        exact ⟨written, result, hrun, hread, hrest⟩

end Store

/-- A store with one file. -/
def Store.single (content : Bytes) : Store :=
  (Store.empty 0).step ⟨0, .writeFile ['f'] content⟩

theorem Store.reach_single (content : Bytes) :
    Reach Store.step (Store.empty 0) (Store.single content) :=
  reach_step Store.step (Store.empty 0) _

theorem Store.readFile_single (content : Bytes) :
    (Store.single content).readFile ['f'] = .ok content := rfl

/-- The edit changes the target only, in every file of every store, exactly when the file is
editable. -/
theorem editsTargetOnly_iff_editable {opened now : ℕ} {s : Store}
    (hs : Reach Store.step (Store.empty opened) s) {path target : Text} {content : Bytes}
    (hfile : s.readFile path = .ok content) (htarget : target ≠ []) (replacement : Text) :
    s.EditsTargetOnly now path content target replacement ↔ Editable content target :=
  ((Store.valid_of_reach hs).editsTargetOnly_iff hfile htarget replacement now).trans
    (edited_iff_editable htarget)

theorem editsTargetOnly_iff_editable_ascii :
    (Store.single [0x61, 0x62]).EditsTargetOnly 0 ['f'] [0x61, 0x62] ['b'] ['c'] ↔
      Editable [0x61, 0x62] ['b'] :=
  editsTargetOnly_iff_editable (Store.reach_single _) (Store.readFile_single _) (by decide) _

/-- The byte before the target is no UTF-8, and does not survive the edit. -/
theorem not_editsTargetOnly_invalid :
    ¬(Store.single [0xFF, 0x61]).EditsTargetOnly 0 ['f'] [0xFF, 0x61] ['a'] ['b'] := by
  have hne : ¬Editable [0xFF, 0x61] ['a'] := by decide
  rw [((Store.valid_of_reach (Store.reach_single _)).editsTargetOnly_iff
    (Store.readFile_single _) (by decide) ['b'] 0), edited_iff_editable (by decide)]
  exact hne

end WasmHost
