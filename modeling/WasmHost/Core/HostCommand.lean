import WasmHost.Core.BinaryCursor
import WasmHost.Lib.LexicalPath

/-!
# Where a host command runs

`host_command.rs` runs a native command for a guest in the host directory that the guest's `PWD`
is mapped to. `mapGuestPathToHost` takes the mount with the longest target in front of the text
and pushes what is behind the target, as it stands, onto the source of the mount.

`insideMounts_iff` says for which texts this stays in the source directory: the rest of the path
must not climb out of it by `..`, and must not begin with a separator, since `PathBuf::push`
then drops the source.
-/

namespace WasmHost

open List

/-- `HostMount`, without its mode. -/
structure HostMount where
  source : Text
  target : Text
  deriving DecidableEq

/-- `PathBuf::push` on the host: an absolute text takes the place of the whole path. -/
def pathPush (path relative : Text) : Text :=
  if relative.head? = some '/' then relative
  else if path = [] ∨ path.getLast? = some '/' then path ++ relative
  else path ++ '/' :: relative

/-- `guest_path_relative_to_mount`. -/
def guestPathRelativeToMount (guestPath mountTarget : Text) : Option Text :=
  if mountTarget = ['/'] then some (guestPath.dropWhile (· = '/'))
  else if guestPath = mountTarget then some []
  else (stripPrefix mountTarget guestPath).bind (stripPrefix ['/'])

/-- The length of a text in bytes. -/
def byteLength (t : Text) : ℕ := (encodeText t).length

/-- One round of the loop in `map_guest_path_to_host`. -/
def betterMount (guestPath : Text) (best : Option (HostMount × Text)) (mount : HostMount) :
    Option (HostMount × Text) :=
  match guestPathRelativeToMount guestPath mount.target with
  | none => best
  | some relative =>
    match best with
    | none => some (mount, relative)
    | some (existing, _) =>
      if byteLength mount.target > byteLength existing.target then some (mount, relative)
      else best

/-- `map_guest_path_to_host`. -/
def mapGuestPathToHost (guestPath : Text) (hostMounts : List HostMount) : Option Text :=
  (hostMounts.foldl (betterMount guestPath) none).map fun (mount, relative) =>
    if relative = [] then mount.source else pathPush mount.source relative

/-! ### The mount of a path -/

/-- The guest path is the target or lies below it, as texts. -/
def HostMount.Contains (mount : HostMount) (guestPath : Text) : Prop :=
  mount.target = ['/'] ∨ SepPath.AtOrBelow '/' mount.target guestPath

/-- `mount` is the one with the longest target that contains the path, the first of them when it
is listed twice. -/
def LongestMount (hostMounts : List HostMount) (guestPath : Text) (mount : HostMount) : Prop :=
  ∃ before after, hostMounts = before ++ mount :: after ∧ mount.Contains guestPath ∧
    (∀ other ∈ before, other.Contains guestPath →
      byteLength other.target < byteLength mount.target) ∧
    ∀ other ∈ after, other.Contains guestPath →
      byteLength other.target ≤ byteLength mount.target

/-- The place a host path names, without asking the host about links. -/
abbrev hostPlace (path : Text) : LexicalPath Char := LexicalPath.normalForm '/' '.' path

/-- What a host command may get as its directory: the source of the longest mount that contains
the guest path or a place below it; none when no mount does. -/
def InsideMounts (hostMounts : List HostMount) (guestPath : Text) : Option Text → Prop
  | none => ∀ mount ∈ hostMounts, ¬mount.Contains guestPath
  | some directory => ∃ mount, LongestMount hostMounts guestPath mount ∧
      (hostPlace mount.source).Within (hostPlace directory)

/-- What is left of the guest path stays below the source: it does not climb by more than it
comes back, and a rest that begins with a separator happens to name a place there itself. -/
def StaysBelow (source rest : Text) : Prop :=
  (rest.head? = some '/' → (hostPlace source).Within (hostPlace rest)) ∧
    (rest.head? ≠ some '/' → (hostPlace source).Returns (hostPlace rest))

/-- The condition can be checked before a call. -/
instance (source rest : Text) : Decidable (StaysBelow source rest) :=
  inferInstanceAs (Decidable (_ ∧ _))

/-- A mount contains just the paths that its target is in front of. -/
theorem contains_iff (mount : HostMount) (guestPath : Text) : mount.Contains guestPath ↔
    (guestPathRelativeToMount guestPath mount.target).isSome := by
  unfold HostMount.Contains guestPathRelativeToMount
  split
  next h => simp [h]
  next hroot =>
    split
    next h => simp [SepPath.AtOrBelow, h]
    next hne =>
      simp only [hroot, hne, SepPath.AtOrBelow, SepPath.below_iff, false_or,
        Option.isSome_iff_exists, Option.bind_eq_some_iff, stripPrefix_eq_some_iff]
      constructor
      · rintro ⟨rest, rfl⟩
        exact ⟨rest, '/' :: rest, rfl, rfl⟩
      · rintro ⟨rest, suffix, rfl, rfl⟩
        exact ⟨rest, rfl⟩

/-- What the loop has found when it has seen `seen`. -/
def FoundMount (guestPath : Text) (seen : List HostMount) : Option (HostMount × Text) → Prop
  | none => ∀ mount ∈ seen, ¬mount.Contains guestPath
  | some (mount, rest) => LongestMount seen guestPath mount ∧
      guestPathRelativeToMount guestPath mount.target = some rest

variable {guestPath rest : Text} {seen hostMounts : List HostMount} {mount other : HostMount}

theorem LongestMount.concat (h : LongestMount seen guestPath mount)
    (hother : other.Contains guestPath → byteLength other.target ≤ byteLength mount.target) :
    LongestMount (seen ++ [other]) guestPath mount := by
  obtain ⟨before, after, rfl, hmount, hbefore, hafter⟩ := h
  refine ⟨before, after ++ [other], by simp, hmount, hbefore, ?_⟩
  intro m hm
  rcases mem_append.1 hm with hm | hm
  · exact hafter m hm
  · rw [mem_singleton.1 hm]
    exact hother

theorem LongestMount.le (h : LongestMount seen guestPath mount) (hmem : other ∈ seen)
    (hother : other.Contains guestPath) : byteLength other.target ≤ byteLength mount.target := by
  obtain ⟨before, after, rfl, -, hbefore, hafter⟩ := h
  rcases mem_append.1 hmem with hmem | hmem
  · exact (hbefore other hmem hother).le
  · rcases mem_cons.1 hmem with rfl | hmem
    · exact le_rfl
    · exact hafter other hmem hother

theorem FoundMount.betterMount {best : Option (HostMount × Text)}
    (h : FoundMount guestPath seen best) (mount : HostMount) :
    FoundMount guestPath (seen ++ [mount]) (betterMount guestPath best mount) := by
  unfold WasmHost.betterMount
  cases hrel : guestPathRelativeToMount guestPath mount.target with
  | none =>
    have hnot : ¬mount.Contains guestPath := by simp [contains_iff, hrel]
    cases best with
    | none =>
      intro other hother
      rcases mem_append.1 hother with hother | hother
      · exact h other hother
      · rwa [mem_singleton.1 hother]
    | some => exact ⟨h.1.concat fun hcontains => absurd hcontains hnot, h.2⟩
  | some =>
    have hcontains : mount.Contains guestPath := by simp [contains_iff, hrel]
    cases best with
    | none =>
      exact ⟨⟨seen, [], rfl, hcontains, fun other hother hin => absurd hin (h other hother),
        by simp⟩, hrel⟩
    | some found =>
      obtain ⟨existing, before⟩ := found
      simp only
      split
      next hlonger =>
        exact ⟨⟨seen, [], rfl, hcontains,
          fun other hother hin => (h.1.le hother hin).trans_lt hlonger, by simp⟩, hrel⟩
      next hshorter => exact ⟨h.1.concat fun _ => by omega, h.2⟩

/-- The loop finds the longest mount. -/
theorem foundMount_foldl (guestPath : Text) (hostMounts : List HostMount) :
    FoundMount guestPath hostMounts (hostMounts.foldl (betterMount guestPath) none) := by
  induction hostMounts using List.reverseRecOn with
  | nil => simp [FoundMount]
  | append_singleton seen mount ih =>
    rw [foldl_append]
    exact ih.betterMount mount

theorem LongestMount.unique {first second : HostMount}
    (hfirst : LongestMount hostMounts guestPath first)
    (hsecond : LongestMount hostMounts guestPath second) : first = second := by
  obtain ⟨before, after, heq, hin, hbefore, hafter⟩ := hfirst
  obtain ⟨before', after', heq', hin', hbefore', hafter'⟩ := hsecond
  rw [heq] at heq'
  -- of two places in one list the earlier one comes first
  rcases append_eq_append_iff.1 heq' with ⟨mid, rfl, hmid⟩ | ⟨mid, rfl, hmid⟩
  · cases mid with
    | nil => exact (cons_eq_cons.1 hmid).1
    | cons =>
      obtain ⟨rfl, rfl⟩ := cons_eq_cons.1 hmid
      have hlt := hbefore' first (by simp) hin
      have hle := hafter second (by simp) hin'
      omega
  · cases mid with
    | nil => exact (cons_eq_cons.1 hmid).1.symm
    | cons =>
      obtain ⟨rfl, rfl⟩ := cons_eq_cons.1 hmid
      have hlt := hbefore second (by simp) hin'
      have hle := hafter' first (by simp) hin
      omega

/-- Pushing a text onto a path that it does not replace leads where it says, from there. -/
theorem hostPlace_pathPush (source : Text) (hrest : rest.head? ≠ some '/') :
    hostPlace (pathPush source rest) = (hostPlace source).join (hostPlace rest) := by
  unfold pathPush
  rw [if_neg hrest]
  split
  next hsource =>
    rcases hsource with rfl | hlast
    · exact (LexicalPath.join_normalForm_nil '/' '.' hrest).symm
    · obtain ⟨front, rfl⟩ := List.getLast?_eq_some_iff.1 hlast
      rw [append_assoc]
      cases front with
      | nil => exact LexicalPath.normalForm_sep_cons '/' '.' hrest
      | cons =>
        rw [hostPlace, hostPlace, LexicalPath.normalForm_concat_sep '/' '.' (by simp)]
        exact LexicalPath.normalForm_append_cons '/' '.' _ (by simp) hrest
  next hsource =>
    exact LexicalPath.normalForm_append_cons '/' '.' source (fun h => hsource (.inl h)) hrest

/-- The directory stays in the source just when the rest of the path does. -/
theorem within_pathPush_iff (source rest : Text) :
    (hostPlace source).Within
        (hostPlace (if rest = [] then source else pathPush source rest)) ↔
      StaysBelow source rest := by
  unfold StaysBelow
  by_cases hempty : rest = []
  · subst hempty
    have hself : (hostPlace source).Within (hostPlace source) :=
      ⟨rfl, rfl, prefix_rfl⟩
    have hreturns : (hostPlace source).Returns (hostPlace []) :=
      LexicalPath.returns_of_ups_eq_zero (by simp [LexicalPath.start])
    exact iff_of_true (by simpa using hself) ⟨by simp, fun _ => hreturns⟩
  · rw [if_neg hempty]
    by_cases habs : rest.head? = some '/'
    · rw [pathPush, if_pos habs]
      simp [habs]
    · rw [hostPlace_pathPush source habs, LexicalPath.within_join_iff]
      simp [habs]

/-- What the guest path holds behind the longest target stays below the source of that mount. -/
def StaysInMounts (hostMounts : List HostMount) (guestPath : Text) : Prop :=
  ∀ mount rest, LongestMount hostMounts guestPath mount →
    guestPathRelativeToMount guestPath mount.target = some rest → StaysBelow mount.source rest

/-- For every guest path the directory is inside the mounts just when the rest of the path is. -/
theorem insideMounts_iff (hostMounts : List HostMount) (guestPath : Text) :
    InsideMounts hostMounts guestPath (mapGuestPathToHost guestPath hostMounts) ↔
      StaysInMounts hostMounts guestPath := by
  have hfound := foundMount_foldl guestPath hostMounts
  unfold mapGuestPathToHost
  cases hbest : hostMounts.foldl (betterMount guestPath) none with
  | none =>
    rw [hbest] at hfound
    refine iff_of_true hfound ?_
    rintro mount rest ⟨before, after, rfl, hin, -⟩ -
    exact absurd hin (hfound mount (by simp))
  | some best =>
    obtain ⟨mount, rest⟩ := best
    rw [hbest] at hfound
    obtain ⟨hlongest, hrel⟩ := hfound
    simp only [Option.map_some, InsideMounts]
    constructor
    · rintro ⟨chosen, hchosen, hwithin⟩ other behind hother hbehind
      rw [hchosen.unique hlongest] at hwithin
      rw [hother.unique hlongest] at hbehind ⊢
      rw [Option.some.inj (hbehind.symm.trans hrel)]
      exact (within_pathPush_iff mount.source rest).1 hwithin
    · intro h
      exact ⟨mount, hlongest,
        (within_pathPush_iff mount.source rest).2 (h mount rest hlongest hrel)⟩

/-- A normalized rest, as a guest without tricks has it, stays below any source. -/
theorem staysBelow_of_canonical (source : Text) (h : CanonicalPath rest) :
    StaysBelow source rest := by
  rcases h with rfl | hkey
  · exact (within_pathPush_iff source []).1 (by simpa using ⟨rfl, rfl, prefix_rfl⟩)
  · have hhead : rest.head? ≠ some '/' := by
      intro hhead
      obtain ⟨tail, rfl⟩ := List.head?_eq_some_iff.1 hhead
      exact hkey.not_slash_cons
    have hups : (hostPlace rest).ups = 0 := by
      rw [hostPlace, LexicalPath.normalForm, if_neg hhead]
      exact LexicalPath.walk_ups '.' _ fun segment hsegment => (hkey segment hsegment).2.2.1
    exact ⟨fun h => absurd h hhead, fun _ => LexicalPath.returns_of_ups_eq_zero hups⟩

/-! ### From the frame to the directory -/

/-- The guest's directory and the host's for the bytes a guest writes: `run_host_command` takes
the `cwd` of the payload, which is the guest's `PWD`. -/
def hostDirectory (hostMounts : List HostMount) (payload : Bytes) :
    Except String (Text × Option Text) := do
  let guest ← parseGuestVirtualProcessPayload payload
  return (guest.cwd, mapGuestPathToHost guest.cwd hostMounts)

/-- A mount target as `normalize_path` leaves it. -/
def NormalizedTarget (target : Text) : Prop :=
  target = ['/'] ∨ ∃ key, CanonicalKey key ∧ target = '/' :: key

theorem hostDirectory_eq_ok_iff {payload : Bytes} {directory : Option Text} :
    hostDirectory hostMounts payload = .ok (guestPath, directory) ↔
      ∃ guest, parseGuestVirtualProcessPayload payload = .ok guest ∧ guest.cwd = guestPath ∧
        mapGuestPathToHost guestPath hostMounts = directory := by
  simp only [hostDirectory, bind, Except.bind_eq_ok_iff, pure, Except.pure, Except.ok.injEq,
    Prod.mk.injEq]
  refine exists_congr fun guest => and_congr_right fun _ => and_congr_right ?_
  rintro rfl
  exact Iff.rfl

/-- For every list of mounts and every frame that is accepted, the host directory is inside the
mounts just when the guest's `PWD` stays in them. -/
theorem hostDirectory_inside_iff {hostMounts : List HostMount} {payload : Bytes}
    {guestPath : Text} {directory : Option Text}
    (h : hostDirectory hostMounts payload = .ok (guestPath, directory)) :
    InsideMounts hostMounts guestPath directory ↔ StaysInMounts hostMounts guestPath := by
  obtain ⟨guest, -, -, rfl⟩ := hostDirectory_eq_ok_iff.1 h
  exact insideMounts_iff hostMounts guestPath

/-- A frame whose only variable is `PWD`. -/
def pwdRequest (pwd : Text) : Bytes :=
  encodeRequest (encodeText "/bin/tool".toList) [encodeText "tool".toList]
    [encodeText ("PWD=".toList ++ pwd)] []

def projectMount : HostMount := ⟨"/home/user/project".toList, "/workspace".toList⟩

theorem hostDirectory_pwdRequest {pwd : Text} (h : BinaryCursor.Fits ("PWD=".toList ++ pwd))
    (hostMounts : List HostMount) : hostDirectory hostMounts (pwdRequest pwd) =
      .ok (pwd, mapGuestPathToHost pwd hostMounts) := by
  have hread := parseGuestVirtualProcessPayload_encodeRequest "/bin/tool".toList ["tool".toList]
    ["PWD=".toList ++ pwd] [] (by decide) (forall_mem_singleton.2 (by decide))
    (forall_mem_singleton.2 h) (by decide) (by simp) (by decide) []
  rw [append_nil] at hread
  refine hostDirectory_eq_ok_iff.2 ⟨_, hread, ?_, rfl⟩
  have hitem : splitOnce '=' ("PWD=".toList ++ pwd) = some ("PWD".toList, pwd) :=
    splitOnce_append (show '=' ∉ "PWD".toList by decide) pwd
  show ((insertEnvItem OrdMap.empty ("PWD=".toList ++ pwd)).get "PWD".toList).getD "/".toList = pwd
  rw [insertEnvItem, hitem]
  simp

theorem longestMount_singleton (h : LongestMount [mount] guestPath other) : other = mount := by
  obtain ⟨before, after, heq, -⟩ := h
  have hmem : other ∈ [mount] := by
    rw [heq]
    simp
  exact mem_singleton.1 hmem

/-- A guest in the subdirectory of a mount runs the command in that of the source. -/
theorem hostDirectory_inside_subdirectory :
    InsideMounts [projectMount] "/workspace/src".toList
      (mapGuestPathToHost "/workspace/src".toList [projectMount]) :=
  (hostDirectory_inside_iff (hostDirectory_pwdRequest (by decide) [projectMount])).2 (by
    intro mount rest hlongest hrest
    obtain rfl := longestMount_singleton hlongest
    obtain rfl : "src".toList = rest := by
      have hrel : guestPathRelativeToMount "/workspace/src".toList projectMount.target =
          some "src".toList := by decide
      exact Option.some.inj (hrel.symm.trans hrest)
    exact staysBelow_of_canonical _ (by decide))

/-- A separator too many in `PWD` leads out of the mount. -/
theorem not_inside_doubleSlash : ¬∀ hostMounts payload guestPath directory,
    (∀ mount ∈ hostMounts, NormalizedTarget mount.target) →
      hostDirectory hostMounts payload = .ok (guestPath, directory) →
        InsideMounts hostMounts guestPath directory := by
  intro h
  have hnormal : NormalizedTarget projectMount.target :=
    .inr ⟨"workspace".toList, by decide, by decide⟩
  have hinside := h [projectMount] (pwdRequest "/workspace//etc".toList) _ _
    (forall_mem_singleton.2 hnormal) (hostDirectory_pwdRequest (by decide) [projectMount])
  have hdirectory : mapGuestPathToHost "/workspace//etc".toList [projectMount] =
      some "/etc".toList := by decide
  rw [hdirectory] at hinside
  obtain ⟨mount, hlongest, hwithin⟩ := hinside
  obtain rfl := longestMount_singleton hlongest
  revert hwithin
  decide

end WasmHost
