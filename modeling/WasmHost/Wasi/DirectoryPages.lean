import WasmHost.Lib.PagedReading
import WasmHost.Wasi.DirectoryListing
import WasmHost.Wasi.ProcessSteps
import WasmHost.Wasi.SubtreeMoves

/-!
# Directories in pages

A guest reads a directory into a buffer, and goes on with the cookie of the last entry that came
whole until the buffer is not full. Pointers arrive as signed numbers, and `fdReaddir` takes them
as they are.

* `World.readsDirectory_iff`: the guest gets the children of the directory, each once and in
  order, if the listing has them all and no buffer of the memory is at an address that is
  negative.
-/

namespace WasmHost

open List

/-! ### Entries -/

/-- An entry of a page. -/
structure Dirent where
  next : ℕ
  name : Bytes
  filetype : ℕ
  deriving DecidableEq, Repr

namespace Dirent

/-- The bytes before the name. -/
def header (d : Dirent) : Bytes :=
  littleEndian 8 d.next ++ littleEndian 8 d.next ++ littleEndian 4 d.name.length ++
    [UInt8.ofNat d.filetype, 0, 0, 0]

def encode (d : Dirent) : Bytes := d.header ++ d.name

/-- The numbers of the entry fit their fields. -/
structure Fits (d : Dirent) : Prop where
  next : d.next < 2 ^ 64
  name : d.name.length < 2 ^ 32
  filetype : d.filetype < 2 ^ 8

@[simp]
theorem length_header (d : Dirent) : d.header.length = 24 := by
  simp [header, littleEndian]

/-- The first entry of a page, if it came whole. -/
def read (bytes : Bytes) : Option (Dirent × Bytes) :=
  if bytes.length < 24 then none
  else
    let length := ofLittleEndian ((bytes.drop 16).take 4)
    let rest := bytes.drop 24
    if rest.length < length then none
    else
      some (⟨ofLittleEndian (bytes.take 8), rest.take length, ((bytes.drop 20).headD 0).toNat⟩,
        rest.drop length)

variable {d : Dirent}

/-- What is read behind a header. -/
theorem read_header_append (h : d.Fits) (bytes : Bytes) :
    read (d.header ++ bytes) =
      if bytes.length < d.name.length then none
      else some (⟨d.next, bytes.take d.name.length, d.filetype⟩, bytes.drop d.name.length) := by
  have hlength : ofLittleEndian (((d.header ++ bytes).drop 16).take 4) = d.name.length := by
    rw [header, append_assoc, append_assoc, drop_left' (by simp [littleEndian]),
      take_left' (length_littleEndian _ _), ofLittleEndian_littleEndian]
    exact Nat.mod_eq_of_lt h.name
  have hnext : ofLittleEndian ((d.header ++ bytes).take 8) = d.next := by
    rw [header, append_assoc, append_assoc, append_assoc,
      take_left' (length_littleEndian _ _), ofLittleEndian_littleEndian]
    exact Nat.mod_eq_of_lt h.next
  have htype : (((d.header ++ bytes).drop 20).headD 0).toNat = d.filetype := by
    rw [header, append_assoc, drop_left' (by simp [littleEndian]), cons_append,
      headD_cons, UInt8.toNat_ofNat', Nat.mod_eq_of_lt h.filetype]
  have hrest : (d.header ++ bytes).drop 24 = bytes := drop_left' d.length_header
  rw [read, if_neg (by rw [length_append, d.length_header]; omega)]
  rw [hlength, hnext, htype, hrest]

theorem read_encode_append (h : d.Fits) (rest : Bytes) :
    read (d.encode ++ rest) = some (d, rest) := by
  rw [encode, append_assoc, read_header_append h, if_neg (by simp), take_left,
    drop_left]

/-- An entry that is cut is not read. -/
theorem read_take (h : d.Fits) {k : ℕ} (hk : k < d.encode.length) :
    read (d.encode.take k) = none := by
  by_cases hheader : k < 24
  · rw [read, if_pos]
    rw [length_take]
    omega
  · rw [encode, length_append, d.length_header] at hk
    rw [encode, take_append, take_of_length_le (by rw [d.length_header]; omega),
      read_header_append h, if_pos]
    rw [length_take, d.length_header]
    omega

theorem read_nil : read [] = none := rfl

end Dirent

/-! ### Pages -/

/-- The records of a listing. A record holds the number of the next one. -/
def direntsFrom (cookie : ℕ) : List DirEntry → List Dirent
  | [] => []
  | e :: rest => ⟨cookie, encodeText e.name, e.filetype.code⟩ :: direntsFrom (cookie + 1) rest

@[simp]
theorem length_direntsFrom (cookie : ℕ) (entries : List DirEntry) :
    (direntsFrom cookie entries).length = entries.length := by
  induction entries generalizing cookie with
  | nil => rfl
  | cons e rest ih => rw [direntsFrom, length_cons, length_cons, ih]

theorem drop_direntsFrom (cookie n : ℕ) (entries : List DirEntry) :
    (direntsFrom cookie entries).drop n = direntsFrom (cookie + n) (entries.drop n) := by
  induction n generalizing cookie entries with
  | zero => rfl
  | succ n ih =>
    cases entries with
    | nil => rfl
    | cons => rw [direntsFrom, drop_succ_cons, ih, drop_succ_cons, Nat.succ_add_eq_add_succ]

variable {entries : List DirEntry}

theorem getElem_direntsFrom {cookie : ℕ} {i : ℕ} (h : i < (direntsFrom cookie entries).length) :
    ∃ e ∈ entries, (direntsFrom cookie entries)[i] =
      ⟨cookie + i, encodeText e.name, e.filetype.code⟩ := by
  induction entries generalizing cookie i with
  | nil => exact absurd h (Nat.not_lt_zero _)
  | cons e rest ih =>
    cases i with
    | zero => exact ⟨e, mem_cons_self, rfl⟩
    | succ =>
      obtain ⟨e', he', heq⟩ := ih (Nat.lt_of_succ_lt_succ h)
      refine ⟨e', mem_cons_of_mem _ he', heq.trans ?_⟩
      rw [Nat.succ_add_eq_add_succ]

theorem code_lt (t : Filetype) : t.code < 2 ^ 8 := by
  cases t <;> decide

variable {capacity start length : ℕ} {output source : Bytes}

/-- What is written of `source` behind `output`. -/
theorem append_take_eq (source : Bytes) (h : output.length ≤ capacity) :
    output ++ source.take (capacity - output.length) = (output ++ source).take capacity := by
  rw [take_append, take_of_length_le h]

/-- If the source is cut, nothing fits behind it. -/
theorem take_append_of_short
    (h : ((output ++ source).take capacity).length < output.length + source.length) (more : Bytes) :
    (output ++ source).take capacity = (output ++ (source ++ more)).take capacity := by
  rw [length_take, length_append] at h
  have hroom : capacity ≤ (output ++ source).length := by
    rw [length_append]
    omega
  rw [← append_assoc, take_append_of_le_length hroom]

theorem length_le_of_not_short
    (h : ¬((output ++ source).take capacity).length < output.length + source.length) :
    (output ++ source).length ≤ capacity := by
  rw [length_take, length_append] at h
  rw [length_append]
  omega

/-- The loop of `fdReaddir` fills the buffer with the records. -/
theorem direntOutput_eq_take (entries : List DirEntry) (cookie : ℕ) (h : output.length ≤ capacity) :
    World.direntOutput capacity entries cookie output =
      (output ++ (direntsFrom cookie entries).flatMap Dirent.encode).take capacity := by
  induction entries generalizing cookie output with
  | nil => rw [World.direntOutput, direntsFrom, flatMap_nil, append_nil, take_of_length_le h]
  | cons e rest ih =>
    have hrecords : (direntsFrom cookie (e :: rest)).flatMap Dirent.encode =
        World.direntBytes e cookie ++
          (encodeText e.name ++ (direntsFrom (cookie + 1) rest).flatMap Dirent.encode) := by
      rw [direntsFrom, flatMap_cons, Dirent.encode, append_assoc]
      rfl
    rw [hrecords, World.direntOutput]
    dsimp only
    rw [append_take_eq _ h]
    split
    next hheader => exact take_append_of_short hheader _
    next hheader =>
      have hroom := length_le_of_not_short hheader
      rw [take_of_length_le hroom, append_take_eq _ hroom, ← append_assoc output]
      split
      next hname => exact take_append_of_short hname _
      next hname =>
        have hroom := length_le_of_not_short hname
        rw [take_of_length_le hroom, ih _ hroom, append_assoc _ (encodeText e.name)]

/-! ### The guest -/

theorem Memory.slice_store_apart (mem : Memory) {slot : ℕ} {bytes : Bytes}
    (h : start + length ≤ slot ∨ slot + bytes.length ≤ start) :
    (mem.store slot bytes).slice start length = mem.slice start length := by
  refine map_congr_left fun i hi => ?_
  rw [mem_range'_1] at hi
  have hi : start ≤ i ∧ i < start + length := ⟨hi.1, by omega⟩
  unfold Memory.store
  dsimp only
  split
  next hslot => rw [List.getElem?_eq_none (by omega), Option.getD_none]
  · rfl

/-- A word that is stored behind or before a slice leaves it. -/
theorem Memory.slice_of_writeU32 {mem mem' : Memory} {ptr : ℕ} {value : ℕ}
    (h : mem.writeU32 ptr value = some mem') (hapart : start + length ≤ ptr ∨ ptr + 4 ≤ start) :
    mem'.slice start length = mem.slice start length := by
  unfold Memory.writeU32 at h
  split at h
  · rw [← Option.some.inj h]
    exact mem.slice_store_apart hapart
  · cases h

/-- The buffer of a guest, and where it wants the used size. -/
structure PageBuffer where
  ptr : ℕ
  length : ℕ
  usedPtr : ℕ
  deriving DecidableEq, Repr

/-- The room that every single entry of a listing has. -/
def pageSize (entries : List DirEntry) : ℕ :=
  24 + (entries.map fun e => (encodeText e.name).length).foldr max 0

theorem le_pageSize {e : DirEntry} (h : e ∈ entries) :
    24 + (encodeText e.name).length ≤ pageSize entries := by
  refine Nat.add_le_add_left ?_ 24
  induction entries with
  | nil => cases h
  | cons e' rest ih =>
    rcases mem_cons.1 h with rfl | h
    · exact Nat.le_max_left _ _
    · exact (ih h).trans (Nat.le_max_right _ _)

/-- The buffer and the slot lie apart in a memory, and there is room for every single entry. -/
structure PageBuffer.Suits (b : PageBuffer) (size : ℕ) (entries : List DirEntry) : Prop where
  buffer : b.ptr + b.length ≤ size
  slot : b.usedPtr + 4 ≤ size
  apart : b.ptr + b.length ≤ b.usedPtr ∨ b.usedPtr + 4 ≤ b.ptr
  room : pageSize entries ≤ b.length

namespace World

variable {w : World} {entries : List DirEntry}

/-- One call of `fd_readdir`, and what the guest finds in its buffer. -/
def readPage (w : World) (fd : Int) (b : PageBuffer) (mem : Memory) (cookie : ℕ) :
    Option (Memory × Bytes) :=
  match w.fdReaddir mem fd (toI32 b.ptr) (toI32 b.length) cookie (toI32 b.usedPtr) with
  | (_, .error _) => none
  | (mem', .ok ()) => (mem'.readU32 b.usedPtr).map fun used => (mem', mem'.slice b.ptr used)

/-- A guest that reads a directory. -/
def readDirectory (w : World) (fd : Int) (b : PageBuffer) (mem : Memory) (fuel : ℕ) :
    Option (List Dirent) :=
  PagedReading.readPages Dirent.read Dirent.next b.length (w.readPage fd b) fuel mem 0

variable {fd : Int} {b : PageBuffer} {mem : Memory}

/-- What the guest finds in a page. -/
theorem exists_readPage (hdir : w.directoryForFd fd = some entries)
    (hsize : mem.byteLength ≤ 2 ^ 32) (hb : b.Suits mem.byteLength entries) (hptr : b.ptr < 2 ^ 31)
    (hused : b.usedPtr < 2 ^ 31) {cookie : ℕ} (hcookie : cookie < 2 ^ 32) :
    ∃ mem', mem'.byteLength = mem.byteLength ∧ w.readPage fd b mem cookie =
      some (mem', (((direntsFrom 1 entries).drop cookie).flatMap Dirent.encode).take b.length) := by
  have hbuffer := hb.buffer
  have hlength : b.length < 2 ^ 32 := by
    have := hb.slot
    have := hb.apart
    omega
  have hstart : readdirStartIndex cookie = some cookie := by
    rw [readdirStartIndex, if_neg, Int.toNat_natCast]
    rw [not_or]
    exact ⟨by omega, by simp only [maxSafeInteger]; omega⟩
  have hout : direntOutput b.length (entries.drop cookie) (cookie + 1) [] =
      (((direntsFrom 1 entries).drop cookie).flatMap Dirent.encode).take b.length := by
    rw [direntOutput_eq_take _ _ (Nat.zero_le _), nil_append, drop_direntsFrom,
      Nat.add_comm 1 cookie]
  generalize (((direntsFrom 1 entries).drop cookie).flatMap Dirent.encode).take b.length = page
    at hout ⊢
  have hpage : page.length ≤ b.length := by
    rw [← hout, direntOutput_eq_take _ _ (Nat.zero_le _)]
    exact length_take_le _ _
  -- the buffer is where the guest said, and no part of it is cut off
  have hcall : w.fdReaddir mem fd (toI32 b.ptr) (toI32 b.length) cookie (toI32 b.usedPtr) =
      (mem.store b.ptr page).finishU32 b.usedPtr page.length (.ok ()) := by
    have hfirst : ¬((b.ptr : Int) < 0) := by omega
    have hlast : ¬((b.ptr : Int) + b.length < 0) := by omega
    rw [fdReaddir, hdir]
    rw [hstart]
    dsimp only
    rw [toI32_of_lt hptr, toUint32_toI32 hlength, toI32_of_lt hused, if_neg hfirst, if_neg hlast,
      ← Int.natCast_add, Int.toNat_natCast, Int.toNat_natCast, Nat.min_eq_left hbuffer,
      Nat.min_eq_left (by omega), Nat.add_sub_cancel_left, hout]
  have hslot :
      (0 : Int) ≤ b.usedPtr ∧ (b.usedPtr : Int) + 4 ≤ (mem.store b.ptr page).byteLength := by
    have := hb.slot
    rw [Memory.byteLength_store]
    omega
  obtain ⟨mem', hmem'⟩ := Option.isSome_iff_exists.1
    (((mem.store b.ptr page).writeU32_isSome_iff b.usedPtr page.length).2 hslot)
  refine ⟨mem', (Memory.byteLength_of_writeU32 _ hmem').trans (mem.byteLength_store _ _), ?_⟩
  have hword : mem'.readU32 b.usedPtr = some page.length := by
    rw [Memory.readU32_writeU32 _ hmem', Nat.mod_eq_of_lt (by omega)]
  have hslice : mem'.slice b.ptr page.length = page := by
    rw [Memory.slice_of_writeU32 hmem' (by have := hb.apart; omega),
      mem.slice_store_self (by omega)]
  rw [readPage, hcall, Memory.finishU32, hmem']
  dsimp only
  rw [hword, Option.map_some, hslice]

/-- The guest gets every entry of the listing. -/
theorem exists_readDirectory (hdir : w.directoryForFd fd = some entries)
    (hlength : entries.length < 2 ^ 32) (hsize : mem.byteLength ≤ 2 ^ 32)
    (hb : b.Suits mem.byteLength entries) (hptr : b.ptr < 2 ^ 31) (hused : b.usedPtr < 2 ^ 31) :
    ∃ fuel, w.readDirectory fd b mem fuel = some (direntsFrom 1 entries) := by
  have hbuffer := hb.buffer
  have hlen : b.length < 2 ^ 32 := by
    have := hb.slot
    have := hb.apart
    omega
  -- every record fits its fields, and the buffer
  have hrecord : ∀ d ∈ direntsFrom 1 entries, d.Fits ∧ d.encode.length ≤ b.length := by
    intro d hd
    obtain ⟨i, hi, rfl⟩ := mem_iff_getElem.1 hd
    obtain ⟨e, he, heq⟩ := getElem_direntsFrom hi
    have hroom := (le_pageSize he).trans hb.room
    rw [length_direntsFrom] at hi
    rw [heq]
    refine ⟨⟨?_, ?_, code_lt _⟩, ?_⟩
    · show 1 + i < 2 ^ 64
      omega
    · show (encodeText e.name).length < 2 ^ 32
      omega
    · rw [Dirent.encode, length_append, Dirent.length_header]
      exact hroom
  have hcookie : ∀ i (h : i < (direntsFrom 1 entries).length),
      ((direntsFrom 1 entries)[i]).next = i + 1 := by
    intro i hi
    obtain ⟨e, -, heq⟩ := getElem_direntsFrom hi
    rw [heq]
    exact Nat.add_comm 1 i
  have hpages := @PagedReading.exists_readPages _ _ _ Dirent.encode Dirent.read _
    (fun d hd => Dirent.read_encode_append (hrecord d hd).1)
    (fun d hd k => Dirent.read_take (hrecord d hd).1) Dirent.read_nil Dirent.next b.length
    (w.readPage fd b) (fun m => m.byteLength = mem.byteLength) (fun d hd => (hrecord d hd).2)
    (by have := hb.room; unfold pageSize at this; omega) hcookie
    (fun m hm cookie hle => by
      rw [length_direntsFrom] at hle
      obtain ⟨m', hm', hpage⟩ := exists_readPage hdir (hm ▸ hsize) (hm ▸ hb) hptr hused
        (show cookie < 2 ^ 32 by omega)
      exact ⟨m', hm'.trans hm, hpage⟩)
    0 (Nat.zero_le _) mem rfl
  exact hpages

/-- At an address that arrives negative the used size cannot be stored. -/
theorem readDirectory_eq_none (hused : 2 ^ 31 ≤ b.usedPtr) (hlt : b.usedPtr < 2 ^ 32) (fuel : ℕ) :
    w.readDirectory fd b mem fuel = none := by
  have hfails : ∀ m value, Memory.finishU32 m (toI32 b.usedPtr) value (.ok ()) =
      (m, .error .throws) := by
    intro m value
    have hno : m.writeU32 (toI32 b.usedPtr) value = none :=
      if_neg fun h => absurd h.1 (Int.not_le.2 (toI32_neg hused hlt))
    rw [Memory.finishU32, hno]
  have hpage : w.readPage fd b mem 0 = none := by
    unfold readPage fdReaddir
    split
    · rfl
    next mem' hcall =>
      split at hcall
      · cases hcall
      split at hcall
      · cases hcall
      rw [hfails] at hcall
      cases hcall
  cases fuel with
  | zero => rfl
  | succ => rw [readDirectory, PagedReading.readPages, hpage]

/-! ### The listing behind a descriptor -/

/-- The directory behind a descriptor: the keys of its mount, and where it is among them. -/
def directoryAt (w : World) (fd : Int) : Option (Mount Unit × Text) :=
  match w.packageRootBasePath fd with
  | some base => some (w.host.packageRoot.mount.keysOnly, base)
  | none =>
      match w.workspaceBasePath fd with
      | some base => some (w.workspaceMount.keysOnly, base)
      | none =>
          match w.scratchBasePath fd with
          | some base => some (w.runtime.scratch.keysOnly, base)
          | none => none

theorem directoryForFd_eq (w : World) (fd : Int) :
    w.directoryForFd fd = (w.directoryAt fd).map fun d => d.1.directoryEntries d.2 := by
  have hkeys := fun {β : Type} (m : Mount β) base =>
    congrArg some (m.directoryEntries_keysOnly base).symm
  unfold directoryForFd directoryAt
  cases w.packageRootBasePath fd with
  | some base => exact hkeys _ base
  | none =>
    cases w.workspaceBasePath fd with
    | some base => exact hkeys _ base
    | none =>
      cases w.scratchBasePath fd with
      | some base => exact hkeys _ base
      | none => rfl

/-- The guest that reads a directory gets its children, whatever memory of this size it has and
wherever the buffer is. -/
structure ReadsDirectory (w : World) (fd : Int) (m : Mount Unit) (base : Text) (size : ℕ) :
    Prop where
  listing : m.Listing base (m.directoryEntries base)
  pages : ∀ (mem : Memory) (b : PageBuffer), mem.byteLength = size →
    b.Suits size (m.directoryEntries base) →
    ∃ fuel, w.readDirectory fd b mem fuel = some (direntsFrom 1 (m.directoryEntries base))

/-- When a directory is read completely. No array has `2 ^ 32` elements, no memory is larger. -/
theorem readsDirectory_iff {fd : Int} {m : Mount Unit} {base : Text}
    (hdir : w.directoryAt fd = some (m, base))
    (hlength : (m.directoryEntries base).length < 2 ^ 32) {size : ℕ} (hsize : size ≤ 2 ^ 32) :
    w.ReadsDirectory fd m base size ↔
      (∀ dir ∈ m.dirs.keys, ¬SepPath.Below '/' (Mount.keyPrefix base) dir) ∧
        (size < 2 ^ 31 + 4 ∨ size < pageSize (m.directoryEntries base) + 4) := by
  constructor
  · rintro ⟨hlisting, hpages⟩
    refine ⟨fun dir hdir => Mount.listing_directoryEntries_iff.1 hlisting dir
      ((OrdMap.mem_keys _ _).1 hdir), ?_⟩
    by_contra hlarge
    rw [not_or, Nat.not_lt, Nat.not_lt] at hlarge
    -- the slot is the last word of the memory
    obtain ⟨fuel, hread⟩ := hpages ⟨size, fun _ => 0⟩
      ⟨0, pageSize (m.directoryEntries base), size - 4⟩ rfl
      ⟨by dsimp only; omega, by dsimp only; omega, .inl (by dsimp only; omega), Nat.le_refl _⟩
    rw [readDirectory_eq_none (by dsimp only; omega) (by dsimp only; omega)] at hread
    cases hread
  · rintro ⟨hnamed, hsmall⟩
    refine ⟨Mount.listing_directoryEntries_iff.2 fun dir hdir =>
      hnamed dir ((OrdMap.mem_keys _ _).2 hdir), fun mem b hmem hb => ?_⟩
    have hbuffer := hb.buffer
    have hslot := hb.slot
    have hroom := hb.room
    have hapart := hb.apart
    have hheader : 24 ≤ pageSize (m.directoryEntries base) := Nat.le_add_right _ _
    subst hmem
    refine exists_readDirectory ?_ hlength hsize hb (by omega) (by omega)
    rw [directoryForFd_eq, hdir, Option.map_some]

end World

namespace System

open World

theorem directoryEntries_of_single {m : Mount Unit} {base name : Text} {t : Filetype}
    (h : (m.entryMap base).entries = [(name, t)]) : m.directoryEntries base = [⟨name, t⟩] := by
  rw [Mount.directoryEntries, h]
  exact mergeSort_singleton _

theorem directoryEntries_scratchDirectory :
    scratchDirectory.runtime.scratch.keysOnly.directoryEntries [] = [⟨"a".toList, .directory⟩] :=
  directoryEntries_of_single (by decide)

/-- The directory `/tmp` with an entry. -/
theorem readsDirectory_scratchDirectory :
    scratchDirectory.ReadsDirectory tmpFd scratchDirectory.runtime.scratch.keysOnly [] 65536 :=
  (readsDirectory_iff rfl (by rw [directoryEntries_scratchDirectory]; decide) (by decide)).2
    ⟨by decide, .inl (by decide)⟩

/-- A directory that was moved onto `/tmp`: what was in it has no name behind the first slash. -/
def scratchMovedToRoot : World :=
  (scratchDirectory.call (.pathCreateDirectory tmpFd "a/b".toList)).call
    (.pathRename tmpFd "a".toList tmpFd ".".toList)

/-- It is listed with an entry that has no name. And in a large memory the used size cannot be
stored above the middle. -/
theorem not_readsDirectory :
    scratchMovedToRoot.runtime.scratch.keysOnly.directoryEntries [] = [⟨[], .directory⟩] ∧
      ¬scratchMovedToRoot.ReadsDirectory tmpFd scratchMovedToRoot.runtime.scratch.keysOnly []
        65536 ∧
      ¬scratchDirectory.ReadsDirectory tmpFd scratchDirectory.runtime.scratch.keysOnly []
        (2 ^ 31 + 65536) := by
  refine ⟨directoryEntries_of_single (by decide), fun h => ?_, fun h => ?_⟩
  · exact Mount.listing_directoryEntries_iff.1 h.listing "/b".toList (by decide) (by decide)
  · have hroom : pageSize (scratchDirectory.runtime.scratch.keysOnly.directoryEntries []) ≤ 64 := by
      rw [directoryEntries_scratchDirectory]
      decide
    obtain ⟨fuel, hread⟩ := h.pages ⟨2 ^ 31 + 65536, fun _ => 0⟩ ⟨0, 64, 2 ^ 31⟩ rfl
      ⟨by decide, by decide, by decide, hroom⟩
    rw [readDirectory_eq_none (by decide) (by decide)] at hread
    cases hread

end System

end WasmHost
