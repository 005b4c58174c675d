import WasmHost.Core.LauncherMemory

/-!
# The round trip through the launcher

What the launcher and the device say to each other. The device is never opened: `path_open` gets
29 bytes of a name that has 26 (`launcherDevice`). `roundTrip_never` says so for every input, and
that with the device under that name a `Layout` and a response that fits its buffer are enough.
-/

namespace WasmHost

open List

namespace Launcher

variable {σ : Type} {envs : List Bytes} {source cursor' : ℕ}

/-! ### The exchange with the device -/

/-- The name with which the launcher opens the device: 29 bytes from where its 26 bytes are. -/
def launcherDevice : Text := "dev/wasm-host-virtual-exec\x00\x00\x00".toList

variable {path : Bytes} {m m' : Mem} (sandbox : Sandbox) {cursor : ℕ}
    {result : VirtualProcessResponsePayload} {s : GuestFiles} {env : OrdMap Text Text}
    {args : List Text}

/-- Whatever path, arguments and environment are, these bytes are at `deviceName`. -/
theorem read_deviceName (h : instantiate path = some m) (args envs : List Bytes) :
    (fetch m args envs).read deviceName 29 = encodeText launcherDevice := by
  have hfetch : (fetch m args envs).read deviceName 29 = m.read deviceName 29 := by
    refine ByteMemory.read_congr fun i hi hi' => ?_
    simp only [deviceName] at hi hi'
    unfold fetch
    rw [writeBufferArray_of_outside (.inl (by simp only [envPtrs]; omega))
        (.inl (by simp only [envBuf]; omega)),
      sizesGet_of_outside (.inr (by simp only [envcPtr]; omega))
        (.inr (by simp only [envSizePtr]; omega)),
      writeBufferArray_of_outside (.inl (by simp only [argvPtrs]; omega))
        (.inl (by simp only [argvBuf]; omega)),
      sizesGet_of_outside (.inr (by simp only [argcPtr]; omega))
        (.inr (by simp only [argvSizePtr]; omega))]
  rw [hfetch]
  unfold instantiate at h
  split at h
  · rw [← Option.some.inj h, ByteMemory.read_write_of_apart _ (by simp [ByteMemory.Apart,
      execPath, deviceName])]
    decide
  · exact absurd h (by simp)

/-- The memory with a buffer in the only entry of the table. -/
def withIovec (m : Mem) (buf len : ℕ) : Mem :=
  (m.write iovec (littleEndian 4 buf)).write (iovec + 4) (littleEndian 4 len)

theorem read_withIovec_of_apart (m : Mem) (buf len : ℕ) {start n : ℕ}
    (h : ByteMemory.Apart iovec 8 start n) :
    (withIovec m buf len).read start n = m.read start n := by
  rw [withIovec, ByteMemory.read_write_of_apart _ (h.mono (by simp) (by simp)),
    ByteMemory.read_write_of_apart _ (h.mono (by simp) (by simp))]

theorem iovec_withIovec (m : Mem) (buf len : ℕ) (hbuf : buf < 2 ^ 32) (hlen : len < 2 ^ 32) :
    ofLittleEndian ((withIovec m buf len).read iovec 4) = buf ∧
      ofLittleEndian ((withIovec m buf len).read (iovec + 4) 4) = len := by
  have hfirst : (withIovec m buf len).Holds iovec (littleEndian 4 buf) :=
    (m.holds_write iovec _).write (by simp [ByteMemory.Apart])
  have hsecond : (withIovec m buf len).Holds (iovec + 4) (littleEndian 4 len) :=
    ByteMemory.holds_write _ _ _
  unfold ByteMemory.Holds at hfirst hsecond
  rw [length_littleEndian] at hfirst hsecond
  rw [hfirst, hsecond, ofLittleEndian_littleEndian, ofLittleEndian_littleEndian,
    Nat.mod_eq_of_lt (by omega), Nat.mod_eq_of_lt (by omega)]
  exact ⟨rfl, rfl⟩

/-- A buffer that lies in the memory and apart from the table is written as it stands. -/
theorem fdWrite_withIovec (host : Host σ) {buf : ℕ} {bytes : Bytes} (hholds : m.Holds buf bytes)
    (hroom : buf + bytes.length ≤ memorySize) (hapart : ByteMemory.Apart iovec 8 buf bytes.length)
    (fd : ℕ) (s : σ) {written : ℕ} {s' : σ} (hwrite : host.fdWrite fd bytes s = (some written, s'))
    :
    fdWrite host (withIovec m buf bytes.length) fd iovec writtenPtr s =
      ((withIovec m buf bytes.length).write writtenPtr (littleEndian 4 written), s') := by
  have hsize : memorySize < 2 ^ 32 := by decide
  obtain ⟨hbuf, hlen⟩ := iovec_withIovec m buf bytes.length (by omega) (by omega)
  unfold fdWrite
  rw [hbuf, hlen, if_pos hroom, read_withIovec_of_apart m buf bytes.length hapart,
    show m.read buf bytes.length = bytes from hholds, hwrite]

namespace Sandbox

variable (sandbox : Sandbox)

variable (data : Bytes)

theorem fdWrite_stdout (s : GuestFiles) :
    sandbox.host.fdWrite 1 data s =
      (some data.length, { s with stdout := s.stdout ++ data }) := rfl

theorem fdWrite_stderr (s : GuestFiles) :
    sandbox.host.fdWrite 2 data s =
      (some data.length, { s with stderr := s.stderr ++ data }) := rfl

/-- The first write to the device. -/
theorem fdWrite_new (s : GuestFiles) :
    sandbox.host.fdWrite sandbox.nextFd data { s with opened := some (0, .bridge .new) } =
      (some data.length, { s with opened := some (data.length, .bridge ⟨data, none, 0⟩) }) := by
  have hfd := sandbox.nextFd_gt
  have hone : sandbox.nextFd ≠ 1 := by omega
  have htwo : sandbox.nextFd ≠ 2 := by omega
  simp [host, hone, htwo, VirtualExecutableBridgeFile.startSeek,
    VirtualExecutableBridgeFile.pollWrite, VirtualExecutableBridgeFile.new]

/-- The first read from the device starts at the front, wherever the descriptor stands. -/
theorem fdRead_request (request : Bytes) (capacity : ℕ) (s : GuestFiles) (offset : ℕ) :
    sandbox.host.fdRead sandbox.nextFd capacity
        { s with opened := some (offset, .bridge ⟨request, none, 0⟩) } =
      (some ((sandbox.invokeGuest request).take capacity), { s with
        opened := some (offset + ((sandbox.invokeGuest request).take capacity).length,
          .bridge ⟨request, some (sandbox.invokeGuest request),
            ((sandbox.invokeGuest request).take capacity).length⟩) }) := by
  have hfd := sandbox.nextFd_gt
  have hzero : sandbox.nextFd ≠ 0 := by omega
  simp [host, hzero, VirtualExecutableBridgeFile.startSeek, VirtualExecutableBridgeFile.pollRead]

end Sandbox

/-- On a file system that leads from the launcher's name to the device, the request arrives there
and the response is read up to the size of the buffer. -/
theorem exchange_of_written {m₀ : Mem} {request : Bytes}
    (hname : m₀.read deviceName 29 = encodeText launcherDevice)
    (hwritten : Written m₀ m cursor request) (hcursor : cursor ≤ responseBuf)
    (hopens : sandbox.opens ('/' :: launcherDevice) = some (.bridge .new)) (s : GuestFiles)
    {response : Bytes} (hresponse : (sandbox.invokeGuest request).take responseCap = response) :
    ∃ m', exchange sandbox.host m cursor s = some (m', { s with
        opened := some (request.length + response.length,
          .bridge ⟨request, some (sandbox.invokeGuest request), response.length⟩) }) ∧
      m'.Holds responseBuf response ∧ m'.Holds nreadPtr (littleEndian 4 response.length) := by
  have hcursorEq := hwritten.cursor_eq
  have hsize : memorySize < 2 ^ 32 := by decide
  have hlength : response.length ≤ responseCap := by
    rw [← hresponse]
    exact length_take_le _ _
  simp only [responseCap] at hlength
  simp only [responseBuf, requestBuf] at hcursor hcursorEq
  let m₁ := m.write fdPtr (littleEndian 4 sandbox.nextFd)
  have hopen : pathOpen sandbox.host m deviceName 29 fdPtr s =
      (m₁, { s with opened := some (0, .bridge .new) }) := by
    have hread : m.read deviceName 29 = m₀.read deviceName 29 := by
      refine ByteMemory.read_congr fun i _ hi => hwritten.below i ?_
      simp only [deviceName, requestBuf] at hi ⊢
      omega
    unfold pathOpen
    rw [hread, hname, decodeText_encodeText]
    simp only [Sandbox.host]
    rw [hopens]
  have hfd : load32 m₁ fdPtr = some sandbox.nextFd :=
    load32_of_holds (m.holds_write fdPtr _) sandbox.nextFd_lt (by decide)
  have hrequest : m₁.Holds requestBuf request := by
    refine hwritten.holds.write ?_
    simp [ByteMemory.Apart, fdPtr, requestBuf]
  have hwrite := fdWrite_withIovec sandbox.host hrequest
    (by simp only [requestBuf, memorySize]; omega)
    (by simp [ByteMemory.Apart, iovec, requestBuf]) sandbox.nextFd _ (sandbox.fdWrite_new request s)
  set m₂ := (withIovec m₁ requestBuf request.length).write writtenPtr
    (littleEndian 4 request.length)
  let m₃ := withIovec m₂ responseBuf responseCap
  have hread : fdRead sandbox.host m₃ sandbox.nextFd iovec nreadPtr
      { s with opened := some (request.length, .bridge ⟨request, none, 0⟩) } =
      ((m₃.write responseBuf response).write nreadPtr (littleEndian 4 response.length), { s with
        opened := some (request.length + response.length,
          .bridge ⟨request, some (sandbox.invokeGuest request), response.length⟩) }) := by
    obtain ⟨hbuf, hcap⟩ := iovec_withIovec m₂ responseBuf responseCap (by decide)
      (by decide)
    unfold fdRead
    rw [hbuf, hcap, if_pos (by decide), sandbox.fdRead_request, hresponse]
  refine ⟨(m₃.write responseBuf response).write nreadPtr (littleEndian 4 response.length), ?_, ?_,
    ByteMemory.holds_write _ _ _⟩
  · have hlen : cursor - requestBuf = request.length := by
      simp only [requestBuf]
      omega
    unfold exchange
    rw [hopen, hlen]
    refine Option.bind_eq_some_iff.2 ⟨_, hfd, ?_⟩
    refine Option.bind_eq_some_iff.2 ⟨_, store32_eq requestBuf (by decide), ?_⟩
    refine Option.bind_eq_some_iff.2 ⟨_, store32_eq request.length (by decide), ?_⟩
    -- what the guest does after the write, with the memory and the files the write leaves
    refine (congrArg (fun after : Mem × GuestFiles =>
      (store32 after.1 iovec responseBuf).bind fun m =>
      (store32 m (iovec + 4) responseCap).bind fun m =>
        some (fdRead sandbox.host m sandbox.nextFd iovec nreadPtr after.2)) hwrite).trans ?_
    refine Option.bind_eq_some_iff.2 ⟨_, store32_eq responseBuf (by decide), ?_⟩
    exact Option.bind_eq_some_iff.2 ⟨_, store32_eq responseCap (by decide), congrArg some hread⟩
  · refine (m₃.holds_write responseBuf response).write ?_
    simp [ByteMemory.Apart, nreadPtr, responseBuf]

/-- A response that the device gave in full is passed on. -/
theorem report_of_holds (hresponse : m.Holds responseBuf (encodeVirtualProcessResponse result))
    (hlength : (encodeVirtualProcessResponse result).length ≤ responseCap)
    (hnread : m.Holds nreadPtr (littleEndian 4 (encodeVirtualProcessResponse result).length))
    (s : GuestFiles) :
    report sandbox.host m s = some ({ s with
      stdout := s.stdout ++ result.stdout, stderr := s.stderr ++ result.stderr },
        result.returncode) := by
  obtain ⟨returncode, stdout, stderr⟩ := result
  have hsizes : (encodeVirtualProcessResponse ⟨returncode, stdout, stderr⟩).length =
      16 + stdout.length + stderr.length := by
    simp only [encodeVirtualProcessResponse, virtualResponseMagic, length_append,
      length_littleEndian, length_cons, length_nil]
  rw [hsizes] at hlength hnread
  simp only [responseCap] at hlength
  simp only [encodeVirtualProcessResponse, ByteMemory.holds_append, length_littleEndian,
    length_append] at hresponse
  obtain ⟨⟨⟨⟨⟨-, hcode⟩, houtLen⟩, herrLen⟩, hout⟩, herr⟩ := hresponse
  have hnread' := load32_of_holds hnread (by omega) (by decide)
  have hcode' := load32_of_holds hcode returncode.isLt (by decide)
  have houtLen' := load32_of_holds houtLen (by omega) (by decide)
  have herrLen' := load32_of_holds herrLen (by omega) (by decide)
  replace hout : m.Holds (responseBuf + 16) stdout := hout
  replace herr : m.Holds (responseBuf + 16 + stdout.length) stderr := by
    have haddr : responseBuf + (virtualResponseMagic.length + 4 + 4 + 4 + stdout.length) =
        responseBuf + 16 + stdout.length := by
      simp only [virtualResponseMagic, length_cons, length_nil]
      omega
    rwa [haddr] at herr
  have hwriteOut := fdWrite_withIovec sandbox.host hout
    (by simp only [responseBuf, memorySize]; omega)
    (by simp [ByteMemory.Apart, iovec, responseBuf]) 1 _ (sandbox.fdWrite_stdout stdout s)
  set m₁ := (withIovec m (responseBuf + 16) stdout.length).write writtenPtr
    (littleEndian 4 stdout.length)
  have herr₁ : m₁.Holds (responseBuf + 16 + stdout.length) stderr := by
    refine ByteMemory.Holds.write ((read_withIovec_of_apart m _ _ ?_).trans herr) ?_
    · exact .inr (.inr (.inl (by simp only [iovec, responseBuf]; omega)))
    · exact .inr (.inr (.inl (by
        simp only [length_littleEndian, writtenPtr, responseBuf]
        omega)))
  have hwriteErr := fdWrite_withIovec sandbox.host herr₁
    (by simp only [responseBuf, memorySize]; omega)
    (.inr (.inr (.inl (by simp only [iovec, responseBuf]; omega)))) 2 _
    (sandbox.fdWrite_stderr stderr { s with stdout := s.stdout ++ stdout })
  have haddr : (responseBuf + 16 + stdout.length) % 2 ^ 32 = responseBuf + 16 + stdout.length :=
    Nat.mod_eq_of_lt (by simp only [responseBuf]; omega)
  unfold report
  refine Option.bind_eq_some_iff.2 ⟨_, hnread', ?_⟩
  rw [if_neg (by omega)]
  refine Option.bind_eq_some_iff.2 ⟨_, hcode', Option.bind_eq_some_iff.2 ⟨_, houtLen', ?_⟩⟩
  refine Option.bind_eq_some_iff.2 ⟨_, herrLen', ?_⟩
  refine Option.bind_eq_some_iff.2 ⟨_, store32_eq (responseBuf + 16) (by decide), ?_⟩
  refine Option.bind_eq_some_iff.2 ⟨_, store32_eq stdout.length (by decide), ?_⟩
  -- what the guest does after each write, with the memory and the files the write leaves
  refine (congrArg (fun after : Mem × GuestFiles =>
    (store32 after.1 iovec ((responseBuf + 16 + stdout.length) % 2 ^ 32)).bind fun m =>
      (store32 m (iovec + 4) stderr.length).bind fun m =>
        some ((fdWrite sandbox.host m 2 iovec writtenPtr after.2).2,
          BitVec.ofNat 32 returncode.toNat)) hwriteOut).trans ?_
  rw [haddr]
  refine Option.bind_eq_some_iff.2
    ⟨_, store32_eq (responseBuf + 16 + stdout.length) (by decide), ?_⟩
  refine Option.bind_eq_some_iff.2 ⟨_, store32_eq stderr.length (by decide), ?_⟩
  refine (congrArg (fun after : Mem × GuestFiles =>
    some (after.2, BitVec.ofNat 32 returncode.toNat)) hwriteErr).trans ?_
  rw [BitVec.ofNat_toNat, BitVec.setWidth_eq]

/-! ### The whole run -/

/-- On a file system that leads from the launcher's name to the device: the request arrives, and
a response that fits its buffer is passed on. -/
theorem start_of_layout {args : List Bytes}
    (hlayout : Layout path args envs) (hargs : ∀ item ∈ args, 0 ∉ item)
    (henvs : ∀ item ∈ envs, 0 ∉ item)
    (hopens : sandbox.opens ('/' :: launcherDevice) = some (.bridge .new)) (s : GuestFiles)
    (hinvoke : sandbox.invokeGuest (encodeRequest path args envs []) =
      encodeVirtualProcessResponse result)
    (hlength : (encodeVirtualProcessResponse result).length ≤ responseCap) :
    ∃ file offset, start sandbox.host path args envs s = some ({ s with
        opened := some (offset, .bridge file), stdout := s.stdout ++ result.stdout,
        stderr := s.stderr ++ result.stderr }, result.returncode) ∧
      file.request = encodeRequest path args envs [] := by
  obtain ⟨m, hinstantiate, hfetched⟩ := fetched_of_layout hlayout
  obtain ⟨m', cursor, hrequest, hwritten⟩ :=
    writeRequest_of_fetched hlayout hfetched hargs henvs
  have hcursor : cursor ≤ responseBuf := by
    rw [hwritten.cursor_eq]
    exact hlayout.request_le
  have hresponse : (sandbox.invokeGuest (encodeRequest path args envs [])).take responseCap =
      encodeVirtualProcessResponse result := by
    rw [hinvoke, take_of_length_le hlength]
  obtain ⟨m'', hexchange, hheld, hnread⟩ := exchange_of_written sandbox
    (read_deviceName hinstantiate args envs) hwritten hcursor hopens s hresponse
  let file : VirtualExecutableBridgeFile := ⟨encodeRequest path args envs [],
    some (sandbox.invokeGuest (encodeRequest path args envs [])),
    (encodeVirtualProcessResponse result).length⟩
  have hreport := report_of_holds sandbox hheld hlength hnread { s with
    opened := some ((encodeRequest path args envs []).length +
      (encodeVirtualProcessResponse result).length, .bridge file) }
  refine ⟨file, (encodeRequest path args envs []).length +
    (encodeVirtualProcessResponse result).length, ?_, rfl⟩
  refine Option.bind_eq_some_iff.2 ⟨_, hinstantiate, Option.bind_eq_some_iff.2 ⟨_, hrequest, ?_⟩⟩
  exact Option.bind_eq_some_iff.2 ⟨_, hexchange, hreport⟩

/-! ### The device is not opened -/

theorem store32_below {addr value : ℕ} (h : store32 m addr value = some m')
    (haddr : requestBuf ≤ addr) : ∀ i < requestBuf, m' i = m i := by
  intro i hi
  rw [← Option.some.inj (Option.ite_none_right_eq_some.1 h).2, m.write_of_lt _ (by omega)]

theorem memoryCopy_below {dest len : ℕ} (h : memoryCopy m dest source len = some m')
    (hdest : requestBuf ≤ dest) : ∀ i < requestBuf, m' i = m i := by
  intro i hi
  rw [← Option.some.inj (Option.ite_none_right_eq_some.1 h).2, m.write_of_lt _ (by omega)]

theorem writeRecord_below (h : writeRecord m cursor source = some (m', cursor'))
    (hcursor : requestBuf ≤ cursor) : ∀ i < requestBuf, m' i = m i := by
  intro i hi
  obtain ⟨len, -, h⟩ := Option.bind_eq_some_iff.1 h
  obtain ⟨m₁, hstore, h⟩ := Option.bind_eq_some_iff.1 h
  obtain ⟨m₂, hcopy, h⟩ := Option.bind_eq_some_iff.1 h
  have hm : m₂ = m' := congrArg Prod.fst (Option.some.inj h)
  rw [← hm, memoryCopy_below hcopy (by omega) i hi, store32_below hstore hcursor i hi]

theorem writeRecords_below {countPtr ptrs : ℕ} {index : ℕ}
    (h : writeRecords countPtr ptrs m cursor index = some (m', cursor'))
    (hcursor : requestBuf ≤ cursor) : requestBuf ≤ cursor' ∧ ∀ i < requestBuf, m' i = m i := by
  induction m, cursor, index using writeRecords.induct countPtr ptrs with
  | case1 m cursor index hcount => simp [writeRecords, hcount] at h
  | case2 m cursor index count hcount hle =>
    rw [writeRecords, hcount] at h
    simp only [hle, if_true] at h
    obtain ⟨rfl, rfl⟩ := Prod.mk.inj (Option.some.inj h)
    exact ⟨hcursor, fun _ _ => rfl⟩
  | case3 m cursor index count hcount hlt hsource =>
    rw [writeRecords, hcount] at h
    simp [hlt, hsource] at h
  | case4 m cursor index count hcount hlt source hsource hrecord =>
    rw [writeRecords, hcount] at h
    simp only [hlt, if_false, hsource] at h
    split at h
    · exact absurd h (by simp)
    next hsome => exact absurd (hrecord.symm.trans hsome) (by simp)
  | case5 m cursor index count hcount hlt source hsource m₁ cursor₁ hrecord hnext ih =>
    rw [writeRecords, hcount] at h
    simp only [hlt, if_false, hsource] at h
    split at h
    · exact absurd h (by simp)
    next m₂ cursor₂ hsome =>
      obtain ⟨rfl, rfl⟩ := Prod.mk.inj (Option.some.inj (hrecord.symm.trans hsome))
      obtain ⟨hend, hbelow⟩ := ih h (by omega)
      exact ⟨hend, fun i hi => (hbelow i hi).trans (writeRecord_below hrecord hcursor i hi)⟩

/-- However the parts of the memory overlap, the frame is written from `requestBuf` on. -/
theorem writeRequest_below {execPathLen : ℕ} (h : writeRequest m execPathLen = some (m', cursor)) :
    ∀ i < requestBuf, m' i = m i := by
  intro i hi
  simp only [writeRequest, Option.bind_eq_bind, Option.bind_eq_some_iff] at h
  obtain ⟨m₁, h₁, m₂, h₂, m₃, h₃, argc, -, m₄, h₄, envc, -, m₅, h₅, m₆, h₆, ⟨m₇, cursor₇⟩, h₇,
    ⟨m₈, cursor₈⟩, h₈, m₉, h₉, h⟩ := h
  simp only at h₈ h₉
  obtain ⟨hcursor₇, hbelow₇⟩ := writeRecords_below h₇ (by omega)
  obtain ⟨hcursor₈, hbelow₈⟩ := writeRecords_below h₈ hcursor₇
  have hm : m₉ = m' := congrArg Prod.fst (Option.some.inj h)
  rw [← hm, memoryCopy_below h₉ hcursor₈ i hi, hbelow₈ i hi, hbelow₇ i hi,
    store32_below h₆ (by omega) i hi, store32_below h₅ (by omega) i hi,
    store32_below h₄ (by omega) i hi, memoryCopy_below h₃ (by omega) i hi,
    store32_below h₂ (by omega) i hi, store32_below h₁ le_rfl i hi]

/-- No descriptor leads to the device. -/
def GuestFiles.Unbridged (s : GuestFiles) : Prop :=
  ∀ offset file, s.opened ≠ some (offset, .bridge file)

theorem Sandbox.unbridged_fdWrite (fd : ℕ) (data : Bytes) (h : s.Unbridged) :
    (sandbox.host.fdWrite fd data s).2.Unbridged := by
  simp only [Sandbox.host]
  split
  · exact h
  · split
    · exact h
    · split
      · split
        next offset file hopened => exact absurd hopened (h offset file)
        · simp [GuestFiles.Unbridged]
        · exact h
      · exact h

theorem Sandbox.unbridged_fdRead (fd capacity : ℕ) (h : s.Unbridged) :
    (sandbox.host.fdRead fd capacity s).2.Unbridged := by
  simp only [Sandbox.host]
  split
  · exact h
  · split
    · split
      next offset file hopened => exact absurd hopened (h offset file)
      · simp [GuestFiles.Unbridged]
      · exact h
    · exact h

section Unbridged

variable {sandbox : Sandbox} {m : Mem} {s s' : GuestFiles} {fd iovs : ℕ}

theorem unbridged_fdWrite {writtenPtr : ℕ} (h : s.Unbridged) :
    (fdWrite sandbox.host m fd iovs writtenPtr s).2.Unbridged := by
  have hwrite := fun data => sandbox.unbridged_fdWrite fd data h
  unfold fdWrite
  simp only
  split
  · split
    next hsome =>
      have := hwrite (m.read (ofLittleEndian (m.read iovs 4))
        (ofLittleEndian (m.read (iovs + 4) 4)))
      rwa [hsome] at this
    next hnone =>
      have := hwrite (m.read (ofLittleEndian (m.read iovs 4))
        (ofLittleEndian (m.read (iovs + 4) 4)))
      rwa [hnone] at this
  · exact h

theorem unbridged_fdRead {nreadPtr : ℕ} (h : s.Unbridged) :
    (fdRead sandbox.host m fd iovs nreadPtr s).2.Unbridged := by
  have hread := sandbox.unbridged_fdRead fd (ofLittleEndian (m.read (iovs + 4) 4)) h
  unfold fdRead
  simp only
  split
  · split
    next hsome => rwa [hsome] at hread
    next hnone => rwa [hnone] at hread
  · exact h

/-- A file system that leads from the launcher's name to something else, or nowhere, leaves the
device closed. -/
theorem unbridged_exchange (hname : m.read deviceName 29 = encodeText launcherDevice)
    (hopens : ∀ file, sandbox.opens ('/' :: launcherDevice) ≠ some (.bridge file))
    (hs : s.Unbridged) (h : exchange sandbox.host m cursor s = some (m', s')) : s'.Unbridged := by
  have hopen : (pathOpen sandbox.host m deviceName 29 fdPtr s).2.Unbridged := by
    unfold pathOpen
    rw [hname, decodeText_encodeText]
    simp only [Sandbox.host]
    split
    next fd s₁ hfile =>
      split at hfile
      next file hsome =>
        obtain ⟨-, rfl⟩ := Prod.mk.inj hfile
        rintro offset bridge hbridge
        simp only [Option.some.injEq, Prod.mk.injEq] at hbridge
        exact hopens bridge (hbridge.2 ▸ hsome)
      · simp at hfile
    next s₁ hfile =>
      split at hfile
      · simp at hfile
      obtain ⟨-, rfl⟩ := Prod.mk.inj hfile
      exact hs
  simp only [exchange, Option.bind_eq_bind, Option.bind_eq_some_iff] at h
  obtain ⟨fd, -, m₂, -, m₃, -, m₄, -, m₅, -, h⟩ := h
  have hs' : _ = s' := congrArg Prod.snd (Option.some.inj h)
  rw [← hs']
  exact unbridged_fdRead (unbridged_fdWrite hopen)

theorem unbridged_report {code : BitVec 32} (hs : s.Unbridged)
    (h : report sandbox.host m s = some (s', code)) : s'.Unbridged := by
  simp only [report, Option.bind_eq_bind, Option.bind_eq_some_iff] at h
  obtain ⟨responseLen, -, h⟩ := h
  split at h
  · have hs' : s = s' := congrArg Prod.fst (Option.some.inj h)
    rwa [← hs']
  · simp only [Option.bind_eq_some_iff] at h
    obtain ⟨returncode, -, stdoutLen, -, stderrLen, -, m₁, -, m₂, -, m₃, -, m₄, -, h⟩ := h
    have hs' : _ = s' := congrArg Prod.fst (Option.some.inj h)
    rw [← hs']
    exact unbridged_fdWrite (unbridged_fdWrite hs)

end Unbridged

/-- However long path, arguments and environment are. -/
theorem unbridged_start {sandbox : Sandbox} {args : List Bytes} {s' : GuestFiles} {code : BitVec 32}
    (hopens : ∀ file, sandbox.opens ('/' :: launcherDevice) ≠ some (.bridge file))
    (hs : s.Unbridged) (h : start sandbox.host path args envs s = some (s', code)) :
    s'.Unbridged := by
  unfold start at h
  obtain ⟨m, hinstantiate, h⟩ := Option.bind_eq_some_iff.1 h
  obtain ⟨⟨m₁, cursor⟩, hrequest, h⟩ := Option.bind_eq_some_iff.1 h
  obtain ⟨⟨m₂, s₂⟩, hexchange, h⟩ := Option.bind_eq_some_iff.1 h
  have hname : m₁.read deviceName 29 = encodeText launcherDevice := by
    rw [← read_deviceName hinstantiate args envs]
    refine ByteMemory.read_congr fun i _ hi => writeRequest_below hrequest i ?_
    simp only [deviceName, requestBuf] at hi ⊢
    omega
  exact unbridged_report (unbridged_exchange hname hopens hs hexchange) h

/-! ### The round trip -/

/-- The items of an environment as the host hands them to a guest. -/
def envItems (env : OrdMap Text Text) : List Text := env.entries.map fun e => e.1 ++ '=' :: e.2

/-- The arguments and environments that the host accepts. -/
structure Accepted (args : List Text) (env : OrdMap Text Text) : Prop where
  args : ∀ arg ∈ args, '\x00' ∉ arg
  env : ∀ e ∈ env.entries, '=' ∉ e.1 ∧ '\x00' ∉ e.1 ∧ '\x00' ∉ e.2

theorem environmentOf_envItems (h : ∀ e ∈ env.entries, '=' ∉ e.1) :
    environmentOf (envItems env) = env := by
  have hfold : ∀ (entries : List (Text × Text)) (built : OrdMap Text Text),
      (∀ e ∈ entries, '=' ∉ e.1) →
        (entries.map fun e => e.1 ++ '=' :: e.2).foldl insertEnvItem built =
          built.setAll entries := by
    intro entries
    induction entries with
    | nil => exact fun built _ => rfl
    | cons e entries ih =>
      intro built hentries
      obtain ⟨he, hrest⟩ := forall_mem_cons.1 hentries
      rw [map_cons, foldl_cons, ih _ hrest, OrdMap.setAll_cons, insertEnvItem, splitOnce_append he]
  rw [environmentOf, envItems, hfold _ _ h]
  exact env.ofList_entries

theorem zero_mem_encodeText_iff (t : Text) : 0 ∈ encodeText t ↔ '\x00' ∈ t :=
  mem_encodeText_iff (by decide)

/-- The host whose registry answers every request with one result. -/
def Sandbox.answering (sandbox : Sandbox) (result : VirtualProcessResponsePayload) : Sandbox :=
  { sandbox with invokeGuest := fun _ => encodeVirtualProcessResponse result }

/-- The launcher at a path: what arrives at the device is this path with these arguments and this
environment, and the result that the host answers with is what the launcher prints and exits
with. -/
def RoundTrip (sandbox : Sandbox) (path : Text) (args : List Text) (env : OrdMap Text Text)
    (stdin : Bytes) (result : VirtualProcessResponsePayload) : Prop :=
  ∃ final, start (sandbox.answering result).host (encodeText path) (args.map encodeText)
      ((envItems env).map encodeText) (.ofStdin stdin) = some (final, result.returncode) ∧
    final.stdout = result.stdout ∧ final.stderr = result.stderr ∧
    ∃ offset file, final.opened = some (offset, .bridge file) ∧
      parseGuestVirtualProcessPayload file.request =
        .ok ⟨path, args, (env.get "PWD".toList).getD "/".toList, env, []⟩

/-- On the file system of the sandbox nothing arrives at the device. -/
theorem not_roundTrip_of_opens {sandbox : Sandbox}
    (hopens : ∀ file, sandbox.opens ('/' :: launcherDevice) ≠ some (.bridge file)) (path : Text)
    (args : List Text) (env : OrdMap Text Text) (stdin : Bytes)
    (result : VirtualProcessResponsePayload) :
    ¬RoundTrip sandbox path args env stdin result := by
  rintro ⟨final, hstart, -, -, offset, file, hopened, -⟩
  have hs : (GuestFiles.ofStdin stdin).Unbridged := by
    simp [GuestFiles.Unbridged, GuestFiles.ofStdin]
  have hopens' : ∀ file,
      (sandbox.answering result).opens ('/' :: launcherDevice) ≠ some (.bridge file) := hopens
  exact unbridged_start hopens' hs hstart offset file hopened

theorem opens_launcherDevice (inner : Text → Option Bytes) (file : VirtualExecutableBridgeFile) :
    virtualExecutableFileSystem inner ('/' :: launcherDevice) ≠ some (.bridge file) := by
  rw [virtualExecutableFileSystem, if_neg (by decide)]
  simp

theorem zero_notMem_encodeText {items : List Text} (h : ∀ item ∈ items, '\x00' ∉ item) :
    ∀ bytes ∈ items.map encodeText, 0 ∉ bytes := by
  refine forall_mem_map.2 fun item hitem => ?_
  rw [zero_mem_encodeText_iff]
  exact h item hitem

theorem Accepted.zero_notMem_envItems (h : Accepted args env) :
    ∀ bytes ∈ (envItems env).map encodeText, 0 ∉ bytes := by
  refine zero_notMem_encodeText (forall_mem_map.2 fun e he => ?_)
  obtain ⟨-, hkey, hvalue⟩ := h.env e he
  simp [hkey, hvalue]

/-- The request frame for an input that the host accepts is read back as this input. -/
theorem parse_of_layout {path : Text} (haccepted : Accepted args env)
    (hlayout : Layout (encodeText path) (args.map encodeText) ((envItems env).map encodeText)) :
    parseGuestVirtualProcessPayload (encodeRequest (encodeText path) (args.map encodeText)
        ((envItems env).map encodeText) []) =
      .ok ⟨path, args, (env.get "PWD".toList).getD "/".toList, env, []⟩ := by
  obtain ⟨⟨hpath, hargc, htexts, henvc, henvTexts⟩, -⟩ := hlayout.parts
  have hfits : ∀ {items : List Text}, textsSize (items.map encodeText) < 2 ^ 32 →
      ∀ item ∈ items, BinaryCursor.Fits item := by
    intro items hsize item hitem
    have hle : (encodeText item).length + 1 ≤ textsSize (items.map encodeText) :=
      le_sum_of_mem (mem_map.2 ⟨_, mem_map.2 ⟨item, hitem, rfl⟩, rfl⟩)
    unfold BinaryCursor.Fits
    omega
  simp only [length_map] at hargc henvc
  have hparse := parseGuestVirtualProcessPayload_encodeRequest path args (envItems env) []
    (by unfold BinaryCursor.Fits; omega) (hfits (by omega)) (hfits (by omega)) (by omega)
    (by omega) (by simp) []
  rw [append_nil] at hparse
  rw [hparse, guestPayload, environmentOf_envItems fun e he => (haccepted.env e he).1]

/-- With the device under the launcher's name and a memory whose parts do not overlap. -/
theorem roundTrip_of_layout {sandbox : Sandbox} {path : Text} (stdin : Bytes)
    (hopens : sandbox.opens ('/' :: launcherDevice) = some (.bridge .new))
    (haccepted : Accepted args env)
    (hlayout : Layout (encodeText path) (args.map encodeText) ((envItems env).map encodeText))
    (hlength : (encodeVirtualProcessResponse result).length ≤ responseCap) :
    RoundTrip sandbox path args env stdin result := by
  obtain ⟨file, offset, hstart, hrequest⟩ := start_of_layout (sandbox.answering result) hlayout
    (zero_notMem_encodeText haccepted.args) haccepted.zero_notMem_envItems hopens (.ofStdin stdin)
    rfl hlength
  refine ⟨_, hstart, rfl, rfl, offset, file, rfl, ?_⟩
  rw [hrequest, parse_of_layout haccepted hlayout]

/-- For every executable, argument list, environment, standard input and result: in no sandbox
does a request of the launcher arrive at the device. Where the launcher's name for the device did
lead there, a memory whose parts do not overlap and a response that fits its buffer would be
enough. -/
theorem roundTrip_never (path : Text) (args : List Text) (env : OrdMap Text Text) (stdin : Bytes)
    (result : VirtualProcessResponsePayload) (sandbox : Sandbox) :
    (∀ inner, sandbox.opens = virtualExecutableFileSystem inner →
      ¬RoundTrip sandbox path args env stdin result) ∧
    (sandbox.opens ('/' :: launcherDevice) = some (.bridge .new) → Accepted args env →
      Layout (encodeText path) (args.map encodeText) ((envItems env).map encodeText) →
      (encodeVirtualProcessResponse result).length ≤ responseCap →
        RoundTrip sandbox path args env stdin result) := by
  refine ⟨fun inner hopens => not_roundTrip_of_opens (fun file => ?_) path args env stdin result,
    fun hopens haccepted hlayout => roundTrip_of_layout stdin hopens haccepted hlayout⟩
  rw [hopens]
  exact opens_launcherDevice inner file

/-- A sandbox with no file but the device, and one where the launcher's name leads there. -/
def echoSandbox (opens : Text → Option OpenedFile) : Sandbox :=
  ⟨opens, fun _ => [], 4, by decide, by decide⟩

def echoResult : VirtualProcessResponsePayload := ⟨0, encodeText "hi\n".toList, []⟩

theorem roundTrip_echo :
    ¬RoundTrip (echoSandbox (virtualExecutableFileSystem fun _ => none)) "/tools/echo".toList
        ["echo".toList, "hi".toList] (OrdMap.empty.set "PWD".toList "/work".toList) [] echoResult ∧
      RoundTrip (echoSandbox fun _ => some (.bridge .new)) "/tools/echo".toList
        ["echo".toList, "hi".toList] (OrdMap.empty.set "PWD".toList "/work".toList) []
        echoResult := by
  refine ⟨(roundTrip_never _ _ _ _ _ _).1 _ rfl, (roundTrip_never _ _ _ _ _ _).2 rfl ?_ ?_ ?_⟩
  · exact ⟨by decide, by decide⟩
  · exact ⟨by decide, by decide⟩
  · decide

theorem not_roundTrip_echo :
    ¬RoundTrip (echoSandbox (virtualExecutableFileSystem fun _ => none)) "/tools/echo".toList
      ["echo".toList, "hi".toList] OrdMap.empty [] echoResult :=
  not_roundTrip_of_opens (fun file => opens_launcherDevice (fun _ => none) file) _ _ _ _ _

end Launcher

end WasmHost
