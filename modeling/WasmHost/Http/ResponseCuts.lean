import WasmHost.Http.ChunkSize

/-!
# Responses in parts

`responseReading` reads a response from all its bytes at once, with no buffer and no reads. The
reader of the native worker gives the same on every cut of the bytes, unless a limit that it checks
between two reads is near.
-/

namespace WasmHost

open List Buffered

variable {α : Type} {data : Bytes}

/-- What is read of some data: the lines of the chunked coding that end in it, the body, and how it
ends. -/
structure Reading (α : Type) where
  lines : List Bytes
  body : Bytes
  result : Except HttpBridgeError α

/-- The data holds no further line. -/
def missingLine (ending : StreamEnd) (context : String) (data : Bytes) : HttpBridgeError :=
  if nativeHttpHeaderLimit < data.length then
    .invalidResponse (context ++ " exceeded 65536 bytes")
  else ending.error ("HTTP connection closed before " ++ context) context

/-- A line and some of the body in front of what is read behind them. -/
def Reading.behind (line body : Bytes) (r : Reading α) : Reading α :=
  ⟨line :: r.lines, body ++ r.body, r.result⟩

/-- Lines up to the empty one. -/
def trailersReading (ending : StreamEnd) (data : Bytes) : Reading Unit :=
  match _hline : splitInfix crlfBytes data with
  | none => ⟨[], [], .error (missingLine ending "chunked HTTP response trailers" data)⟩
  | some (line, rest) =>
    if line = [] then ⟨[line], [], .ok ()⟩
    else (trailersReading ending rest).behind line []
termination_by data.length
decreasing_by exact length_lt_of_splitInfix (by decide) _hline

/-- Chunks up to the last one, and the trailers. -/
def chunkedReading (ending : StreamEnd) (data : Bytes) : Reading Unit :=
  match _hline : splitInfix crlfBytes data with
  | none => ⟨[], [], .error (missingLine ending "chunked HTTP response chunk size" data)⟩
  | some (line, rest) =>
    match parseNativeHttpChunkSize line with
    | .error error => ⟨[line], [], .error error⟩
    | .ok size =>
      if size = 0 then (trailersReading ending rest).behind line []
      else if rest.length < size then
        ⟨[line], rest, .error (ending.error
          "HTTP connection closed before chunked response body completed"
          "chunked HTTP response body")⟩
      else if rest.length < size + 2 then
        ⟨[line], rest.take size, .error (ending.error
          "HTTP connection closed before chunked HTTP response chunk terminator"
          "chunked HTTP response chunk terminator")⟩
      else if (rest.drop size).take 2 ≠ crlfBytes then
        ⟨[line], rest.take size, .error (.invalidResponse
          "chunked HTTP response chunk missing CRLF terminator")⟩
      else (chunkedReading ending (rest.drop (size + 2))).behind line (rest.take size)
termination_by data.length
decreasing_by
  have hlt := length_lt_of_splitInfix (by decide) _hline
  rw [length_drop]
  omega

section

variable {ending : StreamEnd} {data line rest : Bytes} {size : ℕ}

theorem trailersReading_of_none (h : splitInfix crlfBytes data = none) :
    trailersReading ending data =
      ⟨[], [], .error (missingLine ending "chunked HTTP response trailers" data)⟩ := by
  rw [trailersReading]
  split
  · rfl
  next hline => cases hline.symm.trans h

theorem trailersReading_of_some (h : splitInfix crlfBytes data = some (line, rest)) :
    trailersReading ending data =
      if line = [] then ⟨[line], [], .ok ()⟩
      else (trailersReading ending rest).behind line [] := by
  rw [trailersReading]
  split
  next hline => cases hline.symm.trans h
  next line' rest' hline =>
    obtain ⟨rfl, rfl⟩ := Prod.mk.inj (Option.some.inj (hline.symm.trans h))
    rfl

theorem trailersReading_body (data : Bytes) : (trailersReading ending data).body = [] := by
  fun_induction trailersReading ending data with
  | case1 | case2 => rfl
  | case3 data line rest hline hne ih => exact ih

theorem chunkedReading_of_none (h : splitInfix crlfBytes data = none) :
    chunkedReading ending data =
      ⟨[], [], .error (missingLine ending "chunked HTTP response chunk size" data)⟩ := by
  rw [chunkedReading]
  split
  · rfl
  next hline => cases hline.symm.trans h

theorem chunkedReading_of_error {error : HttpBridgeError}
    (h : splitInfix crlfBytes data = some (line, rest))
    (hsize : parseNativeHttpChunkSize line = .error error) :
    chunkedReading ending data = ⟨[line], [], .error error⟩ := by
  rw [chunkedReading]
  split
  next hline => cases hline.symm.trans h
  next line' rest' hline =>
    obtain ⟨rfl, rfl⟩ := Prod.mk.inj (Option.some.inj (hline.symm.trans h))
    rw [hsize]

theorem chunkedReading_of_ok (h : splitInfix crlfBytes data = some (line, rest))
    (hsize : parseNativeHttpChunkSize line = .ok size) :
    chunkedReading ending data =
      if size = 0 then (trailersReading ending rest).behind line []
      else if rest.length < size then
        ⟨[line], rest, .error (ending.error
          "HTTP connection closed before chunked response body completed"
          "chunked HTTP response body")⟩
      else if rest.length < size + 2 then
        ⟨[line], rest.take size, .error (ending.error
          "HTTP connection closed before chunked HTTP response chunk terminator"
          "chunked HTTP response chunk terminator")⟩
      else if (rest.drop size).take 2 ≠ crlfBytes then
        ⟨[line], rest.take size, .error (.invalidResponse
          "chunked HTTP response chunk missing CRLF terminator")⟩
      else (chunkedReading ending (rest.drop (size + 2))).behind line (rest.take size) := by
  rw [chunkedReading]
  split
  next hline => cases hline.symm.trans h
  next line' rest' hline =>
    obtain ⟨rfl, rfl⟩ := Prod.mk.inj (Option.some.inj (hline.symm.trans h))
    rw [hsize]

end

/-- A body that is framed as the header lines say. -/
def bodyReading (ending : StreamEnd) (parsed : ParsedHeaders) (data : Bytes) : Reading Unit :=
  if parsed.chunked then chunkedReading ending data
  else
    match parsed.contentLength with
    | some length =>
      ⟨[], data.take length,
        if data.length < length then
          .error (ending.error "HTTP response body ended early" "HTTP response body")
        else .ok ()⟩
    | none =>
      ⟨[], data,
        match ending with
        | .closed => .ok ()
        | .failed error => .error (.transport ("unable to read HTTP response body: " ++ error))⟩

/-- A whole response. -/
def responseReading (ending : StreamEnd) (data : Bytes) : Reading HttpResponse :=
  match splitInfix headerEnd data with
  | none =>
    ⟨[], [], .error (if nativeHttpHeaderLimit < data.length then
        .invalidResponse "HTTP response headers exceeded 65536 bytes"
      else ending.error "HTTP connection closed before response headers" "HTTP response headers")⟩
  | some (block, rest) =>
    if nativeHttpHeaderLimit + 1 < block.length + headerEnd.length then
      ⟨[], [], .error (.invalidResponse "HTTP response headers exceeded 65536 bytes")⟩
    else
      match parseNativeHttpResponseHeaders block with
      | .error error => ⟨[], [], .error error⟩
      | .ok (status, parsed) =>
        { bodyReading ending parsed rest with
          result := (bodyReading ending parsed rest).result.bind fun _ =>
            HttpResponse.new status parsed.headers [] }

/-! ### The limits -/

/-- So many bytes may be delivered. -/
def Within (bodyLimit : Option ℕ) (length : ℕ) : Prop := ∀ limit ∈ bodyLimit, length ≤ limit

/-- A limit can be checked. -/
instance (bodyLimit : Option ℕ) (length : ℕ) : Decidable (Within bodyLimit length) :=
  inferInstanceAs (Decidable (∀ limit ∈ bodyLimit, length ≤ limit))

/-- No limit is near, where the reads can come to different ends: the head ends before the limit or
more than one read behind it, the lines of the chunked coding are shorter, and the body is not
longer than it may be. -/
structure Calm (ending : StreamEnd) (bodyLimit : Option ℕ) (data : Bytes) : Prop where
  head : ∀ block rest, splitInfix headerEnd data = some (block, rest) →
    block.length + headerEnd.length ≤ nativeHttpHeaderLimit + 1 ∨
      nativeHttpHeaderLimit + 4096 < block.length + headerEnd.length
  lines : ∀ line ∈ (responseReading ending data).lines, line.length < nativeHttpHeaderLimit
  body : Within bodyLimit (responseReading ending data).body.length

section

variable {ending : StreamEnd} {bodyLimit : Option ℕ} {b : Buffered UInt8} {delivered : Bytes}
    {remaining : ℕ}

theorem Within.mono {m n : ℕ} (h : Within bodyLimit n) (hle : m ≤ n) : Within bodyLimit m :=
  fun limit hlimit => hle.trans (h limit hlimit)

theorem push_of_within {chunk : Bytes}
    (h : Within bodyLimit (delivered.length + chunk.length)) :
    pushNativeHttpResponseBodyChunk bodyLimit chunk delivered = (.ok (), delivered ++ chunk) := by
  unfold pushNativeHttpResponseBodyChunk
  split_ifs with hempty
  · rw [hempty, append_nil]
  · cases bodyLimit with
    | none => rfl
    | some limit => exact if_neg (not_lt.2 (h limit rfl))

/-! ### Lines -/

variable {context : String} {line rest : Bytes}

theorem readNativeHttpLine_of_lt (h : splitInfix crlfBytes b.pending = some (line, rest))
    (hlt : line.length < nativeHttpHeaderLimit) :
    ∃ b', readNativeHttpLine ending context b = .ok (line, b') ∧ b'.pending = rest := by
  obtain ⟨b', hread, hpending⟩ := readUntil_of_le (show 0 < 4096 by decide) h
    (show line.length + crlfBytes.length ≤ nativeHttpHeaderLimit + 1 by
      rw [crlfBytes, length_cons, length_cons, length_nil]
      omega)
  refine ⟨b', ?_, hpending⟩
  rw [readNativeHttpLine, hread]

theorem readNativeHttpLine_of_none (h : splitInfix crlfBytes b.pending = none) :
    readNativeHttpLine ending context b = .error (missingLine ending context b.pending) := by
  rw [readNativeHttpLine, readUntil_of_none _ h, missingLine]
  split_ifs <;> rfl

theorem readNativeHttpTrailers_eq
    (h : ∀ line ∈ (trailersReading ending b.pending).lines,
      line.length < nativeHttpHeaderLimit) :
    readNativeHttpTrailers ending b = (trailersReading ending b.pending).result := by
  induction hlength : b.pending.length using Nat.strong_induction_on generalizing b with
  | _ n ih =>
    cases hsplit : splitInfix crlfBytes b.pending with
    | none =>
      rw [trailersReading_of_none hsplit,
        readNativeHttpTrailers_of_error (readNativeHttpLine_of_none hsplit)]
    | some parts =>
      obtain ⟨line, rest⟩ := parts
      rw [trailersReading_of_some hsplit] at h ⊢
      have hlt : line.length < nativeHttpHeaderLimit := by
        apply h
        split_ifs <;> exact mem_cons_self
      obtain ⟨b', hread, rfl⟩ := readNativeHttpLine_of_lt hsplit hlt
      rw [readNativeHttpTrailers_of_ok hread]
      split_ifs at h ⊢ with hempty
      · rfl
      · refine ih b'.pending.length ?_ (fun line hline => h line ?_) rfl
        · rw [← hlength]
          exact length_lt_of_splitInfix (by decide) hsplit
        · exact mem_cons_of_mem _ hline

/-! ### Bodies -/

/-- The data of a chunk is passed on as far as it is there. -/
theorem readChunkData_eq (ending : StreamEnd)
    (h : Within bodyLimit (delivered.length + (b.pending.take remaining).length)) :
    if b.pending.length < remaining then
      readChunkData ending bodyLimit remaining b delivered =
        (.error (ending.error "HTTP connection closed before chunked response body completed"
          "chunked HTTP response body"), delivered ++ b.pending)
    else
      ∃ b', readChunkData ending bodyLimit remaining b delivered =
          (.ok b', delivered ++ b.pending.take remaining) ∧
        b'.pending = b.pending.drop remaining := by
  induction remaining using Nat.strong_induction_on generalizing b delivered with
  | _ remaining ih =>
    by_cases hzero : remaining = 0
    · subst hzero
      rw [if_neg (Nat.not_lt_zero _), readChunkData_zero]
      exact ⟨b, by simp only [take_zero, append_nil]; rfl, rfl⟩
    cases hfill : b.refill 4096 with
    | none =>
      rw [readChunkData_of_none hzero hfill, pending_of_refill_eq_none hfill,
        length_nil, if_pos (Nat.pos_of_ne_zero hzero), append_nil]
      rfl
    | some filled =>
      obtain ⟨hne, hpending⟩ := refill_eq_some (by decide) hfill
      have hpos := length_pos_of_ne_nil hne
      rw [← hpending] at h ⊢
      set accepted := min filled.buffer.length remaining with haccepted
      set left : Buffered UInt8 := ⟨filled.buffer.drop accepted, filled.parts⟩ with hleft
      set front := filled.buffer.take accepted with hfront
      -- what is accepted is the front of all that is to come
      have hcut : filled.pending = front ++ left.pending := by
        simp only [hleft, hfront, pending, ← append_assoc, take_append_drop]
      have hlen : front.length = accepted := by
        rw [hfront, length_take]
        omega
      obtain ⟨more, hmore⟩ : ∃ more, remaining = front.length + more :=
        Nat.exists_eq_add_of_le (hlen ▸ min_le_right _ _)
      have htake : filled.pending.take remaining = front ++ left.pending.take more := by
        rw [hcut, hmore, take_length_add_append]
      have hdrop : filled.pending.drop remaining = left.pending.drop more := by
        rw [hcut, hmore, drop_length_add_append]
      have hlength : filled.pending.length < remaining ↔ left.pending.length < more := by
        rw [hcut, hmore, length_append]
        omega
      rw [htake, length_append, ← Nat.add_assoc, ← length_append] at h
      have hread : readChunkData ending bodyLimit remaining b delivered =
          readChunkData ending bodyLimit more left (delivered ++ front) := by
        have hpush : pushNativeHttpResponseBodyChunk bodyLimit front delivered =
            (.ok (), delivered ++ front) := by
          refine push_of_within (h.mono ?_)
          rw [length_append]
          omega
        have hrest : remaining - accepted = more := by omega
        rw [readChunkData_of_some hzero hfill]
        refine (ExceptT.bind_apply_of_ok hpush _).trans ?_
        rw [hrest]
      rw [hread, htake, hdrop, if_congr hlength rfl rfl, hcut, ← append_assoc, ← append_assoc]
      exact ih more (by omega) h

theorem ensureNativeHttpBuffer_eq (ending : StreamEnd) (length : ℕ) (context : String)
    (b : Buffered UInt8) :
    if b.pending.length < length then
      ensureNativeHttpBuffer ending length context b =
        .error (ending.error ("HTTP connection closed before " ++ context) context)
    else
      ∃ b', ensureNativeHttpBuffer ending length context b = .ok b' ∧
        length ≤ b'.buffer.length ∧ b'.pending = b.pending := by
  have hspec := ensure_spec (show 0 < 4096 by decide) length b
  rw [ensureNativeHttpBuffer]
  split at hspec
  next hnone =>
    rw [if_pos hspec, hnone]
  next b' hsome =>
    have hle : length ≤ b.pending.length := by
      rw [← hspec.2, pending, length_append]
      omega
    rw [if_neg (not_lt.2 hle), hsome]
    exact ⟨b', rfl, hspec⟩

/-- A chunked body is read from all that is still to come. -/
theorem readChunked_eq
    (hlines : ∀ line ∈ (chunkedReading ending b.pending).lines,
      line.length < nativeHttpHeaderLimit)
    (hbody : Within bodyLimit
      (delivered.length + (chunkedReading ending b.pending).body.length)) :
    readChunkedNativeHttpBodyChunks ending bodyLimit b delivered =
      ((chunkedReading ending b.pending).result,
        delivered ++ (chunkedReading ending b.pending).body) := by
  induction hlength : b.pending.length using Nat.strong_induction_on generalizing b delivered with
  | _ n ih =>
    cases hsplit : splitInfix crlfBytes b.pending with
    | none =>
      rw [chunkedReading_of_none hsplit,
        readChunked_of_line_error (readNativeHttpLine_of_none hsplit), append_nil]
    | some parts =>
      obtain ⟨line, rest⟩ := parts
      cases hsize : parseNativeHttpChunkSize line with
      | error =>
        rw [chunkedReading_of_error hsplit hsize] at hlines ⊢
        obtain ⟨b₁, hread, rfl⟩ := readNativeHttpLine_of_lt hsplit
          (hlines line mem_cons_self)
        rw [readChunked_of_line hread, hsize, append_nil]
      | ok size =>
        rw [chunkedReading_of_ok hsplit hsize] at hlines hbody ⊢
        have hlt : line.length < nativeHttpHeaderLimit := by
          apply hlines
          split_ifs <;> exact mem_cons_self
        obtain ⟨b₁, hread, rfl⟩ := readNativeHttpLine_of_lt hsplit hlt
        have hshorter := length_lt_of_splitInfix (by decide) hsplit
        rw [readChunked_of_line hread, hsize]
        by_cases hzero : size = 0
        · -- the last chunk
          simp only [if_pos hzero] at hlines ⊢
          rw [readNativeHttpTrailers_eq fun line hline =>
            hlines line (mem_cons_of_mem _ hline)]
          simp [Reading.behind, trailersReading_body]
        simp only [if_neg hzero] at hlines hbody ⊢
        have hdata : Within bodyLimit (delivered.length + (b₁.pending.take size).length) := by
          refine hbody.mono ?_
          rw [length_take]
          split_ifs <;> simp only [Reading.behind, length_append, length_take] <;> omega
        have hchunk := readChunkData_eq ending hdata
        by_cases hshort : b₁.pending.length < size
        · rw [if_pos hshort] at hchunk ⊢
          rw [hchunk]
        rw [if_neg hshort] at hchunk hlines hbody ⊢
        obtain ⟨b₂, hchunk, hpending₂⟩ := hchunk
        rw [hchunk]
        dsimp only
        have hensure := ensureNativeHttpBuffer_eq ending 2
          "chunked HTTP response chunk terminator" b₂
        have hlength₂ : b₂.pending.length < 2 ↔ b₁.pending.length < size + 2 := by
          rw [hpending₂, length_drop]
          omega
        rw [if_congr hlength₂ rfl rfl] at hensure
        by_cases hopen : b₁.pending.length < size + 2
        · rw [if_pos hopen] at hensure ⊢
          rw [hensure]
          rfl
        rw [if_neg hopen] at hensure hlines hbody ⊢
        obtain ⟨b₃, hensure, hle, hpending₃⟩ := hensure
        rw [hensure]
        dsimp only
        rw [← take_pending hle, hpending₃, hpending₂]
        split_ifs at hlines hbody ⊢ with hend
        · rfl
        · -- the reading goes on behind the chunk
          have hrest : pending ⟨b₃.buffer.drop 2, b₃.parts⟩ =
              b₁.pending.drop (size + 2) := by
            rw [pending_drop hle, hpending₃, hpending₂, drop_drop]
          rw [← hrest] at hlines hbody ⊢
          rw [ih _ ?_ (fun line hline => hlines line (mem_cons_of_mem _ hline)) ?_ rfl]
          · simp only [Reading.behind, append_assoc]
          · rw [hrest, length_drop]
            omega
          · rwa [Reading.behind, length_append, ← Nat.add_assoc, ← length_append] at hbody

variable {parts : List Bytes}

/-- A body with a length is read from the parts that are left. -/
theorem readFixed_eq
    (h : Within bodyLimit (delivered.length + (parts.flatten.take remaining).length)) :
    readFixedNativeHttpBodyChunks ending bodyLimit remaining parts delivered =
      (if parts.flatten.length < remaining then
        .error (ending.error "HTTP response body ended early" "HTTP response body")
      else .ok (), delivered ++ parts.flatten.take remaining) := by
  induction remaining using Nat.strong_induction_on generalizing parts delivered with
  | _ remaining ih =>
    by_cases hzero : remaining = 0
    · subst hzero
      rw [readFixed_zero, if_neg (Nat.not_lt_zero _), take_zero, append_nil]
      rfl
    cases hread : readSome (min 8192 remaining) parts with
    | none =>
      rw [readFixed_of_none hzero hread, readSome_eq_none_iff.1 hread, take_nil,
        append_nil, length_nil, if_pos (Nat.pos_of_ne_zero hzero)]
      rfl
    | some read =>
      obtain ⟨chunk, rest⟩ := read
      obtain ⟨hne, hle, hflatten⟩ := readSome_eq_some (by omega) hread
      have hpos := length_pos_of_ne_nil hne
      obtain ⟨more, rfl⟩ : ∃ more, remaining = chunk.length + more :=
        Nat.exists_eq_add_of_le (hle.trans (min_le_right _ _))
      rw [hflatten, take_length_add_append, length_append, ← Nat.add_assoc, ← length_append] at h
      have hpush := push_of_within (h.mono (m := delivered.length + chunk.length) (by
        rw [length_append]
        omega))
      have hshort : (chunk ++ rest.flatten).length < chunk.length + more ↔
          rest.flatten.length < more := by
        rw [length_append]
        omega
      rw [readFixed_of_some hzero hread, ExceptT.bind_apply_of_ok hpush,
        Nat.add_sub_cancel_left, ih more (by omega) h, hflatten, take_length_add_append,
        if_congr hshort rfl rfl, append_assoc]

/-- A body without a length is all that is left. -/
theorem readUntilEof_eq (h : Within bodyLimit (delivered.length + parts.flatten.length)) :
    readUntilEofNativeHttpBodyChunks ending bodyLimit parts delivered =
      (match ending with
        | .closed => .ok ()
        | .failed error => .error (.transport ("unable to read HTTP response body: " ++ error)),
      delivered ++ parts.flatten) := by
  induction hlength : parts.flatten.length using Nat.strong_induction_on
    generalizing parts delivered with
  | _ n ih =>
    cases hread : readSome 8192 parts with
    | none =>
      rw [readUntilEof_of_none hread, readSome_eq_none_iff.1 hread, append_nil]
      cases ending <;> rfl
    | some read =>
      obtain ⟨chunk, rest⟩ := read
      obtain ⟨hne, -, hflatten⟩ := readSome_eq_some (by decide) hread
      have hpos := length_pos_of_ne_nil hne
      rw [hflatten, length_append] at hlength
      rw [hflatten, length_append, ← Nat.add_assoc, ← length_append] at h
      have hpush := push_of_within (h.mono (m := delivered.length + chunk.length) (by
        rw [length_append]
        omega))
      rw [readUntilEof_of_some hread, ExceptT.bind_apply_of_ok hpush,
        ih _ (by omega) h rfl, hflatten, append_assoc]

/-- Whatever part of a body was read with the head, the body is the same. -/
theorem readNativeHttpResponseBodyChunks_eq (status : ℕ) {parsed : ParsedHeaders}
    (hlines : ∀ line ∈ (bodyReading ending parsed b.pending).lines,
      line.length < nativeHttpHeaderLimit)
    (hbody : Within bodyLimit (bodyReading ending parsed b.pending).body.length) :
    readNativeHttpResponseBodyChunks ending bodyLimit
        ⟨status, parsed.headers, parsed.contentLength, parsed.chunked, b.buffer⟩ b.parts [] =
      ((bodyReading ending parsed b.pending).result,
        (bodyReading ending parsed b.pending).body) := by
  unfold readNativeHttpResponseBodyChunks bodyReading at *
  split_ifs at hlines hbody ⊢ with hchunked
  · exact readChunked_eq hlines (by rwa [length_nil, Nat.zero_add])
  · cases hlength : parsed.contentLength with
    | some length =>
      rw [hlength] at hbody
      dsimp only at hbody ⊢
      have hpush : pushNativeHttpResponseBodyChunk bodyLimit
          (b.buffer.take (min b.buffer.length length)) [] =
            (.ok (), b.buffer.take (min b.buffer.length length)) := by
        refine push_of_within (hbody.mono ?_)
        simp only [pending, length_take, length_append, length_nil]
        omega
      rw [ExceptT.bind_apply_of_ok hpush]
      rcases le_total length b.buffer.length with hle | hle
      · -- the reads of the head gave all of it
        have hlength : ¬b.pending.length < length := by
          rw [pending, length_append]
          omega
        rw [min_eq_right hle, Nat.sub_self, readFixed_zero, if_neg hlength, take_pending hle]
        rfl
      · obtain ⟨more, rfl⟩ := Nat.exists_eq_add_of_le hle
        rw [pending, take_length_add_append, length_append] at hbody
        have hshort : b.pending.length < b.buffer.length + more ↔
            b.parts.flatten.length < more := by
          rw [pending, length_append]
          omega
        rw [min_eq_left hle, take_length, Nat.add_sub_cancel_left, readFixed_eq hbody,
          if_congr hshort rfl rfl, pending, take_length_add_append]
    | none =>
      rw [hlength] at hbody
      dsimp only at hbody ⊢
      rw [pending, length_append] at hbody
      have hpush : pushNativeHttpResponseBodyChunk bodyLimit b.buffer [] =
          (.ok (), [] ++ b.buffer) := by
        refine push_of_within (hbody.mono ?_)
        rw [length_nil]
        omega
      rw [ExceptT.bind_apply_of_ok hpush, nil_append, readUntilEof_eq hbody]
      rfl

end

/-! ### The whole response -/

/-- **A response is read the same from every cut of its bytes**, where no limit is near. -/
theorem readNativeHttpResponse_eq {ending : StreamEnd} {bodyLimit : Option ℕ}
    (h : Calm ending bodyLimit data) {parts : List Bytes} (hparts : parts.flatten = data) :
    readNativeHttpResponse ending bodyLimit parts =
      ((responseReading ending data).result, (responseReading ending data).body) := by
  obtain ⟨hhead, hlines, hbody⟩ := h
  have hpending : pending ⟨[], parts⟩ = data := by
    rw [pending, nil_append, hparts]
  unfold readNativeHttpResponse readNativeHttpResponseHead
  cases hsplit : splitInfix headerEnd data with
  | none =>
    rw [← hpending] at hsplit
    rw [readUntil_of_none _ hsplit]
    rw [hpending] at hsplit ⊢
    rw [responseReading, hsplit]
    split_ifs <;> rfl
  | some found =>
    obtain ⟨block, rest⟩ := found
    have hnear := hhead block rest hsplit
    rw [responseReading, hsplit] at hlines hbody ⊢
    rw [← hpending] at hsplit
    dsimp only at hlines hbody ⊢
    rcases hnear with hle | hlt
    · obtain ⟨b, hread, rfl⟩ := readUntil_of_le (show 0 < 4096 by decide) hsplit hle
      rw [hread]
      rw [if_neg (not_lt.2 hle)] at hlines hbody ⊢
      cases hparsed : parseNativeHttpResponseHeaders block with
      | error => simp only [hparsed]; rfl
      | ok head =>
        obtain ⟨status, parsed⟩ := head
        simp only [hparsed] at hlines hbody ⊢
        have hchunks := readNativeHttpResponseBodyChunks_eq status hlines hbody
        dsimp only [bind, Except.bind, pure, Except.pure]
        rw [hchunks]
        cases (bodyReading ending parsed b.pending).result <;> rfl
    · have hlong : nativeHttpHeaderLimit + 1 < block.length + headerEnd.length :=
        lt_of_le_of_lt (Nat.add_le_add_left (by decide) _) hlt
      rw [readUntil_of_lt (show 0 < 4096 by decide) hsplit (Nat.zero_le _) hlt,
        if_pos hlong]

variable (ending : StreamEnd)

/-- **The limit of the head depends on the cut.** A head that ends behind the limit, and no more
than one read behind it, is refused from one cut and read from another. -/
theorem head_depends_on_cut {block rest : Bytes}
    (hsplit : splitInfix headerEnd data = some (block, rest))
    (hlow : nativeHttpHeaderLimit + 1 < block.length + headerEnd.length)
    (hhigh : block.length + headerEnd.length ≤ nativeHttpHeaderLimit + 4096) {status : ℕ}
    {parsed : ParsedHeaders}
    (hparsed : parseNativeHttpResponseHeaders block = .ok (status, parsed)) :
    ∃ first second : List Bytes, first.flatten = data ∧ second.flatten = data ∧
      readNativeHttpResponseHead ending first =
        .error (.invalidResponse "HTTP response headers exceeded 65536 bytes") ∧
      ∃ head left, readNativeHttpResponseHead ending second = .ok (head, left) := by
  have hdata : block.length + headerEnd.length ≤ data.length := by
    obtain ⟨hhay, -⟩ := firstInfix_of_splitInfix hsplit
    rw [hhay, length_append, length_append]
    omega
  have hcut (n : ℕ) : [data.take n, data.drop n].flatten = data := by simp
  refine ⟨_, _, hcut (nativeHttpHeaderLimit + 1), hcut nativeHttpHeaderLimit, ?_, ?_⟩
  · -- a read ends between the limit and the end of the head
    have hstop : readUntil 4096 (by decide) headerEnd nativeHttpHeaderLimit
        ⟨[], [data.take (nativeHttpHeaderLimit + 1), data.drop (nativeHttpHeaderLimit + 1)]⟩ =
          .error .exceeded := by
      refine readUntil_stops _ ?_ ?_
      · rw [nil_append]
        exact splitInfix_take_of_lt hsplit hlow
      · rw [nil_append, length_take]
        omega
    rw [readNativeHttpResponseHead, hstop]
  · -- one read takes it from the limit to its end
    obtain ⟨tail, hfound⟩ := splitInfix_take_of_le hsplit hhigh
    have hjump : readUntil 4096 (by decide) headerEnd nativeHttpHeaderLimit
        ⟨[], [data.take nativeHttpHeaderLimit, data.drop nativeHttpHeaderLimit]⟩ =
          .ok (block, ⟨tail, [(data.drop nativeHttpHeaderLimit).drop 4096]⟩) := by
      refine readUntil_jumps _ ?_ ?_ ?_ ?_
      · rw [nil_append]
        exact splitInfix_take_of_lt hsplit (by omega)
      · rw [nil_append]
        exact length_take_le _ _
      · refine ne_nil_of_length_pos ?_
        rw [length_drop]
        omega
      · rwa [nil_append, ← take_add]
    rw [readNativeHttpResponseHead, hjump]
    dsimp only
    rw [hparsed]
    exact ⟨_, _, rfl⟩

/-! ### Written bodies -/

theorem chunkedReading_lastChunk (rest : Bytes) :
    chunkedReading ending (Http1.lastChunk ++ rest) = ⟨[[48], []], [], .ok ()⟩ := by
  have hsize : parseNativeHttpChunkSize [48] = .ok 0 :=
    parseNativeHttpChunkSize_print (n := 0) (by decide)
  have hfirst : splitInfix crlfBytes (Http1.lastChunk ++ rest) = some ([48], crlfBytes ++ rest) :=
    splitInfix_of_not_mem (show (13 : UInt8) ∉ [48] by decide) [10] (crlfBytes ++ rest)
  have hsecond : splitInfix crlfBytes (crlfBytes ++ rest) = some ([], rest) :=
    splitInfix_of_not_mem not_mem_nil [10] rest
  rw [chunkedReading_of_ok hfirst hsize, if_pos rfl, trailersReading_of_some hsecond, if_pos rfl]
  rfl

theorem chunkedReading_printChunk {chunk : Bytes} (hne : chunk ≠ []) (hlt : chunk.length < 2 ^ 64)
    (rest : Bytes) :
    chunkedReading ending (Http1.printChunk chunk ++ rest) =
      (chunkedReading ending rest).behind (Http1.printNumber 16 chunk.length) chunk := by
  have hnot : (13 : UInt8) ∉ Http1.printNumber 16 chunk.length :=
    Http1.not_mem_printNumber (by decide) (by decide) _ (by decide)
  have hsplit : splitInfix crlfBytes (Http1.printChunk chunk ++ rest) =
      some (Http1.printNumber 16 chunk.length, chunk ++ (crlfBytes ++ rest)) := by
    have hfound := splitInfix_of_not_mem hnot [10] (chunk ++ (crlfBytes ++ rest))
    rw [Http1.printChunk, append_assoc, append_assoc, append_assoc]
    exact hfound
  have hlength : ¬(chunk ++ (crlfBytes ++ rest)).length < chunk.length + 2 := by
    simp [crlfBytes]
  have hend : ((chunk ++ (crlfBytes ++ rest)).drop chunk.length).take 2 = crlfBytes := by
    rw [drop_left]
    rfl
  have hrest : (chunk ++ (crlfBytes ++ rest)).drop (chunk.length + 2) = rest := by
    rw [drop_length_add_append]
    rfl
  rw [chunkedReading_of_ok hsplit (parseNativeHttpChunkSize_print hlt),
    if_neg (by simpa using hne), if_neg (by omega), if_neg hlength, if_neg (not_not.2 hend),
    take_left, hrest]

/-- What was written is read back from it, and its lines are short. -/
theorem chunkedReading_written {chunks : List Bytes}
    (h : ∀ chunk ∈ chunks, chunk ≠ [] ∧ chunk.length < 2 ^ 64) :
    (chunkedReading ending (writeNativeHttpStreamingRequestBody chunks)).body = chunks.flatten ∧
      (chunkedReading ending (writeNativeHttpStreamingRequestBody chunks)).result = .ok () ∧
      ∀ line ∈ (chunkedReading ending (writeNativeHttpStreamingRequestBody chunks)).lines,
        line.length < nativeHttpHeaderLimit := by
  have hwritten (chunks : List Bytes) : writeNativeHttpStreamingRequestBody chunks =
      chunks.flatMap Http1.printChunk ++ Http1.lastChunk := by
    rw [writeNativeHttpStreamingRequestBody, writeLastChunk_eq]
    simp only [writeChunk_eq]
  rw [hwritten]
  induction chunks with
  | nil =>
    have hlast := chunkedReading_lastChunk ending []
    rw [append_nil] at hlast
    rw [flatMap_nil, nil_append, hlast]
    refine ⟨rfl, rfl, fun line hline => ?_⟩
    rcases mem_cons.1 hline with rfl | hline
    · decide
    · obtain rfl := mem_singleton.1 hline
      decide
  | cons chunk chunks ih =>
    obtain ⟨⟨hne, hlt⟩, hrest⟩ := forall_mem_cons.1 h
    obtain ⟨hbody, hresult, hlines⟩ := ih hrest
    rw [flatMap_cons, append_assoc, chunkedReading_printChunk ending hne hlt]
    refine ⟨?_, hresult, fun line hline => ?_⟩
    · rw [flatten_cons, ← hbody]
      rfl
    · rcases mem_cons.1 hline with rfl | hline
      · have hdigits : (Nat.toDigits 16 chunk.length).length ≤ 16 :=
          (Nat.length_toDigits_le_iff (by decide) (by decide)).2 hlt
        rw [Http1.printNumber, length_map]
        exact lt_of_le_of_lt hdigits (by decide)
      · exact hlines line hline

/-- The response is the same for every cut of its bytes. -/
def IgnoresCuts (ending : StreamEnd) (bodyLimit : Option ℕ) (data : Bytes) : Prop :=
  ∀ first second : List Bytes, first.flatten = data → second.flatten = data →
    readNativeHttpResponse ending bodyLimit first = readNativeHttpResponse ending bodyLimit second

/-- **Chunked bodies and cuts.** What the writer wrote is read back from every cut, a response is
the same for every cut where no limit is near, and a size line is taken for what the grammar says it
is exactly where it is not lax. -/
theorem survives_segmentation (ending : StreamEnd) (bodyLimit : Option ℕ) :
    (∀ (chunks : List Bytes) (b : Buffered UInt8),
      (∀ chunk ∈ chunks, chunk ≠ [] ∧ chunk.length < 2 ^ 64) →
      Within bodyLimit chunks.flatten.length →
      b.pending = writeNativeHttpStreamingRequestBody chunks →
      readChunkedNativeHttpBodyChunks ending bodyLimit b [] = (.ok (), chunks.flatten)) ∧
    (∀ data : Bytes, Calm ending bodyLimit data → IgnoresCuts ending bodyLimit data) ∧
    ∀ line : Bytes,
      (∀ n, parseNativeHttpChunkSize line = .ok n → GrammaticalSize line n) ↔ ¬LaxSize line := by
  refine ⟨fun chunks b hchunks hwithin hpending => ?_,
    fun data hcalm first second hfirst hsecond => ?_, grammatical_iff_not_lax⟩
  · obtain ⟨hbody, hresult, hlines⟩ := chunkedReading_written ending hchunks
    rw [← hpending] at hbody hresult hlines
    rw [readChunked_eq hlines (by rwa [hbody, length_nil, Nat.zero_add]), hresult, hbody,
      nil_append]
  · rw [readNativeHttpResponse_eq hcalm hfirst, readNativeHttpResponse_eq hcalm hsecond]

/-- Two chunks whose bytes come one at a time, cut within the size lines and line ends. -/
theorem survives_segmentation_bytewise :
    readChunkedNativeHttpBodyChunks .closed none
      ⟨[], (writeNativeHttpStreamingRequestBody [[104, 105], [33]]).map fun byte => [byte]⟩ [] =
        (.ok (), [104, 105, 33]) :=
  (survives_segmentation .closed none).1 [[104, 105], [33]] _ (by decide) (by decide) (by decide)

/-- A size with a sign in front is taken, which the grammar does not have. -/
theorem not_only_grammatical_signed :
    ¬∀ (line : Bytes) (n : ℕ), parseNativeHttpChunkSize line = .ok n → GrammaticalSize line n := by
  intro h
  refine (grammatical_iff_not_lax (encodeText "+5".toList)).1 (h _)
    ⟨"+5".toList, [], ['+'], ['5'], [], 5, decodeText_encodeText _, ?_, .inr (.inl (by decide))⟩
  exact
    { cut := by decide
      front := fun c hc => by cases hc
      behind := fun c hc => by cases hc
      sign := .inr rfl
      number := by decide
      lt := by decide }

end WasmHost
