import WasmHost.Lib.WasmModule
import WasmHost.Wasi.ImportSection

/-!
# What the scan of a module finds

The scan against the grammar of modules. It never leaves the data and comes to its end on all of
them, and on a module it finds the memory imports. Two things are not as they should be: a
`TextDecoder` takes a byte-order mark from the start of a name, and the bits of a fifth byte that a
word of 32 bits has no room for are lost without an error.

* `ScanM.Yields`: what a step of the scan comes to, whatever was read before.
* `ScansExactly`, `scansExactly_iff`: exactly when the scan is right.
-/

namespace WasmHost

open List

open Leb128

/-- The bytes stand in the data from an offset on, before the end. -/
def Stands (data : Bytes) (offset sectionEnd : ℕ) (bytes : Bytes) : Prop :=
  offset + bytes.length ≤ sectionEnd ∧ bytes <+: data.drop offset

namespace Stands

variable {data : Bytes} {offset sectionEnd : ℕ}

theorem append {a b : Bytes} (h : Stands data offset sectionEnd (a ++ b)) :
    Stands data offset sectionEnd a ∧ Stands data (offset + a.length) sectionEnd b := by
  obtain ⟨hend, rest, hrest⟩ := h
  rw [length_append] at hend
  refine ⟨⟨by omega, b ++ rest, ?_⟩, by omega, rest, ?_⟩
  · rw [← append_assoc, hrest]
  · rw [← drop_drop, ← hrest, append_assoc, drop_left]

variable {bytes : Bytes}

theorem cons {b : UInt8} (h : Stands data offset sectionEnd (b :: bytes)) :
    offset < sectionEnd ∧ data[offset]? = some b ∧ Stands data (offset + 1) sectionEnd bytes := by
  obtain ⟨hfirst, hrest⟩ := append (a := [b]) h
  obtain ⟨hend, rest, hdrop⟩ := hfirst
  refine ⟨hend, ?_, hrest⟩
  rw [← Nat.add_zero offset, ← List.getElem?_drop, ← hdrop]
  rfl

theorem mono {sectionEnd' : ℕ} (h : Stands data offset sectionEnd bytes)
    (hend : offset + bytes.length ≤ sectionEnd') : Stands data offset sectionEnd' bytes :=
  ⟨hend, h.2⟩

theorem take_eq (h : Stands data offset sectionEnd bytes) :
    (data.drop offset).take bytes.length = bytes :=
  (prefix_iff_eq_take.1 h.2).symm

end Stands

/-- The module is refused. -/
def ScanFault.Refused (fault : ScanFault) : Prop :=
  ∃ error, fault = .module error ∧ (error.kind = .invalidPackage ∨ error.kind = .unsupported)

theorem refused_invalidVarUint32 : invalidVarUint32.Refused := ⟨_, rfl, .inl rfl⟩

theorem refused_truncatedImportSection : truncatedImportSection.Refused := ⟨_, rfl, .inl rfl⟩

/-! ### Numbers -/

theorem and_high_eq_zero_iff (b : UInt8) : b &&& 0x80 = 0 ↔ b.toNat < 128 := by
  have hall : ∀ v : BitVec 8, v &&& 0x80 = 0 ↔ v.toNat < 128 := by decide
  rw [← UInt8.toBitVec_inj]
  exact hall b.toBitVec

theorem toNat_payload (b : UInt8) : ((b &&& 0x7f).toBitVec.setWidth 32).toNat = b.toNat % 128 := by
  have hall : ∀ v : BitVec 8, ((v &&& 0x7f).setWidth 32).toNat = v.toNat % 128 := by decide
  exact hall b.toBitVec

section

variable {data : Bytes} {sectionEnd offset : ℕ}

variable {fuel cursor shift n : ℕ} {bytes : Bytes}

/-- The loop ends inside the section, or refuses the number. -/
theorem meets_readWasmVarUint32From (hend : sectionEnd ≤ data.length) (hfuel : 0 < fuel)
    (hshift : shift + 7 * fuel = 35) (result : BitVec 32) :
    (readWasmVarUint32From data sectionEnd fuel cursor shift result).Meets
      (fun r => cursor < r.offset ∧ r.offset ≤ sectionEnd) (· = invalidVarUint32) := by
  induction fuel generalizing cursor shift result with
  | zero => exact absurd hfuel (Nat.lt_irrefl 0)
  | succ fuel ih =>
    unfold readWasmVarUint32From
    split
    next hcursor =>
      rw [List.getElem?_eq_getElem (hcursor.trans_le hend)]
      dsimp only
      split
      · exact ⟨Nat.lt_succ_self cursor, hcursor⟩
      split
      · exact rfl
      next hless =>
        refine (@ih (cursor + 1) (shift + 7) (by omega) (by omega) _).imp fun r hr => ?_
        exact ⟨(Nat.lt_succ_self cursor).trans hr.1, hr.2⟩
    · exact rfl

/-- One byte more. -/
theorem toNat_result {result : BitVec 32} (hresult : result.toNat < 2 ^ shift) (hshift : shift ≤ 28)
    (b : UInt8) :
    (result ||| (b &&& 0x7f).toBitVec.setWidth 32 <<< (shift % 32)).toNat =
      (result.toNat + b.toNat % 128 * 2 ^ shift) % 2 ^ 32 := by
  rw [Nat.mod_eq_of_lt (by omega), toNat_or_shiftLeft hresult (by omega), toNat_payload]

/-- A number that is not too long is read modulo 2³². -/
theorem readWasmVarUint32From_eq_ok (h : Encodes bytes n)
    (hstands : Stands data cursor sectionEnd bytes) (hshift : shift + 7 * fuel = 35)
    (hlength : bytes.length ≤ fuel) {result : BitVec 32} (hresult : result.toNat < 2 ^ shift) :
    readWasmVarUint32From data sectionEnd fuel cursor shift result =
      .ok ⟨cursor + bytes.length, (result.toNat + n * 2 ^ shift) % 2 ^ 32⟩ := by
  induction h generalizing fuel cursor shift result with
  | @last b hb =>
    obtain _ | fuel := fuel
    · exact absurd hlength (by simp)
    obtain ⟨hcursor, hbyte, -⟩ := hstands.cons
    unfold readWasmVarUint32From
    rw [if_pos hcursor, hbyte]
    dsimp only
    rw [if_pos ((and_high_eq_zero_iff b).2 hb), toNat_result hresult (by omega),
      Nat.mod_eq_of_lt hb]
    rfl
  | @more b bytes n hb h ih =>
    obtain _ | fuel := fuel
    · exact absurd hlength (by simp)
    obtain ⟨hcursor, hbyte, hrest⟩ := hstands.cons
    have hlong : bytes.length ≤ fuel := Nat.le_of_succ_le_succ hlength
    have hpos := h.length_pos
    have hlt := b.toNat_lt
    -- a byte that is not the last one stands wholly inside the word
    have hroom : 2 ^ shift * 128 ≤ 2 ^ 28 := by
      rw [show 128 = 2 ^ 7 from rfl, ← Nat.pow_add]
      exact Nat.pow_le_pow_right (by decide) (by omega)
    have hpayload : b.toNat % 128 = b.toNat - 128 := by omega
    have hsum : result.toNat + (b.toNat - 128) * 2 ^ shift < 2 ^ (shift + 7) := by
      have hstep : (b.toNat - 128) * 2 ^ shift ≤ 127 * 2 ^ shift :=
        Nat.mul_le_mul_right _ (by omega)
      rw [Nat.pow_add]
      omega
    have hnext : (result ||| (b &&& 0x7f).toBitVec.setWidth 32 <<< (shift % 32)).toNat =
        result.toNat + (b.toNat - 128) * 2 ^ shift := by
      rw [toNat_result hresult (by omega), hpayload, Nat.mod_eq_of_lt]
      rw [Nat.pow_add] at hsum
      omega
    unfold readWasmVarUint32From
    rw [if_pos hcursor, hbyte]
    dsimp only
    rw [if_neg fun hzero => Nat.not_lt.2 hb ((and_high_eq_zero_iff b).1 hzero),
      if_neg (by omega), ih hrest (by omega) hlong (by rw [hnext]; exact hsum), hnext,
      length_cons]
    congr 2
    · omega
    · have hvalue : (b.toNat - 128) * 2 ^ shift + n * 2 ^ (shift + 7) =
          (b.toNat - 128 + 128 * n) * 2 ^ shift := by
        rw [Nat.pow_add]
        ring
      rw [Nat.add_assoc, hvalue]

/-- A number that goes on behind its fifth byte is refused. -/
theorem readWasmVarUint32From_eq_error (h : Encodes bytes n)
    (hstands : Stands data cursor sectionEnd bytes) (hshift : shift + 7 * fuel = 35)
    (hfuel : 0 < fuel) (hlength : fuel < bytes.length) (result : BitVec 32) :
    readWasmVarUint32From data sectionEnd fuel cursor shift result = .error invalidVarUint32 := by
  induction h generalizing fuel cursor shift result with
  | last =>
    rw [length_singleton] at hlength
    omega
  | @more b bytes n hb h ih =>
    obtain _ | fuel := fuel
    · exact absurd hfuel (Nat.lt_irrefl 0)
    obtain ⟨hcursor, hbyte, hrest⟩ := hstands.cons
    unfold readWasmVarUint32From
    rw [if_pos hcursor, hbyte]
    dsimp only
    rw [if_neg fun hzero => Nat.not_lt.2 hb ((and_high_eq_zero_iff b).1 hzero)]
    split
    · rfl
    next hless => exact ih hrest (by omega) (by omega) (Nat.lt_of_succ_lt_succ hlength) _

/-- What is read where a number stands, however long it is. -/
theorem varUint32At_of_encodes (h : Encodes bytes n) (hstands : Stands data offset sectionEnd bytes)
    :
    varUint32At data offset sectionEnd =
      if bytes.length ≤ 5 then .ok ⟨offset + bytes.length, n % 2 ^ 32⟩
      else .error invalidVarUint32 := by
  unfold varUint32At
  split
  next hlength =>
    rw [readWasmVarUint32From_eq_ok h hstands rfl hlength (by decide)]
    simp
  next hlength =>
    exact readWasmVarUint32From_eq_error h hstands rfl (by decide) (Nat.lt_of_not_le hlength) _

theorem varUint32At_of_unsigned (h : Unsigned 32 bytes n)
    (hstands : Stands data offset sectionEnd bytes) :
    varUint32At data offset sectionEnd = .ok ⟨offset + bytes.length, n⟩ := by
  have hlength := h.length_lt (by decide)
  rw [varUint32At_of_encodes h.encodes hstands, if_pos (by omega), Nat.mod_eq_of_lt h.lt]

end

/-! ### Steps of the scan -/

/-- Every number at the places was accepted. -/
def Accepted (data : Bytes) (places : List VarUint32Place) : Prop :=
  ∀ place ∈ places, ∃ r, varUint32At data place.offset place.sectionEnd = .ok r

/-- A number at the places that was not accepted is what ended the scan. -/
def AcceptedUpTo (data : Bytes) (fault : ScanFault) (places : List VarUint32Place) : Prop :=
  ∀ place ∈ places, (∃ r, varUint32At data place.offset place.sectionEnd = .ok r) ∨
    varUint32At data place.offset place.sectionEnd = .error fault

variable {data : Bytes} {place : VarUint32Place}

theorem Accepted.upTo {places : List VarUint32Place} (h : Accepted data places)
    (fault : ScanFault) :
    AcceptedUpTo data fault places :=
  fun place hplace => .inl (h place hplace)

namespace ScanM

/-- Whatever numbers were read and accepted before, the step returns something with `P`, or ends the
scan with a fault with `E`. -/
def Yields {α : Type} (data : Bytes) (x : ScanM α) (P : α → Prop) (E : ScanFault → Prop) : Prop :=
  ∀ places, Accepted data places → x.Ends places (fun a places' => P a ∧ Accepted data places')
    fun fault places' => E fault ∧ AcceptedUpTo data fault places'

variable {α β : Type} {data : Bytes} {P : α → Prop} {Q : β → Prop} {E : ScanFault → Prop}

/-- A step that is the first one. -/
theorem Yields.run {x : ScanM α} (h : x.Yields data P E) :
    (∃ a, (x []).1 = .ok a ∧ P a ∧ Accepted data (x []).2) ∨
      ∃ fault, (x []).1 = .error fault ∧ E fault ∧ AcceptedUpTo data fault (x []).2 := by
  have hends := h [] nofun
  unfold ExceptT.Ends at hends
  generalize x [] = result at hends ⊢
  rcases result with ⟨fault | a, places⟩
  · exact .inr ⟨fault, rfl, hends⟩
  · exact .inl ⟨a, rfl, hends⟩

theorem yields_pure {a : α} (h : P a) : (pure a : ScanM α).Yields data P E :=
  fun _ hplaces => ⟨h, hplaces⟩

theorem yields_throw {fault : ScanFault} (h : E fault) : (throw fault : ScanM α).Yields data P E :=
  fun _ hplaces => ⟨h, hplaces.upTo fault⟩

theorem Yields.bind {x : ScanM α} {f : α → ScanM β} (h : x.Yields data P E)
    (hf : ∀ a, P a → (f a).Yields data Q E) : (x >>= f).Yields data Q E := by
  intro places hplaces
  rw [ExceptT.ends_bind]
  exact (h places hplaces).imp (fun a places' ha => hf a ha.1 places' ha.2) fun _ _ he => he

theorem yields_ite {c : Prop} [Decidable c] {x y : ScanM α} (hx : c → x.Yields data P E)
    (hy : ¬c → y.Yields data P E) : (if c then x else y).Yields data P E := by
  split
  next h => exact hx h
  next h => exact hy h

theorem yields_byte {index : ℕ} {b : UInt8} (h : data[index]? = some b) :
    (byte data index).Yields data (· = b) E := by
  intro places hplaces
  unfold byte settle
  rw [ExceptT.ends_mk_pure, h]
  exact ⟨fun a ha => ⟨(Except.ok.inj ha).symm, hplaces⟩, nofun⟩

/-- A number that is read is noted, and one that is refused ends the scan. -/
theorem yields_readWasmVarUint32 {offset sectionEnd : ℕ} {P : ScannedValue ℕ → Prop}
    (h : (varUint32At data offset sectionEnd).Meets P E) :
    (readWasmVarUint32 data offset sectionEnd).Yields data P E := by
  intro places hplaces
  unfold readWasmVarUint32 settle
  rw [ExceptT.ends_bind, ExceptT.ends_modify, ExceptT.ends_mk_pure]
  cases hread : varUint32At data offset sectionEnd with
  | ok r =>
    rw [hread] at h
    refine ⟨fun a ha => ?_, nofun⟩
    obtain rfl := Except.ok.inj ha
    refine ⟨h, fun place hplace => ?_⟩
    rcases mem_append.1 hplace with hplace | hplace
    · exact hplaces place hplace
    · obtain rfl := mem_singleton.1 hplace
      exact ⟨r, hread⟩
  | error =>
    rw [hread] at h
    refine ⟨nofun, fun e he => ?_⟩
    obtain rfl := Except.error.inj he
    refine ⟨h, fun place hplace => ?_⟩
    rcases mem_append.1 hplace with hplace | hplace
    · exact .inl (hplaces place hplace)
    · obtain rfl := mem_singleton.1 hplace
      exact .inr hread

end ScanM

open ScanM

/-! ### The scan of any data -/

section

variable {data : Bytes} {sectionEnd offset : ℕ}

theorem yields_requireWasmRange {length : ℕ} :
    (requireWasmRange data offset length sectionEnd).Yields data
      (fun _ => offset + length ≤ sectionEnd ∧ sectionEnd ≤ data.length) ScanFault.Refused := by
  unfold requireWasmRange
  refine yields_ite (fun _ => yields_throw refused_truncatedImportSection) fun h => yields_pure ?_
  omega

section

variable (hend : sectionEnd ≤ data.length)
include hend

/-- A number is read inside its section, or refused. -/
theorem yields_anyVarUint32 (offset : ℕ) :
    (readWasmVarUint32 data offset sectionEnd).Yields data (fun r => offset < r.offset)
      ScanFault.Refused := by
  apply yields_readWasmVarUint32
  have h : (varUint32At data offset sectionEnd).Meets
      (fun r => offset < r.offset ∧ r.offset ≤ sectionEnd) (· = invalidVarUint32) :=
    meets_readWasmVarUint32From hend (by decide) rfl 0
  generalize varUint32At data offset sectionEnd = result at h ⊢
  cases result with
  | ok => exact h.1
  | error fault =>
    obtain rfl : fault = invalidVarUint32 := h
    exact refused_invalidVarUint32

theorem yields_anyName (offset : ℕ) :
    (readWasmName data offset sectionEnd).Yields data (fun _ => True) ScanFault.Refused := by
  unfold readWasmName
  refine (yields_anyVarUint32 hend offset).bind fun length _ => ?_
  exact yields_requireWasmRange.bind fun _ _ => yields_pure trivial

theorem yields_anyLimits (offset : ℕ) :
    (readWasmLimits data offset sectionEnd).Yields data (fun _ => True) ScanFault.Refused := by
  unfold readWasmLimits
  refine (yields_anyVarUint32 hend offset).bind fun flags _ => ?_
  refine (yields_anyVarUint32 hend flags.offset).bind fun initial _ => ?_
  refine yields_ite (fun _ => ?_) fun _ => yields_pure trivial
  exact (yields_anyVarUint32 hend initial.offset).bind fun _ _ => yields_pure trivial

theorem yields_anyMemoryType (offset : ℕ) :
    (readWasmMemoryType data offset sectionEnd).Yields data (fun _ => True) ScanFault.Refused := by
  unfold readWasmMemoryType
  refine (yields_anyLimits hend offset).bind fun limits _ => ?_
  exact yields_ite (fun _ => yields_throw ⟨_, rfl, .inr rfl⟩) fun _ => yields_pure trivial

theorem yields_anyDescriptor (offset : ℕ) (kind : UInt8) :
    (skipWasmImportDescriptor data offset sectionEnd kind).Yields data (fun _ => True)
      ScanFault.Refused := by
  unfold skipWasmImportDescriptor
  refine yields_ite (fun _ => ?_) fun _ => yields_ite (fun _ => ?_) fun _ =>
    yields_ite (fun _ => ?_)
    fun _ => yields_ite (fun _ => ?_) fun _ => yields_throw ⟨_, rfl, .inl rfl⟩
  · exact (yields_anyVarUint32 hend offset).bind fun _ _ => yields_pure trivial
  · refine (yields_anyVarUint32 hend offset).bind fun tag _ => ?_
    exact (yields_anyVarUint32 hend tag.offset).bind fun _ _ => yields_pure trivial
  · refine yields_requireWasmRange.bind fun _ _ => ?_
    exact (yields_anyLimits hend (offset + 1)).bind fun _ _ => yields_pure trivial
  · exact yields_requireWasmRange.bind fun _ _ => yields_pure trivial

theorem yields_anyImport (cursor : ℕ) (imports : List MemoryImport) :
    (parseWasmImport data sectionEnd cursor imports).Yields data (fun _ => True)
      ScanFault.Refused := by
  unfold parseWasmImport
  refine (yields_anyName hend cursor).bind fun moduleName _ => ?_
  refine (yields_anyName hend moduleName.offset).bind fun importName _ => ?_
  refine yields_requireWasmRange.bind fun _ hrange => ?_
  refine (yields_byte (List.getElem?_eq_getElem (by omega))).bind fun kind _ => ?_
  refine yields_ite (fun _ => ?_) fun _ => ?_
  · exact (yields_anyMemoryType hend (importName.offset + 1)).bind fun _ _ => yields_pure trivial
  · exact (yields_anyDescriptor hend (importName.offset + 1) kind).bind fun _ _ =>
      yields_pure trivial

theorem yields_anyImports (count cursor : ℕ) (imports : List MemoryImport) :
    (parseWasmImports data sectionEnd count cursor imports).Yields data (fun _ => True)
      ScanFault.Refused := by
  induction count generalizing cursor imports with
  | zero => exact yields_pure trivial
  | succ count ih =>
    unfold parseWasmImports
    exact (yields_anyImport hend cursor imports).bind fun next _ => ih next.1 next.2

theorem yields_anyImportSection (offset : ℕ) (imports : List MemoryImport) :
    (parseWasmImportSection data offset sectionEnd imports).Yields data (fun _ => True)
      ScanFault.Refused := by
  unfold parseWasmImportSection
  refine (yields_anyVarUint32 le_rfl offset).bind fun count _ => ?_
  exact yields_anyImports hend count.value count.offset imports

theorem yields_anySection (sectionId : UInt8) (offset : ℕ) (imports : List MemoryImport) :
    (scanWasmSection data sectionId offset sectionEnd imports).Yields data (fun _ => True)
      ScanFault.Refused := by
  unfold scanWasmSection
  refine yields_ite (fun _ => ?_) fun _ => yields_pure trivial
  exact yields_anyImportSection hend offset imports

end

/-- Every section takes at least a byte of what is left. -/
theorem yields_importedMemoryImportsFrom {fuel : ℕ} (hfuel : data.length ≤ offset + fuel)
    (imports : List MemoryImport) :
    (importedMemoryImportsFrom data fuel offset imports).Yields data (fun _ => True)
      ScanFault.Refused := by
  induction fuel generalizing offset imports with
  | zero =>
    unfold importedMemoryImportsFrom
    exact yields_ite (fun h => absurd h (by omega)) fun _ => yields_pure trivial
  | succ fuel ih =>
    unfold importedMemoryImportsFrom
    refine yields_ite (fun hoffset => ?_) fun _ => yields_pure trivial
    refine (yields_byte (List.getElem?_eq_getElem hoffset)).bind fun sectionId _ => ?_
    refine (yields_anyVarUint32 le_rfl (offset + 1)).bind fun length hlength => ?_
    refine yields_requireWasmRange.bind fun _ hrange => ?_
    refine (yields_anySection hrange.1 sectionId length.offset imports).bind fun imports _ => ?_
    exact ih (by omega) imports

theorem yields_importedMemoryImports (data : Bytes) :
    (importedMemoryImports data).Yields data (fun _ => True) ScanFault.Refused := by
  unfold importedMemoryImports validateWasmMagic
  refine Yields.bind (P := fun _ => True) ?_ fun _ _ =>
    yields_importedMemoryImportsFrom (Nat.le_add_left _ _) []
  exact yields_ite (fun _ => yields_pure trivial) fun _ => yields_throw ⟨_, rfl, .inl rfl⟩

end

/-! ### The scan of a module -/

namespace MemoryImport

/-- The import as it is encoded, if it is of a memory. -/
def ofImport? : Wasm.Import → Option MemoryImport
  | ⟨module, name, .memory limits⟩ =>
      some ⟨module, name, limits.initial, limits.maximum, limits.shared⟩
  | _ => none

/-- The names are read without a mark at their start. -/
def withoutBoms (m : MemoryImport) : MemoryImport :=
  { m with module := Utf8.withoutBom m.module, name := Utf8.withoutBom m.name }

/-- Neither name starts with a byte-order mark. -/
def Unmarked (m : MemoryImport) : Prop :=
  m.module.head? ≠ some '\uFEFF' ∧ m.name.head? ≠ some '\uFEFF'

end MemoryImport

/-- The step returns this, and the scan goes on. -/
def ScanM.Returns {α : Type} (data : Bytes) (x : ScanM α) (a : α) : Prop :=
  x.Yields data (· = a) fun _ => False

section

variable {data low : Bytes} {offset sectionEnd initial fuel : ℕ} {limits : Wasm.Limits}

theorem ScanM.Returns.bind {α β : Type} {x : ScanM α} {f : α → ScanM β} {a : α} {b : β}
    (h : x.Returns data a) (hf : (f a).Returns data b) : (x >>= f).Returns data b :=
  Yields.bind h fun _ ha => ha ▸ hf

theorem ScanM.returns_pure {α : Type} (a : α) : (pure a : ScanM α).Returns data a := yields_pure rfl

variable {bytes : Bytes} {b : UInt8} {is : List Wasm.Import}

theorem returns_readWasmVarUint32 {n : ℕ} (h : Unsigned 32 bytes n)
    (hstands : Stands data offset sectionEnd bytes) :
    (readWasmVarUint32 data offset sectionEnd).Returns data ⟨offset + bytes.length, n⟩ := by
  apply yields_readWasmVarUint32
  rw [varUint32At_of_unsigned h hstands]
  exact rfl

theorem returns_requireWasmRange {length : ℕ} (hlength : offset + length ≤ sectionEnd)
    (hend : sectionEnd ≤ data.length) :
    (requireWasmRange data offset length sectionEnd).Returns data () := by
  unfold requireWasmRange
  rw [if_neg (by omega)]
  exact returns_pure ()

theorem returns_readWasmName {text : Text} (h : Wasm.IsName bytes text)
    (hstands : Stands data offset sectionEnd bytes) (hend : sectionEnd ≤ data.length) :
    (readWasmName data offset sectionEnd).Returns data
      ⟨offset + bytes.length, Utf8.withoutBom text⟩ := by
  obtain ⟨hsize⟩ := h
  obtain ⟨hfirst, htext⟩ := hstands.append
  unfold readWasmName
  refine (returns_readWasmVarUint32 hsize hfirst).bind ?_
  refine (returns_requireWasmRange htext.1 hend).bind ?_
  dsimp only
  rw [htext.take_eq, Utf8.textDecode, Utf8.decode_encode, length_append, Nat.add_assoc]
  exact returns_pure _

/-- The flag of a limit is a number of one byte. -/
theorem unsigned_singleton (hb : b.toNat < 2 ^ 7) : Unsigned 32 [b] b.toNat :=
  .last hb (hb.trans (by decide))

theorem returns_readWasmLimits_of_least (hb : b.toNat < 2 ^ 7)
    (hmaximum : b.toNat &&& wasmLimitsHasMaximum = 0) (hlow : Unsigned 32 low initial)
    (hstands : Stands data offset sectionEnd (b :: low)) :
    (readWasmLimits data offset sectionEnd).Returns data ⟨b.toNat, initial, none,
      offset + (b :: low).length, b.toNat &&& wasmLimitsShared ≠ 0⟩ := by
  obtain ⟨hflags, hlow'⟩ := Stands.append (a := [b]) hstands
  unfold readWasmLimits
  refine (returns_readWasmVarUint32 (unsigned_singleton hb) hflags).bind ?_
  refine (returns_readWasmVarUint32 hlow hlow').bind ?_
  rw [if_neg (not_not_intro hmaximum), Nat.add_assoc, ← length_append]
  exact returns_pure _

theorem returns_readWasmLimits_of_range {high : Bytes} {maximum : ℕ} (hb : b.toNat < 2 ^ 7)
    (hmaximum : b.toNat &&& wasmLimitsHasMaximum ≠ 0) (hlow : Unsigned 32 low initial)
    (hhigh : Unsigned 32 high maximum)
    (hstands : Stands data offset sectionEnd (b :: (low ++ high))) :
    (readWasmLimits data offset sectionEnd).Returns data ⟨b.toNat, initial, some maximum,
      offset + (b :: (low ++ high)).length, b.toNat &&& wasmLimitsShared ≠ 0⟩ := by
  obtain ⟨hflags, hrest⟩ := Stands.append (a := [b]) hstands
  obtain ⟨hlow', hhigh'⟩ := hrest.append
  unfold readWasmLimits
  refine (returns_readWasmVarUint32 (unsigned_singleton hb) hflags).bind ?_
  refine (returns_readWasmVarUint32 hlow hlow').bind ?_
  rw [if_pos hmaximum]
  refine (returns_readWasmVarUint32 hhigh hhigh').bind ?_
  rw [Nat.add_assoc, Nat.add_assoc, ← length_append, ← length_append]
  exact returns_pure _

theorem returns_readWasmLimits (h : Wasm.IsLimits bytes limits)
    (hstands : Stands data offset sectionEnd bytes) :
    ∃ flags, flags &&& wasmLimitsMemory64 = 0 ∧ (readWasmLimits data offset sectionEnd).Returns data
      ⟨flags, limits.initial, limits.maximum, offset + bytes.length, limits.shared⟩ := by
  cases h with
  | least hlow =>
    exact ⟨0, rfl, returns_readWasmLimits_of_least (by decide) (by decide) hlow hstands⟩
  | range hlow hhigh =>
    exact ⟨1, rfl, returns_readWasmLimits_of_range (by decide) (by decide) hlow hhigh hstands⟩
  | shared hlow hhigh =>
    exact ⟨3, rfl, returns_readWasmLimits_of_range (by decide) (by decide) hlow hhigh hstands⟩

theorem returns_readWasmMemoryType (h : Wasm.IsLimits bytes limits)
    (hstands : Stands data offset sectionEnd bytes) :
    ∃ flags, (readWasmMemoryType data offset sectionEnd).Returns data
      ⟨flags, limits.initial, limits.maximum, offset + bytes.length, limits.shared⟩ := by
  obtain ⟨flags, hflags, hlimits⟩ := returns_readWasmLimits h hstands
  refine ⟨flags, ?_⟩
  unfold readWasmMemoryType
  refine hlimits.bind ?_
  rw [if_neg (not_not_intro hflags)]
  exact returns_pure _

/-- A descriptor that is no memory is skipped. -/
theorem returns_skipWasmImportDescriptor {kind : UInt8} {type : Wasm.ImportType}
    (h : Wasm.IsImportType (kind :: bytes) type) (hkind : kind ≠ wasmImportKindMemory)
    (hstands : Stands data offset sectionEnd bytes) (hend : sectionEnd ≤ data.length) :
    (skipWasmImportDescriptor data offset sectionEnd kind).Returns data
      (offset + bytes.length) := by
  unfold skipWasmImportDescriptor
  cases h with
  | function hindex =>
    rw [if_pos (by decide)]
    exact (returns_readWasmVarUint32 hindex hstands).bind (returns_pure _)
  | table hlimits hshared =>
    obtain ⟨helem, -, hrest⟩ := hstands.cons
    obtain ⟨flags, -, hread⟩ := returns_readWasmLimits hlimits hrest
    rw [if_neg (by decide), if_neg (by decide), if_pos (by decide)]
    refine (returns_requireWasmRange helem hend).bind ?_
    refine hread.bind ?_
    rw [length_cons, Nat.add_right_comm, Nat.add_assoc]
    exact returns_pure _
  | memory => exact absurd rfl hkind
  | global =>
    rw [if_neg (by decide), if_neg (by decide), if_neg (by decide), if_pos (by decide)]
    exact (returns_requireWasmRange hstands.1 hend).bind (returns_pure _)

/-- The import as the scan adds it, if it does. -/
def scanned (i : Wasm.Import) : List MemoryImport :=
  ((MemoryImport.ofImport? i).map MemoryImport.withoutBoms).toList

theorem returns_parseWasmImport {i : Wasm.Import} (h : Wasm.IsImport bytes i)
    (hstands : Stands data offset sectionEnd bytes) (hend : sectionEnd ≤ data.length)
    (imports : List MemoryImport) :
    (parseWasmImport data sectionEnd offset imports).Returns data
      (offset + bytes.length, imports ++ scanned i) := by
  obtain @⟨a, b, c, module, name, type, hmodule, hname, htype⟩ := h
  obtain ⟨hfirst, hrest⟩ := hstands.append
  obtain ⟨hsecond, hthird⟩ := hrest.append
  obtain ⟨kind, c, rfl⟩ : ∃ kind c', c = kind :: c' := by cases htype <;> exact ⟨_, _, rfl⟩
  obtain ⟨hcursor, hbyte, hdescriptor⟩ := hthird.cons
  have hlength : offset + a.length + b.length + 1 + c.length =
      offset + (a ++ (b ++ kind :: c)).length := by
    simp only [length_append, length_cons]
    omega
  rw [← hlength]
  unfold parseWasmImport
  refine (returns_readWasmName hmodule hfirst hend).bind ?_
  refine (returns_readWasmName hname hsecond hend).bind ?_
  refine (returns_requireWasmRange hcursor hend).bind ?_
  refine Returns.bind (yields_byte hbyte) ?_
  by_cases hkind : kind = wasmImportKindMemory
  · rw [if_pos hkind]
    cases htype with
    | memory hlimits =>
      obtain ⟨flags, hmemory⟩ := returns_readWasmMemoryType hlimits hdescriptor
      exact hmemory.bind (returns_pure _)
    | _ => exact absurd hkind (by decide)
  · rw [if_neg hkind]
    refine (returns_skipWasmImportDescriptor htype hkind hdescriptor hend).bind ?_
    have hscanned : scanned ⟨module, name, type⟩ = [] := by
      cases htype with
      | memory => exact absurd rfl hkind
      | _ => rfl
    rw [hscanned, append_nil]
    exact returns_pure _

theorem returns_parseWasmImports (h : Wasm.Repeated Wasm.IsImport bytes is)
    (hstands : Stands data offset sectionEnd bytes) (hend : sectionEnd ≤ data.length)
    (imports : List MemoryImport) :
    (parseWasmImports data sectionEnd is.length offset imports).Returns data
      (imports ++ is.flatMap scanned) := by
  induction h generalizing offset imports with
  | nil =>
    rw [flatMap_nil, append_nil]
    exact returns_pure imports
  | cons h hrest ih =>
    obtain ⟨hfirst, hbehind⟩ := hstands.append
    rw [flatMap_cons, ← append_assoc]
    unfold parseWasmImports
    refine (returns_parseWasmImport h hfirst hend imports).bind ?_
    exact ih hbehind _

theorem returns_parseWasmImportSection (h : Wasm.IsVector Wasm.IsImport bytes is)
    (hstands : Stands data offset sectionEnd bytes) (hend : sectionEnd ≤ data.length)
    (imports : List MemoryImport) :
    (parseWasmImportSection data offset sectionEnd imports).Returns data
      (imports ++ is.flatMap scanned) := by
  obtain ⟨hcount, himports⟩ := h
  obtain ⟨hfirst, hrest⟩ := hstands.append
  unfold parseWasmImportSection
  refine (returns_readWasmVarUint32 hcount (hfirst.mono (hfirst.1.trans hend))).bind ?_
  exact returns_parseWasmImports himports hrest hend imports

/-- One round of the loop, over a section that adds these imports. -/
theorem returns_section {id : UInt8} {size contents rest : Bytes}
    {imports final : List MemoryImport} (hsize : Unsigned 32 size contents.length)
    (hfuel : (id :: (size ++ (contents ++ rest))).length ≤ fuel)
    (hstands : Stands data offset data.length (id :: (size ++ (contents ++ rest))))
    (more : List MemoryImport)
    (hsection : ∀ start, Stands data start (start + contents.length) contents →
      start + contents.length ≤ data.length →
      (scanWasmSection data id start (start + contents.length) imports).Returns data more)
    (hrest : ∀ fuel', rest.length ≤ fuel' → ∀ start, Stands data start data.length rest →
      start + rest.length = offset + (id :: (size ++ (contents ++ rest))).length →
      (importedMemoryImportsFrom data fuel' start more).Returns data final) :
    (importedMemoryImportsFrom data fuel offset imports).Returns data final := by
  obtain ⟨hoffset, hid, hbehind⟩ := hstands.cons
  obtain ⟨hlength, hcontents⟩ := hbehind.append
  obtain ⟨hthese, hrest'⟩ := hcontents.append
  simp only [length_cons, length_append] at hfuel hrest
  obtain _ | fuel := fuel
  · omega
  unfold importedMemoryImportsFrom
  rw [if_pos hoffset]
  refine Returns.bind (yields_byte hid) ?_
  refine (returns_readWasmVarUint32 hsize hlength).bind ?_
  refine (returns_requireWasmRange hthese.1 le_rfl).bind ?_
  refine (hsection _ (hthese.mono le_rfl) hthese.1).bind ?_
  refine hrest fuel (by omega) _ hrest' ?_
  show offset + 1 + size.length + contents.length + rest.length = _
  omega

/-- The sections behind an offset are the rest of the data. -/
theorem returns_importedMemoryImportsFrom {last : ℕ} (h : Wasm.Sections last bytes is)
    (hfuel : bytes.length ≤ fuel) (hstands : Stands data offset data.length bytes)
    (hend : offset + bytes.length = data.length) (imports : List MemoryImport) :
    (importedMemoryImportsFrom data fuel offset imports).Returns data
      (imports ++ is.flatMap scanned) := by
  have hskip : ∀ {id : UInt8} {start sectionEnd : ℕ} {imports : List MemoryImport}, id ≠ 2 →
      (scanWasmSection data id start sectionEnd imports).Returns data imports := by
    intro id start sectionEnd imports hid
    unfold scanWasmSection
    rw [if_neg (show id ≠ wasmImportSectionId from hid)]
    exact returns_pure imports
  induction h generalizing fuel offset imports with
  | nil =>
    unfold importedMemoryImportsFrom
    rw [if_neg (by simpa using hend.ge), flatMap_nil, append_nil]
    exact returns_pure imports
  | custom hsize hrest ih =>
    refine returns_section hsize hfuel hstands _ (fun _ _ _ => hskip (by decide)) ?_
    exact fun fuel' hfuel' start hstart hlength => ih hfuel' hstart (hlength.trans hend) imports
  | other hlast hid hne hsize hrest ih =>
    refine returns_section hsize hfuel hstands _ (fun _ _ _ => hskip hne) ?_
    exact fun fuel' hfuel' start hstart hlength => ih hfuel' hstart (hlength.trans hend) imports
  | @imports last size contents rest is hlast hsize hcontents hrest ih =>
    refine returns_section hsize hfuel hstands (imports ++ is.flatMap scanned) ?_ ?_
    · intro start hstart hinside
      unfold scanWasmSection
      rw [if_pos (by decide)]
      exact returns_parseWasmImportSection hcontents hstart hinside imports
    · intro fuel' hfuel' start hstart hlength
      have hbehind := ih hfuel' hstart (hlength.trans hend) (imports ++ is.flatMap scanned)
      rwa [flatMap_nil, append_nil] at hbehind

theorem flatMap_scanned (is : List Wasm.Import) :
    is.flatMap scanned = (is.filterMap MemoryImport.ofImport?).map MemoryImport.withoutBoms := by
  rw [map_filterMap, filterMap_eq_flatMap_toList]
  rfl

/-- What the scan finds in a module. -/
theorem memoryImportsOf_module (h : Wasm.IsModule data is) :
    memoryImportsOf data =
      .ok ((is.filterMap MemoryImport.ofImport?).map MemoryImport.withoutBoms) := by
  obtain ⟨sections, hdata, hsections⟩ := h
  have hmagic : wasmMagic <+: data := ⟨Wasm.version ++ sections, hdata.symm⟩
  have hlength : data.length = 8 + sections.length := by
    rw [hdata, length_append, length_append, ← Nat.add_assoc]
    rfl
  have hstands : Stands data 8 data.length sections := by
    refine ⟨hlength.ge, [], ?_⟩
    rw [append_nil, hdata]
    rfl
  have hscan : (importedMemoryImports data).Returns data ([] ++ is.flatMap scanned) := by
    unfold importedMemoryImports validateWasmMagic
    rw [if_pos hmagic]
    refine (returns_pure ()).bind ?_
    exact returns_importedMemoryImportsFrom hsections (by omega) hstands hlength.symm []
  rcases hscan.run with ⟨found, hfound, rfl, -⟩ | ⟨_, -, hnever, -⟩
  · rw [← flatMap_scanned]
    exact hfound
  · exact hnever.elim

end

theorem MemoryImport.withoutBoms_eq_self_iff {m : MemoryImport} :
    m.withoutBoms = m ↔ m.Unmarked := by
  obtain ⟨module, name, initial, maximum, shared⟩ := m
  simp [withoutBoms, Unmarked, Utf8.withoutBom_eq_self_iff]

theorem map_withoutBoms_eq_self_iff {imports : List MemoryImport} :
    imports.map MemoryImport.withoutBoms = imports ↔ ∀ m ∈ imports, m.Unmarked := by
  have hmap := map_eq_map_iff (l := imports) (f := MemoryImport.withoutBoms) (g := id)
  rw [map_id] at hmap
  rw [hmap]
  exact forall₂_congr fun m _ => MemoryImport.withoutBoms_eq_self_iff

/-! ### Exactness -/

/-- The scan of the data is right. `Core` is what the grammar asks of a module beyond the framing of
its sections and the import section. -/
structure ScansExactly (Core : Bytes → Prop) (data : Bytes) : Prop where
  exact : ∀ is, Wasm.IsModule data is → Core data →
    memoryImportsOf data = .ok (is.filterMap MemoryImport.ofImport?)
  refused : ∀ fault, memoryImportsOf data = .error fault → fault.Refused
  /-- A number with more than 32 bits is refused where it is read, and the data with it. -/
  rejected : ∀ place ∈ varUint32PlacesOf data, ∀ bytes n, Encodes bytes n → 2 ^ 32 ≤ n →
    Stands data place.offset place.sectionEnd bytes →
    varUint32At data place.offset place.sectionEnd = .error invalidVarUint32 ∧
      memoryImportsOf data = .error invalidVarUint32

/-- The number has five bytes, and the last of them has bits behind the thirty-second. -/
def Overfull (data : Bytes) (place : VarUint32Place) : Prop :=
  ∃ (front : Bytes) (last : UInt8), front.length = 4 ∧ (∀ b ∈ front, 128 ≤ b.toNat) ∧
    16 ≤ last.toNat ∧ last.toNat < 128 ∧
      Stands data place.offset place.sectionEnd (front ++ [last])

/-- No memory import of a module has a name that starts with a mark, and no number that is read is
overfull. -/
structure Scannable (Core : Bytes → Prop) (data : Bytes) : Prop where
  unmarked : ∀ is, Wasm.IsModule data is → Core data →
    ∀ m ∈ is.filterMap MemoryImport.ofImport?, m.Unmarked
  fits : ∀ place ∈ varUint32PlacesOf data, ¬Overfull data place

theorem overfull_iff :
    Overfull data place ↔ ∃ bytes n, Encodes bytes n ∧ 2 ^ 32 ≤ n ∧ bytes.length = 5 ∧
      Stands data place.offset place.sectionEnd bytes := by
  constructor
  · rintro ⟨front, last, hlength, hfront, hbig, hlast, hstands⟩
    obtain ⟨m, h⟩ := exists_encodes hfront hlast
    rw [hlength] at h
    exact ⟨_, _, h, by omega, by rw [length_append, hlength]; rfl, hstands⟩
  · rintro ⟨bytes, n, h, hn, hlength, hstands⟩
    obtain ⟨front, last, m, rfl, hfront, hlast, hm, rfl⟩ := h.exists_last
    have hfour : front.length = 4 := by simpa using hlength
    rw [hfour] at hm hn
    exact ⟨front, last, hfour, hfront, by omega, hlast, hstands⟩

theorem not_overfull_iff :
    ¬Overfull data place ↔ ∀ bytes n, Encodes bytes n → 2 ^ 32 ≤ n →
      Stands data place.offset place.sectionEnd bytes →
      varUint32At data place.offset place.sectionEnd = .error invalidVarUint32 := by
  rw [overfull_iff]
  constructor
  · intro hfits bytes n h hn hstands
    rw [varUint32At_of_encodes h hstands, if_neg]
    intro hlength
    have hlt := h.lt
    have hfive : bytes.length = 5 := by
      by_contra hne
      have hpow : 2 ^ (7 * bytes.length) ≤ 2 ^ 28 := Nat.pow_le_pow_right (by decide) (by omega)
      omega
    exact hfits ⟨bytes, n, h, hn, hfive, hstands⟩
  · rintro hrejected ⟨bytes, n, h, hn, hlength, hstands⟩
    have hread := hrejected bytes n h hn hstands
    rw [varUint32At_of_encodes h hstands, if_pos hlength.le] at hread
    cases hread

/-- Whatever the data, the scan is right exactly when no name loses a mark and no number bits. -/
theorem scansExactly_iff (Core : Bytes → Prop) (data : Bytes) :
    ScansExactly Core data ↔ Scannable Core data := by
  constructor
  · intro h
    refine ⟨fun is his hcore m hm => ?_, fun place hplace => ?_⟩
    · have hexact := h.exact is his hcore
      rw [memoryImportsOf_module his] at hexact
      exact map_withoutBoms_eq_self_iff.1 (Except.ok.inj hexact) m hm
    · rw [not_overfull_iff]
      exact fun bytes n hn hbig hstands => (h.rejected place hplace bytes n hn hbig hstands).1
  · intro h
    have hrun := (yields_importedMemoryImports data).run
    refine ⟨fun is his hcore => ?_, fun fault hfault => ?_,
      fun place hplace bytes n hn hbig hstands => ?_⟩
    · rw [memoryImportsOf_module his]
      exact congrArg Except.ok (map_withoutBoms_eq_self_iff.2 (h.unmarked is his hcore))
    · rcases hrun with ⟨_, hok, -⟩ | ⟨fault', herror, hrefused, -⟩
      · cases hok.symm.trans hfault
      · cases herror.symm.trans hfault
        exact hrefused
    · have hread := not_overfull_iff.1 (h.fits place hplace) bytes n hn hbig hstands
      refine ⟨hread, ?_⟩
      rcases hrun with ⟨_, -, -, haccepted⟩ | ⟨fault, herror, -, haccepted⟩
      · obtain ⟨r, hr⟩ := haccepted place hplace
        cases hr.symm.trans hread
      · rcases haccepted place hplace with ⟨r, hr⟩ | hr
        · cases hr.symm.trans hread
        · cases hr.symm.trans hread
          exact herror

/-- A module that imports a memory from `env`, under a name with a mark in front. -/
def markedModule : Bytes :=
  Wasm.magic ++ (Wasm.version ++ [2, 19, 1, 6, 0xef, 0xbb, 0xbf, 0x65, 0x6e, 0x76,
    6, 0x6d, 0x65, 0x6d, 0x6f, 0x72, 0x79, 2, 1, 1, 2])

def markedImport : Wasm.Import :=
  ⟨'\uFEFF' :: "env".toList, "memory".toList, .memory ⟨1, some 2, false⟩⟩

/-- The size of the one section has a thirty-third bit. -/
def overfullSize : Bytes :=
  Wasm.magic ++ (Wasm.version ++ [2, 0x90, 0x80, 0x80, 0x80, 0x10, 1, 3, 0x65, 0x6e, 0x76,
    6, 0x6d, 0x65, 0x6d, 0x6f, 0x72, 0x79, 2, 1, 1, 2])

theorem isModule_markedModule : Wasm.IsModule markedModule [markedImport] := by
  have hmodule : Wasm.IsName [6, 0xef, 0xbb, 0xbf, 0x65, 0x6e, 0x76] markedImport.module :=
    @Wasm.IsName.intro [6] markedImport.module (unsigned_singleton (by decide))
  have hname : Wasm.IsName [6, 0x6d, 0x65, 0x6d, 0x6f, 0x72, 0x79] markedImport.name :=
    @Wasm.IsName.intro [6] markedImport.name (unsigned_singleton (by decide))
  have hlimits : Wasm.IsLimits [1, 1, 2] ⟨1, some 2, false⟩ :=
    .range (unsigned_singleton (b := 1) (by decide)) (unsigned_singleton (b := 2) (by decide))
  have himports : Wasm.IsVector Wasm.IsImport _ [markedImport] :=
    .intro (unsigned_singleton (b := 1) (by decide))
      (.cons (.intro hmodule hname (.memory hlimits)) .nil)
  exact ⟨_, rfl, .imports Nat.two_pos (unsigned_singleton (b := 19) (by decide)) himports .nil⟩

/-- The mark is lost; and so is the bit, with which the section would end far behind the data. -/
theorem not_scansExactly :
    (Wasm.IsModule markedModule [markedImport] ∧
      memoryImportsOf markedModule =
        .ok [⟨"env".toList, "memory".toList, 1, some 2, false⟩] ∧
      ¬ScansExactly (fun _ => True) markedModule) ∧
    ⟨9, 30⟩ ∈ varUint32PlacesOf overfullSize ∧
      Stands overfullSize 9 30 [0x90, 0x80, 0x80, 0x80, 0x10] ∧
      Encodes [0x90, 0x80, 0x80, 0x80, 0x10] (2 ^ 32 + 16) ∧
      memoryImportsOf overfullSize =
        .ok [⟨"env".toList, "memory".toList, 1, some 2, false⟩] ∧
      ¬ScansExactly (fun _ => True) overfullSize := by
  have hmarked : memoryImportsOf markedModule =
      .ok [⟨"env".toList, "memory".toList, 1, some 2, false⟩] := by decide +kernel
  have hread : memoryImportsOf overfullSize =
      .ok [⟨"env".toList, "memory".toList, 1, some 2, false⟩] := by decide +kernel
  have hplace : ⟨9, 30⟩ ∈ varUint32PlacesOf overfullSize := by decide +kernel
  have hstands : Stands overfullSize 9 30 [0x90, 0x80, 0x80, 0x80, 0x10] := ⟨by decide, by decide⟩
  have hencodes : Encodes [0x90, 0x80, 0x80, 0x80, 0x10] (2 ^ 32 + 16) :=
    .more (by decide)
      (.more (by decide) (.more (by decide) (.more (by decide) (.last (by decide)))))
  refine ⟨⟨isModule_markedModule, hmarked, fun h => ?_⟩, hplace, hstands, hencodes, hread,
    fun h => ?_⟩
  · have hexact := h.exact _ isModule_markedModule trivial
    rw [hmarked] at hexact
    exact absurd hexact (by decide)
  · have hrejected := (h.rejected _ hplace _ _ hencodes le_self_add hstands).2
    cases hread.symm.trans hrejected

end WasmHost
