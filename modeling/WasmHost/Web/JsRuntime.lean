import WasmHost.Text
import WasmHost.Tool.Json

/-!
# Texts and values of JavaScript

What the modules of the browser take from the language: `trim`, the change from decoded text to
UTF-16 and back, and, as a parameter, what is too large to be written down here (`JsRuntime`).
-/

namespace WasmHost

open Tool (JsText JsValue js)

/-- What is taken from the language; `ρ` is what else can be thrown. -/
structure JsRuntime (ρ : Type) where
  parse : Text → Except JsText JsValue
  string : JsValue → Except ρ JsText
  toLowerCase : JsText → JsText

/-- White space and line ends. -/
def isJsSpace (u : UInt16) : Bool :=
  (9 ≤ u.toNat ∧ u.toNat ≤ 13) ∨ (0x2000 ≤ u.toNat ∧ u.toNat ≤ 0x200A) ∨
    u.toNat ∈ [0x20, 0xA0, 0x1680, 0x2028, 0x2029, 0x202F, 0x205F, 0x3000, 0xFEFF]

/-- `trim`. -/
def jsTrim (t : JsText) : JsText := (t.dropWhile isJsSpace).rdropWhile isJsSpace

theorem jsTrim_eq_nil_iff {t : JsText} : jsTrim t = [] ↔ ∀ u ∈ t, isJsSpace u = true := by
  rw [jsTrim, List.rdropWhile_eq_nil_iff]
  constructor
  · intro h
    rw [← List.dropWhile_eq_nil_iff]
    by_contra hne
    have hhead := List.head_dropWhile_not isJsSpace hne
    rw [h _ (List.head_mem hne)] at hhead
    cases hhead
  · intro h u hu
    exact h u (List.dropWhile_sublist _ |>.subset hu)

/-- The code units of a character. -/
def charUnits (c : Char) : JsText :=
  if c.toNat < 0x10000 then [UInt16.ofNat c.toNat]
  else [UInt16.ofNat (0xD800 + (c.toNat - 0x10000) / 0x400),
    UInt16.ofNat (0xDC00 + (c.toNat - 0x10000) % 0x400)]

/-- The string that a text is. -/
def toUnits (t : Text) : JsText := t.flatMap charUnits

theorem js_eq_toUnits (s : String) : js s = toUnits s.toList := rfl

/-- The character of a code unit that stands alone; a surrogate is replaced. -/
def unitChar (u : UInt16) : Char :=
  if Tool.isLead u || Tool.isTrail u then Utf8.replacement else Char.ofNat u.toNat

/-- The text of a string. -/
def ofUnits : JsText → Text
  | [] => []
  | [u] => [unitChar u]
  | u :: v :: rest =>
    if Tool.isLead u && Tool.isTrail v then
      Char.ofNat (0x10000 + (u.toNat - 0xD800) * 0x400 + (v.toNat - 0xDC00)) :: ofUnits rest
    else unitChar u :: ofUnits (v :: rest)

/-- `TextEncoder.encode`. -/
def encodeUnits (t : JsText) : Bytes := Utf8.encode (ofUnits t)

end WasmHost
