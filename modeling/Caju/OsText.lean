/-! Text as the operating system has it, in names, paths and arguments: bytes, which need not be
those of any characters. -/

namespace Caju

abbrev OsText := List UInt8

namespace OsText

/-- The bytes of characters. -/
def encode (chars : List Char) : OsText := chars.flatMap String.utf8EncodeChar

def ofString (text : String) : OsText := encode text.toList

/-- The text that bytes are those of. -/
def text? (os : OsText) : Option String := String.fromUTF8? os.toByteArray

/-- A character of which not all bytes have come: its bits so far, and the least and the greatest
value of the bytes that are due. -/
structure Begun where
  bits : Nat
  next : UInt8 × UInt8
  later : List (UInt8 × UInt8)

/-- A character, if no more bytes are due. -/
def settle (bits : Nat) : List (UInt8 × UInt8) → List Char × Option Begun
  | [] => ([Char.ofNat bits], none)
  | next :: later => ([], some ⟨bits, next, later⟩)

/-- What is shown for bytes that are those of no character. -/
def replacement : Char := '�'

/-- The values of a byte that continues a character. -/
def continuing : UInt8 × UInt8 := (0x80, 0xbf)

/-- The values of the second byte. They are bound more tightly where there would be a shorter
spelling or no such character. -/
def second (first : UInt8) : UInt8 × UInt8 :=
  if first = 0xe0 then (0xa0, 0xbf)
  else if first = 0xed then (0x80, 0x9f)
  else if first = 0xf0 then (0x90, 0xbf)
  else if first = 0xf4 then (0x80, 0x8f)
  else continuing

/-- What a first byte says. -/
def opening (byte : UInt8) : List Char × Option Begun :=
  if byte < 0x80 then settle byte.toNat []
  else if byte < 0xc2 then ([replacement], none)
  else if byte < 0xe0 then settle (byte.toNat % 32) [continuing]
  else if byte < 0xf0 then settle (byte.toNat % 16) [second byte, continuing]
  else if byte < 0xf5 then settle (byte.toNat % 8) [second byte, continuing, continuing]
  else ([replacement], none)

/-- The characters of bytes, where one may have begun. A byte that does not continue it ends it,
and is read as a first one. -/
def showFrom : Option Begun → OsText → List Char
  | none, [] => []
  | some _, [] => [replacement]
  | none, byte :: rest =>
    let (chars, begun) := opening byte
    chars ++ showFrom begun rest
  | some begun, byte :: rest =>
    if begun.next.1 ≤ byte ∧ byte ≤ begun.next.2 then
      let (chars, next) := settle (begun.bits * 64 + byte.toNat % 64) begun.later
      chars ++ showFrom next rest
    else
      let (chars, next) := opening byte
      replacement :: chars ++ showFrom next rest

/-- How bytes are shown to the user. -/
def shown (os : OsText) : String := String.ofList (showFrom none os)

theorem encode_append (front back : List Char) :
    encode (front ++ back) = encode front ++ encode back :=
  List.flatMap_append

theorem toByteArray_encode (chars : List Char) : (encode chars).toByteArray = chars.utf8Encode := rfl

theorem text?_eq_some_iff {os : OsText} {text : String} :
    os.text? = some text ↔ os = ofString text := by
  have bytes : (ofString text).toByteArray = text.toByteArray := by
    rw [ofString, toByteArray_encode, String.utf8Encode_toList]
  unfold text? String.fromUTF8?
  constructor
  · intro found
    split at found
    · rename_i valid
      have same : os.toByteArray = (ofString text).toByteArray := by
        rw [bytes, ← Option.some.inj found]
        rfl
      rw [← List.toList_data_toByteArray (l := os), same, List.toList_data_toByteArray]
    · cases found
  · rintro rfl
    have valid : (ofString text).toByteArray.IsValidUTF8 := bytes ▸ text.isValidUTF8
    rw [dif_pos valid]
    exact congrArg some (String.toByteArray_inj.mp bytes)

theorem text?_ofString (text : String) : (ofString text).text? = some text :=
  text?_eq_some_iff.mpr rfl

theorem text?_encode (chars : List Char) : (encode chars).text? = some (String.ofList chars) := by
  rw [← text?_ofString (String.ofList chars), ofString, String.toList_ofList]

theorem encode_injective {chars other : List Char} (same : encode chars = encode other) :
    chars = other := by
  have found := text?_encode chars
  rw [same, text?_encode] at found
  exact (String.ofList_injective (Option.some.inj found)).symm

end OsText

end Caju
