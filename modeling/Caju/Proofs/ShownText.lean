import Caju.OsText
import Mathlib.Tactic.SplitIfs

/-! How bytes are shown. Those of a character are shown as that character, however many there are,
so text is shown as it is and only what is no text gives way. -/

namespace Caju.OsText

theorem toNat_byte {n : Nat} (small : n < 256) : (UInt8.ofNat n).toNat = n :=
  UInt8.toNat_ofNat_of_lt' small

/-- A value among those of a byte that continues a character. -/
def Within (range : UInt8 × UInt8) (n : Nat) : Prop :=
  range.1.toNat ≤ n % 64 + 128 ∧ n % 64 + 128 ≤ range.2.toNat

theorem within_continuing (n : Nat) : Within continuing n := by
  simp only [Within, continuing, UInt8.reduceToNat]
  omega

/-- A byte that continues a character adds its bits. -/
theorem showFrom_continuing (bits n : Nat) {range : UInt8 × UInt8} (within : Within range n)
    (later : List (UInt8 × UInt8)) (rest : OsText) :
    showFrom (some ⟨bits, range, later⟩) (UInt8.ofNat (n % 64 + 128) :: rest) =
      (settle (bits * 64 + n % 64) later).1 ++
        showFrom (settle (bits * 64 + n % 64) later).2 rest := by
  have byte := toNat_byte (show n % 64 + 128 < 256 by omega)
  have fits : range.1 ≤ UInt8.ofNat (n % 64 + 128) ∧ UInt8.ofNat (n % 64 + 128) ≤ range.2 := by
    rw [UInt8.le_iff_toNat_le, UInt8.le_iff_toNat_le, byte]
    exact within
  have kept : (n % 64 + 128) % 64 = n % 64 := by omega
  rw [showFrom, if_pos fits, byte, kept]

theorem opening_one {v : Nat} (small : v < 0x80) :
    opening (UInt8.ofNat v) = ([Char.ofNat v], none) := by
  have byte := toNat_byte (show v < 256 by omega)
  simp only [opening, UInt8.lt_iff_toNat_lt, byte, UInt8.reduceToNat, settle]
  rw [if_pos small]

theorem opening_two {v : Nat} (large : 0x80 ≤ v) (small : v < 0x800) :
    opening (UInt8.ofNat (v / 64 % 32 + 192)) = ([], some ⟨v / 64, continuing, []⟩) := by
  have byte := toNat_byte (show v / 64 % 32 + 192 < 256 by omega)
  have lead : (v / 64 % 32 + 192) % 32 = v / 64 := by omega
  simp only [opening, UInt8.lt_iff_toNat_lt, byte, UInt8.reduceToNat, settle, lead]
  rw [if_neg (by omega), if_neg (by omega), if_pos (by omega)]

/-- The second byte of a character is within the bounds that the first one sets. -/
theorem opening_three {v : Nat} (large : 0x800 ≤ v) (small : v < 0x10000)
    (valid : v < 0xd800 ∨ 0xdfff < v) :
    ∃ range, opening (UInt8.ofNat (v / 4096 % 16 + 224)) =
      ([], some ⟨v / 4096, range, [continuing]⟩) ∧ Within range (v / 64) := by
  have byte := toNat_byte (show v / 4096 % 16 + 224 < 256 by omega)
  have lead : (v / 4096 % 16 + 224) % 16 = v / 4096 := by omega
  refine ⟨second (UInt8.ofNat (v / 4096 % 16 + 224)), ?_, ?_⟩
  · simp only [opening, UInt8.lt_iff_toNat_lt, byte, UInt8.reduceToNat, settle, lead]
    rw [if_neg (by omega), if_neg (by omega), if_neg (by omega), if_pos (by omega)]
  · simp only [second, continuing, Within, ← UInt8.toNat_inj, byte, UInt8.reduceToNat]
    split_ifs
    all_goals
      simp only [UInt8.reduceToNat]
      omega

theorem opening_four {v : Nat} (large : 0x10000 ≤ v) (small : v < 0x110000) :
    ∃ range, opening (UInt8.ofNat (v / 262144 % 8 + 240)) =
      ([], some ⟨v / 262144, range, [continuing, continuing]⟩) ∧ Within range (v / 4096) := by
  have byte := toNat_byte (show v / 262144 % 8 + 240 < 256 by omega)
  have lead : (v / 262144 % 8 + 240) % 8 = v / 262144 := by omega
  refine ⟨second (UInt8.ofNat (v / 262144 % 8 + 240)), ?_, ?_⟩
  · simp only [opening, UInt8.lt_iff_toNat_lt, byte, UInt8.reduceToNat, settle, lead]
    rw [if_neg (by omega), if_neg (by omega), if_neg (by omega), if_neg (by omega),
      if_pos (by omega)]
  · simp only [second, continuing, Within, ← UInt8.toNat_inj, byte, UInt8.reduceToNat]
    split_ifs
    all_goals
      simp only [UInt8.reduceToNat]
      omega

/-- The bytes of a character are shown as that character. -/
theorem showFrom_encodeChar (c : Char) (rest : OsText) :
    showFrom none (String.utf8EncodeChar c ++ rest) = c :: showFrom none rest := by
  have scalar : Char.ofNat c.val.toNat = c := Char.ofNat_toNat c
  have valid : c.val.toNat < 0xd800 ∨ 0xdfff < c.val.toNat ∧ c.val.toNat < 0x110000 := c.valid
  unfold String.utf8EncodeChar
  dsimp only
  generalize c.val.toNat = v at scalar valid
  split
  · have first := opening_one (show v < 0x80 by omega)
    simp only [List.cons_append, List.nil_append, showFrom, first, scalar]
  · split
    · have first := opening_two (show 0x80 ≤ v by omega) (by omega)
      have bits : v / 64 * 64 + v % 64 = v := by omega
      simp only [List.cons_append, List.nil_append, showFrom.eq_3, first]
      rw [showFrom_continuing _ _ (within_continuing v), bits, settle, scalar]
      rfl
    · split
      · obtain ⟨range, first, within⟩ := opening_three (show 0x800 ≤ v by omega) (by omega) (by omega)
        have bits : (v / 4096 * 64 + v / 64 % 64) * 64 + v % 64 = v := by omega
        simp only [List.cons_append, List.nil_append, showFrom.eq_3, first]
        rw [showFrom_continuing _ _ within, settle, List.nil_append,
          showFrom_continuing _ _ (within_continuing v), bits, settle, scalar]
        rfl
      · obtain ⟨range, first, within⟩ := opening_four (show 0x10000 ≤ v by omega) (by omega)
        have bits : ((v / 262144 * 64 + v / 4096 % 64) * 64 + v / 64 % 64) * 64 + v % 64 = v := by
          omega
        simp only [List.cons_append, List.nil_append, showFrom.eq_3, first]
        rw [showFrom_continuing _ _ within, settle, List.nil_append,
          showFrom_continuing _ _ (within_continuing (v / 64)), settle, List.nil_append,
          showFrom_continuing _ _ (within_continuing v), bits, settle, scalar]
        rfl

theorem shown_ofString (text : String) : (ofString text).shown = text := by
  have chars (characters : List Char) : showFrom none (encode characters) = characters := by
    induction characters with
    | nil => rfl
    | cons c rest ih =>
      rw [encode, List.flatMap_cons, showFrom_encodeChar]
      exact congrArg (c :: ·) ih
  rw [shown, ofString, chars, String.ofList_toList]

end Caju.OsText
