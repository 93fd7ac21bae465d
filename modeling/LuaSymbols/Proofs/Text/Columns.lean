import Mathlib
import LuaSymbols.Proofs.Text.Utf8
import LuaSymbols.Source

/-!
# Columns of a text

The lines of a text are cut from its bytes, and no byte of a longer character is a line
feed, so they are the lines of its characters (`splitOn_encode`). Within a line a column is
converted to what the bytes before it decode to, also where the line is plain ASCII and
nothing is decoded (`character_eq_length_decode`). So the byte column at which a character
starts is converted to the number of that character in its line (`character_byteColumn`).
-/

namespace LuaSymbols

namespace Utf8

theorem encode_cons (c : Char) (cs : List Char) :
    encode (c :: cs) = String.utf8EncodeChar c ++ encode cs := by
  rw [encode, List.flatMap_cons, ← encode]

theorem encode_append (cs ds : List Char) : encode (cs ++ ds) = encode cs ++ encode ds := by
  rw [encode, List.flatMap_append, ← encode, ← encode]

/-- The bytes of a character are one below 0x80, or all from there on. -/
theorem encodeChar_cases (c : Char) :
    String.utf8EncodeChar c = [UInt8.ofNat c.toNat] ∧ c.toNat < 0x80 ∨
      ∀ b ∈ String.utf8EncodeChar c, 0x80 ≤ b.toNat := by
  have hmore (n : Nat) (h : 0x80 ≤ n) (h' : n < 256) : 0x80 ≤ (UInt8.ofNat n).toNat := by
    rw [toNat_ofNat_byte h']
    exact h
  show String.utf8EncodeChar c = [UInt8.ofNat c.val.toNat] ∧ c.val.toNat < 0x80 ∨ _
  unfold String.utf8EncodeChar
  generalize c.val.toNat = v
  dsimp only
  split
  · exact .inl ⟨rfl, by omega⟩
  · refine .inr fun b hb => ?_
    split at hb
    · simp only [List.mem_cons, List.not_mem_nil, or_false] at hb
      rcases hb with rfl | rfl <;> exact hmore _ (by omega) (by omega)
    · split at hb
      · simp only [List.mem_cons, List.not_mem_nil, or_false] at hb
        rcases hb with rfl | rfl | rfl <;> exact hmore _ (by omega) (by omega)
      · simp only [List.mem_cons, List.not_mem_nil, or_false] at hb
        rcases hb with rfl | rfl | rfl | rfl <;> exact hmore _ (by omega) (by omega)

theorem lineFeed_not_mem_encodeChar {c : Char} (h : c ≠ '\n') :
    0x0A ∉ String.utf8EncodeChar c := by
  intro hmem
  rcases encodeChar_cases c with ⟨hone, hlt⟩ | hmore
  · rw [hone, List.mem_singleton] at hmem
    have hc : c.toNat = 0x0A := by
      rw [← toNat_ofNat_byte (n := c.toNat) (by omega), ← hmem]
      rfl
    exact h (Char.toNat_inj.1 hc)
  · have hge := hmore _ hmem
    simp at hge

theorem splitOn_append_of_not_mem {α : Type} [BEq α] [LawfulBEq α] {a : α} {bs : List α}
    (h : a ∉ bs) (rest : List α) :
    (bs ++ rest).splitOn a = (rest.splitOn a).modifyHead (bs ++ ·) := by
  induction bs with
  | nil => cases hs : rest.splitOn a <;> simp [hs]
  | cons b bs ih =>
    obtain ⟨hb, hbs⟩ := not_or.1 (mt List.mem_cons.2 h)
    rw [List.cons_append, List.splitOn_cons_eq_if_modifyHead, if_neg (by simpa using Ne.symm hb),
      ih hbs, List.modifyHead_modifyHead]
    rfl

/-- The lines of the bytes are the bytes of the lines. -/
theorem splitOn_encode (cs : List Char) :
    (encode cs).splitOn 0x0A = (cs.splitOn '\n').map encode := by
  induction cs with
  | nil => rfl
  | cons c cs ih =>
    by_cases hc : c = '\n'
    · subst hc
      have hbyte : String.utf8EncodeChar '\n' = [0x0A] := by decide
      rw [encode_cons, hbyte, List.singleton_append, List.splitOn_cons_eq_if_modifyHead,
        List.splitOn_cons_eq_if_modifyHead, ih]
      rfl
    · rw [encode_cons, splitOn_append_of_not_mem (lineFeed_not_mem_encodeChar hc), ih,
        List.splitOn_cons_eq_if_modifyHead, if_neg (by simpa using hc)]
      cases cs.splitOn '\n' with
      | nil => rfl
      | cons line lines => simp [encode_cons]

/-- Bytes of ASCII decode to as many characters. -/
theorem length_decode_of_ascii {bytes : List UInt8} (h : ∀ b ∈ bytes, b < 0x80) :
    (decode bytes).length = bytes.length := by
  induction bytes with
  | nil => rfl
  | cons b bs ih =>
    obtain ⟨hb, hbs⟩ := List.forall_mem_cons.1 h
    have hlead : lead b = ([Char.ofNat b.toNat], .start) := by rw [lead, if_pos hb]
    rw [decode, decodeFrom, step, hlead, List.length_append, ← decode, ih hbs]
    exact Nat.add_comm 1 bs.length

end Utf8

/-- The byte column at which the character with the given number starts. -/
def byteColumn (line : List Char) (k : Nat) : Nat := (Utf8.encode (line.take k)).length

theorem byteColumn_mono (line : List Char) {k l : Nat} (h : k ≤ l) :
    byteColumn line k ≤ byteColumn line l := by
  have hsplit : line.take l = line.take k ++ (line.drop k).take (l - k) := by
    rw [← List.take_add, Nat.add_sub_cancel' h]
  rw [byteColumn, byteColumn, hsplit, Utf8.encode_append, List.length_append]
  omega

namespace Source

theorem lines_ofText (text : String) :
    (ofText text).lines = (text.toList.splitOn '\n').map Utf8.encode :=
  Utf8.splitOn_encode text.toList

/-- Within a line of ASCII the bytes before a column are as many as their characters, so there
too the column is what those bytes decode to. -/
theorem character_eq_length_decode {s : Source} {row column : Nat} {line : List UInt8}
    (hline : s.lines[row]? = some line) (hcolumn : column ≤ line.length) :
    s.character row column = (Utf8.decode (line.take column)).length := by
  simp only [character, hline]
  split
  · next hascii =>
    rw [Utf8.length_decode_of_ascii fun b hb => ?_, List.length_take_of_le hcolumn]
    simpa using List.all_eq_true.1 hascii b (List.mem_of_mem_take hb)
  · exact Utf8.count_eq column line

/-- The column of a character is its number in the line. -/
theorem character_byteColumn {text : String} {row k : Nat} {line : List Char}
    (hline : (text.toList.splitOn '\n')[row]? = some line) (hk : k ≤ line.length) :
    (ofText text).character row (byteColumn line k) = k := by
  have hbytes : (ofText text).lines[row]? = some (Utf8.encode line) := by
    rw [lines_ofText, List.getElem?_map, hline, Option.map_some]
  have hsplit : Utf8.encode line = Utf8.encode (line.take k) ++ Utf8.encode (line.drop k) := by
    rw [← Utf8.encode_append, List.take_append_drop]
  have hwithin : byteColumn line k ≤ (Utf8.encode line).length := by
    rw [hsplit, List.length_append, byteColumn]
    exact Nat.le_add_right _ _
  rw [character_eq_length_decode hbytes hwithin, byteColumn, hsplit, List.take_left,
    Utf8.decode_encode, List.length_take_of_le hk]

end Source

end LuaSymbols
