import Mathlib
import LuaSymbols.Proofs.Text.Columns

/-!
# Characters counted byte by byte

A sequence under way counts as one character, since the end of the bytes would make one of
it. So a byte that goes on with the sequence (`State.continues`) adds none, and every other
byte adds one (`length_step`), in well-formed text and in any other. The character column
of a source therefore never falls, and inside a line it is the number of characters that the
bytes before it decode to, whether the line is plain ASCII or not (`columns_convert`).
-/

namespace LuaSymbols

namespace Utf8

/-! ## One byte more -/

/-- Whether a byte goes on with the sequence under way. -/
def State.continues : State → UInt8 → Bool
  | .start, _ => false
  | .inside _ lo hi _, b => lo ≤ b && b ≤ hi

/-- A byte between characters makes one, at once or at the end of the bytes. -/
theorem length_lead (b : UInt8) : (lead b).1.length + (lead b).2.flush.length = 1 := by
  unfold lead
  split_ifs <;> rfl

theorem length_step (s : State) (b : UInt8) :
    (step s b).1.length + (step s b).2.flush.length =
      s.flush.length + if s.continues b then 0 else 1 := by
  cases s with
  | start => simpa [step, State.flush, State.continues] using length_lead b
  | inside more lo hi code =>
    by_cases h : lo ≤ b ∧ b ≤ hi
    · have hgoes : State.continues (.inside more lo hi code) b = true := by
        simpa [State.continues] using h
      rw [hgoes, step, if_pos h]
      cases more <;> simp [State.flush]
    · have hbreaks : State.continues (.inside more lo hi code) b = false := by
        simpa [State.continues] using h
      -- the broken sequence is closed, and the byte is read as if between characters
      rw [hbreaks, step, if_neg h]
      show (lead b).1.length + 1 + (lead b).2.flush.length = 1 + 1
      have hlead := length_lead b
      omega

theorem decodeFrom_eq (s : State) (bs : List UInt8) :
    decodeFrom s bs = (run s bs).1 ++ (run s bs).2.flush := by
  simpa [decodeFrom] using decodeFrom_append s bs []

theorem length_decode_concat (bs : List UInt8) (b : UInt8) :
    (decode (bs ++ [b])).length =
      (decode bs).length + if (run .start bs).2.continues b then 0 else 1 := by
  have hstep := length_step (run .start bs).2 b
  rw [decode, decode, decodeFrom_append, decodeFrom_eq .start bs, decodeFrom, decodeFrom,
    List.length_append, List.length_append, List.length_append]
  omega

/-! ## Beginnings of a line -/

/-- Whether the byte at `k` goes on with a sequence that the bytes before it leave open. -/
def continuesAt (bytes : List UInt8) (k : Nat) : Bool :=
  bytes[k]?.any (run .start (bytes.take k)).2.continues

theorem length_decode_take_succ {bytes : List UInt8} {k : Nat} (h : k < bytes.length) :
    (decode (bytes.take (k + 1))).length =
      (decode (bytes.take k)).length + if continuesAt bytes k then 0 else 1 := by
  rw [List.take_succ_eq_append_getElem h, length_decode_concat, continuesAt,
    List.getElem?_eq_getElem h, Option.any_some]

theorem count_mono (bytes : List UInt8) : Monotone fun k => count k bytes := by
  apply monotone_nat_of_le_succ
  intro k
  simp only [count_eq]
  rcases Nat.lt_or_ge k bytes.length with hk | hk
  · rw [length_decode_take_succ hk]
    exact Nat.le_add_right _ _
  · rw [List.take_of_length_le hk, List.take_of_length_le (by omega)]

end Utf8

namespace Source

theorem character_mono (s : Source) (row : Nat) : Monotone (s.character row) := by
  intro column column₂ h
  unfold character
  split
  · exact h
  · split
    · exact h
    · exact Utf8.count_mono _ h

/-- **Byte columns become character columns.** For any bytes and any row the character column
never falls. Within the line of the row it is the number of characters that the bytes before
the column decode to; over one byte it stays if the byte goes on with an open sequence, and
grows by one if not. If the bytes are those of a text, the bytes of the first `k` characters
of a line are converted to `k`. -/
theorem columns_convert (bytes : List UInt8) (row : Nat) :
    Monotone ((ofBytes bytes).character row) ∧
    (∀ line, (bytes.splitOn 0x0A)[row]? = some line →
      (∀ column ≤ line.length,
        (ofBytes bytes).character row column = (Utf8.decode (line.take column)).length) ∧
      ∀ column < line.length,
        (ofBytes bytes).character row (column + 1) =
          (ofBytes bytes).character row column +
            if Utf8.continuesAt line column then 0 else 1) ∧
    ∀ text : String, Utf8.encode text.toList = bytes →
      ∀ line, (text.toList.splitOn '\n')[row]? = some line →
        ∀ k ≤ line.length, (ofBytes bytes).character row (byteColumn line k) = k := by
  refine ⟨character_mono _ row, fun line hline => ?_, ?_⟩
  · have hcounts {column : Nat} (h : column ≤ line.length) :=
      character_eq_length_decode (s := ofBytes bytes) hline h
    refine ⟨fun column h => hcounts h, fun column h => ?_⟩
    rw [hcounts h, hcounts h.le, Utf8.length_decode_take_succ h]
  · rintro text rfl line hline k hk
    exact character_byteColumn hline hk

/-- The second line has a sequence that another byte breaks off, and one that the end does. -/
def brokenOff : List UInt8 := [0x78, 0x0A, 0xE2, 0x82, 0x28, 0xF0, 0x9F]

theorem columns_convert_brokenOff :
    (ofBytes brokenOff).character 1 2 = (ofBytes brokenOff).character 1 1 ∧
    (ofBytes brokenOff).character 1 3 = (ofBytes brokenOff).character 1 2 + 1 ∧
    (∀ column ≥ 5, 3 ≤ (ofBytes brokenOff).character 1 column) ∧
    (ofBytes (Utf8.encode "x = 1\ns = 'éé'; y".toList)).character 1 12 = 10 := by
  obtain ⟨hmono, hlines, -⟩ := columns_convert brokenOff 1
  obtain ⟨hcounts, hgrows⟩ := hlines [0xE2, 0x82, 0x28, 0xF0, 0x9F] (by decide +kernel)
  obtain ⟨-, -, htext⟩ := columns_convert (Utf8.encode "x = 1\ns = 'éé'; y".toList) 1
  refine ⟨hgrows 1 (by decide), hgrows 2 (by decide), fun column h => ?_, ?_⟩
  · exact (hcounts 5 le_rfl).symm.le.trans (hmono h)
  · exact htext _ rfl "s = 'éé'; y".toList (by decide +kernel) 10 (by decide)

end Source

end LuaSymbols
