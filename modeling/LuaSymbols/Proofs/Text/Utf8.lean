import LuaSymbols.Text.Utf8

/-!
# Reading back UTF-8

`run` is the decoder without its end: what a run of bytes gives, and the state it
leaves. The bytes of one character, read from between characters, give that
character and lead back there (`run_encodeChar`), whatever follows them. So
`decode` takes back `encode`.
-/

namespace LuaSymbols.Utf8

/-- What a run of bytes gives, and the state behind it. -/
def run (s : State) : List UInt8 → List Char × State
  | [] => ([], s)
  | b :: bs => ((step s b).1 ++ (run (step s b).2 bs).1, (run (step s b).2 bs).2)

theorem decodeFrom_append (s : State) (bs rest : List UInt8) :
    decodeFrom s (bs ++ rest) = (run s bs).1 ++ decodeFrom (run s bs).2 rest := by
  induction bs generalizing s with
  | nil => rfl
  | cons b bs ih => simp [run, decodeFrom, ih]

/-! ## Single bytes -/

theorem toNat_ofNat_byte {n : Nat} (h : n < 256) : (UInt8.ofNat n).toNat = n := by
  simp [UInt8.toNat_ofNat', Nat.mod_eq_of_lt h]

theorem step_ascii {n : Nat} (h : n < 0x80) :
    step .start (UInt8.ofNat n) = ([Char.ofNat n], .start) := by
  have hn := toNat_ofNat_byte (n := n) (by omega)
  simp [step, lead, UInt8.lt_iff_toNat_lt, hn, h]

theorem step_two {n : Nat} (h : 2 ≤ n) (h' : n < 0x20) :
    step .start (UInt8.ofNat (n + 0xC0)) = ([], .inside 0 0x80 0xBF n) := by
  have hn := toNat_ofNat_byte (n := n + 0xC0) (by omega)
  simp only [step, lead, UInt8.lt_iff_toNat_lt, hn, UInt8.reduceToNat]
  rw [if_neg (by omega), if_neg (by omega), if_pos (by omega), Nat.add_sub_cancel]

/-- The lower bound keeps overlong forms out, the upper one surrogates. -/
theorem step_three {n : Nat} (h : n < 0x10) :
    step .start (UInt8.ofNat (n + 0xE0)) =
      ([], .inside 1 (if n = 0 then 0xA0 else 0x80) (if n = 0xD then 0x9F else 0xBF) n) := by
  have hn := toNat_ofNat_byte (n := n + 0xE0) (by omega)
  simp only [step, lead, UInt8.lt_iff_toNat_lt, ← UInt8.toNat_inj, hn, UInt8.reduceToNat]
  rw [if_neg (by omega), if_neg (by omega), if_neg (by omega)]
  by_cases h0 : n = 0
  · simp [h0]
  by_cases hD : n = 0xD
  · simp [hD]
  rw [if_neg (by omega), if_neg (by omega), if_pos (by omega), if_neg h0, if_neg hD,
    Nat.add_sub_cancel]

/-- The bounds keep out overlong forms and numbers above U+10FFFF. -/
theorem step_four {n : Nat} (h : n ≤ 4) :
    step .start (UInt8.ofNat (n + 0xF0)) =
      ([], .inside 2 (if n = 0 then 0x90 else 0x80) (if n = 4 then 0x8F else 0xBF) n) := by
  have hn := toNat_ofNat_byte (n := n + 0xF0) (by omega)
  simp only [step, lead, UInt8.lt_iff_toNat_lt, ← UInt8.toNat_inj, hn, UInt8.reduceToNat]
  rw [if_neg (by omega), if_neg (by omega), if_neg (by omega), if_neg (by omega),
    if_neg (by omega), if_neg (by omega)]
  by_cases h0 : n = 0
  · simp [h0]
  by_cases h4 : n = 4
  · simp [h4]
  rw [if_neg (by omega), if_pos (by omega), if_neg h0, if_neg h4, Nat.add_sub_cancel]

section
variable {code n : Nat} {lo hi : UInt8}

/-- A continuation byte in its bounds adds six bits. -/
theorem step_more (more : Nat) (h : n < 0x40) (hlo : lo.toNat ≤ n + 0x80)
    (hhi : n + 0x80 ≤ hi.toNat) :
    step (.inside (more + 1) lo hi code) (UInt8.ofNat (n + 0x80)) =
      ([], .inside more 0x80 0xBF (code * 64 + n)) := by
  have hn := toNat_ofNat_byte (n := n + 0x80) (by omega)
  simp only [step, UInt8.le_iff_toNat_le, hn]
  rw [if_pos ⟨hlo, hhi⟩, Nat.add_sub_cancel]

theorem step_last (h : n < 0x40) (hlo : lo.toNat ≤ n + 0x80) (hhi : n + 0x80 ≤ hi.toNat) :
    step (.inside 0 lo hi code) (UInt8.ofNat (n + 0x80)) =
      ([Char.ofNat (code * 64 + n)], .start) := by
  have hn := toNat_ofNat_byte (n := n + 0x80) (by omega)
  simp only [step, UInt8.le_iff_toNat_le, hn]
  rw [if_pos ⟨hlo, hhi⟩, Nat.add_sub_cancel]

end

/-! ## Characters -/

theorem run_cons {s s' : State} {b : UInt8} {cs : List Char} (h : step s b = (cs, s'))
    (bs : List UInt8) : run s (b :: bs) = (cs ++ (run s' bs).1, (run s' bs).2) := by
  simp [run, h]

/-- The bytes of a character give it, and lead back between characters. -/
theorem run_encodeChar (c : Char) : run .start (String.utf8EncodeChar c) = ([c], .start) := by
  have hv : c.val.toNat < 0xD800 ∨ 0xDFFF < c.val.toNat ∧ c.val.toNat < 0x110000 := c.valid
  have hc : Char.ofNat c.val.toNat = c := Char.ofNat_toNat c
  unfold String.utf8EncodeChar
  generalize c.val.toNat = v at hv hc
  by_cases h1 : v ≤ 0x7f
  · rw [if_pos h1, run_cons (step_ascii (n := v) (by omega)), hc]
    rfl
  by_cases h2 : v ≤ 0x7ff
  · have e : v / 64 % 0x20 * 64 + v % 0x40 = v := by omega
    rw [if_neg h1, if_pos h2, run_cons (step_two (n := v / 64 % 0x20) (by omega) (by omega)),
      run_cons (step_last (n := v % 0x40) (by omega) (by simp) (by simp; omega)), e, hc]
    rfl
  by_cases h3 : v ≤ 0xffff
  · have e : (v / 4096 % 0x10 * 64 + v / 64 % 0x40) * 64 + v % 0x40 = v := by omega
    have hlo : (if v / 4096 % 0x10 = 0 then (0xA0 : UInt8) else 0x80).toNat ≤
        v / 64 % 0x40 + 0x80 := by
      split
      · simp only [UInt8.reduceToNat]
        omega
      · simp
    have hhi : v / 64 % 0x40 + 0x80 ≤
        (if v / 4096 % 0x10 = 0xD then (0x9F : UInt8) else 0xBF).toNat := by
      split <;> simp <;> omega
    rw [if_neg h1, if_neg h2, if_pos h3, run_cons (step_three (n := v / 4096 % 0x10) (by omega)),
      run_cons (step_more 0 (by omega) hlo hhi),
      run_cons (step_last (n := v % 0x40) (by omega) (by simp) (by simp; omega)), e, hc]
    rfl
  · have e : ((v / 262144 % 0x08 * 64 + v / 4096 % 0x40) * 64 + v / 64 % 0x40) * 64 + v % 0x40 =
        v := by omega
    have hlo : (if v / 262144 % 0x08 = 0 then (0x90 : UInt8) else 0x80).toNat ≤
        v / 4096 % 0x40 + 0x80 := by
      split
      · simp only [UInt8.reduceToNat]
        omega
      · simp
    have hhi : v / 4096 % 0x40 + 0x80 ≤
        (if v / 262144 % 0x08 = 4 then (0x8F : UInt8) else 0xBF).toNat := by
      split <;> simp <;> omega
    rw [if_neg h1, if_neg h2, if_neg h3, run_cons (step_four (n := v / 262144 % 0x08) (by omega)),
      run_cons (step_more 1 (by omega) hlo hhi),
      run_cons (step_more (n := v / 64 % 0x40) 0 (by omega) (by simp) (by simp; omega)),
      run_cons (step_last (n := v % 0x40) (by omega) (by simp) (by simp; omega)), e, hc]
    rfl

theorem decodeFrom_encode_append (cs : List Char) (rest : List UInt8) :
    decodeFrom .start (encode cs ++ rest) = cs ++ decodeFrom .start rest := by
  induction cs with
  | nil => rfl
  | cons c cs ih =>
    rw [encode, List.flatMap_cons, ← encode, List.append_assoc, decodeFrom_append, run_encodeChar,
      ih]
    rfl

theorem decode_encode (cs : List Char) : decode (encode cs) = cs := by
  simpa [decode, decodeFrom, State.flush] using decodeFrom_encode_append cs []

end LuaSymbols.Utf8
