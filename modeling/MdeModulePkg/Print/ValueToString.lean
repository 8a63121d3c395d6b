import Mathlib.Data.Nat.Digits
import MdeModulePkg.Base

/-! # `ValueToString` — signed decimal rendering with thousands commas

    `ValueToString (Buffer, Flags, Value)` of the setup browser's `Print.c` writes the
    decimal numeral of the 64-bit signed `Value` through `Buffer` and returns how many
    characters it wrote before the NUL.  The model keeps the source's two loops: the
    `do`-`while` that stores digits (and, under `COMMA_TYPE`, commas) least significant
    first through `TempStr` into the 30-cell `TempBuffer`, and the reversal loop that copies
    them out behind an optional sign.  `INT64` and `UINT64` are the same `BitVec 64`, read
    signed or unsigned as the source casts it.  A store past the end of `TempBuffer`, or a
    `do`-`while` that outlasts 64 passes, makes the model return `none`: an answer
    `some _` is the proof that the run stays inside `TempBuffer` and stops.

    * `digitLoop_spec`: from any value the loop stores `emitDigits` of its digits;
    * `valueToString_renders`: `Buffer` receives the sign, the digits of `|Value|` grouped
      in threes when `COMMA_TYPE` is set, and a NUL; `Count` is their number; reading the
      digits back gives `Value`, also at `-2^63`, where the negation wraps;
    * `valueToString_in_bounds`: at most 19 digits and 6 commas reach `TempBuffer`, at
      most 27 characters reach `Buffer`, and `Count ≤ 26`. -/

namespace Print

open Base

-- The `COMMA_TYPE` bit of `Flags` is defined by a header outside the source: every result
-- below holds for any value of it.
variable (commaType : UInt8)

/-! ## The model -/

/-- The locals the `do`-`while` loop updates.  `TempBuffer` is `TempBuffer[0 .. TempStr)`,
    the characters stored so far, so `TempStr` is its length. -/
structure DigitLoop where
  value : BitVec 64
  tempBuffer : List Char16
  count : Nat
  numberCount : Nat
  deriving DecidableEq, Repr

/-- `*(TempStr++) = c`: a store into `CHAR16 TempBuffer[30]`; `none` past its end. -/
def storeTemp (tempBuffer : List Char16) (c : Char16) : Option (List Char16) :=
  if tempBuffer.length < 30 then some (tempBuffer ++ [c]) else none

/-- One pass of the `do`-`while` body: divide by ten, store the remainder's digit, and under
    `COMMA_TYPE` a comma after every third digit that is not the last. -/
def digitStep (flags : UInt8) (s : DigitLoop) : Option DigitLoop := do
  let remainder := s.value.toNat % 10
  let value : BitVec 64 := BitVec.ofNat 64 (s.value.toNat / 10)
  let tempBuffer ← storeTemp s.tempBuffer (UInt16.ofNat (remainder + '0'.toNat))
  let s : DigitLoop := ⟨value, tempBuffer, s.count + 1, s.numberCount + 1⟩
  if (flags &&& commaType) = commaType then
    if s.numberCount % 3 = 0 ∧ s.value ≠ 0 then
      let tempBuffer ← storeTemp s.tempBuffer (toChar16 ',')
      pure { s with tempBuffer, count := s.count + 1 }
    else pure s
  else pure s

/-- `do { ... } while (Value != 0)`, for at most `fuel` passes. -/
def digitLoop (flags : UInt8) : Nat → DigitLoop → Option DigitLoop
  | 0, _ => none
  | fuel + 1, s => do
    let s ← digitStep commaType flags s
    if s.value ≠ 0 then digitLoop flags fuel s else pure s

/-- `while (TempStr != TempBuffer) *(BufferPtr++) = *(--TempStr);` from `TempStr`
    down to the start of `TempBuffer`, appending to what `Buffer` already holds. -/
def reverseTemp (tempBuffer : List Char16) : Nat → List Char16 → List Char16
  | 0, buffer => buffer
  | tempStr + 1, buffer =>
    reverseTemp tempBuffer tempStr (buffer ++ [tempBuffer.getD tempStr 0])

/-- `ValueToString (Buffer, Flags, Value)`: the characters stored through `Buffer`, NUL
    included, and the returned `Count`. -/
def valueToString (flags : UInt8) (value : BitVec 64) : Option (List Char16 × Nat) := do
  let negative := value.slt 0
  let value := if negative then -value else value
  let s ← digitLoop commaType flags 64 ⟨value, [], 0, 0⟩
  let buffer := if negative then [toChar16 '-'] else []
  let count := if negative then s.count + 1 else s.count
  pure (reverseTemp s.tempBuffer s.tempBuffer.length buffer ++ [0], count)

/-! ## The rendering, stated directly -/

/-- The character of decimal digit `d`. -/
def digitChar (d : Nat) : Char16 := UInt16.ofNat (d + '0'.toNat)

/-- The decimal numeral of `n`, most significant digit first, with no leading zero
    (`"0"` for zero). -/
def decimalDigits (n : Nat) : List Char16 :=
  if n = 0 then [digitChar 0] else ((Nat.digits 10 n).map digitChar).reverse

/-- A comma after each digit that a positive multiple of three digits follow: groups of
    three counted from the right, no leading or trailing comma. -/
def groupThousands : List Char16 → List Char16
  | [] => []
  | d :: ds =>
    if ds ≠ [] ∧ ds.length % 3 = 0 then d :: toChar16 ',' :: groupThousands ds
    else d :: groupThousands ds

/-- The sign of `Value`, then the digits of `|Value|`, grouped when `comma` is set. -/
def renderValue (comma : Bool) (value : BitVec 64) : List Char16 :=
  (if value.toInt < 0 then [toChar16 '-'] else []) ++
    (if comma then groupThousands (decimalDigits value.toInt.natAbs)
     else decimalDigits value.toInt.natAbs)

/-- A string of decimal digits read as a number. -/
def readDecimal (s : List Char16) : Nat :=
  s.foldl (fun acc c => 10 * acc + (c.toNat - '0'.toNat)) 0

/-- A decimal numeral with an optional leading minus read as an integer. -/
def readSigned : List Char16 → Int
  | [] => 0
  | c :: s => if c = toChar16 '-' then -(readDecimal s : Int) else readDecimal (c :: s)

/-! ## The digit loop -/

/-- The digits the `do`-`while` produces for `v`, least significant first: `Nat.digits`,
    except that zero still gets its one digit. -/
def loopDigits (v : Nat) : List Nat := if v = 0 then [0] else Nat.digits 10 v

/-- A pass peels off the last digit; the loop goes on while the quotient is not zero. -/
theorem loopDigits_eq (v : Nat) :
    loopDigits v = v % 10 :: (if v / 10 = 0 then [] else loopDigits (v / 10)) := by
  rcases Nat.eq_zero_or_pos v with rfl | hv
  · rfl
  · rw [loopDigits, if_neg hv.ne', Nat.digits_def' (by norm_num) hv]
    split_ifs with h
    · simp [h]
    · simp [loopDigits, h]

theorem loopDigits_ne_nil (v : Nat) : loopDigits v ≠ [] := by
  rw [loopDigits_eq]; exact List.cons_ne_nil _ _

/-- The comma stored after the `k+1`-th digit: under `COMMA_TYPE`, after every third digit
    that is not the last (`more` says whether one follows). -/
def commaAfter (comma : Bool) (k : Nat) (more : Prop) [Decidable more] : List Char16 :=
  if comma ∧ (k + 1) % 3 = 0 ∧ more then [toChar16 ','] else []

@[simp] theorem commaAfter_false (comma : Bool) (k : Nat) : commaAfter comma k False = [] := by
  simp [commaAfter]

@[simp] theorem reverse_commaAfter (comma : Bool) (k : Nat) (more : Prop) [Decidable more] :
    (commaAfter comma k more).reverse = commaAfter comma k more := by
  unfold commaAfter; split_ifs <;> rfl

/-- What the loop stores for the digits `D` still to come when `k` were stored before. -/
def emitDigits (comma : Bool) : List Nat → Nat → List Char16
  | [], _ => []
  | d :: D, k => digitChar d :: (commaAfter comma k (D ≠ []) ++ emitDigits comma D (k + 1))

theorem storeTemp_of_lt {T : List Char16} (c : Char16) (h : T.length < 30) :
    storeTemp T c = some (T ++ [c]) := if_pos h

/-- The quotient, cast back to `INT64`, keeps its value. -/
theorem toNat_ofNat_div_ten (value : BitVec 64) :
    (BitVec.ofNat 64 (value.toNat / 10)).toNat = value.toNat / 10 := by
  simp only [BitVec.toNat_ofNat]
  exact Nat.mod_eq_of_lt (lt_of_le_of_lt (Nat.div_le_self _ _) value.isLt)

theorem ofNat_div_ten_eq_zero (value : BitVec 64) :
    BitVec.ofNat 64 (value.toNat / 10) = 0 ↔ value.toNat / 10 = 0 := by
  rw [BitVec.toNat_eq, toNat_ofNat_div_ten]; rfl

/-- **One pass** with room left in `TempBuffer`: the quotient, the digit, its comma. -/
theorem digitStep_spec (flags : UInt8) (value : BitVec 64) (T : List Char16) (c k : Nat)
    (hroom : T.length + 1 + (commaAfter (flags &&& commaType == commaType) k (value.toNat / 10 ≠ 0)).length ≤ 30) :
    digitStep commaType flags ⟨value, T, c, k⟩ =
      some ⟨BitVec.ofNat 64 (value.toNat / 10),
        T ++ digitChar (value.toNat % 10) :: commaAfter (flags &&& commaType == commaType) k (value.toNat / 10 ≠ 0),
        c + 1 + (commaAfter (flags &&& commaType == commaType) k (value.toNat / 10 ≠ 0)).length, k + 1⟩ := by
  have h1 : T.length < 30 := by omega
  simp only [digitStep, Option.bind_eq_bind, storeTemp_of_lt _ h1, Option.some_bind,
    ofNat_div_ten_eq_zero, commaAfter, beq_iff_eq, ne_eq] at hroom ⊢
  by_cases hg : flags &&& commaType = commaType ∧ (k + 1) % 3 = 0 ∧ ¬value.toNat / 10 = 0
  · rw [if_pos hg, List.length_singleton] at hroom
    rw [if_pos hg, if_pos hg.1, if_pos hg.2,
      storeTemp_of_lt _ (by rw [List.length_append, List.length_singleton]; omega)]
    simp [digitChar]
  · split_ifs with hc hk
    · exact absurd ⟨hc, hk⟩ hg
    all_goals simp [digitChar]

/-- Whatever a pass stores, it leaves the quotient in `Value`. -/
theorem digitStep_value (flags : UInt8) {s s' : DigitLoop}
    (h : digitStep commaType flags s = some s') :
    s'.value = BitVec.ofNat 64 (s.value.toNat / 10) := by
  simp only [digitStep, Option.bind_eq_bind, Option.bind_eq_some] at h
  obtain ⟨T, -, h⟩ := h
  split_ifs at h
  · obtain ⟨T', -, h⟩ := Option.bind_eq_some.1 h
    cases h; rfl
  all_goals cases h; rfl

/-- **The `do`-`while` loop**: from any `Value` it stores `emitDigits` of the digits of
    `(UINT64) Value` and stops at zero, given enough passes and room. -/
theorem digitLoop_spec (flags : UInt8) (fuel : Nat) :
    ∀ (value : BitVec 64) (T : List Char16) (c k : Nat),
    (loopDigits value.toNat).length ≤ fuel →
    T.length + (emitDigits (flags &&& commaType == commaType) (loopDigits value.toNat) k).length ≤ 30 →
    digitLoop commaType flags fuel ⟨value, T, c, k⟩ =
      some ⟨0, T ++ emitDigits (flags &&& commaType == commaType) (loopDigits value.toNat) k,
        c + (emitDigits (flags &&& commaType == commaType) (loopDigits value.toNat) k).length,
        k + (loopDigits value.toNat).length⟩ := by
  induction fuel with
  | zero => intro value T c k hf _; rw [loopDigits_eq] at hf; simp at hf
  | succ fuel ih =>
    intro value T c k hf hroom
    rw [loopDigits_eq] at hf hroom ⊢
    by_cases h0 : value.toNat / 10 = 0
    · simp only [h0, if_true, emitDigits, ne_eq, not_true_eq_false, commaAfter_false,
        List.append_nil, List.length_singleton] at hroom ⊢
      rw [digitLoop, digitStep_spec _ _ _ _ _ _ (by simp [h0]; omega)]
      simp [h0, (ofNat_div_ten_eq_zero value).2 h0]
    · have hne := loopDigits_ne_nil (value.toNat / 10)
      simp only [h0, if_false, emitDigits, ne_eq, hne, not_false_eq_true, List.length_cons,
        List.length_append] at hf hroom ⊢
      have hv := toNat_ofNat_div_ten value
      rw [digitLoop, digitStep_spec _ _ _ _ _ _ (by simp only [ne_eq, h0, not_false_eq_true]; omega)]
      simp only [Option.bind_eq_bind, Option.some_bind, ne_eq, ofNat_div_ten_eq_zero, h0,
        not_false_eq_true, if_true]
      rw [ih _ _ _ _ (by rw [hv]; omega) (by simp only [hv, List.length_append, List.length_cons]; omega)]
      simp [hv, h0]
      omega

/-! ## The reversal loop and the grouping -/

/-- **The reversal loop** copies the first `TempStr` characters of `TempBuffer` backwards. -/
theorem reverseTemp_eq (T : List Char16) (n : Nat) (hn : n ≤ T.length) (buffer : List Char16) :
    reverseTemp T n buffer = buffer ++ (T.take n).reverse := by
  induction n generalizing buffer with
  | zero => simp [reverseTemp]
  | succ n ih =>
    have h : n < T.length := by omega
    rw [reverseTemp, ih (by omega), List.getD_eq_getElem?_getD, List.getElem?_eq_getElem h,
      ← List.take_concat_get T n h, List.concat_eq_append, List.reverse_append]
    simp only [List.reverse_singleton, List.append_assoc, List.singleton_append, Option.getD_some]

/-- `groupThousands` with `k` more digits standing to the right. -/
def groupFrom (k : Nat) : List Char16 → List Char16
  | [] => []
  | d :: ds =>
    if ds ≠ [] ∧ (ds.length + k) % 3 = 0 then d :: toChar16 ',' :: groupFrom k ds
    else d :: groupFrom k ds

theorem groupThousands_eq_groupFrom (M : List Char16) : groupThousands M = groupFrom 0 M := by
  induction M with
  | nil => rfl
  | cons d ds ih => simp [groupThousands, groupFrom, ih]

/-- Appending a digit on the right shifts every group by one. -/
theorem groupFrom_append_singleton (k : Nat) (x : Char16) (M : List Char16) :
    groupFrom k (M ++ [x]) = groupFrom (k + 1) M ++ commaAfter true k (M ≠ []) ++ [x] := by
  induction M with
  | nil => simp [groupFrom]
  | cons m M ih =>
    have hc : ((M ++ [x]).length + k) % 3 = 0 ↔ (M.length + (k + 1)) % 3 = 0 := by
      simp only [List.length_append, List.length_singleton]; omega
    by_cases hM : M = []
    · subst hM
      by_cases h3 : (k + 1) % 3 = 0 <;> simp [groupFrom, commaAfter, h3, Nat.add_comm 1 k]
    · rw [List.cons_append, groupFrom, groupFrom, ih]
      simp only [hM, hc, ne_eq, List.append_eq_nil, List.cons_ne_nil, and_false,
        not_false_eq_true, true_and, commaAfter, and_true]
      split_ifs <;> simp

/-- Read backwards, the loop's output is the numeral grouped in threes from the right. -/
theorem emitDigits_reverse (comma : Bool) (D : List Nat) (k : Nat) :
    (emitDigits comma D k).reverse =
      if comma then groupFrom k (D.map digitChar).reverse else (D.map digitChar).reverse := by
  induction D generalizing k with
  | nil => simp [emitDigits, groupFrom]
  | cons d D ih =>
    cases comma
    · simp [emitDigits, ih, commaAfter]
    · simp [emitDigits, ih, groupFrom_append_singleton]

/-! ## Sizes -/

/-- One comma per full group of three, short of the leading group. -/
theorem emitDigits_length (comma : Bool) (D : List Nat) (k : Nat) (hD : D ≠ []) :
    (emitDigits comma D k).length =
      D.length + (if comma then (D.length - 1 + k % 3) / 3 else 0) := by
  induction D generalizing k with
  | nil => exact absurd rfl hD
  | cons d D ih =>
    by_cases hD' : D = []
    · subst hD'; cases comma <;> simp [emitDigits]
    · rw [emitDigits, List.length_cons, List.length_append, ih (k + 1) hD']
      have := List.length_pos.2 hD'
      cases comma <;> simp [commaAfter, hD']
      split_ifs <;> simp <;> omega

/-- A magnitude up to `2^63` has at most 19 digits. -/
theorem loopDigits_length_le (n : Nat) (hn : n ≤ 2 ^ 63) : (loopDigits n).length ≤ 19 := by
  unfold loopDigits
  split_ifs with h0
  · simp
  · have h := Nat.base_pow_length_digits_le 10 n (by norm_num) h0
    have : 10 ^ (Nat.digits 10 n).length < 10 ^ 20 := by
      calc _ ≤ 10 * n := h
        _ ≤ 10 * 2 ^ 63 := by omega
        _ < 10 ^ 20 := by norm_num
    exact Nat.lt_succ_iff.mp ((Nat.pow_lt_pow_iff_right (by norm_num)).mp this)

/-- So at most 25 characters reach `TempBuffer`. -/
theorem emitDigits_le (comma : Bool) (n : Nat) (hn : n ≤ 2 ^ 63) :
    (emitDigits comma (loopDigits n) 0).length ≤ 25 := by
  have h := loopDigits_length_le n hn
  rw [emitDigits_length _ _ _ (loopDigits_ne_nil n)]
  split_ifs <;> omega

/-! ## Sign and magnitude -/

theorem slt_zero_iff (value : BitVec 64) : value.slt 0 = true ↔ value.toInt < 0 := by
  simp [BitVec.slt]

/-- `(UINT64)` of the negated `Value` is `|Value|`, also at `-2^63`, where the negation
    wraps back to `-2^63`. -/
theorem toNat_abs (value : BitVec 64) :
    (if value.slt 0 then -value else value).toNat = value.toInt.natAbs := by
  have hlt := value.isLt
  by_cases h : value.slt 0 = true
  · have h' := (slt_zero_iff value).1 h
    rw [BitVec.toInt_eq_toNat_cond] at h' ⊢
    simp only [h, if_true, BitVec.toNat_neg]
    split_ifs at h' ⊢ <;> omega
  · have h' := mt (slt_zero_iff value).2 h
    rw [BitVec.toInt_eq_toNat_cond] at h' ⊢
    simp only [h, Bool.false_eq_true, if_false]
    split_ifs at h' ⊢ <;> omega

theorem natAbs_toInt_le (value : BitVec 64) : value.toInt.natAbs ≤ 2 ^ 63 := by
  have hlt := value.isLt
  rw [BitVec.toInt_eq_toNat_cond]
  split_ifs <;> omega

/-! ## Reading the numeral back -/

theorem digitChar_toNat (d : Nat) (hd : d < 10) : (digitChar d).toNat = d + 48 := by
  simp [digitChar, UInt16.toNat, UInt16.ofNat, Fin.ofNat]
  omega

/-- A digit is neither a comma nor a minus sign. -/
theorem digitChar_ne (d : Nat) (hd : d < 10) (c : Char) (hc : c.toNat < 48) :
    digitChar d ≠ toChar16 c := by
  intro h
  have := congrArg UInt16.toNat h
  rw [digitChar_toNat d hd] at this
  simp [toChar16, UInt16.toNat, UInt16.ofNat, Fin.ofNat] at this
  omega

theorem loopDigits_lt_ten (n : Nat) : ∀ d ∈ loopDigits n, d < 10 := by
  unfold loopDigits
  split_ifs
  · simp
  · exact fun d hd => Nat.digits_lt_base (by norm_num) hd

theorem ofDigits_loopDigits (n : Nat) : Nat.ofDigits 10 (loopDigits n) = n := by
  unfold loopDigits
  split_ifs with h
  · simp [h]
  · exact Nat.ofDigits_digits 10 n

/-- The decimal numeral is the loop's digits, reversed. -/
theorem decimalDigits_eq (n : Nat) : decimalDigits n = ((loopDigits n).map digitChar).reverse := by
  unfold decimalDigits loopDigits
  split_ifs <;> rfl

theorem mem_decimalDigits {n : Nat} {c : Char16} (hc : c ∈ decimalDigits n) :
    ∃ d < 10, c = digitChar d := by
  rw [decimalDigits_eq, List.mem_reverse, List.mem_map] at hc
  obtain ⟨d, hd, rfl⟩ := hc
  exact ⟨d, loopDigits_lt_ten n d hd, rfl⟩

/-- Reading a digit string gives the number its digits spell. -/
theorem readDecimal_digits (L : List Nat) (hL : ∀ d ∈ L, d < 10) :
    readDecimal (L.map digitChar).reverse = Nat.ofDigits 10 L := by
  induction L with
  | nil => rfl
  | cons d L ih =>
    have hd := digitChar_toNat d (hL d (List.mem_cons_self _ _))
    simp only [readDecimal] at ih ⊢
    rw [List.map_cons, List.reverse_cons, List.foldl_append, ih (fun e he => hL e (List.mem_cons_of_mem _ he))]
    simp [Nat.ofDigits_cons, hd]
    omega

/-- Dropping the commas undoes the grouping. -/
theorem filter_groupFrom (k : Nat) (M : List Char16) :
    (groupFrom k M).filter (· != toChar16 ',') = M.filter (· != toChar16 ',') := by
  induction M with
  | nil => rfl
  | cons d ds ih =>
    unfold groupFrom
    split_ifs <;> simp [List.filter_cons, ih]

/-! ## Main results -/

/-- The rendering is the loop's output reversed behind the sign. -/
theorem renderValue_eq (comma : Bool) (value : BitVec 64) :
    renderValue comma value = (if value.slt 0 then [toChar16 '-'] else []) ++
      (emitDigits comma (loopDigits (if value.slt 0 then -value else value).toNat) 0).reverse := by
  rw [emitDigits_reverse, renderValue, decimalDigits_eq, toNat_abs, groupThousands_eq_groupFrom]
  by_cases h : value.slt 0 = true <;> simp only [h, ← slt_zero_iff]

theorem valueToString_eq (flags : UInt8) (value : BitVec 64) :
    valueToString commaType flags value =
      some (renderValue (flags &&& commaType == commaType) value ++ [0],
        (renderValue (flags &&& commaType == commaType) value).length) := by
  have hA := toNat_abs value
  have hD := loopDigits_length_le _ (hA ▸ natAbs_toInt_le value)
  have hE := emitDigits_le (flags &&& commaType == commaType) _ (hA ▸ natAbs_toInt_le value)
  dsimp only [valueToString]
  rw [digitLoop_spec _ _ _ _ _ _ _ (by omega) (by simpa using hE.trans (by norm_num)),
    renderValue_eq]
  simp only [Option.bind_eq_bind, Option.some_bind, List.nil_append, zero_add, pure,
    reverseTemp_eq _ _ le_rfl, List.take_length]
  by_cases h : value.slt 0 = true <;> simp only [h, if_true, if_false, Bool.false_eq_true] <;> simp

/-- Without its commas the rendering reads back as `Value`. -/
theorem readSigned_renderValue (comma : Bool) (value : BitVec 64) :
    readSigned ((renderValue comma value).filter (· != toChar16 ',')) = value.toInt := by
  set n := value.toInt.natAbs
  have hplain : (decimalDigits n).filter (· != toChar16 ',') = decimalDigits n :=
    List.filter_eq_self.2 fun c hc => by
      obtain ⟨d, hd, rfl⟩ := mem_decimalDigits hc
      simpa using digitChar_ne d hd ',' (by decide)
  have hread : readDecimal (decimalDigits n) = n := by
    rw [decimalDigits_eq, readDecimal_digits _ (loopDigits_lt_ten n), ofDigits_loopDigits]
  have hbody : (if comma then groupThousands (decimalDigits n) else decimalDigits n).filter
      (· != toChar16 ',') = decimalDigits n := by
    split_ifs
    · rw [groupThousands_eq_groupFrom, filter_groupFrom, hplain]
    · exact hplain
  rw [renderValue, List.filter_append, hbody]
  split_ifs with hneg
  · simp only [List.filter_cons, List.filter_nil, show (toChar16 '-' != toChar16 ',') = true by decide,
      if_true, List.singleton_append, readSigned, hread]
    omega
  · obtain ⟨c, rest, hcr⟩ : ∃ c rest, decimalDigits n = c :: rest := by
      rw [decimalDigits_eq]
      exact List.exists_cons_of_ne_nil (by simpa using loopDigits_ne_nil n)
    obtain ⟨d, hd, hcd⟩ := mem_decimalDigits (hcr ▸ List.mem_cons_self c rest)
    rw [List.filter_nil, List.nil_append, hcr, readSigned,
      if_neg (hcd ▸ digitChar_ne d hd '-' (by decide)), ← hcr, hread]
    omega

/-- **`ValueToString` renders `Value`**: for every `Value` and `Flags`, `Buffer` receives the
    sign, the digits of `|Value|` (grouped in threes under `COMMA_TYPE`) and a NUL, `Count` is
    their number, and the rendering without its commas reads back as `Value`. -/
theorem valueToString_renders (flags : UInt8) (value : BitVec 64) :
    valueToString commaType flags value =
      some (renderValue (flags &&& commaType == commaType) value ++ [0],
        (renderValue (flags &&& commaType == commaType) value).length) ∧
    readSigned ((renderValue (flags &&& commaType == commaType) value).filter
      (· != toChar16 ',')) = value.toInt :=
  ⟨valueToString_eq commaType flags value, readSigned_renderValue _ value⟩

/-- `-2^63` with commas: the wrapped negation still prints all 19 digits. -/
example : valueToString 8 8 (BitVec.ofInt 64 (-9223372036854775808)) =
    some ([45, 57, 44, 50, 50, 51, 44, 51, 55, 50, 44, 48, 51, 54, 44, 56, 53, 52, 44, 55, 55,
      53, 44, 56, 48, 56, 0], 26) := by
  decide

/-- **`ValueToString` stays in bounds**: each pass strictly lowers `(UINT64) Value`; the
    loop stops within its passes with at most 19 digits and 6 commas in `TempBuffer`, so no
    store leaves `TempBuffer[30]`; at most 27 characters reach `Buffer`, and `Count ≤ 26`. -/
theorem valueToString_in_bounds (flags : UInt8) (value : BitVec 64) :
    (∀ s s' : DigitLoop, s.value ≠ 0 → digitStep commaType flags s = some s' →
      s'.value.toNat < s.value.toNat) ∧
    (∃ s : DigitLoop,
      digitLoop commaType flags 64 ⟨if value.slt 0 then -value else value, [], 0, 0⟩ = some s ∧
      s.tempBuffer.length = s.count ∧ s.numberCount ≤ 19 ∧ s.count ≤ s.numberCount + 6) ∧
    ∃ buffer count, valueToString commaType flags value = some (buffer, count) ∧
      buffer.length ≤ 27 ∧ count ≤ 26 := by
  refine ⟨fun s s' h0 h => ?_, ?_, _, _, valueToString_eq commaType flags value, ?_⟩
  · rw [digitStep_value commaType flags h, toNat_ofNat_div_ten]
    exact Nat.div_lt_self (Nat.pos_of_ne_zero (by simpa [BitVec.toNat_eq] using h0)) (by norm_num)
  all_goals
    have hA := toNat_abs value
    have hD := loopDigits_length_le _ (hA ▸ natAbs_toInt_le value)
    have hE := emitDigits_le (flags &&& commaType == commaType) _ (hA ▸ natAbs_toInt_le value)
    have hlen := emitDigits_length (flags &&& commaType == commaType) _ 0 (loopDigits_ne_nil
      (if value.slt 0 then -value else value).toNat)
  · refine ⟨_, digitLoop_spec _ _ _ _ _ _ _ (by omega) (by simpa using hE.trans (by norm_num)), ?_⟩
    simp only [List.nil_append, zero_add, true_and]
    generalize loopDigits (if value.slt 0 then -value else value).toNat = D at hD hE hlen ⊢
    refine ⟨hD, ?_⟩
    split_ifs at hlen <;> omega
  · rw [renderValue_eq]
    generalize loopDigits (if value.slt 0 then -value else value).toNat = D at hD hE hlen ⊢
    split_ifs <;> simp <;> omega

end Print
