import Mathlib.Data.List.Basic
import MdeModulePkg.Base

/-! # `PrintInternal` — splitting formatted text at width switches

    `PrintInternal` of the setup browser's `Print.c` prints the text `UnicodeVSPrint` left
    in `Buffer`, switching the console between narrow and wide glyphs at every `NARROW_CHAR`
    and `WIDE_CHAR`.  Its `do`-`while` loop copies each run of ordinary characters into
    `BackupBuffer`, NUL-terminates it there in place of the control character, hands
    `&BackupBuffer[PreviousIndex]` to `OutputString`, and sets the attribute the control
    character selects; the run after the last control character is printed after the loop,
    NUL-terminated by the zero pool `BackupBuffer` came from.

    The model keeps both loops and both buffers.  Every read of `Buffer` and every store
    into `BackupBuffer` is checked against the buffer's length, `OutputString` reads its
    string up to a NUL and fails at the end of `BackupBuffer`, and the loops run on fuel
    (`Buffer`'s length, plus one): an answer `some _` is the proof that the run stops and
    touches no cell past the buffers.  The result is the list of calls made on `Out` and the
    final `Out->Mode->Attribute`.

    * `printInternal_output`: for every buffer with a NUL, the calls are the attribute with
      bits 0-6 kept, then the run before the first control character, then, for each control
      character, the attribute it selects and the run after it;
    * `printInternal_within_nul`: cut the buffers to the cells up to any NUL and the run is
      the same: it reads and writes nothing past that NUL. -/

namespace Print

open Base

/-- `EFI_WIDE_ATTRIBUTE`: bit 7 of the attribute, as the source's comment `Must be wide,
    set bit 7 ON` has it. -/
def efiWideAttribute : UInt32 := 0x80

-- `NARROW_CHAR` and `WIDE_CHAR` are defined by a header outside the source: every result
-- below holds for any two values of them.
variable (narrowChar wideChar : Char16)

/-! ## The model -/

/-- A call `PrintInternal` makes on `Out`, the console's `EFI_SIMPLE_TEXT_OUTPUT_PROTOCOL`. -/
inductive ConOutCall
  | setCursorPosition (column row : UInt64)
  | setAttribute (attr : UInt32)
  | outputString (string : List Char16)
  deriving DecidableEq, Repr

/-- The locals the `do`-`while` loop updates, `Out->Mode->Attribute`, and the calls made on
    `Out` so far. -/
structure PrintLoop where
  index : Nat
  previousIndex : Nat
  attr : UInt32
  backupBuffer : List Char16
  calls : List ConOutCall
  deriving DecidableEq, Repr

/-- `buf[i] = c`: a store into an allocated buffer; `none` past its end. -/
def storeAt (buf : List Char16) (i : Nat) (c : Char16) : Option (List Char16) :=
  if i < buf.length then some (buf.set i c) else none

/-- The characters up to the first NUL; `none` if there is none. -/
def cString : List Char16 → Option (List Char16)
  | [] => none
  | c :: cs => if c = 0 then some [] else (c :: ·) <$> cString cs

/-- The string at `&buf[i]`, as `OutputString` reads it. -/
def stringAt (buf : List Char16) (i : Nat) : Option (List Char16) :=
  cString (buf.drop i)

/-- The inner `for`: copy `Buffer[Index]` to `BackupBuffer[Index]` until a control character
    or a NUL, for at most `fuel` characters. -/
def copyRun (buffer : List Char16) : Nat → PrintLoop → Option PrintLoop
  | 0, _ => none
  | fuel + 1, s => do
    let c ← buffer[s.index]?
    if c ≠ narrowChar ∧ c ≠ wideChar ∧ c ≠ 0 then
      let backupBuffer ← storeAt s.backupBuffer s.index c
      copyRun buffer fuel { s with backupBuffer, index := s.index + 1 }
    else pure s

/-- The `do`-`while` loop, for at most `fuel` passes: copy a run; at a NUL, `break`; at a
    control character, NUL-terminate the run, print it, and switch the attribute. -/
def printLoop (buffer : List Char16) : Nat → PrintLoop → Option PrintLoop
  | 0, _ => none
  | fuel + 1, s => do
    let s ← copyRun narrowChar wideChar buffer (buffer.length + 1) s
    let c ← buffer[s.index]?
    if c = 0 then pure s
    else do
      let backupBuffer ← storeAt s.backupBuffer s.index 0
      let string ← stringAt backupBuffer s.previousIndex
      let attr :=
        if c = narrowChar then s.attr &&& 0x7f else s.attr ||| efiWideAttribute
      let s : PrintLoop := ⟨s.index + 1, s.index + 1, attr, backupBuffer,
        s.calls ++ [.outputString string, .setAttribute attr]⟩
      let c ← buffer[s.index]?
      if c ≠ 0 then printLoop buffer fuel s else pure s

/-- `PrintInternal (Column, Row, Out, fmt, args)` once `UnicodeVSPrint` has filled `Buffer`,
    with `attr` the console's attribute on entry: the calls made on `Out`, in order,
    and the final `Out->Mode->Attribute`.  `BackupBuffer` comes zeroed from
    `AllocateZeroPool`, the same size as `Buffer`. -/
def printInternal (column row : UInt64) (buffer : List Char16) (attr : UInt32) :
    Option (List ConOutCall × UInt32) := do
  let cursor := if column ≠ 0xFFFFFFFFFFFFFFFF then [ConOutCall.setCursorPosition column row]
    else []
  let attr := attr &&& 0x7f
  let s ← printLoop narrowChar wideChar buffer (buffer.length + 1)
    ⟨0, 0, attr, List.replicate buffer.length 0, cursor ++ [.setAttribute attr]⟩
  let string ← stringAt s.backupBuffer s.previousIndex
  pure (s.calls ++ [.outputString string], s.attr)

/-! ## The output, stated directly -/

/-- Whether `c` is `NARROW_CHAR` or `WIDE_CHAR`. -/
def isControl (c : Char16) : Bool := c == narrowChar || c == wideChar

/-- Text cut at its control characters: the run before the first, then each control
    character with the run after it. -/
def splitRuns : List Char16 → List Char16 × List (Char16 × List Char16)
  | [] => ([], [])
  | c :: t =>
    let p := splitRuns t
    if isControl narrowChar wideChar c then ([], (c, p.1) :: p.2) else (c :: p.1, p.2)

/-- The attribute a control character selects, from the attribute `a` on entry. -/
def attributeFor (a : UInt32) (c : Char16) : UInt32 :=
  if c = narrowChar then a &&& 0x7f else (a &&& 0x7f) ||| efiWideAttribute

/-- The calls text `t` stands for: the entry attribute with bits 0-6 kept, the first run,
    then for each control character the attribute it selects and the run after it. -/
def expectedCalls (a : UInt32) (t : List Char16) : List ConOutCall :=
  .setAttribute (a &&& 0x7f) :: .outputString (splitRuns narrowChar wideChar t).1 ::
    (splitRuns narrowChar wideChar t).2.flatMap fun p =>
      [.setAttribute (attributeFor narrowChar a p.1), .outputString p.2]

/-- The attribute left when text `t` has been printed. -/
def finalAttribute (a : UInt32) (t : List Char16) : UInt32 :=
  (splitRuns narrowChar wideChar t).2.foldl (fun _ p => attributeFor narrowChar a p.1)
    (a &&& 0x7f)

/-- The strings passed to `OutputString`, in order. -/
def outputStrings : List ConOutCall → List (List Char16)
  | [] => []
  | .outputString s :: cs => s :: outputStrings cs
  | _ :: cs => outputStrings cs

/-! ## The attribute keeps bits 0-6 -/

/-- Bits 0-6 of an attribute are below 128. -/
theorem toNat_and_7f_lt (a : UInt32) : (a &&& 0x7f).toNat < 128 := by
  show (a.toBitVec &&& (0x7f : UInt32).toBitVec).toNat < 128
  rw [BitVec.toNat_and]
  exact Nat.lt_of_le_of_lt Nat.and_le_right (by decide)

/-- A fact about every 7-bit attribute, from the 128 cases. -/
theorem low7_cases {P : UInt32 → Prop} (h : ∀ k : Fin 128, P (UInt32.ofNat k)) (y : UInt32)
    (hy : y.toNat < 128) : P y := by
  have := h ⟨y.toNat, hy⟩
  rwa [show UInt32.ofNat y.toNat = y from
    UInt32.toNat.inj (UInt32.toNat_ofNat_of_lt (lt_of_lt_of_le hy (by decide)))] at this

/-- The attributes the loop can hold: `a` with bits 0-6 kept, with or without bit 7. -/
def AttrOk (a x : UInt32) : Prop := x = a &&& 0x7f ∨ x = (a &&& 0x7f) ||| efiWideAttribute

/-- The attribute set before the loop is one of them. -/
theorem attrOk_start (a : UInt32) : AttrOk a (a &&& 0x7f) := .inl rfl

/-- So is every attribute a control character selects. -/
theorem attributeFor_ok (a : UInt32) (c : Char16) : AttrOk a (attributeFor narrowChar a c) := by
  unfold attributeFor; split_ifs
  · exact .inl rfl
  · exact .inr rfl

/-- From any attribute the loop holds, a control character selects `attributeFor`. -/
theorem next_attr {a x : UInt32} (hx : AttrOk a x) (c : Char16) :
    (if c = narrowChar then x &&& 0x7f else x ||| efiWideAttribute) =
      attributeFor narrowChar a c := by
  have h7 := toNat_and_7f_lt a
  unfold attributeFor
  rcases hx with rfl | rfl <;> split_ifs
  · exact low7_cases (P := fun y => y &&& 0x7f = y) (by decide) _ h7
  · rfl
  · exact low7_cases (P := fun y => (y ||| efiWideAttribute) &&& 0x7f = y) (by decide) _ h7
  · exact low7_cases (P := fun y => y ||| efiWideAttribute ||| efiWideAttribute =
      y ||| efiWideAttribute) (by decide) _ h7

/-- A control character never changes bits 0-6. -/
theorem attributeFor_and_7f (a : UInt32) (c : Char16) :
    attributeFor narrowChar a c &&& 0x7f = a &&& 0x7f := by
  have h7 := toNat_and_7f_lt a
  unfold attributeFor; split_ifs
  · exact low7_cases (P := fun y => y &&& 0x7f = y) (by decide) _ h7
  · exact low7_cases (P := fun y => (y ||| efiWideAttribute) &&& 0x7f = y) (by decide) _ h7

/-! ## Memory -/

/-- A store at the first zero past the prefix `pre` replaces that zero. -/
theorem storeAt_zeros (pre : List Char16) (m : Nat) (x : Char16) :
    storeAt (pre ++ List.replicate (m + 1) 0) pre.length x =
      some (pre ++ x :: List.replicate m 0) := by
  rw [storeAt, if_pos (by simp), List.set_append_right _ _ le_rfl]
  simp [List.replicate_succ]

/-- `OutputString` reads a run of non-NUL characters up to the NUL after it. -/
theorem cString_run {r : List Char16} (hr : ∀ x ∈ r, x ≠ 0) (l : List Char16) :
    cString (r ++ 0 :: l) = some r := by
  induction r with
  | nil => simp [cString]
  | cons x r ih =>
    rw [List.cons_append, cString, if_neg (hr x (List.mem_cons_self _ _)),
      ih fun y hy => hr y (List.mem_cons_of_mem _ hy)]
    rfl

/-- The same, read at `&buf[pre.length]`. -/
theorem stringAt_run (pre : List Char16) {r : List Char16} (hr : ∀ x ∈ r, x ≠ 0)
    (l : List Char16) :
    stringAt (pre ++ (r ++ 0 :: l)) pre.length = some r := by
  rw [stringAt, List.drop_left' rfl, cString_run hr]

/-- A read of `Buffer` past a known suffix. -/
theorem getElem?_of_drop {buffer l : List Char16} {p : Nat} (h : buffer.drop p = l) (j : Nat) :
    buffer[p + j]? = l[j]? := by
  rw [← h, List.getElem?_drop]

/-- **The inner `for`**: over a run `r` of ordinary characters it copies `r` into the zeroed
    tail of `BackupBuffer` and stops on the control character or NUL after it. -/
theorem copyRun_spec (buffer : List Char16) (c : Char16) (tail : List Char16)
    (hc : ¬(c ≠ narrowChar ∧ c ≠ wideChar ∧ c ≠ 0)) :
    ∀ (r pre : List Char16) (m fuel : Nat) (s : PrintLoop),
    (∀ x ∈ r, x ≠ narrowChar ∧ x ≠ wideChar ∧ x ≠ 0) →
    buffer.drop pre.length = r ++ c :: tail → s.index = pre.length →
    s.backupBuffer = pre ++ List.replicate m 0 → r.length ≤ m → r.length < fuel →
    copyRun narrowChar wideChar buffer fuel s =
      some { s with index := pre.length + r.length,
                    backupBuffer := pre ++ r ++ List.replicate (m - r.length) 0 } := by
  intro r
  induction r with
  | nil =>
    intro pre m fuel s _ hb hi hbb _ hf
    obtain ⟨f, rfl⟩ : ∃ f, fuel = f + 1 := ⟨fuel - 1, by simp at hf; omega⟩
    have hget := getElem?_of_drop hb 0
    simp only [Nat.add_zero, List.nil_append, List.getElem?_cons_zero] at hget
    cases s
    simp only at hi hbb
    subst hi hbb
    simp [copyRun, hget, hc]
  | cons x r ih =>
    intro pre m fuel s hr hb hi hbb hm hf
    obtain ⟨f, rfl⟩ : ∃ f, fuel = f + 1 := ⟨fuel - 1, by simp at hf; omega⟩
    obtain ⟨m, rfl⟩ : ∃ m', m = m' + 1 := ⟨m - 1, by simp at hm; omega⟩
    have hget := getElem?_of_drop hb 0
    simp only [Nat.add_zero, List.cons_append, List.getElem?_cons_zero] at hget
    have hx := hr x (List.mem_cons_self _ _)
    rw [copyRun, hi, hget]
    simp only [Option.bind_eq_bind, Option.some_bind, hx, ne_eq, not_false_eq_true, and_self,
      if_true, hbb, storeAt_zeros]
    have hb' : buffer.drop (pre ++ [x]).length = r ++ c :: tail := by
      rw [List.length_append, List.length_singleton, ← List.drop_drop, hb]; rfl
    rw [ih (pre ++ [x]) m f _ (fun y hy => hr y (List.mem_cons_of_mem _ hy)) hb' (by simp)
      (by simp) (by rw [List.length_cons] at hm; omega) (by rw [List.length_cons] at hf; omega)]
    simp only [List.length_append, List.length_singleton, List.length_cons, List.length_nil,
      List.append_assoc, List.singleton_append, List.cons_append, List.nil_append,
      Nat.add_sub_add_right]
    congr 2
    omega

/-! ## Splitting at control characters -/

/-- `splitRuns` on a leading character. -/
theorem splitRuns_cons (c : Char16) (t : List Char16) :
    splitRuns narrowChar wideChar (c :: t) =
      if isControl narrowChar wideChar c then
        ([], (c, (splitRuns narrowChar wideChar t).1) :: (splitRuns narrowChar wideChar t).2)
      else (c :: (splitRuns narrowChar wideChar t).1, (splitRuns narrowChar wideChar t).2) := rfl

/-- Text with no control character is one run. -/
theorem eq_of_splitRuns_nil {u r : List Char16}
    (h : splitRuns narrowChar wideChar u = (r, [])) :
    u = r ∧ ∀ x ∈ r, isControl narrowChar wideChar x = false := by
  induction u generalizing r with
  | nil => simp_all [splitRuns]
  | cons c t ih =>
    rcases hp : splitRuns narrowChar wideChar t with ⟨r0, rs0⟩
    rw [splitRuns_cons, hp] at h
    split_ifs at h with hc
    · simp at h
    · simp only [Prod.mk.injEq] at h
      obtain ⟨rfl, rfl⟩ := h
      obtain ⟨rfl, hr⟩ := ih hp
      exact ⟨rfl, by simpa [hc] using hr⟩

/-- Text with a control character is its first run, the control character, and the rest. -/
theorem eq_of_splitRuns_cons {u r r' : List Char16} {c : Char16} {rs : List (Char16 × List Char16)}
    (h : splitRuns narrowChar wideChar u = (r, (c, r') :: rs)) :
    ∃ u', u = r ++ c :: u' ∧ isControl narrowChar wideChar c = true ∧
      (∀ x ∈ r, isControl narrowChar wideChar x = false) ∧
      splitRuns narrowChar wideChar u' = (r', rs) := by
  induction u generalizing r with
  | nil => simp [splitRuns] at h
  | cons d t ih =>
    rcases hp : splitRuns narrowChar wideChar t with ⟨r0, rs0⟩
    rw [splitRuns_cons, hp] at h
    split_ifs at h with hd
    · simp only [Prod.mk.injEq, List.cons.injEq] at h
      obtain ⟨rfl, ⟨rfl, rfl⟩, rfl⟩ := h
      exact ⟨t, rfl, hd, by simp, hp⟩
    · simp only [Prod.mk.injEq] at h
      obtain ⟨rfl, rfl⟩ := h
      obtain ⟨u', rfl, hc, hr, hs⟩ := ih hp
      exact ⟨u', rfl, hc, by simpa [hd] using hr, hs⟩

/-- The calls the `do`-`while` loop makes for the runs `r`, `rs`: each run but the last,
    followed by the attribute of the control character after it. -/
def loopCalls (a : UInt32) : List Char16 → List (Char16 × List Char16) → List ConOutCall
  | _, [] => []
  | r, (c, r') :: rs =>
    .outputString r :: .setAttribute (attributeFor narrowChar a c) :: loopCalls a r' rs

/-- The last run, printed after the loop. -/
def lastRun : List Char16 → List (Char16 × List Char16) → List Char16
  | r, [] => r
  | _, (_, r') :: rs => lastRun r' rs

/-- The calls of `expectedCalls` after the first attribute: the loop's calls, then the
    last run. -/
theorem loopCalls_lastRun (a : UInt32) (rs : List (Char16 × List Char16)) :
    ∀ r : List Char16, .outputString r :: rs.flatMap (fun p =>
      [.setAttribute (attributeFor narrowChar a p.1), .outputString p.2]) =
      loopCalls narrowChar a r rs ++ [.outputString (lastRun r rs)] := by
  induction rs with
  | nil => intro r; rfl
  | cons p rs ih => intro r; simp [loopCalls, lastRun, ih]

/-- A string that starts at a NUL is empty. -/
theorem stringAt_nul (pre l : List Char16) : stringAt (pre ++ 0 :: l) pre.length = some [] := by
  simp [stringAt, cString]

/-- Dropping past a known prefix of a suffix. -/
theorem drop_add_of_drop {buffer l₁ l₂ : List Char16} {p : Nat}
    (hb : buffer.drop p = l₁ ++ l₂) :
    buffer.drop (p + l₁.length) = l₂ := by
  rw [← List.drop_drop, hb, List.drop_left' rfl]

/-- A text followed by a NUL is shorter than what is left of the buffer. -/
theorem length_lt_of_drop {buffer u tail : List Char16} {p m : Nat}
    (hb : buffer.drop p = u ++ 0 :: tail) (hlen : buffer.length = p + m) : u.length < m := by
  have := congrArg List.length hb
  simp only [List.length_drop, List.length_append, List.length_cons] at this
  omega

/-- An ordinary character is neither control character. -/
theorem isControl_eq_false {c : Char16} :
    isControl narrowChar wideChar c = false ↔ c ≠ narrowChar ∧ c ≠ wideChar := by
  simp [isControl]

/-- A nonempty zeroed tail starts with a zero. -/
theorem replicate_pos {m : Nat} (h : 0 < m) :
    List.replicate m (0 : Char16) = 0 :: List.replicate (m - 1) 0 := by
  obtain ⟨k, rfl⟩ : ∃ k, m = k + 1 := ⟨m - 1, by omega⟩
  rfl

/-- **The `do`-`while` loop** on text `u` up to its NUL, from a `BackupBuffer` zeroed past
    `Index`: one pass per control character, each printing the run before it and setting
    the attribute it selects; the last run is left NUL-terminated at `PreviousIndex`. -/
theorem printLoop_spec (buffer : List Char16) (a : UInt32) (rs : List (Char16 × List Char16)) :
    ∀ (u r pre tail : List Char16) (m fuel : Nat) (s : PrintLoop),
    splitRuns narrowChar wideChar u = (r, rs) → (∀ x ∈ u, x ≠ 0) →
    buffer.drop pre.length = u ++ 0 :: tail → buffer.length = pre.length + m →
    s.index = pre.length → s.previousIndex = pre.length →
    s.backupBuffer = pre ++ List.replicate m 0 → AttrOk a s.attr → rs.length < fuel →
    ∃ s', printLoop narrowChar wideChar buffer fuel s = some s' ∧
      s'.calls = s.calls ++ loopCalls narrowChar a r rs ∧
      s'.attr = rs.foldl (fun _ p => attributeFor narrowChar a p.1) s.attr ∧
      stringAt s'.backupBuffer s'.previousIndex = some (lastRun r rs) := by
  induction rs with
  | nil =>
    intro u r pre tail m fuel s hs hu hb hlen hi hp hbb _ hf
    obtain ⟨f, rfl⟩ : ∃ f, fuel = f + 1 := ⟨fuel - 1, by omega⟩
    obtain ⟨rfl, hr⟩ := eq_of_splitRuns_nil narrowChar wideChar hs
    have hm := length_lt_of_drop hb hlen
    have hcopy := copyRun_spec narrowChar wideChar buffer 0 tail (by simp) u pre m
      (buffer.length + 1) s
      (fun x hx => ⟨(isControl_eq_false narrowChar wideChar).1 (hr x hx) |>.1,
        (isControl_eq_false narrowChar wideChar).1 (hr x hx) |>.2, hu x hx⟩) hb hi hbb (by omega)
      (by omega)
    refine ⟨⟨pre.length + u.length, s.previousIndex, s.attr,
      pre ++ u ++ List.replicate (m - u.length) 0, s.calls⟩, ?_, by simp [loopCalls], rfl, ?_⟩
    · have h0 := getElem?_of_drop hb u.length
      simp only [List.getElem?_append_right le_rfl, Nat.sub_self, List.getElem?_cons_zero] at h0
      simp [printLoop, hcopy, h0]
    · rw [hp, List.append_assoc, replicate_pos (by omega)]
      exact stringAt_run pre hu _
  | cons p rs ih =>
    obtain ⟨c, r'⟩ := p
    intro u r pre tail m fuel s hs hu hb hlen hi hp hbb ha hf
    obtain ⟨f, rfl⟩ : ∃ f, fuel = f + 1 := ⟨fuel - 1, by simp at hf; omega⟩
    obtain ⟨u', rfl, hc, hr, hs'⟩ := eq_of_splitRuns_cons narrowChar wideChar hs
    have hm := length_lt_of_drop hb hlen
    simp only [List.length_append, List.length_cons] at hm
    have hc0 : c ≠ 0 := hu c (by simp)
    have hu' : ∀ x ∈ u', x ≠ 0 := fun x hx => hu x (by simp [hx])
    have hcopy := copyRun_spec narrowChar wideChar buffer c (u' ++ 0 :: tail)
      (by simp [isControl] at hc; tauto) r pre m (buffer.length + 1) s
      (fun x hx => ⟨(isControl_eq_false narrowChar wideChar).1 (hr x hx) |>.1,
        (isControl_eq_false narrowChar wideChar).1 (hr x hx) |>.2, hu x (by simp [hx])⟩)
      (by rw [hb]; simp) hi hbb (by omega) (by omega)
    have hq := getElem?_of_drop hb r.length
    simp only [List.append_assoc, List.getElem?_append_right le_rfl, Nat.sub_self,
      List.cons_append, List.getElem?_cons_zero] at hq
    have hstore : storeAt (pre ++ r ++ List.replicate (m - r.length) 0) (pre.length + r.length) 0 =
        some ((pre ++ r ++ [0]) ++ List.replicate (m - r.length - 1) 0) := by
      rw [show m - r.length = (m - r.length - 1) + 1 by omega, ← List.length_append,
        storeAt_zeros]
      simp
    have hstr : stringAt ((pre ++ r ++ [0]) ++ List.replicate (m - r.length - 1) 0) pre.length =
        some r := by
      rw [List.append_assoc, List.append_assoc]
      exact stringAt_run pre (fun x hx => hu x (by simp [hx])) _
    rw [printLoop, hcopy]
    simp only [Option.bind_eq_bind, Option.some_bind, hq, hc0, if_false, hstore, hp, hstr,
      next_attr narrowChar ha c]
    have hn := getElem?_of_drop hb (r.length + 1)
    rw [← Nat.add_assoc, List.append_assoc, List.getElem?_append_right (by omega),
      Nat.add_sub_cancel_left, List.cons_append, List.getElem?_cons_succ] at hn
    rcases u' with _ | ⟨x, u''⟩
    · simp only [splitRuns, Prod.mk.injEq] at hs'
      obtain ⟨rfl, rfl⟩ := hs'
      simp only [List.nil_append, List.getElem?_cons_zero] at hn
      refine ⟨_, by simp only [hn]; rfl, by simp [loopCalls], rfl, ?_⟩
      rw [replicate_pos (by omega)]
      show stringAt (pre ++ r ++ [0] ++ 0 :: List.replicate _ 0) (pre.length + r.length + 1) =
        some []
      rw [show pre.length + r.length + 1 = (pre ++ r ++ [0]).length by simp [Nat.add_assoc]]
      exact stringAt_nul _ _
    · have hx : x ≠ 0 := hu' x (List.mem_cons_self _ _)
      simp only [List.cons_append, List.getElem?_cons_zero] at hn
      have hb' : buffer.drop (pre ++ r ++ [0]).length = x :: u'' ++ 0 :: tail := by
        have hrc : buffer.drop pre.length = (r ++ [c]) ++ (x :: u'' ++ 0 :: tail) := by
          simpa using hb
        simpa using drop_add_of_drop hrc
      obtain ⟨s', h1, h2, h3, h4⟩ :=
        ih (x :: u'') r' (pre ++ r ++ [0]) tail (m - r.length - 1) f
          ⟨pre.length + r.length + 1, pre.length + r.length + 1, attributeFor narrowChar a c,
            pre ++ r ++ [0] ++ List.replicate (m - r.length - 1) 0,
            s.calls ++ [.outputString r, .setAttribute (attributeFor narrowChar a c)]⟩
          hs' hu' hb'
          (by simp only [List.length_append, List.length_singleton, List.length_cons,
            List.length_nil] at hm ⊢; omega)
          (by simp [Nat.add_assoc]) (by simp [Nat.add_assoc]) rfl
          (attributeFor_ok narrowChar a c) (by simp at hf; omega)
      refine ⟨s', ?_, ?_, h3, h4⟩
      · simpa only [hn, Option.some_bind, ne_eq, hx, not_false_eq_true, if_true] using h1
      · rw [h2]; simp [loopCalls]

/-! ## What the runs add up to -/

/-- One pass per control character. -/
theorem splitRuns_length (t : List Char16) :
    (splitRuns narrowChar wideChar t).2.length = t.countP (isControl narrowChar wideChar) := by
  induction t with
  | nil => rfl
  | cons c t ih => rw [splitRuns_cons, List.countP_cons]; split_ifs <;> simp [ih, *]

/-- The runs together are the text without its control characters. -/
theorem splitRuns_flatten (t : List Char16) :
    (splitRuns narrowChar wideChar t).1 ++
      ((splitRuns narrowChar wideChar t).2.map Prod.snd).flatten =
      t.filter (fun c => !isControl narrowChar wideChar c) := by
  induction t with
  | nil => rfl
  | cons c t ih => rw [splitRuns_cons, List.filter_cons]; split_ifs <;> simp_all

/-- The strings printed are the runs, in order. -/
theorem outputStrings_expectedCalls (a : UInt32) (t : List Char16) :
    outputStrings (expectedCalls narrowChar wideChar a t) =
      (splitRuns narrowChar wideChar t).1 :: (splitRuns narrowChar wideChar t).2.map Prod.snd := by
  unfold expectedCalls
  generalize (splitRuns narrowChar wideChar t).2 = rs
  induction rs with
  | nil => rfl
  | cons p rs ih => simpa [outputStrings] using ih

/-- Every attribute set keeps bits 0-6 of the entry attribute. -/
theorem setAttribute_mem_expectedCalls {a v : UInt32} {t : List Char16}
    (h : .setAttribute v ∈ expectedCalls narrowChar wideChar a t) : v &&& 0x7f = a &&& 0x7f := by
  simp only [expectedCalls, List.mem_cons, ConOutCall.setAttribute.injEq, reduceCtorEq, false_or,
    List.mem_flatMap] at h
  rcases h with rfl | ⟨p, -, rfl | h⟩
  · exact low7_cases (P := fun y => y &&& 0x7f = y) (by decide) _ (toNat_and_7f_lt a)
  · exact attributeFor_and_7f narrowChar a p.1
  · simp at h

/-- A buffer with a NUL is its text, the NUL, and the rest. -/
theorem exists_nul_split : ∀ (buffer : List Char16) (n : Nat), buffer[n]? = some 0 →
    ∃ tail, buffer = buffer.takeWhile (· != 0) ++ 0 :: tail
  | [], n, h => by simp at h
  | c :: cs, n, h => by
    by_cases hc : c = 0
    · exact ⟨cs, by simp [hc]⟩
    · obtain ⟨n, rfl⟩ : ∃ k, n = k + 1 := ⟨n - 1, by
        rcases n with _ | n
        · simp [hc] at h
        · omega⟩
      obtain ⟨tail, ht⟩ := exists_nul_split cs n (by simpa using h)
      exact ⟨tail, by simp [List.takeWhile_cons, hc]; exact ht⟩

/-- `PrintInternal` on a buffer with a NUL makes the calls of its text up to the NUL. -/
theorem printInternal_eq (column row : UInt64) (buffer : List Char16) (n : Nat)
    (hn : buffer[n]? = some 0) (a : UInt32) :
    printInternal narrowChar wideChar column row buffer a =
      some ((if column ≠ 0xFFFFFFFFFFFFFFFF then [.setCursorPosition column row] else []) ++
        expectedCalls narrowChar wideChar a (buffer.takeWhile (· != 0)),
        finalAttribute narrowChar wideChar a (buffer.takeWhile (· != 0))) := by
  obtain ⟨tail, ht⟩ := exists_nul_split buffer n hn
  have hu : ∀ x ∈ buffer.takeWhile (· != 0), x ≠ 0 := fun x hx => by
    simpa using List.mem_takeWhile_imp hx
  have hlen : (buffer.takeWhile (· != 0)).length < buffer.length := by
    conv => rhs; rw [ht]
    simp
  rcases hs : splitRuns narrowChar wideChar (buffer.takeWhile (· != 0)) with ⟨r, rs⟩
  have hrs : rs.length < buffer.length + 1 := by
    have h1 := splitRuns_length narrowChar wideChar (buffer.takeWhile (· != 0))
    have h2 := (buffer.takeWhile (· != 0)).countP_le_length (isControl narrowChar wideChar)
    rw [hs] at h1
    simp only at h1
    omega
  obtain ⟨s', h1, h2, h3, h4⟩ := printLoop_spec narrowChar wideChar buffer a rs _ r [] tail
    buffer.length (buffer.length + 1)
    ⟨0, 0, a &&& 0x7f, List.replicate buffer.length 0,
      (if column ≠ 0xFFFFFFFFFFFFFFFF then [.setCursorPosition column row] else []) ++
        [.setAttribute (a &&& 0x7f)]⟩
    hs hu (by rw [List.length_nil, List.drop_zero]; exact ht) (by simp) rfl rfl (by simp)
    (attrOk_start a) hrs
  simp only [printInternal, h1, Option.bind_eq_bind, Option.some_bind, h4, pure]
  rw [expectedCalls, finalAttribute, hs, h2, h3, loopCalls_lastRun]
  simp

/-- Cutting a buffer after a NUL keeps its text. -/
theorem takeWhile_take_of_nul : ∀ (buffer : List Char16) (n : Nat), buffer[n]? = some 0 →
    (buffer.take (n + 1)).takeWhile (· != 0) = buffer.takeWhile (· != 0)
  | [], _, h => by simp at h
  | c :: cs, n, h => by
    by_cases hc : c = 0
    · simp [hc]
    · rcases n with _ | n
      · simp [hc] at h
      · simp [List.takeWhile_cons, hc, takeWhile_take_of_nul cs n (by simpa using h)]

/-- **The calls of `PrintInternal`**: for every buffer with a NUL and every entry attribute
    `a`, the calls on `Out` are the cursor move (unless `Column` is `-1`) and `expectedCalls`,
    and the attribute left is `finalAttribute`.  So `OutputString` is called once more than
    there are control characters, the strings printed are the text without its control
    characters, and no `SetAttribute` changes bits 0-6. -/
theorem printInternal_output (column row : UInt64) (buffer : List Char16) (n : Nat)
    (hn : buffer[n]? = some 0) (a : UInt32) :
    printInternal narrowChar wideChar column row buffer a =
      some ((if column ≠ 0xFFFFFFFFFFFFFFFF then [.setCursorPosition column row] else []) ++
        expectedCalls narrowChar wideChar a (buffer.takeWhile (· != 0)),
        finalAttribute narrowChar wideChar a (buffer.takeWhile (· != 0))) ∧
    (outputStrings (expectedCalls narrowChar wideChar a (buffer.takeWhile (· != 0)))).length =
      (buffer.takeWhile (· != 0)).countP (isControl narrowChar wideChar) + 1 ∧
    (outputStrings (expectedCalls narrowChar wideChar a (buffer.takeWhile (· != 0)))).flatten =
      (buffer.takeWhile (· != 0)).filter (fun c => !isControl narrowChar wideChar c) ∧
    ∀ v, .setAttribute v ∈ expectedCalls narrowChar wideChar a (buffer.takeWhile (· != 0)) →
      v &&& 0x7f = a &&& 0x7f := by
  refine ⟨printInternal_eq narrowChar wideChar column row buffer n hn a, ?_, ?_,
    fun v hv => setAttribute_mem_expectedCalls narrowChar wideChar hv⟩
  · rw [outputStrings_expectedCalls, List.length_cons, List.length_map, splitRuns_length]
  · rw [outputStrings_expectedCalls, List.flatten_cons, splitRuns_flatten]

/-- A wide switch in the middle of the text, from an attribute with bit 7 set. -/
theorem printInternal_output_wide_switch :
    ([0x41, 0xFFF1, 0x42, 0] : List Char16)[3]? = some 0 ∧
    printInternal 0xFFF0 0xFFF1 0xFFFFFFFFFFFFFFFF 0 [0x41, 0xFFF1, 0x42, 0] 0x8F =
      some ([.setAttribute 0x0F, .outputString [0x41], .setAttribute 0x8F, .outputString [0x42]],
        0x8F) :=
  ⟨rfl, (printInternal_output 0xFFF0 0xFFF1 _ _ _ 3 rfl 0x8F).1.trans (by decide)⟩

/-- **`PrintInternal` stays within the NUL**: for a buffer with a NUL at `n`, the run on the
    buffer and on a `BackupBuffer` cut to their first `n + 1` cells succeeds and is the run on
    the whole buffer: the loops stop, and no read of `Buffer`, store into `BackupBuffer` or
    string handed to `OutputString` goes past index `n`. -/
theorem printInternal_within_nul (column row : UInt64) (buffer : List Char16) (n : Nat)
    (hn : buffer[n]? = some 0) (a : UInt32) :
    (printInternal narrowChar wideChar column row (buffer.take (n + 1)) a).isSome ∧
    printInternal narrowChar wideChar column row (buffer.take (n + 1)) a =
      printInternal narrowChar wideChar column row buffer a := by
  have hn' : (buffer.take (n + 1))[n]? = some 0 := by rw [List.getElem?_take]; simp [hn]
  rw [printInternal_eq narrowChar wideChar column row _ n hn' a,
    printInternal_eq narrowChar wideChar column row _ n hn a, takeWhile_take_of_nul buffer n hn]
  simp

/-- A control character right before the NUL, with text after it. -/
theorem printInternal_within_nul_after_switch :
    ([0x41, 0xFFF1, 0, 0x42] : List Char16)[2]? = some 0 ∧
    (printInternal 0xFFF0 0xFFF1 3 4 (([0x41, 0xFFF1, 0, 0x42] : List Char16).take (2 + 1))
      0x8F).isSome ∧
    printInternal 0xFFF0 0xFFF1 3 4 (([0x41, 0xFFF1, 0, 0x42] : List Char16).take (2 + 1)) 0x8F =
      printInternal 0xFFF0 0xFFF1 3 4 [0x41, 0xFFF1, 0, 0x42] 0x8F :=
  ⟨rfl, printInternal_within_nul 0xFFF0 0xFFF1 3 4 [0x41, 0xFFF1, 0, 0x42] 2 rfl 0x8F⟩

end Print
