import Components.Math.Crc

/-!
# The frame check sequence of `pppos.c`

The table `fcstab` with the macro `PPP_FCS`, and the loop `ppp_get_fcs` that takes the
place of the table when `PPP_FCS_TABLE` is 0. Both are the register of `Math.Crc` for the
polynomial `0x8408`, eight bits at a time. The receiver compares the register over a whole
frame, the two bytes of the sender's check sequence included, with one fixed value.

## Main definitions

* `fcstab`, `pppFcs` — the table, and one byte taken into the check sequence
* `pppGetFcs` — a table entry computed bit by bit
* `fcsOf`, `fcsBytes` — the check sequence of a sequence of bytes, and the two bytes that
  `pppos_output_last` sends for it

## Main results

* `pppFcs_eq_register` — one byte is eight bits of the register
* `fcs_variants_agree` — the table and the loop agree
* `fcsOf_eq_good_iff` — the receiver's test passes exactly for a sequence that ends in its
  own check sequence
* `fcsOf_burst_ne_good`, `fcsOf_odd_ne_good` — errors the test finds
-/

namespace Components.Ppp

/-- FCS lookup table as calculated by `genfcstab`. -/
def fcstab : List UInt16 :=
  [0x0000, 0x1189, 0x2312, 0x329b, 0x4624, 0x57ad, 0x6536, 0x74bf,
   0x8c48, 0x9dc1, 0xaf5a, 0xbed3, 0xca6c, 0xdbe5, 0xe97e, 0xf8f7,
   0x1081, 0x0108, 0x3393, 0x221a, 0x56a5, 0x472c, 0x75b7, 0x643e,
   0x9cc9, 0x8d40, 0xbfdb, 0xae52, 0xdaed, 0xcb64, 0xf9ff, 0xe876,
   0x2102, 0x308b, 0x0210, 0x1399, 0x6726, 0x76af, 0x4434, 0x55bd,
   0xad4a, 0xbcc3, 0x8e58, 0x9fd1, 0xeb6e, 0xfae7, 0xc87c, 0xd9f5,
   0x3183, 0x200a, 0x1291, 0x0318, 0x77a7, 0x662e, 0x54b5, 0x453c,
   0xbdcb, 0xac42, 0x9ed9, 0x8f50, 0xfbef, 0xea66, 0xd8fd, 0xc974,
   0x4204, 0x538d, 0x6116, 0x709f, 0x0420, 0x15a9, 0x2732, 0x36bb,
   0xce4c, 0xdfc5, 0xed5e, 0xfcd7, 0x8868, 0x99e1, 0xab7a, 0xbaf3,
   0x5285, 0x430c, 0x7197, 0x601e, 0x14a1, 0x0528, 0x37b3, 0x263a,
   0xdecd, 0xcf44, 0xfddf, 0xec56, 0x98e9, 0x8960, 0xbbfb, 0xaa72,
   0x6306, 0x728f, 0x4014, 0x519d, 0x2522, 0x34ab, 0x0630, 0x17b9,
   0xef4e, 0xfec7, 0xcc5c, 0xddd5, 0xa96a, 0xb8e3, 0x8a78, 0x9bf1,
   0x7387, 0x620e, 0x5095, 0x411c, 0x35a3, 0x242a, 0x16b1, 0x0738,
   0xffcf, 0xee46, 0xdcdd, 0xcd54, 0xb9eb, 0xa862, 0x9af9, 0x8b70,
   0x8408, 0x9581, 0xa71a, 0xb693, 0xc22c, 0xd3a5, 0xe13e, 0xf0b7,
   0x0840, 0x19c9, 0x2b52, 0x3adb, 0x4e64, 0x5fed, 0x6d76, 0x7cff,
   0x9489, 0x8500, 0xb79b, 0xa612, 0xd2ad, 0xc324, 0xf1bf, 0xe036,
   0x18c1, 0x0948, 0x3bd3, 0x2a5a, 0x5ee5, 0x4f6c, 0x7df7, 0x6c7e,
   0xa50a, 0xb483, 0x8618, 0x9791, 0xe32e, 0xf2a7, 0xc03c, 0xd1b5,
   0x2942, 0x38cb, 0x0a50, 0x1bd9, 0x6f66, 0x7eef, 0x4c74, 0x5dfd,
   0xb58b, 0xa402, 0x9699, 0x8710, 0xf3af, 0xe226, 0xd0bd, 0xc134,
   0x39c3, 0x284a, 0x1ad1, 0x0b58, 0x7fe7, 0x6e6e, 0x5cf5, 0x4d7c,
   0xc60c, 0xd785, 0xe51e, 0xf497, 0x8028, 0x91a1, 0xa33a, 0xb2b3,
   0x4a44, 0x5bcd, 0x6956, 0x78df, 0x0c60, 0x1de9, 0x2f72, 0x3efb,
   0xd68d, 0xc704, 0xf59f, 0xe416, 0x90a9, 0x8120, 0xb3bb, 0xa232,
   0x5ac5, 0x4b4c, 0x79d7, 0x685e, 0x1ce1, 0x0d68, 0x3ff3, 0x2e7a,
   0xe70e, 0xf687, 0xc41c, 0xd595, 0xa12a, 0xb0a3, 0x8238, 0x93b1,
   0x6b46, 0x7acf, 0x4854, 0x59dd, 0x2d62, 0x3ceb, 0x0e70, 0x1ff9,
   0xf78f, 0xe606, 0xd49d, 0xc514, 0xb1ab, 0xa022, 0x92b9, 0x8330,
   0x7bc7, 0x6a4e, 0x58d5, 0x495c, 0x3de3, 0x2c6a, 0x1ef1, 0x0f78]

/-- `PPP_FCS(fcs, c)`. -/
def pppFcs (fcs : UInt16) (c : UInt8) : UInt16 :=
  (fcs >>> 8) ^^^ fcstab.getD ((fcs ^^^ c.toUInt16) &&& 0xff).toNat 0

/-- `PPP_FCS_POLYNOMIAL`. -/
def pppFcsPolynomial : UInt32 := 0x8408

/-- One round of the loop of `ppp_get_fcs`. -/
def pppGetFcsRound (octet : UInt32) : UInt32 :=
  if octet &&& 0x01 ≠ 0 then (octet >>> 1) ^^^ pppFcsPolynomial else octet >>> 1

/-- `ppp_get_fcs`. -/
def pppGetFcs (byte : UInt8) : UInt16 := (pppGetFcsRound^[8] byte.toUInt32 &&& 0xffff).toUInt16

/-- `PPP_FCS(fcs, c)` without the table. -/
def pppFcsLoop (fcs : UInt16) (c : UInt8) : UInt16 :=
  (fcs >>> 8) ^^^ pppGetFcs ((fcs ^^^ c.toUInt16) &&& 0xff).toUInt8

/-- `PPP_INITFCS`. -/
def pppInitFcs : UInt16 := 0xffff

/-- `PPP_GOODFCS`. -/
def pppGoodFcs : UInt16 := 0xf0b8

/-- The check sequence after some bytes. -/
def fcsOf (bytes : List UInt8) : UInt16 := bytes.foldl pppFcs pppInitFcs

/-- The two bytes that `pppos_output_last` appends. -/
def fcsBytes (fcs : UInt16) : List UInt8 := [(~~~fcs).toUInt8, ((~~~fcs) >>> 8).toUInt8]

/-- The bits of a sequence of bytes in the order of the line. -/
def lineBits (bytes : List UInt8) : List Bool := bytes.flatMap fun c => Crc.toBits c.toBitVec

/-- The polynomial as a register. -/
def polynomial : BitVec 16 := 0x8408#16

/-! ### The table -/

/-- A property of every byte can be tested on the 256 of them. -/
theorem forall_byte {p : UInt8 → Prop} (all : ∀ c : Fin 256, p (UInt8.ofFin c)) (c : UInt8) :
    p c := by
  have same : UInt8.ofFin c.toFin = c := by simp
  exact same ▸ all c.toFin

/-- The table agrees with the loop. -/
theorem fcstab_eq_pppGetFcs (c : UInt8) : fcstab.getD c.toNat 0 = pppGetFcs c := by
  revert c
  exact forall_byte (by decide +kernel)

theorem fcstab_eq_shift (c : UInt8) :
    (fcstab.getD c.toNat 0).toBitVec = (Crc.shift polynomial)^[8] (c.toBitVec.setWidth 16) := by
  revert c
  exact forall_byte (by decide +kernel)

/-! ### One byte -/

variable {bytes error : List UInt8} {fcs : UInt16} {a b c : UInt8}

/-- The index into the table is the lowest byte. -/
theorem index_eq_toUInt8 (x : UInt16) : (x &&& 0xff).toNat = x.toUInt8.toNat := by
  rw [UInt16.toNat_and, UInt16.toNat_toUInt8]
  exact Nat.and_two_pow_sub_one_eq_mod x.toNat 8

theorem setWidth_toUInt8 (x : UInt16) :
    x.toUInt8.toBitVec.setWidth 16 = x.toBitVec &&& 0xff#16 := by
  refine BitVec.eq_of_toNat_eq ?_
  rw [BitVec.toNat_setWidth, UInt8.toNat_toBitVec, UInt16.toNat_toUInt8, BitVec.toNat_and,
    UInt16.toNat_toBitVec, Nat.mod_eq_of_lt (by omega)]
  exact (Nat.and_two_pow_sub_one_eq_mod x.toNat 8).symm

theorem setWidth_ushiftRight (c : BitVec 8) : c.setWidth 16 >>> 8 = 0#16 := by
  refine BitVec.eq_of_getLsbD_eq fun i _ => ?_
  rw [BitVec.getLsbD_ushiftRight, BitVec.getLsbD_setWidth,
    BitVec.getLsbD_of_ge c (8 + i) (by omega)]
  simp

theorem pppFcs_eq_iterate (fcs : UInt16) (c : UInt8) :
    (pppFcs fcs c).toBitVec =
      (Crc.shift polynomial)^[8] (fcs.toBitVec ^^^ c.toBitVec.setWidth 16) := by
  have high : (fcs.toBitVec ^^^ c.toBitVec.setWidth 16) >>> 8 = fcs.toBitVec >>> 8 := by
    rw [BitVec.ushiftRight_xor_distrib, setWidth_ushiftRight, BitVec.xor_zero]
  rw [Crc.iterate_shift_split polynomial _ 0xff#16 (k := 8) (by decide), high, pppFcs,
    index_eq_toUInt8, UInt16.toBitVec_xor, fcstab_eq_shift, setWidth_toUInt8,
    UInt16.toBitVec_shiftRight, UInt16.toBitVec_xor]
  rfl

/-- One byte is eight bits of the register. -/
theorem pppFcs_eq_register (fcs : UInt16) (c : UInt8) :
    (pppFcs fcs c).toBitVec =
      Crc.register polynomial fcs.toBitVec (Crc.toBits c.toBitVec) := by
  rw [Crc.register_eq_shift _ _ (by simp), Crc.word_toBits, Crc.length_toBits, pppFcs_eq_iterate]

theorem foldl_pppFcs_eq_register (fcs : UInt16) (bytes : List UInt8) :
    (bytes.foldl pppFcs fcs).toBitVec =
      Crc.register polynomial fcs.toBitVec (lineBits bytes) := by
  induction bytes generalizing fcs with
  | nil => rfl
  | cons c bytes ih =>
    rw [List.foldl_cons, ih, pppFcs_eq_register, ← Crc.register_append]
    rfl

/-- The check sequence is the register of the bits on the line. -/
theorem fcsOf_eq_register (bytes : List UInt8) :
    (fcsOf bytes).toBitVec = Crc.register polynomial pppInitFcs.toBitVec (lineBits bytes) :=
  foldl_pppFcs_eq_register pppInitFcs bytes

/-- The two macros agree, byte by byte. -/
theorem pppFcsLoop_eq (fcs : UInt16) (c : UInt8) : pppFcsLoop fcs c = pppFcs fcs c := by
  have low : ((fcs ^^^ c.toUInt16) &&& 0xff).toUInt8 = (fcs ^^^ c.toUInt16).toUInt8 := by
    refine UInt8.toNat_inj.mp ?_
    rw [UInt16.toNat_toUInt8, index_eq_toUInt8, UInt16.toNat_toUInt8, Nat.mod_mod]
  rw [pppFcsLoop, pppFcs, low, index_eq_toUInt8, fcstab_eq_pppGetFcs]

/-- Whatever the start value and the bytes: the check sequence with the table, the one without
it, and the register that takes in one bit after the other are the same. -/
theorem fcs_variants_agree (fcs : UInt16) (bytes : List UInt8) :
    bytes.foldl pppFcsLoop fcs = bytes.foldl pppFcs fcs ∧
      (bytes.foldl pppFcs fcs).toBitVec =
        Crc.register polynomial fcs.toBitVec (lineBits bytes) := by
  have same : pppFcsLoop = pppFcs := by
    funext fcs c
    exact pppFcsLoop_eq fcs c
  exact ⟨by rw [same], foldl_pppFcs_eq_register fcs bytes⟩

/-! ### The receiver's test -/

theorem lineBits_append (l m : List UInt8) : lineBits (l ++ m) = lineBits l ++ lineBits m :=
  List.flatMap_append

/-- Two bytes are taken in like one word of sixteen bits. -/
theorem lineBits_pair (a b : UInt8) :
    lineBits [a, b] = Crc.toBits (b.toBitVec ++ a.toBitVec) := by
  rw [Crc.toBits_append]
  simp [lineBits]

theorem toBitVec_pair (fcs : UInt16) :
    ((fcs >>> 8).toUInt8.toBitVec ++ fcs.toUInt8.toBitVec : BitVec 16) = fcs.toBitVec := by
  refine BitVec.eq_of_getLsbD_eq fun i inside => ?_
  rw [BitVec.getLsbD_append]
  by_cases low : i < 8
  · simp [low]
  · have back : 8 + (i - 8) = i := by omega
    have short : i - 8 < 8 := by omega
    simp [low, back, short]

theorem fcsOf_append_pair (bytes : List UInt8) (a b : UInt8) :
    (fcsOf (bytes ++ [a, b])).toBitVec =
      (Crc.shift polynomial)^[16] ((fcsOf bytes).toBitVec ^^^ (b.toBitVec ++ a.toBitVec)) := by
  rw [fcsOf_eq_register, lineBits_append, Crc.register_append, ← fcsOf_eq_register, lineBits_pair,
    Crc.register_eq_shift _ _ (by simp), Crc.word_toBits, Crc.length_toBits, BitVec.setWidth_eq]

/-- The check sequence of a body that has its own appended is always the same. -/
theorem fcsOf_append_fcsBytes (bytes : List UInt8) :
    fcsOf (bytes ++ fcsBytes (fcsOf bytes)) = pppGoodFcs := by
  refine UInt16.toBitVec_inj.mp ?_
  rw [fcsBytes, fcsOf_append_pair, toBitVec_pair, UInt16.toBitVec_not]
  have ones : (fcsOf bytes).toBitVec ^^^ ~~~(fcsOf bytes).toBitVec = 0xffff#16 := by
    refine BitVec.eq_of_getLsbD_eq fun i inside => ?_
    have one : (0xffff#16).getLsbD i = true := by
      revert i
      decide
    simp [one, inside]
  rw [ones]
  decide +kernel

/-- No other two bytes pass the test. -/
theorem eq_fcsBytes_of_good (good : fcsOf (bytes ++ [a, b]) = pppGoodFcs) :
    [a, b] = fcsBytes (fcsOf bytes) := by
  have same := (congrArg UInt16.toBitVec good).trans
    (congrArg UInt16.toBitVec (fcsOf_append_fcsBytes bytes)).symm
  rw [fcsBytes, fcsOf_append_pair, fcsOf_append_pair] at same
  have cancel := BitVec.xor_eq_zero_iff.mpr same
  rw [← Crc.iterate_shift_xor] at cancel
  have sum := BitVec.xor_eq_zero_iff.mp (Crc.iterate_shift_eq_zero (by decide) cancel)
  have word : (b.toBitVec ++ a.toBitVec : BitVec 16) = (~~~fcsOf bytes).toBitVec :=
    (BitVec.xor_right_inj _).mp (sum.trans (by rw [toBitVec_pair]))
  rw [← toBitVec_pair] at word
  have high := congrArg (BitVec.extractLsb' 8 8) word
  have low := congrArg (BitVec.setWidth 8) word
  rw [BitVec.extractLsb'_append_eq_left, BitVec.extractLsb'_append_eq_left] at high
  rw [BitVec.setWidth_append_eq_right, BitVec.setWidth_append_eq_right] at low
  rw [UInt8.toBitVec_inj.mp high, UInt8.toBitVec_inj.mp low]
  rfl

theorem length_of_good (good : fcsOf bytes = pppGoodFcs) : 2 ≤ bytes.length := by
  have one : ∀ c : UInt8, fcsOf [c] ≠ pppGoodFcs := forall_byte (by decide +kernel)
  match bytes, good with
  | [], good => exact absurd good (by decide +kernel)
  | [c], good => exact absurd good (one c)
  | _ :: _ :: _, _ => simp

/-- The receiver's test passes exactly for a body followed by its check sequence. -/
theorem fcsOf_eq_good_iff : fcsOf bytes = pppGoodFcs ↔
    ∃ body, bytes = body ++ fcsBytes (fcsOf body) := by
  constructor
  · intro good
    have long := length_of_good good
    obtain ⟨a, b, last⟩ : ∃ a b, bytes.drop (bytes.length - 2) = [a, b] :=
      List.length_eq_two.mp (by rw [List.length_drop]; omega)
    have split : bytes = bytes.take (bytes.length - 2) ++ [a, b] := by
      rw [← last, List.take_append_drop]
    refine ⟨bytes.take (bytes.length - 2), ?_⟩
    rw [← eq_fcsBytes_of_good (split ▸ good), ← split]
  · rintro ⟨body, rfl⟩
    exact fcsOf_append_fcsBytes body

/-! ### Errors -/

/-- The bytes with some of their bits inverted. -/
def corrupt (bytes error : List UInt8) : List UInt8 := List.zipWith (· ^^^ ·) bytes error

theorem lineBits_corrupt (same : bytes.length = error.length) :
    lineBits (corrupt bytes error) = List.zipWith xor (lineBits bytes) (lineBits error) := by
  induction bytes generalizing error with
  | nil => rfl
  | cons c bytes ih =>
    cases error with
    | nil => simp at same
    | cons e error =>
      have head : Crc.toBits (c ^^^ e).toBitVec =
          List.zipWith xor (Crc.toBits c.toBitVec) (Crc.toBits e.toBitVec) := by
        simp [Crc.toBits, List.zipWith_map]
      have shorter : bytes.length = error.length := by simpa using same
      have tail := ih shorter
      simp only [lineBits, corrupt, List.zipWith_cons_cons, List.flatMap_cons] at tail ⊢
      rw [tail, head, List.zipWith_append (by simp)]

theorem length_lineBits (bytes : List UInt8) : (lineBits bytes).length = 8 * bytes.length := by
  induction bytes with
  | nil => rfl
  | cons c bytes ih =>
    simp only [lineBits, List.flatMap_cons, List.length_append, Crc.length_toBits] at ih ⊢
    rw [ih, List.length_cons]
    omega

/-- An error is found when its own register does not end at zero. -/
theorem fcsOf_corrupt_ne_good (good : fcsOf bytes = pppGoodFcs)
    (same : bytes.length = error.length)
    (shows : Crc.register polynomial 0 (lineBits error) ≠ 0) :
    fcsOf (corrupt bytes error) ≠ pppGoodFcs := by
  intro bad
  have sum := fcsOf_eq_register (corrupt bytes error)
  have lengths : (lineBits bytes).length = (lineBits error).length := by
    rw [length_lineBits, length_lineBits, same]
  rw [lineBits_corrupt same, bad, ← good, ← BitVec.xor_zero (x := pppInitFcs.toBitVec),
    Crc.register_xor _ _ _ lengths, ← fcsOf_eq_register] at sum
  exact shows ((BitVec.xor_right_inj (fcsOf bytes).toBitVec).mp (by simpa using sum.symm))

/-- Errors within sixteen consecutive bits are found. -/
theorem fcsOf_burst_ne_good (good : fcsOf bytes = pppGoodFcs) (same : bytes.length = error.length)
    {before after : ℕ} {burst : List Bool}
    (shape : lineBits error = List.replicate before false ++ burst ++ List.replicate after false)
    (short : burst.length ≤ 16) (wrong : true ∈ burst) :
    fcsOf (corrupt bytes error) ≠ pppGoodFcs := by
  refine fcsOf_corrupt_ne_good good same ?_
  rw [shape]
  exact Crc.register_burst_ne_zero (by decide) short wrong before after

/-- Errors in an odd number of bits are found. -/
theorem fcsOf_odd_ne_good (good : fcsOf bytes = pppGoodFcs) (same : bytes.length = error.length)
    (odd : (lineBits error).count true % 2 = 1) : fcsOf (corrupt bytes error) ≠ pppGoodFcs :=
  fcsOf_corrupt_ne_good good same (Crc.register_odd_ne_zero (by decide) (by decide) odd)

end Components.Ppp
