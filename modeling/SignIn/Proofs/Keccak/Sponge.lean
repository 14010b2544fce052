import Mathlib.Data.Nat.Digits.Defs
import SignIn.Keccak.Sponge
/-!
# The sponge takes in blocks

A sponge that takes bytes one at a time comes to the same as the construction that it stands for: the message is padded to
whole blocks, each block is added to the first lanes of the state, and the state is permuted (`sponge`).  What carries the
argument is that bytes taken in and not yet permuted are bytes added to the lanes (`addBytes`), and that eight of them
make a lane (`addBytes_lane`).  The padding is of any length from one byte to a whole block, so a message may end
anywhere in a block.
-/
namespace SignIn
namespace Keccak

/-! ## The construction -/

/-- **The padding of a message of a length:** `0x01`, zeros and `0x80`, up to the end of the block; where one byte is
left they are `0x81`. -/
def padding (length : Nat) : List UInt8 :=
  if length % rate = rate - 1 then [0x81]
  else 0x01 :: (List.replicate (rate - 2 - length % rate) 0x00 ++ [0x80])

/-- **A message padded to whole blocks.** -/
def padded (message : List UInt8) : List UInt8 := message ++ padding message.length

/-- **The whole blocks of a byte string,** in order. -/
def blocks (bytes : List UInt8) : List (List UInt8) :=
  (List.range (bytes.length / rate)).map fun k => (bytes.drop (rate * k)).take rate

/-- **A lane is eight bytes,** the low one first. -/
def laneOf (bytes : List UInt8) : UInt64 := UInt64.ofNat (Nat.ofDigits 256 (bytes.map UInt8.toNat))

/-- **A block is added to the first 17 lanes,** eight bytes to a lane. -/
def addBlock (a : Lanes) (block : List UInt8) : Lanes :=
  a.mapIdx fun i lane => if i < 17 then lane ^^^ laneOf ((block.drop (8 * i)).take 8) else lane

/-- **Blocks taken in:** each is added, and then the state is permuted. -/
def addBlocks (a : Lanes) (bs : List (List UInt8)) : Lanes := bs.foldl (fun a block => permute (addBlock a block)) a

/-- **The state after a message:** from zero, the blocks of the padded message are taken in. -/
def sponge (message : List UInt8) : Lanes := addBlocks (Vector.replicate 25 0) (blocks (padded message))

/-- **The bytes of a state,** lane after lane, the low byte of a lane first. -/
def stateBytes (a : Lanes) : List UInt8 :=
  List.ofFn fun i : Fin 200 => UInt8.ofNat (a[i.val / 8].toNat / 256 ^ (i.val % 8))

/-! ## Bytes of a lane -/

theorem laneOf_nil : laneOf [] = 0 := rfl

/-- **The first byte of a lane is its lowest.** -/
theorem laneOf_cons (b : UInt8) (bs : List UInt8) : laneOf (b :: bs) = b.toUInt64 ^^^ (laneOf bs <<< 8) := by
  have hb := b.toNat_lt
  rw [← UInt64.toNat_inj]
  simp only [laneOf, List.map_cons, Nat.ofDigits_cons, UInt64.toNat_ofNat', UInt64.toNat_xor, UInt64.toNat_shiftLeft,
    UInt8.toNat_toUInt64]
  generalize Nat.ofDigits 256 (bs.map UInt8.toNat) = n
  refine Nat.eq_of_testBit_eq fun j => ?_
  rw [Nat.add_comm, show 256 = 2 ^ 8 from rfl, show UInt64.toNat 8 % 64 = 8 from rfl]
  simp only [Nat.testBit_mod_two_pow, Nat.testBit_two_pow_mul_add _ hb, Nat.testBit_xor, Nat.testBit_shiftLeft]
  -- a bit below the eighth is the byte's, and any other the rest's
  by_cases hj : j < 8
  · have hlow : ¬ 8 ≤ j := Nat.not_le.2 hj
    have hword : j < 64 := Nat.lt_trans hj (by decide)
    simp [hj, hlow, hword]
  · have hbyte : b.toNat.testBit j = false :=
      Nat.testBit_lt_two_pow (Nat.lt_of_lt_of_le hb (Nat.pow_le_pow_right (by decide) (Nat.not_lt.1 hj)))
    have hword : j < 64 → j - 8 < 64 := fun h => Nat.lt_of_le_of_lt (Nat.sub_le j 8) h
    by_cases h64 : j < 64 <;> simp [hj, hbyte, h64, hword, Nat.not_lt.1 hj]

theorem laneOf_cons_shiftLeft (b : UInt8) : ∀ {j : Nat} (bs : List UInt8), j + bs.length < 8 →
    laneOf (b :: bs) <<< UInt64.ofNat (8 * j) =
      b.toUInt64 <<< UInt64.ofNat (8 * j) ^^^ laneOf bs <<< UInt64.ofNat (8 * (j + 1))
  | j, [], _ => by
    simp only [laneOf_cons, laneOf_nil, UInt64.zero_shiftLeft, UInt64.xor_zero]
  | j, c :: cs, h => by
    have hj : 8 * j < 56 := by
      rw [List.length_cons] at h
      omega
    have hplace : (8 : UInt64).toNat + (UInt64.ofNat (8 * j)).toNat < 64 := by
      rw [UInt64.toNat_ofNat_of_lt' (Nat.lt_trans hj (by decide)), show (8 : UInt64).toNat = 8 from rfl]
      omega
    have hnext : UInt64.ofNat (8 * (j + 1)) = 8 + UInt64.ofNat (8 * j) := by
      rw [Nat.mul_succ, Nat.add_comm, UInt64.ofNat_add]
      rfl
    rw [laneOf_cons, UInt64.shiftLeft_xor, hnext, UInt64.shiftLeft_add_of_toNat_lt hplace]

/-! ## Bytes added to the lanes -/

/-- **Bytes added to the lanes** from a place on. -/
def addBytes : Lanes → Nat → List UInt8 → Lanes
  | a, _, [] => a
  | a, i, b :: bs => addBytes (addByte a i b) (i + 1) bs

theorem addBytes_append : ∀ (a : Lanes) (i : Nat) (bs cs : List UInt8),
    addBytes a i (bs ++ cs) = addBytes (addBytes a i bs) (i + bs.length) cs
  | _, _, [], _ => rfl
  | a, i, b :: bs, cs => by
    rw [List.cons_append, addBytes, addBytes, addBytes_append, List.length_cons, Nat.add_assoc, Nat.add_comm 1]

theorem addByte_lane (a : Lanes) {l j : Nat} (hl : l < 25) (hj : j < 8) (b : UInt8) :
    addByte a (8 * l + j) b = a.set l (a[l] ^^^ (b.toUInt64 <<< UInt64.ofNat (8 * j))) := by
  have hlane : (8 * l + j) / 8 = l := by omega
  have hplace : (8 * l + j) % 8 = j := by omega
  simp only [addByte, hlane, hplace, hl, dif_pos]

/-- **Bytes that stay within a lane** are added to it. -/
theorem addBytes_within (a : Lanes) {l : Nat} (hl : l < 25) : ∀ {j : Nat} (bs : List UInt8), j + bs.length ≤ 8 →
    addBytes a (8 * l + j) bs = a.set l (a[l] ^^^ (laneOf bs <<< UInt64.ofNat (8 * j)))
  | j, [], _ => by
    rw [addBytes, laneOf_nil, UInt64.zero_shiftLeft, UInt64.xor_zero, Vector.set_getElem_self]
  | j, b :: bs, h => by
    rw [List.length_cons] at h
    have hj : j < 8 := by omega
    rw [addBytes, Nat.add_assoc, addByte_lane a hl hj, addBytes_within _ hl bs (by omega), Vector.getElem_set_self,
      Vector.set_set, laneOf_cons_shiftLeft b bs (by omega), UInt64.xor_assoc]

theorem addBytes_lane (a : Lanes) {l : Nat} (hl : l < 25) {bs : List UInt8} (hbs : bs.length = 8) :
    addBytes a (8 * l) bs = a.set l (a[l] ^^^ laneOf bs) := by
  have h := addBytes_within a hl (j := 0) bs (by omega)
  rwa [Nat.add_zero, Nat.mul_zero, show UInt64.ofNat 0 = 0 from rfl, UInt64.shiftLeft_zero] at h

/-- **Bytes of whole lanes** are added to the lanes they cover, and to no other. -/
theorem getElem_addBytes : ∀ (k : Nat) (a : Lanes) {l : Nat} (bs : List UInt8), l + k ≤ 25 → bs.length = 8 * k →
    ∀ (i : Nat) (hi : i < 25), (addBytes a (8 * l) bs)[i] =
      if l ≤ i ∧ i < l + k then a[i] ^^^ laneOf ((bs.drop (8 * (i - l))).take 8) else a[i]
  | 0, a, l, bs, _, hbs, i, hi => by
    obtain rfl : bs = [] := List.eq_nil_of_length_eq_zero hbs
    rw [addBytes, if_neg (by omega)]
  | k + 1, a, l, bs, hl, hbs, i, hi => by
    have hfirst : (bs.take 8).length = 8 := by
      rw [List.length_take]
      omega
    have hrest : (bs.drop 8).length = 8 * k := by
      rw [List.length_drop]
      omega
    have hsplit : addBytes a (8 * l) bs = addBytes (a.set l (a[l] ^^^ laneOf (bs.take 8))) (8 * (l + 1)) (bs.drop 8) := by
      conv => lhs; rw [← List.take_append_drop 8 bs]
      rw [addBytes_append, addBytes_lane a (by omega) hfirst, hfirst, Nat.mul_succ]
    simp only [hsplit]
    rw [getElem_addBytes k _ _ (by omega) hrest i hi, Vector.getElem_set]
    by_cases heq : l = i
    · subst heq
      simp
    · have hdrop : l + 1 ≤ i → 8 + 8 * (i - (l + 1)) = 8 * (i - l) := by omega
      by_cases hin : l + 1 ≤ i ∧ i < l + 1 + k
      · rw [if_pos hin, if_neg heq, if_pos (by omega), List.drop_drop, hdrop hin.1]
      · rw [if_neg hin, if_neg heq, if_neg (by omega)]

/-- **A block is its bytes,** added from the first place on. -/
theorem addBytes_block (a : Lanes) {block : List UInt8} (h : block.length = rate) :
    addBytes a 0 block = addBlock a block := by
  refine Vector.ext fun i hi => ?_
  have hlanes := getElem_addBytes 17 a (l := 0) block (by decide) h i hi
  simp only [Nat.mul_zero, Nat.zero_le, Nat.zero_add, true_and, Nat.sub_zero] at hlanes
  rw [hlanes, addBlock, Vector.getElem_mapIdx]

/-! ## Bytes taken in -/

/-- **Bytes that do not fill the block** are added to the lanes. -/
theorem absorb_within : ∀ {s : Sponge} (bs : List UInt8), s.count + bs.length < rate →
    bs.foldl Sponge.absorb s = ⟨addBytes s.lanes s.count bs, s.count + bs.length⟩
  | _, [], _ => rfl
  | s, b :: bs, h => by
    rw [List.length_cons] at h
    have hstep : s.absorb b = ⟨addByte s.lanes s.count b, s.count + 1⟩ := if_neg (by omega)
    rw [List.foldl_cons, hstep, absorb_within bs (by dsimp only; omega), List.length_cons, addBytes]
    simp only [Nat.add_assoc, Nat.add_comm 1]

/-- **A block that is filled** is added and permuted. -/
theorem absorb_block (a : Lanes) {block : List UInt8} (h : block.length = rate) :
    block.foldl Sponge.absorb ⟨a, 0⟩ = ⟨permute (addBlock a block), 0⟩ := by
  obtain ⟨init, last, rfl⟩ : ∃ init last, block = init ++ [last] :=
    ⟨_, _, (List.dropLast_concat_getLast (List.ne_nil_of_length_pos (h ▸ by decide))).symm⟩
  rw [List.length_append, List.length_singleton] at h
  have hlast : Sponge.absorb ⟨addBytes a 0 init, init.length⟩ last =
      ⟨permute (addByte (addBytes a 0 init) init.length last), 0⟩ := if_pos h
  rw [List.foldl_append, absorb_within init (by dsimp only; omega)]
  simp only [List.foldl_cons, List.foldl_nil, Nat.zero_add, hlast]
  rw [← addBytes_block a (by simpa using h), addBytes_append, Nat.zero_add, addBytes, addBytes]

theorem blocks_append {block : List UInt8} (h : block.length = rate) (rest : List UInt8) :
    blocks (block ++ rest) = block :: blocks rest := by
  have hcount : (block ++ rest).length / rate = rest.length / rate + 1 := by
    rw [List.length_append, h, Nat.add_comm, Nat.add_div_right _ (by decide)]
  rw [blocks, hcount, List.range_succ_eq_map, List.map_cons, List.map_map, Nat.mul_zero, List.drop_zero,
    List.take_append_of_le_length (Nat.le_of_eq h.symm), List.take_of_length_le (Nat.le_of_eq h), blocks]
  refine congrArg _ (List.map_congr_left fun k _ => ?_)
  have hdrop : rate * (k + 1) = block.length + rate * k := by rw [h, Nat.mul_succ, Nat.add_comm]
  rw [Function.comp_apply, Nat.succ_eq_add_one, hdrop, ← List.drop_drop, List.drop_left]

theorem blocks_of_lt {bytes : List UInt8} (h : bytes.length < rate) : blocks bytes = [] := by
  rw [blocks, Nat.div_eq_of_lt h]
  rfl

theorem blocks_flatten : ∀ {whole : List (List UInt8)}, (∀ block ∈ whole, block.length = rate) → ∀ rest : List UInt8,
    blocks (whole.flatten ++ rest) = whole ++ blocks rest
  | [], _, _ => rfl
  | block :: whole, h, rest => by
    rw [List.forall_mem_cons] at h
    rw [List.flatten_cons, List.append_assoc, blocks_append h.1, blocks_flatten h.2, List.cons_append]

/-- **What a sponge has taken in:** whole blocks, added and permuted one after the other, and the bytes left over, added to
the lanes; the count is how many they are. -/
theorem absorbed : ∀ (n : Nat) (a : Lanes) {message : List UInt8}, message.length / rate = n →
    ∃ (whole : List (List UInt8)) (rest : List UInt8), message = whole.flatten ++ rest ∧
      (∀ block ∈ whole, block.length = rate) ∧ rest.length = message.length % rate ∧
      message.foldl Sponge.absorb ⟨a, 0⟩ = ⟨addBytes (addBlocks a whole) 0 rest, rest.length⟩
  | 0, a, message, h => by
    have hlt : message.length < rate := (Nat.div_eq_zero_iff_lt (by decide)).1 h
    refine ⟨[], message, rfl, by simp, (Nat.mod_eq_of_lt hlt).symm, ?_⟩
    rw [absorb_within message (by simpa using hlt), Nat.zero_add, addBlocks, List.foldl_nil]
  | n + 1, a, message, h => by
    have hle : rate ≤ message.length := by
      by_contra hlt
      rw [Nat.div_eq_of_lt (Nat.not_le.1 hlt)] at h
      exact absurd h (Nat.succ_ne_zero n).symm
    have hblock : (message.take rate).length = rate := List.length_take_of_le hle
    have hcount : (message.drop rate).length / rate = n := by
      have hsum : (message.drop rate).length + rate = message.length := by
        rw [List.length_drop, Nat.sub_add_cancel hle]
      rw [← hsum, Nat.add_div_right _ (by decide)] at h
      exact Nat.succ.inj h
    obtain ⟨whole, rest, hrest, hwhole, hlen, habsorbed⟩ := absorbed n (permute (addBlock a (message.take rate))) hcount
    refine ⟨message.take rate :: whole, rest, ?_, List.forall_mem_cons.2 ⟨hblock, hwhole⟩, ?_, ?_⟩
    · rw [List.flatten_cons, List.append_assoc, ← hrest, List.take_append_drop]
    · rw [hlen, List.length_drop, ← Nat.mod_eq_sub_mod hle]
    · conv => lhs; rw [← List.take_append_drop rate message]
      rw [List.foldl_append, absorb_block a hblock, habsorbed, addBlocks, addBlocks, List.foldl_cons]

/-! ## The padding -/

theorem addByte_zero (a : Lanes) (i : Nat) : addByte a i 0 = a := by
  unfold addByte
  split
  · rw [show UInt8.toUInt64 0 = 0 from rfl, UInt64.zero_shiftLeft, UInt64.xor_zero, Vector.set_getElem_self]
  · rfl

theorem addBytes_zeros (a : Lanes) : ∀ (n i : Nat), addBytes a i (List.replicate n 0) = a
  | 0, _ => rfl
  | n + 1, i => by rw [List.replicate_succ, addBytes, addByte_zero, addBytes_zeros a n]

theorem addByte_addByte (a : Lanes) {l j : Nat} (hl : l < 25) (hj : j < 8) (b c : UInt8) :
    addByte (addByte a (8 * l + j) b) (8 * l + j) c = addByte a (8 * l + j) (b ^^^ c) := by
  simp only [addByte_lane _ hl hj, Vector.getElem_set_self, Vector.set_set, UInt64.xor_assoc, UInt8.toUInt64_xor,
    UInt64.shiftLeft_xor]

theorem length_padding (n : Nat) : (padding n).length = rate - n % rate := by
  have hlt : n % rate < rate := Nat.mod_lt n (by decide)
  unfold padding
  split
  · rename_i h
    rw [h]
    rfl
  · rename_i h
    simp only [List.length_cons, List.length_append, List.length_replicate, List.length_nil]
    omega

/-- **The padding is two bytes that are not zero,** the first where the message ends and the last where the block does; in
one byte they are their sum. -/
theorem addBytes_padding (a : Lanes) (n : Nat) : addBytes a (n % rate) (padding n) =
    addByte (addByte a (n % rate) 0x01) (rate - 1) 0x80 := by
  have hlt : n % rate < rate := Nat.mod_lt n (by decide)
  unfold padding
  split
  · rename_i h
    rw [h, addBytes, addBytes, show rate - 1 = 8 * 16 + 7 from rfl, addByte_addByte a (by decide) (by decide)]
    rfl
  · rename_i h
    have hlast : n % rate + 1 + (rate - 2 - n % rate) = rate - 1 := by omega
    rw [addBytes, addBytes_append, addBytes_zeros, List.length_replicate, hlast, addBytes, addBytes]

/-! ## The digest -/

theorem toUInt8_shiftRight (w : UInt64) {k : Nat} (hk : k < 8) :
    (w >>> UInt64.ofNat (8 * k)).toUInt8 = UInt8.ofNat (w.toNat / 256 ^ k) := by
  have hshift : (UInt64.ofNat (8 * k)).toNat % 64 = 8 * k := by
    rw [UInt64.toNat_ofNat_of_lt' (Nat.lt_trans (show 8 * k < 64 by omega) (by decide)), Nat.mod_eq_of_lt (by omega)]
  rw [← UInt8.toNat_inj, UInt64.toNat_toUInt8, UInt64.toNat_shiftRight, hshift, UInt8.toNat_ofNat', Nat.shiftRight_eq_div_pow,
    Nat.pow_mul]

theorem bytes_of_state (a : Lanes) : (Vector.ofFn (byteAt a)).toList = (stateBytes a).take digestLength := by
  have hlen : (stateBytes a).length = 200 := List.length_ofFn
  refine List.ext_getElem ?_ fun i h₁ h₂ => ?_
  · rw [List.length_take, hlen, Vector.length_toList]
    rfl
  rw [List.getElem_take]
  simp only [stateBytes, List.getElem_ofFn, Vector.getElem_toList, Vector.getElem_ofFn, byteAt]
  exact toUInt8_shiftRight _ (Nat.mod_lt i (by decide))

/-- **The digest of a byte string is that of the sponge construction:** the first 32 bytes of the state that the padded
message leaves.  The padded message is whole blocks, and after any number of bytes of the message the count is that of
the bytes since the last whole block, so the next byte is added within the block. -/
theorem digest_eq_sponge (message : List UInt8) :
    (digest message).toList = (stateBytes (sponge message)).take digestLength ∧
    (padded message).length = rate * (message.length / rate + 1) ∧
    ∀ k, ((message.take k).foldl Sponge.absorb .empty).count = (message.take k).length % rate ∧
      ((message.take k).foldl Sponge.absorb .empty).count < rate := by
  refine ⟨?_, ?_, fun k => ?_⟩
  · obtain ⟨whole, rest, hmessage, hwhole, hlen, habsorbed⟩ :=
      absorbed _ (Vector.replicate 25 0) (Eq.refl (message.length / rate))
    have hlast : (rest ++ padding message.length).length = rate := by
      rw [List.length_append, length_padding, hlen]
      exact Nat.add_sub_of_le (Nat.le_of_lt (Nat.mod_lt _ (by decide)))
    have hblocks : blocks (padded message) = whole ++ [rest ++ padding message.length] := by
      have hsplit : padded message = whole.flatten ++ (rest ++ padding message.length ++ []) := by
        rw [padded, List.append_nil, ← List.append_assoc, ← hmessage]
      rw [hsplit, blocks_flatten hwhole, blocks_append hlast, blocks_of_lt (by decide)]
    have hsponge : sponge message = permute (addByte (addByte (addBytes (addBlocks (Vector.replicate 25 0) whole) 0 rest)
        rest.length 0x01) (rate - 1) 0x80) := by
      rw [sponge, hblocks, addBlocks, List.foldl_append, List.foldl_cons, List.foldl_nil, ← addBytes_block _ hlast,
        addBytes_append, Nat.zero_add, hlen, addBytes_padding]
      rfl
    rw [digest, Sponge.empty, habsorbed, Sponge.finish, hsponge]
    exact bytes_of_state _
  · rw [padded, List.length_append, length_padding]
    have := Nat.div_add_mod message.length rate
    have := Nat.mod_lt message.length (show 0 < rate by decide)
    rw [Nat.mul_succ]
    omega
  · obtain ⟨whole, rest, -, -, hlen, habsorbed⟩ :=
      absorbed _ (Vector.replicate 25 0) (Eq.refl ((message.take k).length / rate))
    rw [Sponge.empty, habsorbed]
    exact ⟨hlen, hlen ▸ Nat.mod_lt _ (by decide)⟩

end Keccak
end SignIn
