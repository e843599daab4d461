import ProxySshMac.Slot

/-!
# Key derivation: `set_mac_key`

`set_mac_key` (lines 413-667) rounds the block size of the slot's MAC digest up
to a multiple of the output size `d` of the key-exchange digest `md`, hashes
`K || H || letter || session_id` into the start of a fresh buffer, and then,
while the buffer is not full, hashes `K || H || key[0, key_len)` into
`key + key_len` (RFC 4253 §7.2).  Every `EVP_Digest*` call may fail; the
calls are counted from `0` in the order the code makes them, and
`fail = some n` makes call `n` the first to fail.  A failed `EVP_DigestFinal`
may already have written its output, so the model writes it.

`rfcKey` is the derivation of the RFC.  `extendKey_run` runs the loop on any
positive multiple of `d`, `rfcKey_prefix` is the prefix property, and
`setMacKey_ok` is the successful call as `proxy_ssh_mac_set_read_key` and
`proxy_ssh_mac_set_write_key` make it.
-/

namespace ProxySshMac

/-- Whether one of the digest calls `n, n + 1, …, n + k - 1` is the first to
fail. -/
def failsIn (fail : Option Nat) (n k : Nat) : Bool :=
  match fail with
  | some m => n ≤ m && m < n + k
  | none => false

/-- How the extension loop ends: the buffer full, with `key_len` and the count
of digest calls made; or a failed call, with the buffer as it is freed. -/
inductive LoopEnd
  | done (key : Bytes) (keyLen : Nat) (calls : Nat)
  | failed (key : Bytes)
  deriving DecidableEq, Repr

/-- The extension loop (lines 555-644).  One round is `EVP_DigestInit`, three
`EVP_DigestUpdate`s and `EVP_DigestFinal`; a failure scrubs the whole buffer.
`fuel` bounds the rounds; `setMacKey` gives `key_sz`, more than the loop ever
needs (`extendKey_run`). -/
def extendKey (P : Prims) (md : EvpMd) (k h : Bytes) (keySz : Nat) (fail : Option Nat) :
    Nat → Bytes → Nat → Nat → Res LoopEnd
  | fuel, key, keyLen, call =>
    if keyLen < keySz then
      match fuel with
      | 0 => .error .undefined
      | fuel + 1 =>
        if failsIn fail call 4 then .ok (.failed (scrub keySz key))
        else do
          let key' ← writeAt key keyLen (P.digest md (k ++ h ++ key.take keyLen))
          if fail = some (call + 4) then .ok (.failed (scrub keySz key'))
          else extendKey P md k h keySz fail fuel key' (keyLen + md.size) (call + 5)
    else .ok (.done key keyLen call)

/-- The `key_len` recorded for `init_mac` (lines 654-664): the MAC digest's
output size for HMAC, its block size for UMAC, `16` for peers without
`PROXY_SSH_FEAT_MAC_LEN`. -/
def macKeyLen (macLenFeature : Bool) (mac : Mac) (mdMac : EvpMd) : Nat :=
  if macLenFeature then
    match mac.algoType with
    | .hmac => mdMac.size
    | .umac64 | .umac128 => mdMac.blockSize
    | .unset => mac.keyLen
  else 16

/-- `set_mac_key(mac, md, k, klen, h, hlen, letter, id, id_len)`: the heap, the
struct and the return value.  The key reaches the struct only at the end.
`EVP_MD_block_size` of a `NULL` digest dereferences it, as in OpenSSL 1.1
(OpenSSL 3 returns `-1` there). -/
def setMacKey (P : Prims) (hp : Heap) (mac : Mac) (md : EvpMd) (k h : Bytes) (letter : UInt8)
    (id : Bytes) (macLenFeature : Bool) (fail : Option Nat) : Res (Heap × Mac × Int) := do
  let mdMac ← deref mac.digest
  let keySz ← cryptoGetSize mdMac.blockSize md.size
  if keySz = 0 then
    return (hp, mac, if (← strcmpEq mac.algo "none") then 0 else -1)
  let (hp, buf) := hp.malloc keySz
  if failsIn fail 0 5 then
    return (hp.free buf, mac, -1)
  let key ← writeAt buf.bytes 0 (P.digest md (k ++ h ++ letter :: id))
  if fail = some 5 then
    return (hp.free ⟨buf.id, scrub keySz key⟩, mac, -1)
  match ← extendKey P md k h keySz fail keySz key md.size 6 with
  | .failed key => return (hp.free ⟨buf.id, key⟩, mac, -1)
  | .done key _ _ =>
    let keyLen := macKeyLen macLenFeature mac mdMac
    return (hp, { mac with key := some ⟨buf.id, key⟩, keysz := keySz, keyLen }, 0)

/-- RFC 4253 §7.2: `K1 = HASH(K || H || X || session_id)` and
`K(i+1) = HASH(K || H || K1 || … || Ki)`; `rfcKey n` is `K1 || … || Kn`. -/
def rfcKey (P : Prims) (md : EvpMd) (k h : Bytes) (letter : UInt8) (id : Bytes) : Nat → Bytes
  | 0 => []
  | 1 => P.digest md (k ++ h ++ letter :: id)
  | n + 2 =>
    let acc := rfcKey P md k h letter id (n + 1)
    acc ++ P.digest md (k ++ h ++ acc)


section Rfc

variable (P : Prims) (md : EvpMd) (k h : Bytes) (letter : UInt8) (id : Bytes)

theorem rfcKey_succ {n : Nat} (hn : 0 < n) :
    rfcKey P md k h letter id (n + 1) =
      rfcKey P md k h letter id n ++ P.digest md (k ++ h ++ rfcKey P md k h letter id n) := by
  obtain ⟨n, rfl⟩ := Nat.exists_eq_add_of_lt hn
  rfl

@[simp] theorem rfcKey_length (n : Nat) : (rfcKey P md k h letter id n).length = n * md.size := by
  induction n with
  | zero => simp [rfcKey]
  | succ n ih =>
    rcases n with _ | n
    · simp [rfcKey, P.digest_length]
    · rw [rfcKey_succ P md k h letter id (Nat.succ_pos n), List.length_append, ih, P.digest_length]
      exact (Nat.succ_mul _ _).symm

/-- **Each round extends the key.** -/
theorem rfcKey_prefix {m n : Nat} (hmn : m ≤ n) :
    rfcKey P md k h letter id m <+: rfcKey P md k h letter id n := by
  induction n with
  | zero => obtain rfl := Nat.le_zero.mp hmn; exact List.prefix_refl _
  | succ n ih =>
    rcases Nat.lt_or_eq_of_le hmn with hlt | rfl
    · rcases n with _ | n
      · rw [Nat.lt_one_iff.mp hlt]; exact List.nil_prefix
      · rw [rfcKey_succ P md k h letter id (Nat.succ_pos n)]
        exact (ih (Nat.lt_succ_iff.mp hlt)).trans (List.prefix_append _ _)
    · exact List.prefix_refl _

theorem rfcKey_eq_take {m n : Nat} (hmn : m ≤ n) :
    rfcKey P md k h letter id m = (rfcKey P md k h letter id n).take (m * md.size) := by
  obtain ⟨t, ht⟩ := rfcKey_prefix P md k h letter id hmn
  rw [← ht, List.take_left' (rfcKey_length P md k h letter id m)]

end Rfc

theorem writeAt_zeros (a c : Bytes) (r : Nat) :
    writeAt (a ++ zeros (c.length + r)) a.length c = .ok (a ++ c ++ zeros r) := by
  have hz : zeros (c.length + r) = zeros c.length ++ zeros r := List.replicate_add _ _ _
  rw [writeAt_ok (by simp), List.take_left, hz, List.drop_append, List.drop_left' (zeros_length _)]


section Loop

variable {P : Prims} {md : EvpMd} {k h : Bytes} {letter : UInt8} {id : Bytes}

/-- **The loop's invariant.**  With `j` of `m` blocks derived, the buffer holds
`K1 || … || Kj` followed by zeros, and the loop ends after `m - j` more rounds
of five calls with `K1 || … || Km`, every write in bounds. -/
theorem extendKey_run (hd : 0 < md.size) {m j fuel : Nat} (hj : 0 < j) (hjm : j ≤ m)
    (hfuel : m - j ≤ fuel) :
    extendKey P md k h (m * md.size) none fuel
        (rfcKey P md k h letter id j ++ zeros ((m - j) * md.size)) (j * md.size) (6 + 5 * (j - 1)) =
      .ok (.done (rfcKey P md k h letter id m) (m * md.size) (6 + 5 * (m - 1))) := by
  induction fuel generalizing j with
  | zero =>
    obtain rfl : j = m := by omega
    rw [extendKey, if_neg (Nat.lt_irrefl _), Nat.sub_self, Nat.zero_mul]
    simp [zeros]
  | succ fuel ih =>
    rw [extendKey]
    by_cases hlt : j < m
    · have hlen := rfcKey_length P md k h letter id j
      have hz : (m - j) * md.size = (P.digest md (k ++ h ++ rfcKey P md k h letter id j)).length +
          (m - (j + 1)) * md.size := by
        rw [P.digest_length, show m - j = m - (j + 1) + 1 by omega, Nat.succ_mul, Nat.add_comm]
      rw [if_pos (Nat.mul_lt_mul_of_pos_right hlt hd)]
      simp only [failsIn, Bool.false_eq_true, if_false, ← hlen, List.take_left, hz, writeAt_zeros,
        res_ok_bind, reduceCtorEq]
      rw [← rfcKey_succ P md k h letter id hj, hlen, ← Nat.succ_mul,
        show 6 + 5 * (j - 1) + 5 = 6 + 5 * (j + 1 - 1) by omega]
      exact ih (Nat.succ_pos j) hlt (by omega)
    · obtain rfl : j = m := by omega
      rw [if_neg (Nat.lt_irrefl _), Nat.sub_self, Nat.zero_mul]
      simp [zeros]

/-- The buffer after the first round: `K1` followed by zeros. -/
theorem writeAt_first (P : Prims) (md : EvpMd) (k h : Bytes) (letter : UInt8) (id : Bytes) {m : Nat}
    (hm : 0 < m) :
    writeAt (zeros (m * md.size)) 0 (P.digest md (k ++ h ++ letter :: id)) =
      .ok (rfcKey P md k h letter id 1 ++ zeros ((m - 1) * md.size)) := by
  have hz : m * md.size = (P.digest md (k ++ h ++ letter :: id)).length + (m - 1) * md.size := by
    have h1 := Nat.sub_one_mul m md.size
    have h2 : md.size ≤ m * md.size := Nat.le_mul_of_pos_left _ hm
    rw [P.digest_length]; omega
  rw [hz]
  exact writeAt_zeros [] _ _

end Loop

/-- **A successful derivation.**  With every digest call succeeding,
`set_mac_key` allocates one buffer of `key_sz = roundup(block size, d)` bytes,
fills it with `K1 || … || K(key_sz / d)` and stores it in the struct. -/
theorem setMacKey_ok (P : Prims) (hp : Heap) {mac : Mac} {mdMac md : EvpMd} (k h : Bytes)
    (letter : UInt8) (id : Bytes) (feat : Bool) (hdig : mac.digest = some mdMac)
    (hd : 0 < md.size) (hb : 0 < mdMac.blockSize) :
    setMacKey P hp mac md k h letter id feat none =
      .ok (⟨hp.next + 1, hp.released⟩,
        { mac with
          key := some ⟨hp.next, rfcKey P md k h letter id (roundUp mdMac.blockSize md.size / md.size)⟩,
          keysz := roundUp mdMac.blockSize md.size, keyLen := macKeyLen feat mac mdMac }, 0) := by
  set m := roundUp mdMac.blockSize md.size / md.size
  have hm : m * md.size = roundUp mdMac.blockSize md.size := roundUp_div_mul _ _ hd
  have hpos : 0 < m := roundUp_div_pos hd hb
  simp only [setMacKey, hdig, deref_some, res_ok_bind, cryptoGetSize_ok hd, ← hm,
    Nat.mul_eq_zero, Nat.pos_iff_ne_zero.mp hpos, Nat.pos_iff_ne_zero.mp hd, or_self, if_false,
    Heap.malloc, failsIn, Bool.false_eq_true, writeAt_first P md k h letter id hpos, reduceCtorEq,
    res_pure]
  have hrun := @extendKey_run P md k h letter id hd m 1 (m * md.size) Nat.one_pos hpos
    ((Nat.sub_le _ _).trans (Nat.le_mul_of_pos_right m hd))
  simp only [Nat.one_mul, Nat.sub_self, Nat.mul_zero, Nat.add_zero] at hrun
  rw [hrun]
  rfl

/-- The `key_len` of an HMAC or UMAC slot fits in the buffer when the MAC
digest's output is no longer than its block and `d ≥ 16`. -/
theorem macKeyLen_le {feat : Bool} {mac : Mac} {mdMac : EvpMd} {d : Nat}
    (ht : mac.algoType ≠ .unset) (hsize : mdMac.size ≤ mdMac.blockSize) (hd : 16 ≤ d)
    (hb : 0 < mdMac.blockSize) : macKeyLen feat mac mdMac ≤ roundUp mdMac.blockSize d := by
  have hbs := (roundUp_bounds mdMac.blockSize d (by omega)).1
  unfold macKeyLen
  cases feat
  · calc 16 ≤ d := hd
      _ ≤ roundUp mdMac.blockSize d / d * d := Nat.le_mul_of_pos_left d (roundUp_div_pos (by omega) hb)
      _ = roundUp mdMac.blockSize d := roundUp_div_mul _ _ (by omega)
  cases hty : mac.algoType
  case unset => exact absurd hty ht
  case hmac => exact hsize.trans hbs
  all_goals exact hbs

/-- **`set_mac_key` is the RFC 4253 §7.2 derivation.**  For a key-exchange
digest of output size `d > 0`: on every positive multiple `m·d` the extension
loop stops after `m - 1` rounds of five digest calls, every write inside the
buffer, with `K1 || … || Km`; a shorter derivation is a prefix of a longer one;
and `set_mac_key` stores `K1 || … || K(key_sz / d)` for
`key_sz = roundup(block size, d)`, with a `key_len` that fits in it when the MAC
digest's output is no longer than its block and `d ≥ 16`. -/
theorem setMacKey_rfc4253 (P : Prims) (md : EvpMd) (k h : Bytes) (letter : UInt8) (id : Bytes)
    (hd : 0 < md.size) :
    (∀ m, 0 < m →
      extendKey P md k h (m * md.size) none (m * md.size)
          (rfcKey P md k h letter id 1 ++ zeros ((m - 1) * md.size)) md.size 6 =
        .ok (.done (rfcKey P md k h letter id m) (m * md.size) (6 + 5 * (m - 1)))) ∧
    (∀ m n, m ≤ n → rfcKey P md k h letter id m = (rfcKey P md k h letter id n).take (m * md.size)) ∧
    (∀ (hp : Heap) (mac : Mac) (mdMac : EvpMd) (feat : Bool), mac.digest = some mdMac →
      0 < mdMac.blockSize →
      setMacKey P hp mac md k h letter id feat none =
          .ok (⟨hp.next + 1, hp.released⟩,
            { mac with
              key := some ⟨hp.next, rfcKey P md k h letter id (roundUp mdMac.blockSize md.size / md.size)⟩,
              keysz := roundUp mdMac.blockSize md.size, keyLen := macKeyLen feat mac mdMac }, 0) ∧
        (mac.algoType ≠ .unset → mdMac.size ≤ mdMac.blockSize → 16 ≤ md.size →
          macKeyLen feat mac mdMac ≤ roundUp mdMac.blockSize md.size)) := by
  refine ⟨fun m hm => ?_, fun m n => rfcKey_eq_take P md k h letter id,
    fun hp mac mdMac feat hdig hb =>
      ⟨setMacKey_ok P hp k h letter id feat hdig hd hb, fun ht hs h16 => macKeyLen_le ht hs h16 hb⟩⟩
  have := @extendKey_run P md k h letter id hd m 1 (m * md.size) Nat.one_pos hm
    ((Nat.sub_le _ _).trans (Nat.le_mul_of_pos_right m hd))
  simpa only [Nat.one_mul, Nat.sub_self, Nat.mul_zero, Nat.add_zero] using this

/-- Two blocks of a four-byte digest: the loop runs once. -/
theorem setMacKey_rfc4253_twoBlocks :
    extendKey Prims.toy ⟨"t", 4, 10⟩ [1] [2] (2 * 4) none (2 * 4)
        (rfcKey Prims.toy ⟨"t", 4, 10⟩ [1] [2] 69 [3] 1 ++ zeros ((2 - 1) * 4)) 4 6 =
      .ok (.done (rfcKey Prims.toy ⟨"t", 4, 10⟩ [1] [2] 69 [3] 2) (2 * 4) (6 + 5 * (2 - 1))) :=
  (setMacKey_rfc4253 Prims.toy ⟨"t", 4, 10⟩ [1] [2] 69 [3] (by decide)).1 2 (by decide)

end ProxySshMac
