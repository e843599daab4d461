import ProxySshMac.Kdf

/-!
# When a digest call of `set_mac_key` fails

Every `EVP_Digest*` call of `set_mac_key` (lines 456-644) is checked, and every
failure returns `-1` through the same cleanup: `pr_memscrub(key, key_sz)` once
digest output may be in the buffer (from the first `EVP_DigestFinal` on),
`free(key)`, and `EVP_MD_CTX_free(pctx)` (OpenSSL 1.1.0 and later).  The struct
is written only after the loop.

`setMacKey` leaves the digest context out.  `setMacKeyCtx` is `set_mac_key`
with it, as a count of the contexts `EVP_MD_CTX_new` has handed out and
`EVP_MD_CTX_free` not yet taken back; `setMacKeyCtx_eq` says that it is
`setMacKey` with the count as it was, on every path.  `extendKey_failed` runs
the extension loop into a failing call, `extendKey_late` past its last one, and
`setMacKey_digest_failure` is every failure of the call.
-/

namespace ProxySshMac

/-- `EVP_MD_CTX_new()` (ghost): one more live digest context. -/
def mdCtxNew (ctxs : Nat) : Nat := ctxs + 1

/-- `EVP_MD_CTX_free(pctx)` (ghost): one live digest context fewer. -/
def mdCtxFree (ctxs : Nat) : Nat := ctxs - 1

@[simp] theorem mdCtxFree_mdCtxNew (ctxs : Nat) : mdCtxFree (mdCtxNew ctxs) = ctxs := rfl

/-- `set_mac_key` with the digest context it works in: `pctx = EVP_MD_CTX_new()`
after the key buffer (line 446), and `EVP_MD_CTX_free(pctx)` on every return
after it. -/
def setMacKeyCtx (P : Prims) (hp : Heap) (ctxs : Nat) (mac : Mac) (md : EvpMd) (k h : Bytes)
    (letter : UInt8) (id : Bytes) (macLenFeature : Bool) (fail : Option Nat) :
    Res (Heap × Nat × Mac × Int) := do
  let mdMac ← deref mac.digest
  let keySz ← cryptoGetSize mdMac.blockSize md.size
  if keySz = 0 then
    return (hp, ctxs, mac, if (← strcmpEq mac.algo "none") then 0 else -1)
  let (hp, buf) := hp.malloc keySz
  let ctxs := mdCtxNew ctxs
  if failsIn fail 0 5 then
    return (hp.free buf, mdCtxFree ctxs, mac, -1)
  let key ← writeAt buf.bytes 0 (P.digest md (k ++ h ++ letter :: id))
  if fail = some 5 then
    return (hp.free ⟨buf.id, scrub keySz key⟩, mdCtxFree ctxs, mac, -1)
  match ← extendKey P md k h keySz fail keySz key md.size 6 with
  | .failed key => return (hp.free ⟨buf.id, key⟩, mdCtxFree ctxs, mac, -1)
  | .done key _ _ =>
    let keyLen := macKeyLen macLenFeature mac mdMac
    return (hp, mdCtxFree ctxs, { mac with key := some ⟨buf.id, key⟩, keysz := keySz, keyLen }, 0)

/-- **No digest context is lost.**  On every path `set_mac_key` frees the
context it allocated, and apart from it does what `setMacKey` does. -/
theorem setMacKeyCtx_eq (P : Prims) (hp : Heap) (ctxs : Nat) (mac : Mac) (md : EvpMd) (k h : Bytes)
    (letter : UInt8) (id : Bytes) (feat : Bool) (fail : Option Nat) :
    setMacKeyCtx P hp ctxs mac md k h letter id feat fail =
      (fun r => (r.1, ctxs, r.2)) <$> setMacKey P hp mac md k h letter id feat fail := by
  simp only [setMacKeyCtx, setMacKey, map_bind, mdCtxFree_mdCtxNew]
  congr 1; funext mdMac; congr 1; funext keySz
  split
  · simp only [map_bind, map_pure]
  split
  · rfl
  simp only [map_bind, res_pure, res_ok_bind]
  congr 1; funext key
  split
  · rfl
  simp only [map_bind, res_pure, res_ok_bind]
  congr 1; funext r
  cases r <;> rfl

section Loop

variable {P : Prims} {md : EvpMd} {k h : Bytes}

/-- **A failure inside the loop.**  With `j` of `m` blocks derived and the next
round's first call numbered `5j + 1`, a failing call `n ≤ 5m` ends the loop with
the buffer scrubbed whole: its `EVP_DigestFinal` may have written, the others
find the buffer as the rounds before left it. -/
theorem extendKey_failed (hd : 0 < md.size) {m n : Nat} (hn : n ≤ 5 * m) :
    ∀ fuel j (key : Bytes), m - j ≤ fuel → key.length = m * md.size → 5 * j + 1 ≤ n →
      extendKey P md k h (m * md.size) (some n) fuel key (j * md.size) (5 * j + 1) =
        .ok (.failed (zeros (m * md.size))) := by
  intro fuel
  induction fuel with
  | zero => intro j key hf _ hj; omega
  | succ fuel ih =>
    intro j key hf hkey hj
    have hjm : j < m := by omega
    have hfit : j * md.size + md.size ≤ m * md.size := by
      rw [← Nat.succ_mul]; exact Nat.mul_le_mul_right _ hjm
    rw [extendKey, if_pos (by omega)]
    by_cases hin : failsIn (some n) (5 * j + 1) 4
    · rw [if_pos hin, scrub_self hkey.le, hkey]
    rw [if_neg hin]
    have hw : writeAt key (j * md.size) (P.digest md (k ++ h ++ key.take (j * md.size))) = .ok _ :=
      writeAt_ok (by rw [P.digest_length, hkey]; exact hfit)
    have hlen := (writeAt_length hw).trans hkey
    rw [hw, res_ok_bind]
    by_cases hlast : some n = some (5 * j + 1 + 4)
    · rw [if_pos hlast, scrub_self hlen.le, hlen]
    rw [if_neg hlast]
    simp only [failsIn, Bool.and_eq_true, decide_eq_true_eq, not_and, not_lt] at hin
    simp only [Option.some.injEq] at hlast
    have := ih (j + 1) _ (by omega) hlen (by omega)
    rwa [Nat.succ_mul, show 5 * (j + 1) + 1 = 5 * j + 1 + 5 by omega] at this
/-- The loop never reaches a call numbered past `5m`. -/
theorem extendKey_late {m n : Nat} (hn : 5 * m < n) :
    ∀ fuel j (key : Bytes), j ≤ m →
      extendKey P md k h (m * md.size) (some n) fuel key (j * md.size) (5 * j + 1) =
        extendKey P md k h (m * md.size) none fuel key (j * md.size) (5 * j + 1) := by
  intro fuel
  induction fuel with
  | zero => intro j key _; rfl
  | succ fuel ih =>
    intro j key hj
    rw [extendKey, extendKey]
    split
    · have hjm : j < m := by
        by_contra hc
        exact absurd ‹j * md.size < m * md.size› (not_lt.mpr (Nat.mul_le_mul_right _ (not_lt.mp hc)))
      have hnot : failsIn (some n) (5 * j + 1) 4 = false := by simp [failsIn]; omega
      simp only [hnot, Bool.false_eq_true, if_false, Option.some.injEq, reduceCtorEq]
      congr 1; funext key'
      rw [if_neg (by omega), ← Nat.succ_mul, show 5 * j + 1 + 5 = 5 * (j + 1) + 1 by omega]
      exact ih (j + 1) key' hjm
    · rfl
end Loop

/-- A failing call `n ≤ 5·(key_sz / d)` frees the buffer zeroed and leaves the
struct as it was. -/
theorem setMacKey_failed (P : Prims) (hp : Heap) {mac : Mac} {mdMac md : EvpMd} (k h : Bytes)
    (letter : UInt8) (id : Bytes) (feat : Bool) (hdig : mac.digest = some mdMac)
    (hd : 0 < md.size) (hb : 0 < mdMac.blockSize) {n : Nat}
    (hn : n ≤ 5 * (roundUp mdMac.blockSize md.size / md.size)) :
    setMacKey P hp mac md k h letter id feat (some n) =
      .ok (⟨hp.next + 1, ⟨hp.next, zeros (roundUp mdMac.blockSize md.size)⟩ :: hp.released⟩, mac, -1) := by
  set m := roundUp mdMac.blockSize md.size / md.size
  have hm : m * md.size = roundUp mdMac.blockSize md.size := roundUp_div_mul _ _ hd
  have hpos : 0 < m := roundUp_div_pos hd hb
  simp only [setMacKey, hdig, deref_some, res_ok_bind, cryptoGetSize_ok hd, ← hm,
    Nat.mul_eq_zero, Nat.pos_iff_ne_zero.mp hpos, Nat.pos_iff_ne_zero.mp hd, or_self, if_false,
    Heap.malloc, res_pure]
  by_cases h5 : n < 5
  · simp only [failsIn, Nat.zero_le, h5, decide_True, Bool.and_self, if_true]
    rfl
  simp only [failsIn, h5, decide_False, Bool.and_false, Bool.false_eq_true, if_false,
    writeAt_first P md k h letter id hpos, res_ok_bind]
  have hlen : (rfcKey P md k h letter id 1 ++ zeros ((m - 1) * md.size)).length = m * md.size := by
    rw [List.length_append, rfcKey_length, zeros_length, ← Nat.add_mul, Nat.add_sub_cancel' hpos]
  by_cases h5' : n = 5
  · rw [if_pos (congrArg some h5'), scrub_self hlen.le, hlen]
    rfl
  have hloop := @extendKey_failed P md k h hd m n hn (m * md.size) 1 _
    ((Nat.sub_le _ _).trans (Nat.le_mul_of_pos_right m hd)) hlen (by omega)
  simp only [Nat.one_mul, Nat.reduceMul, Nat.reduceAdd] at hloop
  rw [if_neg (by simpa using h5'), hloop]
  rfl

/-- A failure index past the last call changes nothing. -/
theorem setMacKey_late (P : Prims) (hp : Heap) {mac : Mac} {mdMac md : EvpMd} (k h : Bytes)
    (letter : UInt8) (id : Bytes) (feat : Bool) (hdig : mac.digest = some mdMac)
    (hd : 0 < md.size) (hb : 0 < mdMac.blockSize) {n : Nat}
    (hn : 5 * (roundUp mdMac.blockSize md.size / md.size) < n) :
    setMacKey P hp mac md k h letter id feat (some n) = setMacKey P hp mac md k h letter id feat none := by
  set m := roundUp mdMac.blockSize md.size / md.size
  have hm : m * md.size = roundUp mdMac.blockSize md.size := roundUp_div_mul _ _ hd
  have hpos : 0 < m := roundUp_div_pos hd hb
  have hnot : failsIn (some n) 0 5 = false := by simp [failsIn]; omega
  have hloop := @extendKey_late P md k h m n hn (m * md.size) 1
    (rfcKey P md k h letter id 1 ++ zeros ((m - 1) * md.size)) hpos
  simp only [Nat.one_mul, Nat.reduceMul, Nat.reduceAdd] at hloop
  simp only [setMacKey, hdig, deref_some, res_ok_bind, cryptoGetSize_ok hd, ← hm,
    Nat.mul_eq_zero, Nat.pos_iff_ne_zero.mp hpos, Nat.pos_iff_ne_zero.mp hd, or_self, if_false,
    Heap.malloc, res_pure, hnot, show failsIn none 0 5 = false from rfl, Bool.false_eq_true,
    writeAt_first P md k h letter id hpos,
    Option.some.injEq, show n ≠ 5 by omega, reduceCtorEq, hloop]

/-- **Every failed digest call is cleaned up.**  For a MAC digest with a block
and a key-exchange digest of output size `d > 0`, `set_mac_key` makes the digest
calls `0, 1, …, 5·(key_sz / d)`.  When any of them fails it returns `-1`, leaves
the struct (`key`, `keysz`, `key_len` with the rest) as it was, has freed the
digest context it allocated, and frees the key buffer with every byte zero.  A
failure index past the last call is never reached. -/
theorem setMacKey_digest_failure (P : Prims) (hp : Heap) (ctxs : Nat) {mac : Mac}
    {mdMac md : EvpMd} (k h : Bytes) (letter : UInt8) (id : Bytes) (feat : Bool)
    (hdig : mac.digest = some mdMac) (hd : 0 < md.size) (hb : 0 < mdMac.blockSize) :
    (∀ n ≤ 5 * (roundUp mdMac.blockSize md.size / md.size),
      setMacKeyCtx P hp ctxs mac md k h letter id feat (some n) =
          .ok (⟨hp.next + 1, ⟨hp.next, zeros (roundUp mdMac.blockSize md.size)⟩ :: hp.released⟩,
            ctxs, mac, -1) ∧
        setMacKey P hp mac md k h letter id feat (some n) =
          .ok (⟨hp.next + 1, ⟨hp.next, zeros (roundUp mdMac.blockSize md.size)⟩ :: hp.released⟩,
            mac, -1)) ∧
    (∀ n, 5 * (roundUp mdMac.blockSize md.size / md.size) < n →
      setMacKey P hp mac md k h letter id feat (some n) = setMacKey P hp mac md k h letter id feat none) := by
  refine ⟨fun n hn => ?_, fun n hn => setMacKey_late P hp k h letter id feat hdig hd hb hn⟩
  have hfail := setMacKey_failed P hp k h letter id feat hdig hd hb hn
  exact ⟨by rw [setMacKeyCtx_eq, hfail]; rfl, hfail⟩

/-- Keying `hmac-sha1` from a SHA-1 exchange: `key_sz = 80`, four blocks, calls
`0` to `20`; the first `EVP_DigestFinal` of the second round (call `10`) fails. -/
theorem setMacKey_digest_failure_sha1 :
    setMacKeyCtx Prims.toy ⟨0, []⟩ 1 { Mac.empty with digest := some EvpMd.sha1 } EvpMd.sha1 [1] [2]
        69 [3] true (some 10) =
      .ok (⟨1, [⟨0, zeros 80⟩]⟩, 1, { Mac.empty with digest := some EvpMd.sha1 }, -1) :=
  ((setMacKey_digest_failure Prims.toy ⟨0, []⟩ 1 [1] [2] 69 [3] true
    (show ({ Mac.empty with digest := some EvpMd.sha1 } : Mac).digest = some EvpMd.sha1 from rfl)
    (by decide) (by decide)).1 10 (by decide)).1

end ProxySshMac
