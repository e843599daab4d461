import ProxySshMac.Direction

/-!
# Computing and checking a tag: `get_mac`

`get_mac` (lines 233-411) writes the packet into a `palloc`ed buffer of `bufsz`
bytes, `bufsz` a `uint32_t`, through the `proxy_ssh_msg_write_*` routines:
`seqno || packet_len || padding_len || payload || padding` for HMAC, and
`packet_len || padding_len || payload || padding` with the nonce `seqno` in
eight bytes for UMAC.  The tag lands in a `pcalloc`ed buffer of
`EVP_MAX_MD_SIZE` bytes; `mac_len` is the primitive's length unless the
catalog truncates.  On the read path `memcmp` compares `mac_len` bytes with
`pkt->mac`; on both paths the tag is then copied to `pkt->mac`.

`proxy_ssh_mac_read_data` and `proxy_ssh_mac_write_data` (lines 792-815,
920-943) run it on the active slot, or let the packet through untagged when that
slot holds no key.
-/

namespace ProxySshMac

/-- `PROXY_SSH_MAC_FL_READ_MAC` or `PROXY_SSH_MAC_FL_WRITE_MAC`. -/
inductive MacFlag
  | read
  | write
  deriving DecidableEq, Repr

/-- `EVP_MAX_MD_SIZE`. -/
def evpMaxMdSize : Nat := 64

/-- The payload and the padding as `proxy_ssh_msg_write_data` reads them:
`payload_len` and `padding_len` bytes. -/
def packetBody (pkt : Packet) : Res (Bytes × Bytes) := do
  pure (← readBytes pkt.payload pkt.payloadLen.toNat, ← readBytes pkt.padding pkt.paddingLen.toNat)

/-- The bytes of the HMAC branch (lines 241-253), `bufsz = 8 + packet_len + 64`
truncated to 32 bits; `len` counts exactly what was written. -/
def hmacInput (pkt : Packet) : Res Bytes := do
  let (payload, padding) ← packetBody pkt
  let b ← MsgBuf.writeAll ⟨[], (8 + pkt.packetLen.toNat + 64) % 2 ^ 32⟩
    [be32 pkt.seqno, be32 pkt.packetLen, [pkt.paddingLen], payload, padding]
  pure b.data

/-- The bytes of the UMAC branch (lines 297-308), `bufsz = 4 + packet_len + 64`;
the primitive hashes the first `bufsz - buflen` of them. -/
def umacInput (pkt : Packet) : Res Bytes := do
  let (payload, padding) ← packetBody pkt
  let bufsz := (4 + pkt.packetLen.toNat + 64) % 2 ^ 32
  let b ← MsgBuf.writeAll ⟨[], bufsz⟩ [be32 pkt.packetLen, [pkt.paddingLen], payload, padding]
  pure (b.data.take (bufsz - b.buflen))

/-- What `get_mac` has before it compares: `none` when an `HMAC_*` call fails
(`ok = false`, or `HMAC_Init_ex(ctx, NULL, 0, NULL)` on a context that was never
keyed), else `mac_data` and the primitive's `mac_len`.  A slot of neither type
leaves `mac_len` at `0`. -/
def rawMac (P : Prims) (pkt : Packet) (mac : Mac) (hctx : HmacCtx) (uctx : Option UmacCtx)
    (ok : Bool) : Res (Option (Bytes × Nat)) :=
  match mac.algoType, mac.algoType.umacWidth with
  | .hmac, _ => do
    let data ← hmacInput pkt
    match hctx with
    | .keyed md key =>
      if ok then pure (some (← writeAt (zeros evpMaxMdSize) 0 (P.hmac md key data), md.size))
      else pure none
    | .fresh => pure none
    | .freed => .error .undefined
  | _, some w => do
    let data ← umacInput pkt
    let c ← umacReset w uctx
    pure (some (← writeAt (zeros evpMaxMdSize) 0 (P.umac w c.key (be64 pkt.seqno.toNat) data),
      w.tagLen))
  | _, none => pure (some (zeros evpMaxMdSize, 0))

/-- `get_mac`: the packet as it leaves, and the return value.  A zero
`mac_len` clears `pkt->mac`; a truncation of the catalog replaces `mac_len`;
reading compares `mac_len` bytes of `pkt->mac`. -/
def getMac (P : Prims) (pkt : Packet) (mac : Mac) (hctx : HmacCtx) (uctx : Option UmacCtx)
    (flag : MacFlag) (ok : Bool) : Res (Packet × Int) := do
  match ← rawMac P pkt mac hctx uctx ok with
  | none => pure (pkt, -1)
  | some (macData, macLen) =>
    if macLen = 0 then return ({ pkt with mac := [], macLen := 0 }, -1)
    let macLen := if mac.macLen ≠ 0 then mac.macLen else macLen
    let computed ← readBytes macData macLen
    if flag = .read then
      if computed ≠ (← readBytes pkt.mac macLen) then return (pkt, -1)
    return ({ pkt with mac := computed, macLen }, 0)

/-- The tag the primitive computes does not depend on the tag a packet carries. -/
theorem rawMac_tagged (P : Prims) (pkt : Packet) (m : Bytes) (n : Nat) (mac : Mac) (hctx : HmacCtx)
    (uctx : Option UmacCtx) (ok : Bool) :
    rawMac P { pkt with mac := m, macLen := n } mac hctx uctx ok = rawMac P pkt mac hctx uctx ok := rfl

/-- **When `get_mac` returns `0`.**  The primitive produced a tag of nonzero
length, `mac_len` bytes of it were read, on the read path the packet carried the
same `mac_len` bytes, and the packet leaves with them. -/
theorem getMac_ok {P : Prims} {pkt tagged : Packet} {mac : Mac} {hctx : HmacCtx}
    {uctx : Option UmacCtx} {flag : MacFlag} {ok : Bool}
    (h : getMac P pkt mac hctx uctx flag ok = .ok (tagged, 0)) :
    ∃ macData macLen computed, rawMac P pkt mac hctx uctx ok = .ok (some (macData, macLen)) ∧
      macLen ≠ 0 ∧ readBytes macData (if mac.macLen = 0 then macLen else mac.macLen) = .ok computed ∧
      (flag = .read → readBytes pkt.mac (if mac.macLen = 0 then macLen else mac.macLen) = .ok computed) ∧
      tagged = { pkt with mac := computed, macLen := if mac.macLen = 0 then macLen else mac.macLen } := by
  unfold getMac at h
  cases hr : rawMac P pkt mac hctx uctx ok with
  | error e => rw [hr] at h; cases h
  | ok x =>
    rw [hr, res_ok_bind] at h
    rcases x with _ | ⟨macData, macLen⟩
    · cases h
    dsimp only at h
    split at h
    · cases h
    rename_i h0
    simp only [ne_eq, ite_not] at h
    cases hc : readBytes macData (if mac.macLen = 0 then macLen else mac.macLen) with
    | error e => rw [hc] at h; cases h
    | ok computed =>
      rw [hc, res_ok_bind] at h
      refine ⟨macData, macLen, computed, rfl, h0, hc, ?_⟩
      cases flag with
      | write =>
        simp only [res_pure, res_ok_bind, reduceCtorEq, ↓reduceIte, Except.ok.injEq, Prod.mk.injEq] at h
        exact ⟨nofun, h.1.symm⟩
      | read =>
        simp only [res_pure, res_ok_bind, ↓reduceIte] at h
        obtain ⟨c, hp, h⟩ := res_bind_eq_ok h
        split at h
        · simp only [res_pure, res_ok_bind, Except.ok.injEq, Prod.mk.injEq] at h
          exact ⟨fun _ => by rwa [‹computed = c›], h.1.symm⟩
        · simp only [res_pure, Except.ok.injEq, Prod.mk.injEq] at h
          exact absurd h.2 (by decide)

/-- `proxy_ssh_mac_read_data` and `proxy_ssh_mac_write_data`: with no key in
the active slot the packet goes untagged and is accepted. -/
def macData (P : Prims) (d : Dir) (flag : MacFlag) (pkt : Packet) (ok : Bool) : Res (Packet × Int) :=
  if (d.macs d.idx).key.isNone then .ok ({ pkt with mac := [], macLen := 0 }, 0)
  else getMac P pkt (d.macs d.idx) (d.hmacCtxs d.idx) (d.umacCtxs d.idx) flag ok

/-- `proxy_ssh_mac_read_data`. -/
def readData (P : Prims) (d : Dir) (pkt : Packet) (ok : Bool) : Res (Packet × Int) :=
  macData P d .read pkt ok

/-- `proxy_ssh_mac_write_data`. -/
def writeData (P : Prims) (d : Dir) (pkt : Packet) (ok : Bool) : Res (Packet × Int) :=
  macData P d .write pkt ok

end ProxySshMac
