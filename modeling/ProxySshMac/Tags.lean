import ProxySshMac.Session

/-!
# What a tag covers, and how a received tag is checked

`get_mac` (lines 233-411) writes a packet into a `palloc`ed buffer of `bufsz`
bytes and hands the primitive what it wrote:

| slot | `bufsz` | message | nonce | message length |
| --- | --- | --- | --- | --- |
| HMAC | `8 + packet_len + 64` | `be32(seqno) ‖ be32(packet_len) ‖ padding_len ‖ payload ‖ padding` | none | `len` |
| UMAC | `4 + packet_len + 64` | `be32(packet_len) ‖ padding_len ‖ payload ‖ padding` | `be64(seqno)` | `bufsz - buflen` |

For every packet the framing layer hands it (`Packet.Framed`), the `uint32_t`
`bufsz` does not wrap, every write fits with 64 bytes to spare, and the
primitive gets exactly these bytes.  The fields sit at fixed widths, so the
pair (message, nonce) determines the packet (`Packet.Framed.authInput_inj`), and
a tag made for one packet passes for another only when the primitive collides
(`getMac_authenticates`).

On the read path `get_mac` compares `mac_len` bytes of `pkt->mac` with the tag
(lines 340-345) and never reads `pkt->mac_len`: a longer received tag whose
first `mac_len` bytes match is accepted, and a shorter one is read past its end
(`readData_ignores_macLen`).
-/

namespace ProxySshMac

/-! ## The authenticated input -/

/-- What the framing layer guarantees of a packet it hands to `get_mac`:
`packet_len = 1 + payload_len + padding_len`, `packet_len ≤ 2^32 - 73`, and
buffers that hold the `payload_len` bytes of the payload and the `padding_len`
bytes of the padding. -/
structure Packet.Framed (pkt : Packet) : Prop where
  packetLen_eq : pkt.packetLen.toNat = 1 + pkt.payloadLen.toNat + pkt.paddingLen.toNat
  packetLen_le : pkt.packetLen.toNat ≤ 2 ^ 32 - 73
  payload_le : pkt.payloadLen.toNat ≤ pkt.payload.length
  padding_le : pkt.paddingLen.toNat ≤ pkt.padding.length

instance Packet.decFramed (pkt : Packet) : Decidable pkt.Framed :=
  decidable_of_iff (pkt.packetLen.toNat = 1 + pkt.payloadLen.toNat + pkt.paddingLen.toNat ∧
      pkt.packetLen.toNat ≤ 2 ^ 32 - 73 ∧ pkt.payloadLen.toNat ≤ pkt.payload.length ∧
      pkt.paddingLen.toNat ≤ pkt.padding.length)
    ⟨fun ⟨a, b, c, d⟩ => ⟨a, b, c, d⟩, fun ⟨a, b, c, d⟩ => ⟨a, b, c, d⟩⟩

/-- The payload: the first `payload_len` bytes of its buffer. -/
def Packet.payloadBytes (pkt : Packet) : Bytes := pkt.payload.take pkt.payloadLen.toNat

/-- The padding: the first `padding_len` bytes of its buffer. -/
def Packet.paddingBytes (pkt : Packet) : Bytes := pkt.padding.take pkt.paddingLen.toNat

/-- `be32(packet_len) ‖ padding_len ‖ payload ‖ padding`: the UMAC message. -/
def Packet.body (pkt : Packet) : Bytes :=
  be32 pkt.packetLen ++ pkt.paddingLen :: (pkt.payloadBytes ++ pkt.paddingBytes)

/-- `be32(seqno) ‖ be32(packet_len) ‖ padding_len ‖ payload ‖ padding`: the HMAC
message. -/
def Packet.hmacMessage (pkt : Packet) : Bytes := be32 pkt.seqno ++ pkt.body

section Framed

variable {pkt : Packet} (hf : pkt.Framed)
include hf

theorem Packet.Framed.body_length : pkt.body.length = 4 + pkt.packetLen.toNat := by
  simp [Packet.body, Packet.payloadBytes, Packet.paddingBytes, hf.payload_le, hf.padding_le,
    hf.packetLen_eq]
  omega

theorem Packet.Framed.packetBody : packetBody pkt = .ok (pkt.payloadBytes, pkt.paddingBytes) := by
  simp only [ProxySshMac.packetBody, readBytes_ok hf.payload_le, readBytes_ok hf.padding_le,
    res_ok_bind, res_pure]
  rfl

/-- **The HMAC writes fit.**  `bufsz = 8 + packet_len + 64` does not wrap, and
the message leaves 64 bytes of it unused. -/
theorem Packet.Framed.hmac_writes :
    MsgBuf.writeAll ⟨[], (8 + pkt.packetLen.toNat + 64) % 2 ^ 32⟩
        [be32 pkt.seqno, be32 pkt.packetLen, [pkt.paddingLen], pkt.payloadBytes, pkt.paddingBytes] =
      .ok ⟨pkt.hmacMessage, 64⟩ := by
  have hb := hf.body_length
  have hpl := hf.packetLen_le
  simp only [Packet.body, List.length_append, List.length_cons, be32_length] at hb
  rw [MsgBuf.writeAll_ok] <;>
    simp only [List.map_cons, List.map_nil, List.sum_cons, List.sum_nil, be32_length,
      List.length_singleton, List.flatten_cons, List.flatten_nil, List.nil_append, List.append_nil,
      Packet.hmacMessage, Packet.body, List.singleton_append, List.append_assoc]
  · congr 2; omega
  · omega

/-- **The UMAC writes fit.**  `bufsz = 4 + packet_len + 64` does not wrap, and
the message leaves 64 bytes of it unused. -/
theorem Packet.Framed.umac_writes :
    MsgBuf.writeAll ⟨[], (4 + pkt.packetLen.toNat + 64) % 2 ^ 32⟩
        [be32 pkt.packetLen, [pkt.paddingLen], pkt.payloadBytes, pkt.paddingBytes] =
      .ok ⟨pkt.body, 64⟩ := by
  have hb := hf.body_length
  have hpl := hf.packetLen_le
  simp only [Packet.body, List.length_append, List.length_cons, be32_length] at hb
  rw [MsgBuf.writeAll_ok] <;>
    simp only [List.map_cons, List.map_nil, List.sum_cons, List.sum_nil, be32_length,
      List.length_singleton, List.flatten_cons, List.flatten_nil, List.nil_append, List.append_nil,
      Packet.body, List.singleton_append, List.append_assoc]
  · congr 2; omega
  · omega

/-- The HMAC branch hashes exactly the HMAC message. -/
theorem Packet.Framed.hmacInput : hmacInput pkt = .ok pkt.hmacMessage := by
  simp only [ProxySshMac.hmacInput, hf.packetBody, res_ok_bind, hf.hmac_writes, res_pure]

/-- The UMAC branch hashes `bufsz - buflen` bytes: exactly the UMAC message. -/
theorem Packet.Framed.umacInput : umacInput pkt = .ok pkt.body := by
  have hb := hf.body_length
  have hpl := hf.packetLen_le
  simp only [ProxySshMac.umacInput, hf.packetBody, res_ok_bind, hf.umac_writes, res_pure]
  rw [Nat.mod_eq_of_lt (by omega), List.take_of_length_le (by omega)]

end Framed

/-! ## The keyed primitive -/

variable {P : Prims} {pkt : Packet} {mac : Mac} {hctx : HmacCtx} {uctx : Option UmacCtx} {ok : Bool}

/-- **`get_mac` on the read path**, once the primitive has produced its tag:
`mac_len` bytes of `pkt->mac` are read and compared, and nothing else of the
packet's tag is looked at. -/
theorem getMac_read {macData computed : Bytes} {n : Nat}
    (hr : rawMac P pkt mac hctx uctx ok = .ok (some (macData, n))) (hn : n ≠ 0)
    (hc : readBytes macData (if mac.macLen = 0 then n else mac.macLen) = .ok computed) :
    getMac P pkt mac hctx uctx .read ok =
      readBytes pkt.mac (if mac.macLen = 0 then n else mac.macLen) >>= fun r =>
        if computed = r then
          .ok ({ pkt with mac := computed, macLen := if mac.macLen = 0 then n else mac.macLen }, 0)
        else .ok (pkt, -1) := by
  simp only [getMac, hr, res_ok_bind, hn, if_false, ne_eq, ite_not, hc, ↓reduceIte, res_pure]

/-- **The received tag's length is never checked.**  Whenever
`proxy_ssh_mac_read_data` accepts a packet, it accepted the first `mac_len`
bytes of `pkt->mac`.  Then the same packet carrying those bytes followed by any
others, with any `pkt->mac_len`, is accepted too; and the same packet carrying
only a proper prefix of them, with `pkt->mac_len` its length, makes `memcmp`
read past the received tag. -/
theorem readData_ignores_macLen {d : Dir} {tagged : Packet}
    (h : readData P d pkt ok = .ok (tagged, 0)) :
    pkt.mac.take tagged.macLen = tagged.mac ∧
      (∀ extra n, readData P d { pkt with mac := tagged.mac ++ extra, macLen := n } ok = .ok (tagged, 0)) ∧
      (∀ n < tagged.macLen,
        readData P d { pkt with mac := tagged.mac.take n, macLen := n } ok = .error .undefined) := by
  unfold readData macData at h ⊢
  by_cases hk : (d.macs d.idx).key.isNone
  · simp only [hk, if_true, Except.ok.injEq, Prod.mk.injEq] at h
    obtain ⟨rfl, -⟩ := h
    simp only [hk, if_true]
    exact ⟨rfl, fun _ _ => trivial, fun n hn => absurd hn (Nat.not_lt_zero n)⟩
  simp only [hk, Bool.false_eq_true, if_false] at h ⊢
  obtain ⟨macData, m, c, hr, hm, hc, hread, rfl⟩ := getMac_ok h
  have hL := readBytes_length hc
  refine ⟨((readBytes_eq_ok (hread rfl)).2).symm, fun extra n => ?_, fun n hn => ?_⟩
  · rw [getMac_read ((rawMac_tagged ..).trans hr) hm hc]
    simp only [← hL, readBytes_ok (List.prefix_append c extra).length_le, List.take_left,
      res_ok_bind, if_true]
  · rw [getMac_read ((rawMac_tagged ..).trans hr) hm hc]
    simp only [← hL] at hn ⊢
    have hshort : ¬c.length ≤ (c.take n).length := by rw [List.length_take]; omega
    simp only [readBytes, hshort, if_false, res_error_bind]

/-- After `hmac-sha1` is keyed for reading, a packet carrying its 20-byte tag is
accepted; so is the packet carrying one byte more with `mac_len = 21`, while
the packet carrying the tag's first 10 bytes with `mac_len = 10` is read past. -/
theorem readData_ignores_macLen_sha1 :
    ∃ r, runRead Env.toy State.init.rd
        [.setAlgo "hmac-sha1", .setKey .sha1 [1, 2] [3] .client KeyOutcome.success] =
          .ok (r, [.ret 0, .ret 0]) ∧
      readData Env.toy.prims r.dir ⟨0, 5, 4, 0, [], [0, 0, 0, 0], List.replicate 20 97, 20⟩ true =
        .ok (⟨0, 5, 4, 0, [], [0, 0, 0, 0], List.replicate 20 97, 20⟩, 0) ∧
      readData Env.toy.prims r.dir ⟨0, 5, 4, 0, [], [0, 0, 0, 0], List.replicate 20 97 ++ [0], 21⟩ true =
        .ok (⟨0, 5, 4, 0, [], [0, 0, 0, 0], List.replicate 20 97, 20⟩, 0) ∧
      readData Env.toy.prims r.dir ⟨0, 5, 4, 0, [], [0, 0, 0, 0], List.replicate 10 97, 10⟩ true =
        .error .undefined := by
  have h : (match runRead Env.toy State.init.rd
        [.setAlgo "hmac-sha1", .setKey .sha1 [1, 2] [3] .client KeyOutcome.success] with
      | .ok (r, outs) => outs == [.ret 0, .ret 0] &&
          decide (readData Env.toy.prims r.dir ⟨0, 5, 4, 0, [], [0, 0, 0, 0], List.replicate 20 97, 20⟩ true =
            .ok (⟨0, 5, 4, 0, [], [0, 0, 0, 0], List.replicate 20 97, 20⟩, 0))
      | .error _ => false) = true := by
    decide
  split at h
  next r outs hr =>
    obtain ⟨ho, hacc⟩ := Bool.and_eq_true_iff.mp h
    have hbug := readData_ignores_macLen (of_decide_eq_true hacc)
    exact ⟨r, by rw [hr, beq_iff_eq.mp ho], of_decide_eq_true hacc, hbug.2.1 [0] 21,
      hbug.2.2 10 (by decide)⟩
  next => cases h

end ProxySshMac
