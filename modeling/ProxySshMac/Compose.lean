import ProxySshMac.Safety

/-!
# How the calls of one direction compose

`ProxySshMac.Safety` says that each call returns; this file says what two calls
in a row do, and what a call leaves alone.

* `setAlgo_last_wins`: of two `set_*_algo` calls before a `set_*_key`, the
  second decides, when the table knows its name, down to the count of live
  UMAC contexts: the first call's context is deleted by the second with the
  routine of its own width.  A second name the table does not know leaves the
  first name and type in the slot, with a `NULL` digest.
* `macData_setAlgo`: `set_*_algo` never changes how packets are tagged or
  checked, so a rekey being prepared does not disturb the traffic.
* `getMac_truncated`: a truncation of the table (`hmac-sha1-96`) cuts the tag of
  the untruncated algorithm to its first bytes.
-/

namespace ProxySshMac

open Function

/-- A slot update that keeps the slot's key leaves the slot `set_*_algo`
prepares where it was. -/
theorem Dir.target_update {d : Dir} {m : Mac} (u : Fin 2 → Option UmacCtx) (live : Nat)
    (hk : m.key = (d.macs d.target).key) :
    ({ d with macs := update d.macs d.target m, umacCtxs := u, umacLive := live } : Dir).target =
      d.target := by
  have hkey : (update d.macs d.target m d.idx).key = (d.macs d.idx).key := by
    by_cases h : d.idx = d.target
    · rw [h, update_same, hk]
    · rw [update_noteq h]
  show (if (update d.macs d.target m d.idx).key.isSome then nextIndex d.idx else d.idx) = d.target
  rw [hkey]
  rfl

/-- A second `set_*_algo` on the slot the first one prepared, when the first
kept the slot's key and left a UMAC context that the second deletes, back to
the count the first call's deletion left. -/
theorem setAlgo_after {C : Catalog} {d : Dir} {m : Mac} {u : Option UmacCtx} {live live₀ : Nat}
    {b : String} {md : EvpMd} {n : Nat} (hk : m.key = (d.macs d.target).key)
    (hc : clearUmac live u m.algoType = .ok (live₀, none))
    (hc0 : clearUmac d.umacLive (d.umacCtxs d.target) (d.macs d.target).algoType = .ok (live₀, none))
    (hprep : prepareMac m b md n = prepareMac (d.macs d.target) b md n)
    (hg : C.getDigest b = some (md, n)) :
    setAlgo C { d with macs := update d.macs d.target m
                       umacCtxs := update d.umacCtxs d.target u
                       umacLive := live } b = setAlgo C d b := by
  unfold setAlgo
  rw [Dir.target_update _ _ hk]
  simp only [update_same, hc, hc0, hg, res_ok_bind, update_idem, hprep]

/-- **The second `set_*_algo` decides.**  Two calls before a `set_*_key` give
the direction, and the return value, of the second call alone, when the table
knows its name.  The direction carries the count of live UMAC contexts, so the
context the first call allocated is deleted by the second: one that were only
dropped would leave one more live context than the second call alone. -/
theorem setAlgo_last_wins {C : Catalog} {d : Dir} (hu : UmacInv d) (a b : String)
    (hb : (C.getDigest b).isSome) :
    (setAlgo C d a >>= fun p => setAlgo C p.1 b) = setAlgo C d b := by
  obtain ⟨⟨md, n⟩, hg⟩ := Option.isSome_iff_exists.mp hb
  have hclr := (hu d.target).clearUmac d.umacLive
  obtain ⟨p, hp⟩ := @setAlgo_total C d hu a
  obtain ⟨live, u, hu1, hcase⟩ := setAlgo_ok hp
  rw [hclr, Except.ok.injEq, Prod.mk.injEq] at hu1
  obtain ⟨rfl, rfl⟩ := hu1
  rw [hp, res_ok_bind]
  rcases hcase with ⟨-, -, hd1⟩ | ⟨md', n', -, -, hd1⟩ <;> rw [hd1]
  · exact setAlgo_after rfl rfl hclr rfl hg
  · refine setAlgo_after rfl ?_ hclr rfl hg
    rw [(umacSlot_prepareMac _ a md' n' _).clearUmac, allocUmac_live, Nat.add_sub_cancel]

/-- A UMAC name, then an HMAC name, on the empty slot: the first call leaves
one live context, which the second deletes. -/
theorem setAlgo_last_wins_umac :
    UmacInv Dir.init ∧ (Catalog.toy.getDigest "hmac-sha1").isSome ∧
      (setAlgo Catalog.toy Dir.init "umac-64@openssh.com").map (·.1.umacLive) = .ok 1 ∧
      (setAlgo Catalog.toy Dir.init "umac-64@openssh.com" >>= fun p =>
          setAlgo Catalog.toy p.1 "hmac-sha1") = setAlgo Catalog.toy Dir.init "hmac-sha1" :=
  ⟨UmacInv.init, rfl, rfl, setAlgo_last_wins UmacInv.init _ _ rfl⟩

/-- A slot update at the prepared slot that keeps its key changes nothing
`read_data` and `write_data` look at: the active slot is another one, or holds
no key before and after. -/
theorem macData_update {d : Dir} {m : Mac} (u : Option UmacCtx) (live : Nat)
    (hk : m.key = (d.macs d.target).key) (P : Prims) (flag : MacFlag) (pkt : Packet) (ok : Bool) :
    macData P { d with macs := update d.macs d.target m
                       umacCtxs := update d.umacCtxs d.target u
                       umacLive := live } flag pkt ok = macData P d flag pkt ok := by
  unfold macData
  by_cases hkey : (d.macs d.idx).key.isSome
  · have hne : d.idx ≠ d.target := by
      simpa [Dir.target, hkey] using (nextIndex_ne d.idx).symm
    simp only [update_noteq hne]
  · have heq : d.target = d.idx := by simp [Dir.target, hkey]
    have hd : (d.macs d.idx).key = none := by simpa using hkey
    have hm : m.key = none := by rw [hk, heq, hd]
    rw [heq]
    simp only [update_same, hm, hd, Option.isNone_none, if_true]

/-- **`set_*_algo` never changes how packets are tagged or checked.**  Whatever
the name and whatever the direction: while the active slot holds a key,
`set_*_algo` prepares the other slot; while it holds none, packets go through
untagged before and after. -/
theorem macData_setAlgo {C : Catalog} {d d' : Dir} {a : String} {r : Int}
    (h : setAlgo C d a = .ok (d', r)) (P : Prims) (flag : MacFlag) (pkt : Packet) (ok : Bool) :
    macData P d' flag pkt ok = macData P d flag pkt ok := by
  obtain ⟨live, u, -, ⟨-, -, rfl⟩ | ⟨md, n, -, -, rfl⟩⟩ := setAlgo_ok h <;>
    exact macData_update _ _ (by rfl) P flag pkt ok

theorem macData_setAlgo_sha1 :
    setAlgo Catalog.toy Dir.init "hmac-sha1" =
        .ok ({ Dir.init with
          macs := update Dir.init.macs 0 (prepareMac Mac.empty "hmac-sha1" EvpMd.sha1 0)
          umacCtxs := update Dir.init.umacCtxs 0 none }, 0) ∧
      macData Prims.toy { Dir.init with
          macs := update Dir.init.macs 0 (prepareMac Mac.empty "hmac-sha1" EvpMd.sha1 0)
          umacCtxs := update Dir.init.umacCtxs 0 none } .write ⟨0, 5, 4, 0, [], [0, 0, 0, 0], [], 0⟩ true =
        macData Prims.toy Dir.init .write ⟨0, 5, 4, 0, [], [0, 0, 0, 0], [], 0⟩ true :=
  have h : setAlgo Catalog.toy Dir.init "hmac-sha1" =
      .ok ({ Dir.init with
        macs := update Dir.init.macs 0 (prepareMac Mac.empty "hmac-sha1" EvpMd.sha1 0)
        umacCtxs := update Dir.init.umacCtxs 0 none }, 0) := rfl
  ⟨h, macData_setAlgo h _ _ _ _⟩

/-- **A truncated tag is the start of the full one** (RFC 2104 §5: the tag of
`hmac-sha1-96` is the first 12 bytes of the tag of `hmac-sha1`).  Where a slot
the catalog does not truncate tags a packet, the same slot truncated to `n`
bytes, `0 < n` no longer than that tag, tags it with the tag's first `n`
bytes. -/
theorem getMac_truncated {P : Prims} {pkt tagged : Packet} {mac : Mac} {hctx : HmacCtx}
    {uctx : Option UmacCtx} {ok : Bool} (h : getMac P pkt mac hctx uctx .write ok = .ok (tagged, 0))
    (hm : mac.macLen = 0) {n : Nat} (hn0 : 0 < n) (hn : n ≤ tagged.macLen) :
    getMac P pkt { mac with macLen := n } hctx uctx .write ok =
      .ok ({ tagged with mac := tagged.mac.take n, macLen := n }, 0) := by
  obtain ⟨macData, L, computed, hr, hL, hc, -, rfl⟩ := getMac_ok h
  simp only [hm, if_true] at hc hn ⊢
  obtain ⟨hle, rfl⟩ := readBytes_eq_ok hc
  have hr' : rawMac P pkt { mac with macLen := n } hctx uctx ok = .ok (some (macData, L)) := hr
  simp only [getMac, hr', res_ok_bind, hL, if_false, ne_eq, Nat.pos_iff_ne_zero.mp hn0,
    not_false_eq_true, if_true, readBytes_ok (hn.trans hle), reduceCtorEq, res_pure,
    List.take_take, min_eq_left hn]

/-- `hmac-sha1` and `hmac-sha1-96` under one context. -/
theorem getMac_truncated_sha1 :
    getMac Prims.toy ⟨0, 5, 4, 0, [], [0, 0, 0, 0], [], 0⟩ { Mac.empty with algoType := .hmac }
        (.keyed EvpMd.sha1 []) none .write true =
      .ok (⟨0, 5, 4, 0, [], [0, 0, 0, 0], List.replicate 20 9, 20⟩, 0) ∧
    getMac Prims.toy ⟨0, 5, 4, 0, [], [0, 0, 0, 0], [], 0⟩
        { Mac.empty with algoType := .hmac, macLen := 12 } (.keyed EvpMd.sha1 []) none .write true =
      .ok (⟨0, 5, 4, 0, [], [0, 0, 0, 0], List.replicate 12 9, 12⟩, 0) :=
  have h : getMac Prims.toy ⟨0, 5, 4, 0, [], [0, 0, 0, 0], [], 0⟩ { Mac.empty with algoType := .hmac }
      (.keyed EvpMd.sha1 []) none .write true =
      .ok (⟨0, 5, 4, 0, [], [0, 0, 0, 0], List.replicate 20 9, 20⟩, 0) := by decide
  ⟨h, getMac_truncated h rfl (by decide) (by decide)⟩

end ProxySshMac
