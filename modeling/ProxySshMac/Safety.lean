import ProxySshMac.Generation
import ProxySshMac.KdfFailure
import ProxySshMac.Tags

/-!
# What a session never does: end the process

`mac.c` checks the results of its library calls but not the data its callers
and the digest table give it.  This file says when that is enough.

`CatalogInv` is a third invariant of a direction, beside `KeyInv` and `UmacInv`:
a slot with a digest has the name, truncation and type of one catalog entry
(`set_*_algo` fills the four together, `clear_mac` empties the digest and the
name together, and nothing else writes them), and every HMAC context is fresh
or keyed with a catalog digest, so none is used after `HMAC_CTX_free` during a
session.

With it, each exported call returns, from every reachable state, once the
caller meets the call's precondition (`Op.Pre`): `set_*_key` needs the slot it
will key to have a digest (a `set_*_algo` that found its name) and a key-exchange
digest with output; `read_data` and `write_data`, when the active slot holds a
key, need a framed packet, and `read_data` a received tag that holds the bytes
`get_mac` compares (`comparedLen`: the slot's `mac_len`, else the length of the
primitive's output); `get_read_algo` needs a key or a name in the active slot.
The digest table must keep to what OpenSSL and `crypto.c` guarantee
(`Catalog.Sane`).  Then a run ends the process only at a call made outside its
precondition.  The preconditions guard `EVP_MD_block_size`, handed the `NULL`
digest of a slot no `set_*_algo` prepared (a dereference, as in OpenSSL 1.1),
the division of `proxy_ssh_crypto_get_size` by a digest with no output, the
`strcmp` of `proxy_ssh_mac_get_read_algo` on a fresh session, and the `memcmp`
of `get_mac`, which reads `mac_len` bytes of the received tag whatever
`pkt->mac_len` says.

Along the way: exactly which names `get_*_algo` report, and that the digest
table knows each of them.
-/

namespace ProxySshMac

open Function

/-! ## Slots and contexts agree with the catalog -/

/-- A slot with a digest has the name, the digest, the truncation and the type
of one catalog entry. -/
def SlotCat (C : Catalog) (mac : Mac) : Prop :=
  ∀ md, mac.digest = some md →
    ∃ algo, mac.algo = some algo ∧ C.getDigest algo = some (md, mac.macLen) ∧
      mac.algoType = algoTypeOf algo

/-- An HMAC context as `HMAC_CTX_new`, `HMAC_CTX_reset` and `HMAC_Init_ex` leave
it: fresh, or keyed with a digest of the catalog; never freed. -/
def CtxCat (C : Catalog) : HmacCtx → Prop
  | .fresh => True
  | .keyed md _ => ∃ algo n, C.getDigest algo = some (md, n)
  | .freed => False

/-- **Slots and contexts of a direction agree with the catalog.** -/
structure CatalogInv (C : Catalog) (d : Dir) : Prop where
  slots : ∀ i, SlotCat C (d.macs i)
  ctxs : ∀ i, CtxCat C (d.hmacCtxs i)

theorem CatalogInv.init (C : Catalog) : CatalogInv C Dir.init :=
  ⟨fun _ _ h => (nomatch h), fun _ => trivial⟩

/-- A slot `set_mac_key` left: only the key, `keysz` and `key_len` changed. -/
theorem SlotCat.of_fields {C : Catalog} {mac mac' : Mac} (hs : SlotCat C mac)
    (hd : mac'.digest = mac.digest) (ha : mac'.algo = mac.algo) (hl : mac'.macLen = mac.macLen)
    (ht : mac'.algoType = mac.algoType) : SlotCat C mac' := by
  intro md hmd
  rw [hd] at hmd
  rw [ha, hl, ht]
  exact hs md hmd

/-- `set_mac_key` writes only the key, `keysz` and `key_len` of the slot. -/
theorem setMacKey_keeps {P : Prims} {hp hp' : Heap} {mac mac' : Mac} {md : EvpMd} {k h : Bytes}
    {letter : UInt8} {id : Bytes} {feat : Bool} {fail : Option Nat} {ret : Int}
    (hs : setMacKey P hp mac md k h letter id feat fail = .ok (hp', mac', ret)) :
    mac'.digest = mac.digest ∧ mac'.algo = mac.algo ∧ mac'.macLen = mac.macLen ∧
      mac'.algoType = mac.algoType := by
  obtain ⟨-, -, ⟨-, rfl⟩ | ⟨-, -, -, -, rfl⟩ | ⟨-, -, rfl⟩⟩ := setMacKey_cases hs <;>
    exact ⟨rfl, rfl, rfl, rfl⟩

/-- `init_mac` keeps the HMAC context, resets it, or keys it with the slot's
digest. -/
theorem initMac_hctx {mac : Mac} {hctx hctx' : HmacCtx} {uctx uctx' : Option UmacCtx} {ok : Bool}
    {r : Int} (h : initMac mac hctx uctx ok = .ok (hctx', uctx', r)) :
    hctx' = hctx ∨ hctx' = .fresh ∨ ∃ md key, mac.digest = some md ∧ hctx' = .keyed md key := by
  unfold initMac at h
  obtain ⟨b, -, h⟩ := res_bind_eq_ok h
  cases b with
  | true => cases h; exact .inl rfl
  | false =>
    simp only [Bool.false_eq_true, if_false, res_pure, res_ok_bind] at h
    obtain ⟨c, hc, h⟩ := res_bind_eq_ok h
    obtain rfl := hmacReset_ok hc
    split at h
    · obtain ⟨x, hx, h⟩ := res_bind_eq_ok h
      cases x with
      | none => cases h; exact .inr (.inl rfl)
      | some c' =>
        simp only [Except.ok.injEq, Prod.mk.injEq] at h
        obtain ⟨rfl, -⟩ := h
        unfold hmacInitEx at hx
        split at hx
        · obtain ⟨bytes, -, hx⟩ := res_bind_eq_ok hx
          cases ok <;> simp only [Bool.false_eq_true, if_false, if_true, res_pure,
            Except.ok.injEq, reduceCtorEq, Option.some.injEq] at hx
          exact .inr (.inr ⟨_, _, ‹_›, hx.symm⟩)
        · cases hx
    · obtain ⟨c, -, h⟩ := res_bind_eq_ok h
      obtain ⟨c', -, h⟩ := res_bind_eq_ok h
      cases h; exact .inr (.inl rfl)
    · cases h; exact .inr (.inl rfl)

/-- A call that changes one slot keeps `CatalogInv` when the slot and its
context it leaves agree with the catalog. -/
theorem CatalogInv.frame {C : Catalog} {d d' : Dir} (t : Fin 2) (hi : CatalogInv C d)
    (hs : SlotCat C (d'.macs t)) (hc : CtxCat C (d'.hmacCtxs t))
    (hmacs : ∀ i, i ≠ t → d'.macs i = d.macs i)
    (hctxs : ∀ i, i ≠ t → d'.hmacCtxs i = d.hmacCtxs i) : CatalogInv C d' := by
  refine ⟨fun i => ?_, fun i => ?_⟩ <;> by_cases hit : i = t
  · exact hit ▸ hs
  · rw [hmacs i hit]; exact hi.slots i
  · exact hit ▸ hc
  · rw [hctxs i hit]; exact hi.ctxs i

theorem CatalogInv.setAlgo {C : Catalog} {d d' : Dir} {a : String} {r : Int} (hi : CatalogInv C d)
    (h : setAlgo C d a = .ok (d', r)) : CatalogInv C d' := by
  obtain ⟨live, u, -, ⟨-, -, rfl⟩ | ⟨md, n, hg, -, rfl⟩⟩ := setAlgo_ok h <;>
    refine hi.frame d.target ?_ (hi.ctxs _) (fun i h => update_noteq h _ _) (fun _ _ => rfl) <;>
    simp only [update_same]
  · intro _ h; cases h
  · rintro _ ⟨⟩
    exact ⟨a, rfl, hg, rfl⟩

theorem CatalogInv.switchMac {C : Catalog} {d d₁ : Dir} (hi : CatalogInv C d)
    (h : switchMac d = .ok d₁) : CatalogInv C d₁ := by
  rcases switchMac_ok h with ⟨-, rfl⟩ | ⟨b, hctx, -, hr, -, rfl⟩
  · exact hi
  refine hi.frame d.idx ?_ ?_ (fun i h => update_noteq h _ _) (fun i h => update_noteq h _ _) <;>
    simp only [update_same, hmacReset_ok hr]
  · intro _ h; simp at h
  · trivial

theorem CatalogInv.keyActive {E : Env} {d d' : Dir} {md : EvpMd} {k h : Bytes} {letter : UInt8}
    {o : KeyOutcome} {r : Int} (hi : CatalogInv E.catalog d)
    (hk : keyActive E d md k h letter o = .ok (d', r)) : CatalogInv E.catalog d' := by
  obtain ⟨heap, mac, ret, hctx, uctx, r0, hs, hinit, -, rfl⟩ := keyActive_ok hk
  have hmac : SlotCat E.catalog mac :=
    let ⟨hd, ha, hl, ht⟩ := setMacKey_keeps hs
    (hi.slots d.idx).of_fields hd ha hl ht
  refine hi.frame d.idx ?_ ?_ (fun i h => update_noteq h _ _) (fun i h => update_noteq h _ _) <;>
    simp only [update_same]
  · exact hmac
  rcases initMac_hctx hinit with rfl | rfl | ⟨mdc, key, hdc, rfl⟩
  · exact hi.ctxs _
  · trivial
  · obtain ⟨algo, -, hg, -⟩ := hmac mdc hdc
    exact ⟨algo, _, hg⟩

theorem DirStep.catalogInv {E : Env} {d d' : Dir} (h : DirStep E d d')
    (hi : CatalogInv E.catalog d) : CatalogInv E.catalog d' := by
  rcases h with rfl | ⟨a, r, h⟩ | ⟨d₁, md, k, h, letter, o, r, hsw, hka⟩
  · exact hi
  · exact hi.setAlgo h
  · exact (hi.switchMac hsw).keyActive hka

/-- **Slots follow the digest table, and no HMAC context is used after
`HMAC_CTX_free`.**  In both directions of every reachable state, whatever the
primitives did: a slot with a digest has the name, the digest, the truncation and
the algorithm type of one entry of the table, and every HMAC context is fresh or
keyed with a digest of the table. -/
theorem slots_follow_catalog (E : Env) {s : State} (hs : Reachable E s) :
    CatalogInv E.catalog s.rd.dir ∧ CatalogInv E.catalog s.wr :=
  Reachable.dirs _ (CatalogInv.init _) (fun _ _ hi h => h.catalogInv hi) hs

/-- After the rekey session, whose read direction went through `umac-64`,
`hmac-sha1` (keyed in slot `1`) and a prepared `umac-128`. -/
theorem slots_follow_catalog_rekey :
    ∃ s, run Env.toy State.init rekeySession = .ok (s, List.replicate 5 (.ret 0)) ∧
      (s.rd.dir.macs 1).key.isSome ∧ CatalogInv Catalog.toy s.rd.dir ∧ CatalogInv Catalog.toy s.wr :=
  let ⟨s, hrun, _, hk, _⟩ := rekeySession_run
  ⟨s, hrun, hk, slots_follow_catalog Env.toy ⟨_, _, hrun⟩⟩

/-! ## The digest table -/

/-- What `mac.c` takes on trust from `proxy_ssh_crypto_get_digest`: every digest
fits `EVP_MAX_MD_SIZE` and its own block, every truncation fits
`EVP_MAX_MD_SIZE`, and every digest but the one of `"none"` has a block of at
least 16 bytes (the `key_len` of peers without `PROXY_SSH_FEAT_MAC_LEN`). -/
structure Catalog.Sane (C : Catalog) : Prop where
  size_le : ∀ a md n, C.getDigest a = some (md, n) → md.size ≤ evpMaxMdSize
  macLen_le : ∀ a md n, C.getDigest a = some (md, n) → n ≤ evpMaxMdSize
  size_le_block : ∀ a md n, C.getDigest a = some (md, n) → md.size ≤ md.blockSize
  block_ge : ∀ a md n, a ≠ "none" → C.getDigest a = some (md, n) → 16 ≤ md.blockSize

theorem Catalog.toy_sane : Catalog.toy.Sane := by
  have hall : ∀ a md n, Catalog.toyTable a = some (md, n) → md.size ≤ evpMaxMdSize ∧
      n ≤ evpMaxMdSize ∧ md.size ≤ md.blockSize ∧ (a ≠ "none" → 16 ≤ md.blockSize) := by
    intro a md n
    unfold Catalog.toyTable
    split <;> intro h <;> first | (cases h; decide) | nomatch h
  exact ⟨fun a md n h => (hall a md n h).1, fun a md n h => (hall a md n h).2.1,
    fun a md n h => (hall a md n h).2.2.1, fun a md n ha h => (hall a md n h).2.2.2 ha⟩

/-- A name whose digest has no block is `"none"`, with `EVP_md_null()`. -/
theorem Catalog.eq_none_of_block {C : Catalog} {a : String} {md : EvpMd} {n : Nat}
    (hg : C.getDigest a = some (md, n)) (hb : md.blockSize = 0) : a = "none" ∧ md = EvpMd.null := by
  by_cases ha : a = "none"
  · subst ha
    rw [C.getDigest_none] at hg
    cases hg
    exact ⟨rfl, rfl⟩
  · exact absurd hb (Nat.pos_iff_ne_zero.mp (C.blockSize_pos a md n ha hg))

/-! ## The data path -/

section Data

variable {C : Catalog} {P : Prims} {pkt : Packet} {mac : Mac} {hctx : HmacCtx}
  {uctx : Option UmacCtx} {ok : Bool}

/-- A primitive's output of at most `EVP_MAX_MD_SIZE` bytes fills the start of
`mac_data`. -/
theorem writeAt_tag_ok {out : Bytes} (h : out.length ≤ evpMaxMdSize) (k : Nat) :
    ∃ x, (writeAt (zeros evpMaxMdSize) 0 out >>= fun d => pure (some (d, k)) : Res _) = .ok x ∧
      ∀ macData n, x = some (macData, n) → macData.length = evpMaxMdSize ∧ n = k := by
  have hw : writeAt (zeros evpMaxMdSize) 0 out = _ := writeAt_ok (by simpa using h)
  rw [hw, res_ok_bind]
  exact ⟨_, rfl, by rintro _ _ ⟨⟩; exact ⟨(writeAt_length hw).trans (zeros_length _), rfl⟩⟩

/-- The bytes of the received tag `get_mac` compares on the read path (lines
328-345): the slot's `mac_len` when it is not `0`, else the length of the
primitive's output, that of the digest the HMAC context was keyed with or the
UMAC's. -/
def comparedLen (mac : Mac) (hctx : HmacCtx) : Nat :=
  if mac.macLen ≠ 0 then mac.macLen
  else match mac.algoType, mac.algoType.umacWidth with
    | .hmac, _ => match hctx with
      | .keyed md _ => md.size
      | _ => 0
    | _, some w => w.tagLen
    | _, none => 0

/-- **`get_mac` computes a tag in every keyed slot of a sane table.**  The
`EVP_MAX_MD_SIZE` buffer takes the primitive's output, the tag length fits it,
and the length compared on the read path is `comparedLen`. -/
theorem rawMac_total (hC : C.Sane) (hf : pkt.Framed) (hu : UmacSlot mac uctx)
    (hc : CtxCat C hctx) (hk : mac.key.isSome) :
    ∃ x, rawMac P pkt mac hctx uctx ok = .ok x ∧
      ∀ macData n, x = some (macData, n) → macData.length = evpMaxMdSize ∧ n ≤ evpMaxMdSize ∧
        (if mac.macLen ≠ 0 then mac.macLen else n) = comparedLen mac hctx := by
  unfold rawMac
  rcases ht : mac.algoType with _ | _ | _ | _
  case unset =>
    exact ⟨_, rfl, by rintro _ _ ⟨⟩; exact ⟨zeros_length _, Nat.zero_le _, by simp [comparedLen, ht, AlgoType.umacWidth]⟩⟩
  case hmac =>
    simp only [hf.hmacInput, res_ok_bind]
    cases hctx with
    | keyed md key =>
      obtain ⟨algo, n, hg⟩ := hc
      cases ok
      · exact ⟨_, rfl, by rintro _ _ ⟨⟩⟩
      obtain ⟨x, hx, hl⟩ := writeAt_tag_ok
        ((P.hmac_length md key pkt.hmacMessage).trans_le (hC.size_le algo md n hg)) md.size
      refine ⟨x, hx, fun macData m h => ?_⟩
      obtain ⟨h1, rfl⟩ := hl macData m h
      exact ⟨h1, hC.size_le algo md n hg, by simp [comparedLen, ht, AlgoType.umacWidth]⟩
    | fresh => exact ⟨_, rfl, by rintro _ _ ⟨⟩⟩
    | freed => exact hc.elim
  all_goals
    simp only [AlgoType.umacWidth, hf.umacInput, res_ok_bind]
    obtain ⟨c, hc⟩ := hu.umacReset_ok (hu.keyed hk) (by rw [ht]; rfl)
    rw [hc, res_ok_bind]
    refine (writeAt_tag_ok ?_ _).imp fun x ⟨hx, hl⟩ => ⟨hx, fun macData m h => ?_⟩
    · rw [P.umac_length]; decide
    · obtain ⟨h1, rfl⟩ := hl macData m h
      exact ⟨h1, by decide, by simp [comparedLen, ht, AlgoType.umacWidth]⟩

/-- **`get_mac` returns** once its tag fits the buffer, the catalog's truncation
fits it too, and on the read path the received tag holds the bytes compared. -/
theorem getMac_total {flag : MacFlag} {x : Option (Bytes × Nat)}
    (hr : rawMac P pkt mac hctx uctx ok = .ok x)
    (hx : ∀ macData n, x = some (macData, n) → macData.length = evpMaxMdSize ∧ n ≤ evpMaxMdSize ∧
      (if mac.macLen ≠ 0 then mac.macLen else n) = comparedLen mac hctx)
    (hm : mac.macLen ≤ evpMaxMdSize) (htag : flag = .read → comparedLen mac hctx ≤ pkt.mac.length) :
    ∃ r, getMac P pkt mac hctx uctx flag ok = .ok r := by
  unfold getMac
  rw [hr, res_ok_bind]
  rcases x with _ | ⟨macData, n⟩
  · exact ⟨_, rfl⟩
  obtain ⟨hlen, hn, hcmp⟩ := hx macData n rfl
  by_cases hn0 : n = 0
  · simp only [hn0, ↓reduceIte]; exact ⟨_, rfl⟩
  have hL : (if mac.macLen ≠ 0 then mac.macLen else n) ≤ evpMaxMdSize := by split <;> assumption
  simp only [hn0, ↓reduceIte]
  generalize (if mac.macLen ≠ 0 then mac.macLen else n) = L at hL hcmp ⊢
  subst hcmp
  rw [readBytes_ok (hlen ▸ hL), res_ok_bind]
  cases flag with
  | write => exact ⟨_, rfl⟩
  | read =>
    simp only [↓reduceIte, readBytes_ok (htag rfl), res_ok_bind, res_pure]
    split <;> exact ⟨_, rfl⟩

/-- **`proxy_ssh_mac_read_data` and `proxy_ssh_mac_write_data` return** on a
direction whose slots and contexts agree with a sane table, when a keyed active
slot gets a framed packet and, on the read path, a received tag that holds the
bytes compared. -/
theorem macData_total {d : Dir} (hC : C.Sane) (hu : UmacInv d) (hc : CatalogInv C d)
    (flag : MacFlag) (hpre : (d.macs d.idx).key.isSome → pkt.Framed ∧
      (flag = .read → comparedLen (d.macs d.idx) (d.hmacCtxs d.idx) ≤ pkt.mac.length)) :
    ∃ r, macData P d flag pkt ok = .ok r := by
  unfold macData
  split
  · exact ⟨_, rfl⟩
  rename_i hk
  have hk : (d.macs d.idx).key.isSome := Option.ne_none_iff_isSome.mp (by simpa using hk)
  obtain ⟨hf, htag⟩ := hpre hk
  obtain ⟨x, hr, hx⟩ := rawMac_total hC hf (hu d.idx) (hc.ctxs d.idx) hk
  obtain ⟨md, hmd⟩ := Option.isSome_iff_exists.mp ((hu d.idx).keyed hk)
  obtain ⟨algo, -, hg, -⟩ := hc.slots d.idx md hmd
  exact getMac_total hr hx (hC.macLen_le algo md _ hg) htag

end Data

/-! ## Each call returns -/

section Calls

variable {C : Catalog}

/-- A context `CtxCat` allows was never freed, so `HMAC_CTX_reset` returns. -/
theorem CtxCat.hmacReset : ∀ {c : HmacCtx}, CtxCat C c → hmacReset c = .ok .fresh
  | .fresh, _ | .keyed _ _, _ => rfl
  | .freed, h => h.elim

/-- **`set_*_algo` returns** on a direction whose UMAC contexts match their
slots: the context it clears is deleted by the routine of its own width. -/
theorem setAlgo_total {d : Dir} (hu : UmacInv d) (a : String) : ∃ r, setAlgo C d a = .ok r := by
  simp only [setAlgo, (hu d.target).clearUmac, res_ok_bind]
  split <;> exact ⟨_, rfl⟩

/-- **`switch_*_mac` returns**: the context it resets was never freed, and the
UMAC context of a keyed slot has the slot's width. -/
theorem switchMac_total {d : Dir} (hu : UmacInv d) (hc : CatalogInv C d) :
    ∃ d', switchMac d = .ok d' := by
  unfold switchMac
  cases hk : (d.macs d.idx).key with
  | none => exact ⟨_, rfl⟩
  | some b =>
    simp only [(hc.ctxs d.idx).hmacReset, (hu d.idx).resetUmac (by simp [hk]), clearMac_algoType,
      res_ok_bind]
    exact ⟨_, rfl⟩

/-- The `key_len` of an HMAC or UMAC slot fits in the MAC digest's block when
its output does and the block holds `16` bytes. -/
theorem macKeyLen_le_blockSize {feat : Bool} {mac : Mac} {mdMac : EvpMd} (ht : mac.algoType ≠ .unset)
    (hsize : mdMac.size ≤ mdMac.blockSize) (hb : 16 ≤ mdMac.blockSize) :
    macKeyLen feat mac mdMac ≤ mdMac.blockSize := by
  unfold macKeyLen
  cases feat
  · exact hb
  cases hty : mac.algoType
  case unset => exact absurd hty ht
  case hmac => exact hsize
  all_goals exact le_rfl

theorem algoTypeOf_ne_unset (a : String) : algoTypeOf a ≠ .unset := by
  rcases algoTypeOf_cases a with h | h | h <;> rw [h] <;> decide

/-- **`set_mac_key` returns** on a slot `set_*_algo` prepared from a sane table,
for a key-exchange digest with output, whichever digest call fails; a key it
stores holds at least `key_len` bytes. -/
theorem setMacKey_total (P : Prims) (hp : Heap) {mac : Mac} {md : EvpMd} (k h : Bytes)
    (letter : UInt8) (id : Bytes) (feat : Bool) (fail : Option Nat) (hC : C.Sane)
    (hs : SlotCat C mac) (hdig : mac.digest.isSome) (hkey : mac.key = none) (hd : 0 < md.size) :
    ∃ hp' mac' ret, setMacKey P hp mac md k h letter id feat fail = .ok (hp', mac', ret) ∧
      ∀ b, mac'.key = some b → mac'.keyLen ≤ b.bytes.length := by
  obtain ⟨mdMac, hdm⟩ := Option.isSome_iff_exists.mp hdig
  obtain ⟨algo, ha, hg, ht⟩ := hs mdMac hdm
  have hkey' : ∀ b, mac.key = some b → mac.keyLen ≤ b.bytes.length := by simp [hkey]
  rcases Nat.eq_zero_or_pos mdMac.blockSize with hb | hb
  · obtain ⟨rfl, rfl⟩ := C.eq_none_of_block hg hb
    exact ⟨_, _, _, setMacKey_null P hp k h letter id feat fail hdm ha hd, hkey'⟩
  have hne : algo ≠ "none" := fun hn => by
    rw [hn, C.getDigest_none, Option.some.injEq, Prod.mk.injEq] at hg
    rw [← hg.1] at hb
    exact Nat.lt_irrefl 0 hb
  have hlen : macKeyLen feat mac mdMac ≤
      (rfcKey P md k h letter id (roundUp mdMac.blockSize md.size / md.size)).length := by
    rw [rfcKey_length, roundUp_div_mul _ _ hd]
    exact (macKeyLen_le_blockSize (ht ▸ algoTypeOf_ne_unset algo) (hC.size_le_block _ _ _ hg)
      (hC.block_ge _ _ _ hne hg)).trans (roundUp_bounds _ _ hd).1
  have hok : ∃ hp' mac' ret, setMacKey P hp mac md k h letter id feat none = .ok (hp', mac', ret) ∧
      ∀ b, mac'.key = some b → mac'.keyLen ≤ b.bytes.length :=
    ⟨_, _, _, setMacKey_ok P hp k h letter id feat hdm hd hb, by rintro _ ⟨⟩; exact hlen⟩
  cases fail with
  | none => exact hok
  | some n =>
    by_cases hn : n ≤ 5 * (roundUp mdMac.blockSize md.size / md.size)
    · exact ⟨_, _, _, setMacKey_failed P hp k h letter id feat hdm hd hb hn, hkey'⟩
    · rw [setMacKey_late P hp k h letter id feat hdm hd hb (by omega)]
      exact hok

/-- `HMAC_Init_ex` reads no more of the key than it holds. -/
theorem hmacInitEx_total {key : Option KeyBuf} {len : Nat} (md : Option EvpMd) (ok : Bool)
    (h : ∀ b, key = some b → len ≤ b.bytes.length) : ∃ x, hmacInitEx key len md ok = .ok x := by
  unfold hmacInitEx
  split
  · rw [readBytes_ok (h _ rfl), res_ok_bind]; exact ⟨_, rfl⟩
  · exact ⟨_, rfl⟩

/-- **`init_mac` returns** on a prepared slot: a name for `strcmp`, a context
that was never freed, the UMAC context of the slot's width, and a key of at
least `key_len` bytes for `HMAC_Init_ex`. -/
theorem initMac_total {mac : Mac} {hctx : HmacCtx} {uctx : Option UmacCtx} (ok : Bool)
    (ha : mac.algo.isSome) (hd : mac.digest.isSome) (hu : UmacSlot mac uctx) (hc : CtxCat C hctx)
    (hkl : ∀ b, mac.key = some b → mac.keyLen ≤ b.bytes.length) :
    ∃ r, initMac mac hctx uctx ok = .ok r := by
  obtain ⟨a, ha⟩ := Option.isSome_iff_exists.mp ha
  unfold initMac
  simp only [ha, strcmpEq, deref_some, res_ok_bind, res_pure]
  split
  · exact ⟨_, rfl⟩
  rw [hc.hmacReset, res_ok_bind]
  split
  · obtain ⟨x, hx⟩ := hmacInitEx_total mac.digest ok hkl
    rw [hx, res_ok_bind]
    split <;> exact ⟨_, rfl⟩
  · obtain ⟨c, hc⟩ := hu.umacReset_ok hd ‹_›
    simp only [hc, umacInit, umacCtxOf, (umacCtxOf_ok hc).2, if_true, res_ok_bind, res_pure]
    exact ⟨_, rfl⟩
  · exact ⟨_, rfl⟩

/-- **`set_mac_key` then `init_mac` return** into an active slot that has a
digest and no key. -/
theorem keyActive_total (E : Env) {d : Dir} (md : EvpMd) (k h : Bytes) (letter : UInt8)
    (o : KeyOutcome) (hC : E.catalog.Sane) (hu : UmacInv d) (hc : CatalogInv E.catalog d)
    (hkey : (d.macs d.idx).key = none) (hdig : (d.macs d.idx).digest.isSome) (hd : 0 < md.size) :
    ∃ r, keyActive E d md k h letter o = .ok r := by
  obtain ⟨hp', mac', ret, hs, hkl⟩ := setMacKey_total E.prims d.heap k h letter E.sessionId
    E.macLenFeature o.fail hC (hc.slots d.idx) hdig hkey hd
  obtain ⟨hdg, hal, -, hty⟩ := setMacKey_keeps hs
  obtain ⟨mdMac, hdm⟩ := Option.isSome_iff_exists.mp hdig
  obtain ⟨algo, ha, -, -⟩ := hc.slots d.idx mdMac hdm
  obtain ⟨r, hr⟩ := initMac_total o.hmacOk (by simp [hal, ha]) (by simp [hdg, hdm])
    ((hu d.idx).withKey hty hdg hdig) (hc.ctxs d.idx) hkl
  unfold keyActive
  rw [hs, res_ok_bind]
  dsimp only
  rw [hr, res_ok_bind]
  exact ⟨_, rfl⟩

/-- `proxy_ssh_mac_get_read_algo` returns when the active slot holds a key or a
name for `strcmp`. -/
theorem getReadAlgo_total {d : Dir} (h : (d.macs d.idx).key.isSome ∨ (d.macs d.idx).algo.isSome) :
    ∃ r, getReadAlgo d = .ok r := by
  unfold getReadAlgo
  split
  · exact ⟨_, rfl⟩
  obtain ⟨a, ha⟩ := Option.isSome_iff_exists.mp (h.resolve_left ‹_›)
  simp only [ha, strcmpEq, deref_some, res_ok_bind, res_pure]
  split <;> exact ⟨_, rfl⟩

/-- `switch_read_mac` moves the direction as `switch_write_mac` does. -/
theorem switchReadMac_of_dir {r : ReadSide} {d₁ : Dir} (h : switchMac r.dir = .ok d₁) :
    ∃ r₁ : ReadSide, switchReadMac r = .ok r₁ ∧ r₁.dir = d₁ := by
  unfold switchReadMac
  split
  · rename_i hk
    exact ⟨r, rfl, by simpa [switchMac, hk] using h⟩
  · rw [h, res_ok_bind]
    exact ⟨_, rfl, rfl⟩

end Calls

/-! ## Sessions -/

theorem runSteps_cons_ok {σ α : Type} {f : σ → α → Res (σ × Out)} {s s' t : σ} {a : α}
    {as : List α} {out : Out} {outs : List Out} (h1 : f s a = .ok (s', out))
    (h2 : runSteps f s' as = .ok (t, outs)) : runSteps f s (a :: as) = .ok (t, out :: outs) := by
  simp only [runSteps, h1, h2, res_ok_bind, res_pure]

/-- **What a direction keeps across calls**, and what its calls need to return:
its key buffers (`KeyInv`), its UMAC contexts (`UmacInv`), and its agreement
with the digest table (`CatalogInv`). -/
structure DirSafe (C : Catalog) (d : Dir) : Prop where
  keys : KeyInv d
  umac : UmacInv d
  cat : CatalogInv C d

theorem DirSafe.init (C : Catalog) : DirSafe C Dir.init :=
  ⟨KeyInv.init, UmacInv.init, CatalogInv.init C⟩

theorem DirStep.dirSafe {E : Env} {d d' : Dir} (h : DirStep E d d') (hi : DirSafe E.catalog d) :
    DirSafe E.catalog d' :=
  let ⟨hk, hu⟩ := h.keyInv_umacInv hi.keys hi.umac
  ⟨hk, hu, h.catalogInv hi.cat⟩

theorem Reachable.dirSafe {E : Env} {s : State} (hs : Reachable E s) :
    DirSafe E.catalog s.rd.dir ∧ DirSafe E.catalog s.wr :=
  Reachable.dirs _ (DirSafe.init _) (fun _ _ hi h => h.dirSafe hi) hs

/-- A keyed active slot holds the name, the digest and the truncation of one
entry of the digest table. -/
theorem DirSafe.active_entry {C : Catalog} {d : Dir} (hi : DirSafe C d)
    (hk : (d.macs d.idx).key.isSome) :
    ∃ a md, (d.macs d.idx).algo = some a ∧ (d.macs d.idx).digest = some md ∧
      C.getDigest a = some (md, (d.macs d.idx).macLen) := by
  obtain ⟨md, hmd⟩ := Option.isSome_iff_exists.mp ((hi.umac d.idx).keyed hk)
  obtain ⟨a, ha, hg, -⟩ := hi.cat.slots d.idx md hmd
  exact ⟨a, md, ha, hmd, hg⟩

/-- `proxy_ssh_mac_get_write_algo` names exactly a keyed active slot, whose
name is a table entry with the slot's digest and truncation. -/
theorem DirSafe.getWriteAlgo_eq {C : Catalog} {d : Dir} (hi : DirSafe C d) (a : String) :
    getWriteAlgo d = some a ↔ (d.macs d.idx).key.isSome ∧ (d.macs d.idx).algo = some a ∧
      ∃ md, (d.macs d.idx).digest = some md ∧ C.getDigest a = some (md, (d.macs d.idx).macLen) := by
  unfold getWriteAlgo
  by_cases hk : (d.macs d.idx).key.isSome
  · obtain ⟨a', md, ha', hmd, hg⟩ := hi.active_entry hk
    simp only [hk, ↓reduceIte, ha', Option.some.injEq, hmd, true_and, exists_eq_left']
    exact ⟨fun h => ⟨h, h ▸ hg⟩, And.left⟩
  · simp [hk]

/-- `proxy_ssh_mac_get_read_algo` names a keyed active slot as the write query
does, or returns `"none"` for a slot with no key named `"none"`; it stops the
process exactly when the active slot has neither key nor name. -/
theorem DirSafe.getReadAlgo_eq {C : Catalog} {d : Dir} (hi : DirSafe C d) :
    (∀ a, getReadAlgo d = .ok (some a) ↔
      ((d.macs d.idx).key.isSome ∧ (d.macs d.idx).algo = some a ∧
        ∃ md, (d.macs d.idx).digest = some md ∧ C.getDigest a = some (md, (d.macs d.idx).macLen)) ∨
      ((d.macs d.idx).key = none ∧ (d.macs d.idx).algo = some "none" ∧ a = "none")) ∧
    (getReadAlgo d = .error .undefined ↔ (d.macs d.idx).key = none ∧ (d.macs d.idx).algo = none) := by
  unfold getReadAlgo
  by_cases hk : (d.macs d.idx).key.isSome
  · have hne : (d.macs d.idx).key ≠ none := Option.ne_none_iff_isSome.mpr hk
    refine ⟨fun a => ?_, by simp [hk, hne]⟩
    simpa [hk, hne, getWriteAlgo] using hi.getWriteAlgo_eq a
  · have hnone : (d.macs d.idx).key = none := by simpa using hk
    cases ha : (d.macs d.idx).algo with
    | none => simp [hk, hnone, ha, strcmpEq]
    | some c =>
      by_cases hc : c = "none"
      · subst hc
        simpa [hk, hnone, ha, strcmpEq] using fun a => eq_comm
      · simp [hk, hnone, ha, strcmpEq, hc]

/-- **What `get_*_algo` report.**  In both directions of every reachable state:
`proxy_ssh_mac_get_write_algo` returns a name exactly when the active slot
holds a key, and then the slot's name, which the digest table resolves to the
slot's digest and truncation; `proxy_ssh_mac_get_read_algo` returns the same,
or `"none"` for a slot with no key named `"none"`, and stops the process
exactly when the active slot has neither key nor name.  So every name either
query reports is one the table knows. -/
theorem getAlgo_names_known (E : Env) {s : State} (hs : Reachable E s) :
    (∀ a, getWriteAlgo s.wr = some a ↔ (s.wr.macs s.wr.idx).key.isSome ∧
      (s.wr.macs s.wr.idx).algo = some a ∧ ∃ md, (s.wr.macs s.wr.idx).digest = some md ∧
        E.catalog.getDigest a = some (md, (s.wr.macs s.wr.idx).macLen)) ∧
    (∀ a, getReadAlgo s.rd.dir = .ok (some a) ↔
      ((s.rd.dir.macs s.rd.dir.idx).key.isSome ∧ (s.rd.dir.macs s.rd.dir.idx).algo = some a ∧
        ∃ md, (s.rd.dir.macs s.rd.dir.idx).digest = some md ∧
          E.catalog.getDigest a = some (md, (s.rd.dir.macs s.rd.dir.idx).macLen)) ∨
      ((s.rd.dir.macs s.rd.dir.idx).key = none ∧ (s.rd.dir.macs s.rd.dir.idx).algo = some "none" ∧
        a = "none")) ∧
    (getReadAlgo s.rd.dir = .error .undefined ↔
      (s.rd.dir.macs s.rd.dir.idx).key = none ∧ (s.rd.dir.macs s.rd.dir.idx).algo = none) ∧
    ∀ a, getWriteAlgo s.wr = some a ∨ getReadAlgo s.rd.dir = .ok (some a) →
      (E.catalog.getDigest a).isSome := by
  obtain ⟨hr, hw⟩ := hs.dirSafe
  refine ⟨hw.getWriteAlgo_eq, hr.getReadAlgo_eq.1, hr.getReadAlgo_eq.2, fun a h => ?_⟩
  rcases h with h | h
  · obtain ⟨-, -, md, -, hg⟩ := (hw.getWriteAlgo_eq a).mp h
    simp [hg]
  · rcases (hr.getReadAlgo_eq.1 a).mp h with ⟨-, -, md, -, hg⟩ | ⟨-, -, rfl⟩
    · simp [hg]
    · simp [E.catalog.getDigest_none]

/-- After the rekey session the read query names the keyed `hmac-sha1` slot,
and the write query, on a direction never set up, names nothing. -/
theorem getAlgo_names_known_rekey :
    ∃ s, run Env.toy State.init rekeySession = .ok (s, List.replicate 5 (.ret 0)) ∧
      getReadAlgo s.rd.dir = .ok (some "hmac-sha1") ∧
    (∀ a, getWriteAlgo s.wr = some a ↔ (s.wr.macs s.wr.idx).key.isSome ∧
      (s.wr.macs s.wr.idx).algo = some a ∧ ∃ md, (s.wr.macs s.wr.idx).digest = some md ∧
        Catalog.toy.getDigest a = some (md, (s.wr.macs s.wr.idx).macLen)) ∧
    (∀ a, getReadAlgo s.rd.dir = .ok (some a) ↔
      ((s.rd.dir.macs s.rd.dir.idx).key.isSome ∧ (s.rd.dir.macs s.rd.dir.idx).algo = some a ∧
        ∃ md, (s.rd.dir.macs s.rd.dir.idx).digest = some md ∧
          Catalog.toy.getDigest a = some (md, (s.rd.dir.macs s.rd.dir.idx).macLen)) ∨
      ((s.rd.dir.macs s.rd.dir.idx).key = none ∧ (s.rd.dir.macs s.rd.dir.idx).algo = some "none" ∧
        a = "none")) ∧
    (getReadAlgo s.rd.dir = .error .undefined ↔
      (s.rd.dir.macs s.rd.dir.idx).key = none ∧ (s.rd.dir.macs s.rd.dir.idx).algo = none) ∧
    ∀ a, getWriteAlgo s.wr = some a ∨ getReadAlgo s.rd.dir = .ok (some a) →
      (Catalog.toy.getDigest a).isSome :=
  let ⟨s, hrun, _, _, _, _, hname⟩ := rekeySession_run
  ⟨s, hrun, hname, getAlgo_names_known Env.toy ⟨_, _, hrun⟩⟩

/-- **`set_*_key` switches and derives** once the slot `set_*_algo` prepared has
a digest and the key exchange's digest has output. -/
theorem DirSafe.switchKey_total {E : Env} {d : Dir} (hi : DirSafe E.catalog d) (hC : E.catalog.Sane)
    (md : EvpMd) (k h : Bytes) (letter : UInt8) (o : KeyOutcome)
    (hdig : (d.macs d.target).digest.isSome) (hd : 0 < md.size) :
    ∃ d₁, switchMac d = .ok d₁ ∧ ∃ r, keyActive E d₁ md k h letter o = .ok r := by
  obtain ⟨d₁, hsw⟩ := switchMac_total hi.umac hi.cat
  obtain ⟨-, hnone⟩ := hi.keys.switchMac hsw
  obtain ⟨-, hm, -, -⟩ := switchMac_target hsw
  exact ⟨d₁, hsw, keyActive_total E md k h letter o hC (hi.umac.switchMac hsw)
    (hi.cat.switchMac hsw) hnone (hm ▸ hdig) hd⟩

/-- What a read-direction call needs of its caller: `set_read_key` a prepared
slot with a digest and a key-exchange digest with output; `read_data`, when the
active slot holds a key, a framed packet whose received tag holds the bytes
`get_mac` compares; `get_read_algo` a key or a name in the active slot.  The
other calls need nothing. -/
def ReadOp.Pre (d : Dir) : ReadOp → Prop
  | .setKey md _ _ _ _ => (d.macs d.target).digest.isSome ∧ 0 < md.size
  | .data pkt _ => (d.macs d.idx).key.isSome →
      pkt.Framed ∧ comparedLen (d.macs d.idx) (d.hmacCtxs d.idx) ≤ pkt.mac.length
  | .getAlgo => (d.macs d.idx).key.isSome ∨ (d.macs d.idx).algo.isSome
  | .setAlgo _ | .getBlockSize | .setBlockSize _ => True

/-- What a write-direction call needs: `set_write_key` as `set_read_key`;
`write_data`, when the active slot holds a key, a framed packet. -/
def WriteOp.Pre (d : Dir) : WriteOp → Prop
  | .setKey md _ _ _ _ => (d.macs d.target).digest.isSome ∧ 0 < md.size
  | .data pkt _ => (d.macs d.idx).key.isSome → pkt.Framed
  | .setAlgo _ | .getAlgo => True

/-- The precondition of a call of either direction, in the state it is made in. -/
def Op.Pre (s : State) : Op → Prop
  | .inl o => ReadOp.Pre s.rd.dir o
  | .inr o => WriteOp.Pre s.wr o

instance ReadOp.decPre (d : Dir) : ∀ o, Decidable (ReadOp.Pre d o)
  | .setKey _ _ _ _ _ => inferInstanceAs (Decidable (_ ∧ _))
  | .data _ _ => inferInstanceAs (Decidable (_ → _))
  | .getAlgo => inferInstanceAs (Decidable (_ ∨ _))
  | .setAlgo _ | .getBlockSize | .setBlockSize _ => isTrue trivial

instance WriteOp.decPre (d : Dir) : ∀ o, Decidable (WriteOp.Pre d o)
  | .setKey _ _ _ _ _ => inferInstanceAs (Decidable (_ ∧ _))
  | .data _ _ => inferInstanceAs (Decidable (_ → _))
  | .setAlgo _ | .getAlgo => isTrue trivial

instance Op.decPre (s : State) : ∀ o, Decidable (Op.Pre s o)
  | .inl o => ReadOp.decPre s.rd.dir o
  | .inr o => WriteOp.decPre s.wr o

section Steps

variable {E : Env} (hC : E.catalog.Sane)
include hC

/-- **Every read-direction call returns** on a direction that keeps its
invariants, when the caller meets the call's precondition. -/
theorem stepRead_total {r : ReadSide} (hi : DirSafe E.catalog r.dir) :
    ∀ o, ReadOp.Pre r.dir o → ∃ p, stepRead E r o = .ok p
  | .setAlgo a, _ => by
    obtain ⟨p, hp⟩ := @setAlgo_total E.catalog _ hi.umac a
    simp only [stepRead, setReadAlgo, hp, res_ok_bind]
    exact ⟨_, rfl⟩
  | .setKey md k h role o, ⟨hdig, hd⟩ => by
    obtain ⟨d₁, hsw, ⟨d', ret⟩, hk⟩ :=
      hi.switchKey_total hC md k h (if role = .client then letterF else letterE) o hdig hd
    obtain ⟨r₁, hr₁, rfl⟩ := switchReadMac_of_dir hsw
    obtain ⟨md', hmd'⟩ := Option.isSome_iff_exists.mp (keyActive_ret hk).1
    simp only [stepRead, setReadKey, hr₁, hk, res_ok_bind, hmd', deref_some, res_pure]
    split
    · exact ⟨_, rfl⟩
    · split <;> exact ⟨_, rfl⟩
  | .data pkt ok, hpre => by
    obtain ⟨p, hp⟩ : ∃ p, readData E.prims r.dir pkt ok = .ok p :=
      macData_total hC hi.umac hi.cat .read fun hk => ⟨(hpre hk).1, fun _ => (hpre hk).2⟩
    simp only [stepRead, hp, res_ok_bind]
    exact ⟨_, rfl⟩
  | .getBlockSize, _ | .setBlockSize _, _ => ⟨_, rfl⟩
  | .getAlgo, h => by
    obtain ⟨p, hp⟩ := getReadAlgo_total h
    simp only [stepRead, hp, res_ok_bind]
    exact ⟨_, rfl⟩

/-- **Every write-direction call returns** likewise. -/
theorem stepWrite_total {d : Dir} (hi : DirSafe E.catalog d) :
    ∀ o, WriteOp.Pre d o → ∃ p, stepWrite E d o = .ok p
  | .setAlgo a, _ => by
    obtain ⟨p, hp⟩ := @setAlgo_total E.catalog _ hi.umac a
    simp only [stepWrite, setWriteAlgo, hp, res_ok_bind]
    exact ⟨_, rfl⟩
  | .setKey md k h role o, ⟨hdig, hd⟩ => by
    obtain ⟨d₁, hsw, p, hk⟩ :=
      hi.switchKey_total hC md k h (if role = .client then letterE else letterF) o hdig hd
    simp only [stepWrite, setWriteKey, switchWriteMac, hsw, hk, res_ok_bind]
    exact ⟨_, rfl⟩
  | .data pkt ok, hpre => by
    obtain ⟨p, hp⟩ : ∃ p, writeData E.prims d pkt ok = .ok p :=
      macData_total hC hi.umac hi.cat .write fun hk => ⟨hpre hk, nofun⟩
    simp only [stepWrite, hp, res_ok_bind]
    exact ⟨_, rfl⟩
  | .getAlgo, _ => ⟨_, rfl⟩

/-- **Every call returns** from a state whose directions keep their invariants,
when the caller meets its precondition. -/
theorem step_total {s : State} (hi : DirSafe E.catalog s.rd.dir ∧ DirSafe E.catalog s.wr) :
    ∀ o, Op.Pre s o → ∃ p, step E s o = .ok p
  | .inl o, h => by
    obtain ⟨p, hp⟩ := stepRead_total hC hi.1 o h
    simp only [step, hp, res_ok_bind]
    exact ⟨_, rfl⟩
  | .inr o, h => by
    obtain ⟨p, hp⟩ := stepWrite_total hC hi.2 o h
    simp only [step, hp, res_ok_bind]
    exact ⟨_, rfl⟩

/-- A run from a state whose directions keep their invariants returns, or
stops at a call outside its precondition. -/
theorem run_total_or_pre {s : State} (hi : DirSafe E.catalog s.rd.dir ∧ DirSafe E.catalog s.wr)
    (ops : List Op) :
    (∃ t outs, run E s ops = .ok (t, outs)) ∨
      ∃ pre o post t outs, ops = pre ++ o :: post ∧ run E s pre = .ok (t, outs) ∧ ¬ Op.Pre t o := by
  induction ops generalizing s with
  | nil => exact .inl ⟨s, [], rfl⟩
  | cons o os ih =>
    by_cases hp : Op.Pre s o
    · obtain ⟨⟨s', out⟩, hst⟩ := step_total hC hi o hp
      obtain ⟨hr, hw⟩ := step_dirStep hst
      rcases ih ⟨hr.dirSafe hi.1, hw.dirSafe hi.2⟩ with
        ⟨t, outs, hrun⟩ | ⟨pre, o', post, t, outs, rfl, hrun, hn⟩
      · exact .inl ⟨t, out :: outs, runSteps_cons_ok hst hrun⟩
      · exact .inr ⟨o :: pre, o', post, t, out :: outs, rfl, runSteps_cons_ok hst hrun, hn⟩
    · exact .inr ⟨[], o, os, s, [], rfl, rfl, hp⟩

end Steps

/-- **A session ends the process only at a call made outside its
precondition.**  From every reachable state, for every list of calls of both
directions and whatever the primitives report (the `KeyOutcome` of each
`set_*_key`, the `ok` of each `read_data` and `write_data`): the run returns,
or a prefix of it returns and the next call does not meet `Op.Pre` in the state
that prefix left.  The digest table only has to be sane. -/
theorem run_returns_or_pre_fails (E : Env) (hC : E.catalog.Sane) {s : State} (hs : Reachable E s)
    (ops : List Op) :
    (∃ t outs, run E s ops = .ok (t, outs)) ∨
      ∃ pre o post t outs, ops = pre ++ o :: post ∧ run E s pre = .ok (t, outs) ∧ ¬ Op.Pre t o :=
  run_total_or_pre hC hs.dirSafe ops

/-- At `proxy_ssh_mac_init`, with the sample table, for `get_read_algo` on the
empty slot. -/
theorem run_returns_or_pre_fails_getAlgo :
    Catalog.toy.Sane ∧ Reachable Env.toy State.init ∧
      ((∃ t outs, run Env.toy State.init [.inl .getAlgo] = .ok (t, outs)) ∨
        ∃ pre o post t outs, [.inl .getAlgo] = pre ++ o :: post ∧
          run Env.toy State.init pre = .ok (t, outs) ∧ ¬ Op.Pre t o) :=
  ⟨Catalog.toy_sane, ⟨[], [], rfl⟩,
    run_returns_or_pre_fails Env.toy Catalog.toy_sane ⟨[], [], rfl⟩ [.inl .getAlgo]⟩

end ProxySshMac
