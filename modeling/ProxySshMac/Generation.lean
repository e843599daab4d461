import ProxySshMac.Invariants

/-!
# One generation at a time: the model the two slots implement

Seen from the packets, a direction has one current generation: absent, `"none"`,
or an algorithm with the key `set_mac_key` derives for it; and an algorithm
`set_*_algo` named for the next one.  `set_*_algo` records the name;
`set_*_key` makes the pending algorithm, keyed, the current generation;
`read_data` and `write_data` check or compute the tag with the current
generation (`AbsDir.data`), and pass a packet untagged without one.

The two slots of `mac.c` implement this when each direction is configured in
order: every `set_*_key` after a `set_*_algo`, every call returning `0`, every
digest call of `set_mac_key` succeeding (`disciplined`).  `Sim` relates a
direction's slots to the model: the active slot serves the current generation
(`Serves`), and the slot `set_*_key` will key is prepared for the pending
algorithm (`Ready`).
-/

namespace ProxySshMac

open Function

/-- A keyed generation: the algorithm, its digest and truncation in the
catalog, the derived key, and the `key_len` of `init_mac`. -/
structure Gen where
  algo : String
  md : EvpMd
  macLen : Nat
  key : Bytes
  keyLen : Nat
  deriving DecidableEq, Repr

/-- The slot fields `get_mac` reads for a generation: its type and truncation. -/
def Gen.mac (g : Gen) : Mac := prepareMac Mac.empty g.algo g.md g.macLen

/-- The HMAC context of a generation: keyed with `key_len` bytes of its key for
HMAC, reset otherwise. -/
def Gen.hctx (g : Gen) : HmacCtx :=
  if algoTypeOf g.algo = .hmac then .keyed g.md (g.key.take g.keyLen) else .fresh

/-- The UMAC context of a generation: of its width, keyed with its key. -/
def Gen.uctx (g : Gen) : Option UmacCtx := (algoTypeOf g.algo).umacWidth.map fun w => ⟨w, some g.key⟩

/-- A direction's current generation. -/
inductive Current
  | absent
  | none
  | keyed (g : Gen)
  deriving DecidableEq, Repr

/-- The block size a generation asks for: its truncation, else its digest's
output size. -/
def Current.blockSize : Current → Nat
  | .keyed g => if g.macLen = 0 then g.md.size else g.macLen
  | _ => 0

/-- One direction of the model: the current generation and the pending
algorithm. -/
structure AbsDir where
  cur : Current
  pending : Option String
  deriving DecidableEq, Repr

/-- No generation and nothing pending. -/
def AbsDir.init : AbsDir := ⟨.absent, none⟩

/-- `set_*_algo`: the name is pending. -/
def AbsDir.setAlgo (a : AbsDir) (algo : String) : AbsDir := { a with pending := some algo }

/-- The generation `set_*_key` makes of an algorithm: `"none"`, or the algorithm
with the RFC 4253 §7.2 key over the block size of its digest. -/
def genOf (E : Env) (algo : String) (md : EvpMd) (k h : Bytes) (letter : UInt8) : Current :=
  if algo = "none" then .none
  else match E.catalog.getDigest algo with
    | some (mdMac, macLen) =>
      .keyed ⟨algo, mdMac, macLen,
        rfcKey E.prims md k h letter E.sessionId (roundUp mdMac.blockSize md.size / md.size),
        macKeyLen E.macLenFeature (prepareMac Mac.empty algo mdMac macLen) mdMac⟩
    | none => .absent

/-- `set_*_key`: the pending algorithm, keyed, is the current generation. -/
def AbsDir.setKey (E : Env) (a : AbsDir) (md : EvpMd) (k h : Bytes) (letter : UInt8) : AbsDir :=
  match a.pending with
  | some algo => ⟨genOf E algo md k h letter, none⟩
  | none => a

/-- `read_data` / `write_data`: the tag of the current generation, or no tag. -/
def AbsDir.data (P : Prims) (a : AbsDir) (flag : MacFlag) (pkt : Packet) (ok : Bool) :
    Res (Packet × Int) :=
  match a.cur with
  | .keyed g => getMac P pkt g.mac g.hctx g.uctx flag ok
  | _ => .ok ({ pkt with mac := [], macLen := 0 }, 0)

/-- A read-direction call in the model. -/
def AbsDir.stepRead (E : Env) (a : AbsDir) : ReadOp → AbsDir
  | .setAlgo algo => a.setAlgo algo
  | .setKey md k h role _ => a.setKey E md k h (if role = .client then letterF else letterE)
  | _ => a

/-- A write-direction call in the model. -/
def AbsDir.stepWrite (E : Env) (a : AbsDir) : WriteOp → AbsDir
  | .setAlgo algo => a.setAlgo algo
  | .setKey md k h role _ => a.setKey E md k h (if role = .client then letterE else letterF)
  | _ => a

/-- A call that configures a direction: `set_*_algo`, or `set_*_key` with how
the primitives behave. -/
inductive Config
  | algo
  | key (o : KeyOutcome)

/-- The configuring read calls. -/
def ReadOp.config : ReadOp → Option Config
  | .setAlgo _ => some .algo
  | .setKey _ _ _ _ o => some (.key o)
  | _ => none

/-- The configuring write calls. -/
def WriteOp.config : WriteOp → Option Config
  | .setAlgo _ => some .algo
  | .setKey _ _ _ _ o => some (.key o)
  | _ => none

/-- A direction configured in order: every `set_*_key` after a `set_*_algo`
since the previous `set_*_key` (`armed`), every configuring call returning `0`,
and every digest call of `set_mac_key` succeeding. -/
def disciplined {α : Type} (cfg : α → Option Config) : Bool → List (α × Out) → Bool
  | _, [] => true
  | armed, (op, out) :: rest =>
    match cfg op with
    | none => disciplined cfg armed rest
    | some .algo => out == .ret 0 && disciplined cfg true rest
    | some (.key o) => armed && o.fail == none && out == .ret 0 && disciplined cfg false rest

/-- The active slot serves a generation: it holds a key and gives `get_mac` the
generation's digest, type, truncation and contexts; it holds no key when there
is no keyed generation. -/
def Serves (d : Dir) : Current → Prop
  | .keyed g => (d.macs d.idx).key.isSome ∧ (d.macs d.idx).digest = some g.md ∧
      (d.macs d.idx).algoType = algoTypeOf g.algo ∧ (d.macs d.idx).macLen = g.macLen ∧
      d.hmacCtxs d.idx = g.hctx ∧ d.umacCtxs d.idx = g.uctx
  | _ => (d.macs d.idx).key = none

/-- The slot `set_*_key` will key is prepared for `algo`. -/
def Ready (C : Catalog) (d : Dir) (algo : String) : Prop :=
  ∃ m mdMac macLen, C.getDigest algo = some (mdMac, macLen) ∧
    d.macs d.target = prepareMac m algo mdMac macLen

/-- **The slots implement the model.**  Besides the invariants of every run,
the active slot serves the current generation and the slot to be keyed is
prepared for the pending algorithm. -/
structure Sim (C : Catalog) (d : Dir) (a : AbsDir) : Prop where
  keyInv : KeyInv d
  umacInv : UmacInv d
  serves : Serves d a.cur
  ready : ∀ algo, a.pending = some algo → Ready C d algo

theorem Sim.init (C : Catalog) : Sim C Dir.init AbsDir.init :=
  ⟨KeyInv.init, UmacInv.init, rfl, fun _ h => (nomatch h)⟩

/-- `get_mac` reads a slot's type and truncation, nothing else of it. -/
theorem getMac_congr (P : Prims) (pkt : Packet) {m m' : Mac} (ht : m.algoType = m'.algoType)
    (hl : m.macLen = m'.macLen) (hctx : HmacCtx) (uctx : Option UmacCtx) (flag : MacFlag) (ok : Bool) :
    getMac P pkt m hctx uctx flag ok = getMac P pkt m' hctx uctx flag ok := by
  simp only [getMac, rawMac, ht, hl]

/-- **A packet sees the current generation.** -/
theorem Serves.data {P : Prims} {d : Dir} {a : AbsDir} (hs : Serves d a.cur) (flag : MacFlag)
    (pkt : Packet) (ok : Bool) : macData P d flag pkt ok = a.data P flag pkt ok := by
  unfold macData AbsDir.data
  revert hs
  cases a.cur with
  | keyed g =>
    rintro ⟨hk, -, ht, hl, hh, hu⟩
    obtain ⟨b, hb⟩ := Option.isSome_iff_exists.mp hk
    simp only [hb, Option.isNone_some, Bool.false_eq_true, if_false, hh, hu]
    exact getMac_congr P pkt ht hl _ _ _ _
  | _ => intro hk; simp [show (d.macs d.idx).key = none from hk]

/-- The block size `set_read_key` records for the active slot: its `mac_len`,
else its digest's output size. -/
def Dir.blockSize (d : Dir) : Nat :=
  if (d.macs d.idx).macLen = 0 then ((d.macs d.idx).digest.map EvpMd.size).getD 0
  else (d.macs d.idx).macLen

theorem hmacReset_ok {c c' : HmacCtx} (h : hmacReset c = .ok c') : c' = .fresh := by
  cases c <;> simp [hmacReset] at h <;> exact h.symm

theorem algoTypeOf_cases (a : String) :
    algoTypeOf a = .hmac ∨ algoTypeOf a = .umac64 ∨ algoTypeOf a = .umac128 := by
  unfold algoTypeOf; split <;> [exact .inr (.inl rfl); split <;> simp]

/-- **`init_mac` on a keyed slot** gives the contexts of its generation: the
HMAC context keyed with `key_len` bytes for HMAC, the UMAC context of the
slot's width keyed with the key for UMAC. -/
theorem initMac_gen {mac : Mac} {hctx hctx' : HmacCtx} {uctx uctx' : Option UmacCtx} {ok : Bool}
    {r : Int} (h : initMac mac hctx uctx ok = .ok (hctx', uctx', r)) (hr0 : 0 ≤ r) {g : Gen}
    (hne : g.algo ≠ "none") (halgo : mac.algo = some g.algo)
    (htype : mac.algoType = algoTypeOf g.algo) (hkey : mac.key.map KeyBuf.bytes = some g.key)
    (hkl : mac.keyLen = g.keyLen) (hdig : mac.digest = some g.md) (hu : UmacSlot mac uctx) :
    hctx' = g.hctx ∧ uctx' = g.uctx := by
  obtain ⟨kb, hkb, hkg⟩ := Option.map_eq_some'.mp hkey
  unfold initMac at h
  simp only [halgo, strcmpEq, deref_some, res_ok_bind, res_pure, beq_iff_eq, hne, if_false] at h
  obtain ⟨c, hr, h⟩ := res_bind_eq_ok h
  obtain rfl : c = .fresh := hmacReset_ok hr
  rcases algoTypeOf_cases g.algo with ht | ht | ht <;> rw [htype, ht] at h <;>
    simp only [Gen.hctx, Gen.uctx, ht, AlgoType.umacWidth, if_true, reduceCtorEq, if_false,
      Option.map_some', Option.map_none'] at h ⊢
  · obtain ⟨x, hx, h⟩ := res_bind_eq_ok h
    simp only [hmacInitEx, hkb, hdig] at hx
    obtain ⟨bytes, hb, hx⟩ := res_bind_eq_ok hx
    have hbytes : bytes = g.key.take g.keyLen := by
      rw [← hkg, ← hkl]; unfold readBytes at hb; split at hb <;> cases hb; rfl
    have hnone : uctx = none := by
      cases hc : uctx with
      | none => rfl
      | some c =>
        have hw := hu.width c hc
        rw [htype, ht] at hw
        cases hcw : c.width <;> rw [hcw] at hw <;> cases hw
    cases ok <;> simp only [Bool.false_eq_true, if_false, if_true, res_pure, Except.ok.injEq] at hx <;>
      subst hx <;> simp only [Except.ok.injEq, Prod.mk.injEq] at h
    · omega
    · exact ⟨h.1 ▸ hbytes ▸ rfl, h.2.1 ▸ hnone⟩
  · obtain ⟨key0, hc⟩ := hu.live .w64 (by simp [hdig]) (htype.trans ht)
    simp only [hc, umacReset, umacInit, umacCtxOf_some_self, res_ok_bind, res_pure, hkey,
      Except.ok.injEq, Prod.mk.injEq] at h
    exact ⟨h.1.symm, h.2.1.symm⟩
  · obtain ⟨key0, hc⟩ := hu.live .w128 (by simp [hdig]) (htype.trans ht)
    simp only [hc, umacReset, umacInit, umacCtxOf_some_self, res_ok_bind, res_pure, hkey,
      Except.ok.injEq, Prod.mk.injEq] at h
    exact ⟨h.1.symm, h.2.1.symm⟩

/-- `switch_*_mac` makes the slot `set_*_algo` prepared the active one. -/
theorem switchMac_target {d d₁ : Dir} (h : switchMac d = .ok d₁) :
    d₁.idx = d.target ∧ d₁.macs d₁.idx = d.macs d.target ∧
      d₁.hmacCtxs d₁.idx = d.hmacCtxs d.target ∧ d₁.umacCtxs d₁.idx = d.umacCtxs d.target := by
  rcases switchMac_ok h with ⟨hk, rfl⟩ | ⟨b, hctx, hk, -, -, rfl⟩
  · simp [Dir.target, hk]
  · have ht : d.target = nextIndex d.idx := by simp [Dir.target, hk]
    rw [ht]
    exact ⟨rfl, update_noteq (nextIndex_ne _) _ _, update_noteq (nextIndex_ne _) _ _, rfl⟩

/-- `set_mac_key` on a slot prepared for `"none"`: `key_sz` is `0`, and it
returns `0` with nothing changed. -/
theorem setMacKey_null (P : Prims) (hp : Heap) {mac : Mac} {md : EvpMd} (k h : Bytes) (letter : UInt8)
    (id : Bytes) (feat : Bool) (fail : Option Nat) (hd : mac.digest = some EvpMd.null)
    (ha : mac.algo = some "none") (hs : 0 < md.size) :
    setMacKey P hp mac md k h letter id feat fail = .ok (hp, mac, 0) := by
  have h0 : roundUp 0 md.size = 0 := by
    rw [roundUp, Nat.div_eq_of_lt (by omega), Nat.zero_mul]
  simp only [setMacKey, hd, EvpMd.null, deref_some, cryptoGetSize_ok hs, h0, strcmpEq, ha, res_pure,
    res_ok_bind, beq_self_eq_true, ↓reduceIte]

theorem Serves.congr {d d' : Dir} {c : Current} (hs : Serves d c) (hidx : d'.idx = d.idx)
    (hm : d'.macs d.idx = d.macs d.idx) (hh : d'.hmacCtxs d.idx = d.hmacCtxs d.idx)
    (hu : d'.umacCtxs d.idx = d.umacCtxs d.idx) : Serves d' c := by
  cases c <;> simpa only [Serves, hidx, hm, hh, hu] using hs

/-- **`set_*_algo` records the pending algorithm.**  Returning `0`, it leaves
the active slot serving the current generation, and prepares the slot
`set_*_key` will key. -/
theorem Sim.setAlgo {C : Catalog} {d d' : Dir} {a : AbsDir} {algo : String} (hs : Sim C d a)
    (h : setAlgo C d algo = .ok (d', 0)) : Sim C d' (a.setAlgo algo) := by
  obtain ⟨hidx, -, hkeys⟩ := setAlgo_keys h
  have htarget : d'.target = d.target := by simp only [Dir.target, hidx, (hkeys _).1]
  obtain ⟨live, u, -, ⟨-, hr, -⟩ | ⟨mdMac, n, hg, -, rfl⟩⟩ := setAlgo_ok h
  · cases hr
  refine ⟨hs.keyInv.setAlgo h, hs.umacInv.setAlgo hs.keyInv h, ?_, ?_⟩
  · have hsv := hs.serves
    show Serves _ a.cur
    cases hc : a.cur with
    | keyed g =>
      rw [hc] at hsv
      have hne : d.idx ≠ d.target := by
        unfold Dir.target; rw [if_pos hsv.1]; exact (nextIndex_ne _).symm
      exact hsv.congr rfl (update_noteq hne _ _) rfl (update_noteq hne _ _)
    | _ => rw [hc] at hsv; exact (hkeys d.idx).1.trans hsv
  · rintro _ ⟨⟩
    exact ⟨d.macs d.target, mdMac, n, hg, by rw [htarget]; exact update_same _ _ _⟩

/-- `set_mac_key` returns only for a key-exchange digest with an output. -/
theorem setMacKey_size_pos {P : Prims} {hp : Heap} {mac : Mac} {md : EvpMd} {k h : Bytes}
    {letter : UInt8} {id : Bytes} {feat : Bool} {fail : Option Nat} {x : Heap × Mac × Int}
    (hs : setMacKey P hp mac md k h letter id feat fail = .ok x) : 0 < md.size := by
  obtain ⟨mdMac, -, hs⟩ := res_bind_eq_ok hs
  obtain ⟨keySz, hc, -⟩ := res_bind_eq_ok hs
  unfold cryptoGetSize at hc
  split at hc
  · cases hc
  · omega

/-- The `key_len` of a prepared slot depends on its algorithm only. -/
theorem macKeyLen_prepareMac (feat : Bool) (m m' : Mac) (a : String) (md : EvpMd) (n : Nat)
    (mdMac : EvpMd) :
    macKeyLen feat (prepareMac m a md n) mdMac = macKeyLen feat (prepareMac m' a md n) mdMac := by
  rcases algoTypeOf_cases a with h | h | h <;> simp [macKeyLen, prepareMac, h]

/-- A key in a prepared slot keeps its UMAC context sound. -/
theorem UmacSlot.withKey {m m' : Mac} {c : Option UmacCtx} (hu : UmacSlot m c)
    (ht : m'.algoType = m.algoType) (hd : m'.digest = m.digest) (hsome : m.digest.isSome) :
    UmacSlot m' c :=
  ⟨fun c' hc => ht ▸ hu.width c' hc, fun w _ hw => hu.live w hsome (ht ▸ hw), fun _ => hd ▸ hsome⟩

/-- **`set_*_key` installs the pending generation.**  With every digest call of
`set_mac_key` succeeding and `0` returned, the slot `switch_*_mac` made active
serves the generation the model installs, and records its block size. -/
theorem Sim.setKey {E : Env} {d d₁ d' : Dir} {a : AbsDir} {algo : String} {md : EvpMd}
    {k h : Bytes} {letter : UInt8} {ok : Bool} (hs : Sim E.catalog d a) (hp : a.pending = some algo)
    (hsw : switchMac d = .ok d₁) (hk : keyActive E d₁ md k h letter ⟨none, ok⟩ = .ok (d', 0)) :
    Sim E.catalog d' (a.setKey E md k h letter) ∧
      d'.blockSize = (a.setKey E md k h letter).cur.blockSize := by
  obtain ⟨m, mdMac, n, hg, hprep⟩ := hs.ready algo hp
  obtain ⟨-, hmac, -, -⟩ := switchMac_target hsw
  obtain ⟨hk₁, hnone⟩ := hs.keyInv.switchMac hsw
  have hu₁ := hs.umacInv.switchMac hsw
  have hkey' : KeyInv d' := hk₁.keyActive hnone hk
  have humac' : UmacInv d' := hu₁.keyActive hk
  rw [hprep] at hmac
  obtain ⟨heap, mac, ret, hctx, uctx, r0, hsmk, hinit, hr, rfl⟩ := keyActive_ok hk
  have hpos := setMacKey_size_pos hsmk
  simp only [AbsDir.setKey, hp]
  by_cases hn : algo = "none"
  · subst hn
    rw [E.catalog.getDigest_none] at hg
    cases hg
    rw [hmac, setMacKey_null E.prims _ k h letter _ _ _ rfl rfl hpos] at hsmk
    cases hsmk
    refine ⟨⟨hkey', humac', ?_, fun _ h => (nomatch h)⟩, ?_⟩ <;>
      simp only [genOf, if_true, Serves, Dir.blockSize, update_same, Current.blockSize]
    · rw [← hmac]; exact hnone
    · simp [prepareMac, EvpMd.null]
  · have hb := E.catalog.blockSize_pos algo mdMac n hn hg
    rw [hmac, setMacKey_ok E.prims _ k h letter _ _ (show (prepareMac m algo mdMac n).digest = _ from rfl)
      hpos hb] at hsmk
    cases hsmk
    have hr0 : 0 ≤ r0 := by split at hr <;> omega
    let g : Gen := ⟨algo, mdMac, n,
      rfcKey E.prims md k h letter E.sessionId (roundUp mdMac.blockSize md.size / md.size),
      macKeyLen E.macLenFeature (prepareMac Mac.empty algo mdMac n) mdMac⟩
    have hgen : genOf E algo md k h letter = .keyed g := by simp [genOf, hn, hg, g]
    obtain ⟨hh, hu⟩ := initMac_gen hinit hr0 (show g.algo ≠ "none" from hn) rfl rfl rfl
      (macKeyLen_prepareMac _ _ _ _ _ _ _) rfl ((hmac ▸ hu₁ d₁.idx).withKey rfl rfl rfl)
    refine ⟨⟨hkey', humac', ?_, fun _ h => (nomatch h)⟩, ?_⟩ <;>
      simp only [hgen, Serves, Dir.blockSize, Current.blockSize, update_same]
    · exact ⟨rfl, rfl, rfl, rfl, hh, hu⟩
    · rfl

end ProxySshMac
