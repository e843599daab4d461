import ProxySshMac.Session

/-!
# What each call can do

One inversion lemma per function of `mac.c` that changes a direction: from a
successful call, the exact state it leaves (`setAlgo_ok`, `switchMac_ok`,
`keyActive_ok`, `initMac_umac`), and for `set_mac_key` the three ways it can end
(`setMacKey_cases`).  `DirStep` collects them: every read or write call leaves
a direction's slots alone, prepares one, or switches and derives
(`stepRead_dir`, `stepWrite_dir`), so an invariant of the slots is proved once,
against `DirStep`, for both directions (`Reachable.dirs`).
-/

namespace ProxySshMac

open Function

theorem setAlgo_ok {C : Catalog} {d d' : Dir} {a : String} {r : Int} (h : setAlgo C d a = .ok (d', r)) :
    ∃ live u, clearUmac d.umacLive (d.umacCtxs d.target) (d.macs d.target).algoType = .ok (live, u) ∧
      ((C.getDigest a = none ∧ r = -1 ∧
          d' = { d with macs := update d.macs d.target { d.macs d.target with digest := none }
                        umacCtxs := update d.umacCtxs d.target u
                        umacLive := live }) ∨
       (∃ md n, C.getDigest a = some (md, n) ∧ r = 0 ∧
          d' = { d with macs := update d.macs d.target (prepareMac (d.macs d.target) a md n)
                        umacCtxs := update d.umacCtxs d.target (allocUmac a live u).2
                        umacLive := (allocUmac a live u).1 })) := by
  simp only [setAlgo] at h
  cases hc : clearUmac d.umacLive (d.umacCtxs d.target) (d.macs d.target).algoType with
  | error e => rw [hc] at h; cases h
  | ok p =>
    refine ⟨p.1, p.2, rfl, ?_⟩
    rw [hc, res_ok_bind] at h
    cases hg : C.getDigest a with
    | none => rw [hg] at h; cases h; exact .inl ⟨rfl, rfl, rfl⟩
    | some q => rw [hg] at h; cases h; exact .inr ⟨q.1, q.2, rfl, rfl, rfl⟩

theorem switchMac_ok {d d' : Dir} (h : switchMac d = .ok d') :
    ((d.macs d.idx).key = none ∧ d' = d) ∨
    (∃ b hctx, (d.macs d.idx).key = some b ∧ hmacReset (d.hmacCtxs d.idx) = .ok hctx ∧
      resetUmac (d.umacCtxs d.idx) (d.macs d.idx).algoType = .ok () ∧
      d' = { d with
        heap := (clearMac d.heap (d.macs d.idx)).1
        macs := update d.macs d.idx (clearMac d.heap (d.macs d.idx)).2
        hmacCtxs := update d.hmacCtxs d.idx hctx
        idx := nextIndex d.idx }) := by
  unfold switchMac at h
  cases hk : (d.macs d.idx).key with
  | none => rw [hk] at h; cases h; exact .inl ⟨rfl, rfl⟩
  | some b =>
    rw [hk] at h
    cases hr : hmacReset (d.hmacCtxs d.idx) with
    | error e => simp [hr] at h
    | ok hctx =>
      cases hu : resetUmac (d.umacCtxs d.idx) (d.macs d.idx).algoType with
      | error e => simp [hr, hu] at h
      | ok v =>
        simp only [hr, hu, clearMac_algoType, res_ok_bind] at h
        cases h
        exact .inr ⟨b, hctx, rfl, rfl, rfl, rfl⟩


theorem extendKey_cases {P : Prims} {md : EvpMd} {k h : Bytes} {keySz : Nat} {fail : Option Nat} :
    ∀ {fuel : Nat} {key : Bytes} {keyLen call : Nat} {e : LoopEnd}, key.length = keySz →
      extendKey P md k h keySz fail fuel key keyLen call = .ok e →
      (∃ key' kl c, e = .done key' kl c ∧ key'.length = keySz) ∨ e = .failed (zeros keySz) := by
  intro fuel
  induction fuel with
  | zero =>
    intro key keyLen call e hlen he
    rw [extendKey] at he
    split at he
    · cases he
    · cases he; exact .inl ⟨_, _, _, rfl, hlen⟩
  | succ fuel ih =>
    intro key keyLen call e hlen he
    rw [extendKey] at he
    split at he
    · split at he
      · cases he; exact .inr (by rw [scrub_self hlen.le, hlen])
      · cases hw : writeAt key keyLen (P.digest md (k ++ h ++ key.take keyLen)) with
        | error e => rw [hw] at he; cases he
        | ok key' =>
          rw [hw, res_ok_bind] at he
          have hlen' : key'.length = keySz := (writeAt_length hw).trans hlen
          split at he
          · cases he; exact .inr (by rw [scrub_self hlen'.le, hlen'])
          · exact ih hlen' he
    · cases he; exact .inl ⟨_, _, _, rfl, hlen⟩


/-- **What `set_mac_key` can do.**  It dereferences the slot's digest, and then
either changes nothing (`key_sz = 0`), or frees the one buffer it allocated with
no key material left in it, or stores that buffer, `keysz` bytes long. -/
theorem setMacKey_cases {P : Prims} {hp hp' : Heap} {mac mac' : Mac} {md : EvpMd} {k h : Bytes}
    {letter : UInt8} {id : Bytes} {feat : Bool} {fail : Option Nat} {ret : Int}
    (hs : setMacKey P hp mac md k h letter id feat fail = .ok (hp', mac', ret)) :
    ∃ mdMac, mac.digest = some mdMac ∧
      ((hp' = hp ∧ mac' = mac) ∨
       (∃ b : KeyBuf, hp' = ⟨hp.next + 1, b :: hp.released⟩ ∧ b.id = hp.next ∧
          b.bytes = zeros b.bytes.length ∧ mac' = mac) ∨
       (∃ bytes : Bytes, hp' = ⟨hp.next + 1, hp.released⟩ ∧
          mac' = { mac with key := some ⟨hp.next, bytes⟩, keysz := bytes.length,
                            keyLen := macKeyLen feat mac mdMac })) := by
  cases hd : mac.digest with
  | none => rw [setMacKey, hd] at hs; cases hs
  | some mdMac =>
    refine ⟨mdMac, rfl, ?_⟩
    simp only [setMacKey, hd, deref_some, res_ok_bind] at hs
    cases hc : cryptoGetSize mdMac.blockSize md.size with
    | error e => rw [hc] at hs; cases hs
    | ok keySz =>
      rw [hc, res_ok_bind] at hs
      split at hs
      · cases hn : strcmpEq mac.algo "none" with
        | error e => rw [hn] at hs; cases hs
        | ok b => rw [hn] at hs; cases hs; exact .inl ⟨rfl, rfl⟩
      · simp only [Heap.malloc] at hs
        split at hs
        · cases hs; exact .inr (.inl ⟨_, rfl, rfl, by simp [zeros], rfl⟩)
        · cases hw : writeAt (zeros keySz) 0 (P.digest md (k ++ h ++ letter :: id)) with
          | error e => rw [hw] at hs; cases hs
          | ok key =>
            have hlen : key.length = keySz := (writeAt_length hw).trans (zeros_length _)
            rw [hw, res_ok_bind] at hs
            split at hs
            · cases hs
              exact .inr (.inl ⟨_, rfl, rfl, by rw [scrub_self hlen.le]; simp, rfl⟩)
            · cases he : extendKey P md k h keySz fail keySz key md.size 6 with
              | error e => rw [he] at hs; cases hs
              | ok e =>
                rw [he, res_ok_bind] at hs
                rcases extendKey_cases hlen he with ⟨key', kl, c, rfl, hlen'⟩ | rfl
                · cases hs; exact .inr (.inr ⟨key', rfl, by rw [hlen']⟩)
                · cases hs; exact .inr (.inl ⟨_, rfl, rfl, by simp, rfl⟩)


/-- `init_mac` keeps the UMAC context, or keys the one of the slot's width. -/
theorem initMac_umac {mac : Mac} {hctx hctx' : HmacCtx} {uctx uctx' : Option UmacCtx} {ok : Bool}
    {r : Int} (h : initMac mac hctx uctx ok = .ok (hctx', uctx', r)) :
    uctx' = uctx ∨ ∃ w key, mac.algoType = w.algoType ∧ uctx = some ⟨w, key⟩ ∧
      uctx' = some ⟨w, mac.key.map KeyBuf.bytes⟩ := by
  unfold initMac at h
  obtain ⟨b, -, h⟩ := res_bind_eq_ok h
  cases b with
  | true => cases h; exact .inl rfl
  | false =>
    simp only [Bool.false_eq_true, if_false, res_pure, res_ok_bind] at h
    obtain ⟨hc, -, h⟩ := res_bind_eq_ok h
    split at h
    · obtain ⟨c, -, h⟩ := res_bind_eq_ok h
      split at h <;> (cases h; exact .inl rfl)
    · rename_i w hw _
      obtain ⟨c, hu, hi⟩ := res_bind_eq_ok h
      obtain ⟨rfl, rfl⟩ := umacCtxOf_ok hu
      simp only [umacInit, umacCtxOf, if_true, res_ok_bind, res_pure, Except.ok.injEq,
        Prod.mk.injEq] at hi
      exact .inr ⟨c.width, c.key, AlgoType.umacWidth_eq_some.mp hw, rfl, hi.2.1.symm⟩
    · cases h; exact .inl rfl

theorem keyActive_ok {E : Env} {d d' : Dir} {md : EvpMd} {k h : Bytes} {letter : UInt8}
    {o : KeyOutcome} {r : Int} (hk : keyActive E d md k h letter o = .ok (d', r)) :
    ∃ heap mac ret hctx uctx r0,
      setMacKey E.prims d.heap (d.macs d.idx) md k h letter E.sessionId E.macLenFeature o.fail =
        .ok (heap, mac, ret) ∧
      initMac mac (d.hmacCtxs d.idx) (d.umacCtxs d.idx) o.hmacOk = .ok (hctx, uctx, r0) ∧
      r = (if r0 < 0 then -1 else 0) ∧
      d' = { d with
        heap
        macs := update d.macs d.idx mac
        hmacCtxs := update d.hmacCtxs d.idx hctx
        umacCtxs := update d.umacCtxs d.idx uctx } := by
  unfold keyActive at hk
  cases hs : setMacKey E.prims d.heap (d.macs d.idx) md k h letter E.sessionId E.macLenFeature o.fail with
  | error e => rw [hs] at hk; cases hk
  | ok p =>
    obtain ⟨heap, mac, ret⟩ := p
    simp only [hs, res_ok_bind] at hk
    cases hi : initMac mac (d.hmacCtxs d.idx) (d.umacCtxs d.idx) o.hmacOk with
    | error e => rw [hi] at hk; cases hk
    | ok q =>
      obtain ⟨hctx, uctx, r0⟩ := q
      simp only [hi, res_ok_bind, res_pure, Except.ok.injEq, Prod.mk.injEq] at hk
      obtain ⟨rfl, rfl⟩ := hk
      exact ⟨heap, mac, ret, hctx, uctx, r0, rfl, hi, rfl, rfl⟩

/-- After `set_mac_key` and `init_mac` the active slot has a digest, and the
result is `0` or `-1`. -/
theorem keyActive_ret {E : Env} {d d' : Dir} {md : EvpMd} {k h : Bytes} {letter : UInt8}
    {o : KeyOutcome} {r : Int} (hk : keyActive E d md k h letter o = .ok (d', r)) :
    (d'.macs d'.idx).digest.isSome ∧ (r = 0 ∨ r = -1) := by
  obtain ⟨heap, mac, ret, hctx, uctx, r0, hs, -, rfl, rfl⟩ := keyActive_ok hk
  obtain ⟨mdMac, hd, hmac⟩ := setMacKey_cases hs
  refine ⟨?_, by split <;> simp⟩
  simp only [Function.update_same]
  rcases hmac with ⟨-, rfl⟩ | ⟨-, -, -, -, rfl⟩ | ⟨-, -, rfl⟩ <;> simp [hd]

/-- **What a call can do to a direction's slots**: nothing, prepare a slot
(`set_*_algo`), or switch and derive (`set_*_key`). -/
def DirStep (E : Env) (d d' : Dir) : Prop :=
  d' = d ∨ (∃ a r, setAlgo E.catalog d a = .ok (d', r)) ∨
    ∃ d₁ md k h letter o r, switchMac d = .ok d₁ ∧ keyActive E d₁ md k h letter o = .ok (d', r)

theorem switchReadMac_dir {r r' : ReadSide} (h : switchReadMac r = .ok r') :
    switchMac r.dir = .ok r'.dir := by
  unfold switchReadMac at h
  split at h
  · rename_i hk; cases h; simp [switchMac, hk]
  · cases hs : switchMac r.dir with
    | error e => rw [hs] at h; cases h
    | ok d => rw [hs] at h; cases h; rfl

theorem setBlockSize_dir (r : ReadSide) (n : Nat) : (setBlockSize r n).dir = r.dir := by
  unfold setBlockSize; split <;> rfl

theorem setReadKey_dir {E : Env} {r r' : ReadSide} {md : EvpMd} {k h : Bytes} {role : Role}
    {o : KeyOutcome} {ret : Int} (hs : setReadKey E r md k h role o = .ok (r', ret)) :
    ∃ d₁ r₀, switchMac r.dir = .ok d₁ ∧
      keyActive E d₁ md k h (if role = .client then letterF else letterE) o = .ok (r'.dir, r₀) := by
  unfold setReadKey at hs
  cases hsw : switchReadMac r with
  | error e => rw [hsw] at hs; cases hs
  | ok r₁ =>
    rw [hsw, res_ok_bind] at hs
    cases hk : keyActive E r₁.dir md k h (if role = .client then letterF else letterE) o with
    | error e => rw [hk] at hs; cases hs
    | ok p =>
      obtain ⟨dir, r₀⟩ := p
      refine ⟨r₁.dir, r₀, switchReadMac_dir hsw, ?_⟩
      simp only [hk, res_ok_bind] at hs
      split at hs
      · cases hs; exact hk
      · simp only [res_pure, res_ok_bind] at hs
        split at hs
        · cases hd : deref (dir.macs dir.idx).digest with
          | error e => rw [hd] at hs; cases hs
          | ok md' => rw [hd] at hs; cases hs; rw [setBlockSize_dir]; exact hk
        · cases hs; rw [setBlockSize_dir]; exact hk

theorem stepRead_dir {E : Env} {r r' : ReadSide} {o : ReadOp} {out : Out}
    (hst : stepRead E r o = .ok (r', out)) : DirStep E r.dir r'.dir := by
  cases o with
  | setAlgo a =>
    simp only [stepRead, setReadAlgo] at hst
    cases hs : setAlgo E.catalog r.dir a with
    | error e => rw [hs] at hst; cases hst
    | ok p => rw [hs] at hst; cases hst; exact .inr (.inl ⟨a, p.2, hs⟩)
  | setKey md k h role o =>
    simp only [stepRead] at hst
    cases hs : setReadKey E r md k h role o with
    | error e => rw [hs] at hst; cases hst
    | ok p =>
      rw [hs] at hst; cases hst
      obtain ⟨d₁, r₀, hsw, hk⟩ := setReadKey_dir hs
      exact .inr (.inr ⟨d₁, md, k, h, _, o, r₀, hsw, hk⟩)
  | data pkt ok =>
    simp only [stepRead] at hst
    cases hs : readData E.prims r.dir pkt ok with
    | error e => rw [hs] at hst; cases hst
    | ok p => rw [hs] at hst; cases hst; exact .inl rfl
  | getBlockSize => cases hst; exact .inl rfl
  | setBlockSize n => cases hst; exact .inl (setBlockSize_dir r n)
  | getAlgo =>
    simp only [stepRead] at hst
    cases hs : getReadAlgo r.dir with
    | error e => rw [hs] at hst; cases hst
    | ok p => rw [hs] at hst; cases hst; exact .inl rfl

theorem stepWrite_dir {E : Env} {d d' : Dir} {o : WriteOp} {out : Out}
    (hst : stepWrite E d o = .ok (d', out)) : DirStep E d d' := by
  cases o with
  | setAlgo a =>
    simp only [stepWrite, setWriteAlgo] at hst
    cases hs : setAlgo E.catalog d a with
    | error e => rw [hs] at hst; cases hst
    | ok p => rw [hs] at hst; cases hst; exact .inr (.inl ⟨a, p.2, hs⟩)
  | setKey md k h role o =>
    simp only [stepWrite, setWriteKey, switchWriteMac] at hst
    cases hsw : switchMac d with
    | error e => rw [hsw] at hst; cases hst
    | ok d₁ =>
      rw [hsw, res_ok_bind] at hst
      cases hk : keyActive E d₁ md k h (if role = .client then letterE else letterF) o with
      | error e => rw [hk] at hst; cases hst
      | ok p => rw [hk] at hst; cases hst; exact .inr (.inr ⟨d₁, md, k, h, _, o, p.2, hsw, hk⟩)
  | data pkt ok =>
    simp only [stepWrite] at hst
    cases hs : writeData E.prims d pkt ok with
    | error e => rw [hs] at hst; cases hst
    | ok p => rw [hs] at hst; cases hst; exact .inl rfl
  | getAlgo => cases hst; exact .inl rfl

/-- A call of the session changes each direction by a `DirStep`. -/
theorem step_dirStep {E : Env} {s s' : State} {o : Op} {out : Out} (h : step E s o = .ok (s', out)) :
    DirStep E s.rd.dir s'.rd.dir ∧ DirStep E s.wr s'.wr := by
  rcases o with o | o <;> obtain ⟨⟨x, out'⟩, hx, h⟩ := res_bind_eq_ok h <;> cases h
  · exact ⟨stepRead_dir hx, .inl rfl⟩
  · exact ⟨.inl rfl, stepWrite_dir hx⟩

/-- **Invariants of a direction.**  A property of a direction's slots that
holds at `proxy_ssh_mac_init` and that `DirStep` keeps holds of both directions
of every reachable state. -/
theorem Reachable.dirs {E : Env} (I : Dir → Prop) (h0 : I Dir.init)
    (hstep : ∀ d d', I d → DirStep E d d' → I d') {s : State} (hs : Reachable E s) :
    I s.rd.dir ∧ I s.wr := by
  refine Reachable.induction (fun s => I s.rd.dir ∧ I s.wr) ⟨h0, h0⟩ ?_ hs
  rintro s o s' out ⟨hr, hw⟩ h
  obtain ⟨hsr, hsw⟩ := step_dirStep h
  exact ⟨hstep _ _ hr hsr, hstep _ _ hw hsw⟩

end ProxySshMac
