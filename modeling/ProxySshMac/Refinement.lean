import ProxySshMac.Generation
import ProxySshMac.Interleaving

/-!
# The slots refine the one-generation model

Along every run of a direction configured in order (`disciplined`), `Sim`
holds: one step at a time by `Sim.setAlgo` and `Sim.setKey`, and the other
calls leave the slots alone (`Sim.runRead`, `Sim.runWrite`).  So every packet
given to `proxy_ssh_mac_read_data` or `proxy_ssh_mac_write_data` gets what the
model gives it (`two_slots_refine_one_generation`).

The read side also keeps `mac_blockszs`: `switch_read_mac` zeroes the retired
slot's entry and `proxy_ssh_mac_set_read_key` raises the new one's from `0`, so
the active entry is the current generation's block size and the other one is
`0` (`BlockInv`).  A caller of `proxy_ssh_mac_set_block_size` can raise it
past the tag, and a derivation that failed, reported as `0`, leaves a block size
over a slot without a key (`blockSize_outruns_tag`).
-/

namespace ProxySshMac

open Function

/-- The block sizes of the read side: the active slot's is the current
generation's, the other slot's is `0`. -/
def BlockInv (r : ReadSide) (c : Current) : Prop :=
  r.blockszs r.dir.idx = c.blockSize ∧ r.blockszs (nextIndex r.dir.idx) = 0

theorem BlockInv.init : BlockInv State.init.rd AbsDir.init.cur := ⟨rfl, rfl⟩

/-- A slot serving a generation records the generation's block size. -/
theorem Serves.blockSize {d : Dir} {c : Current} (hs : Serves d c) :
    (if (d.macs d.idx).key.isSome then d.blockSize else 0) = c.blockSize := by
  cases c with
  | keyed g =>
    obtain ⟨hk, hd, -, hl, -⟩ := hs
    simp [hk, Dir.blockSize, Current.blockSize, hd, hl]
  | _ => simp [show (d.macs d.idx).key = none from hs, Current.blockSize]

/-- `proxy_ssh_mac_set_block_size` on an entry of `0` sets it. -/
theorem setBlockSize_of_zero {r : ReadSide} (h : r.blockszs r.dir.idx = 0) (n : Nat) :
    setBlockSize r n = ⟨r.dir, update r.blockszs r.dir.idx n⟩ := by
  unfold setBlockSize
  split
  · rfl
  · obtain rfl : n = 0 := by omega
    rw [← h, update_eq_self]

/-- `switch_read_mac` under `BlockInv`: both entries are `0` afterwards. -/
theorem BlockInv.switchReadMac {r r₁ : ReadSide} {c : Current} (hb : BlockInv r c)
    (hs : Serves r.dir c) (h : switchReadMac r = .ok r₁) :
    r₁.blockszs r₁.dir.idx = 0 ∧ r₁.blockszs (nextIndex r₁.dir.idx) = 0 := by
  unfold ProxySshMac.switchReadMac at h
  split at h
  · rename_i hk
    cases h
    have hc : c.blockSize = 0 := by
      cases c with
      | keyed g => simp [Serves, hk] at hs
      | _ => rfl
    exact ⟨hb.1.trans hc, hb.2⟩
  · obtain ⟨d₁, hd₁, h⟩ := res_bind_eq_ok h
    cases h
    obtain ⟨hidx, -⟩ := switchMac_target hd₁
    rename_i b hk
    have ht : r.dir.target = nextIndex r.dir.idx := by simp [Dir.target, hk]
    rw [hidx, ht]
    dsimp only
    rw [update_noteq (nextIndex_ne _), nextIndex_nextIndex, update_same]
    exact ⟨hb.2, rfl⟩

/-- **When `proxy_ssh_mac_set_read_key` returns `0`.**  It switched, derived
and initialised with result `0`, and raised the new slot's block size to the
slot's tag length. -/
theorem setReadKey_zero {E : Env} {r r' : ReadSide} {md : EvpMd} {k h : Bytes} {role : Role}
    {o : KeyOutcome} (hs : setReadKey E r md k h role o = .ok (r', 0)) :
    ∃ r₁, switchReadMac r = .ok r₁ ∧
      keyActive E r₁.dir md k h (if role = .client then letterF else letterE) o = .ok (r'.dir, 0) ∧
      r' = setBlockSize ⟨r'.dir, r₁.blockszs⟩ r'.dir.blockSize := by
  unfold setReadKey at hs
  obtain ⟨r₁, hsw, hs⟩ := res_bind_eq_ok hs
  obtain ⟨⟨dir, ret⟩, hk, hs⟩ := res_bind_eq_ok hs
  obtain ⟨hd, rfl | rfl⟩ := keyActive_ret hk
  · obtain ⟨md', hmd⟩ := Option.isSome_iff_exists.mp hd
    simp only [lt_self_iff_false, if_false, res_pure, res_ok_bind, hmd, deref_some] at hs
    refine ⟨r₁, hsw, ?_⟩
    by_cases hm : (dir.macs dir.idx).macLen = 0 <;>
      simp only [hm, if_true, if_false, Except.ok.injEq, Prod.mk.injEq] at hs <;>
      obtain ⟨rfl, -⟩ := hs <;> simp [hk, setBlockSize_dir, Dir.blockSize, hm, hmd]
  · cases hs

theorem stepRead_setAlgo {E : Env} {r r₁ : ReadSide} {algo : String}
    (h : stepRead E r (.setAlgo algo) = .ok (r₁, .ret 0)) :
    setAlgo E.catalog r.dir algo = .ok (r₁.dir, 0) ∧ r₁.blockszs = r.blockszs := by
  simp only [stepRead, setReadAlgo] at h
  obtain ⟨⟨r₂, ret⟩, h₂, h⟩ := res_bind_eq_ok h
  obtain ⟨⟨dir, ret'⟩, hs, h₂⟩ := res_bind_eq_ok h₂
  cases h₂; cases h
  exact ⟨hs, rfl⟩

theorem stepRead_setKey {E : Env} {r r₁ : ReadSide} {md : EvpMd} {k h : Bytes} {role : Role}
    {o : KeyOutcome} (hst : stepRead E r (.setKey md k h role o) = .ok (r₁, .ret 0)) :
    setReadKey E r md k h role o = .ok (r₁, 0) := by
  simp only [stepRead] at hst
  obtain ⟨⟨r₂, ret⟩, hs, hst⟩ := res_bind_eq_ok hst
  cases hst; exact hs

/-- The read calls that configure nothing keep the slots, and the block sizes
unless they set one. -/
theorem stepRead_passive {E : Env} {r r₁ : ReadSide} {op : ReadOp} {out : Out}
    (h : stepRead E r op = .ok (r₁, out)) (hc : op.config = none) :
    r₁.dir = r.dir ∧ (r₁.blockszs = r.blockszs ∨ ∃ n, op = .setBlockSize n) := by
  cases op with
  | setAlgo _ => cases hc
  | setKey _ _ _ _ _ => cases hc
  | data pkt ok =>
    obtain ⟨_, -, h⟩ := res_bind_eq_ok h
    cases h; exact ⟨rfl, .inl rfl⟩
  | getBlockSize => cases h; exact ⟨rfl, .inl rfl⟩
  | setBlockSize n => cases h; exact ⟨setBlockSize_dir r n, .inr ⟨n, rfl⟩⟩
  | getAlgo =>
    obtain ⟨_, -, h⟩ := res_bind_eq_ok h
    cases h; exact ⟨rfl, .inl rfl⟩

/-- **The read side along a disciplined run.**  `Sim` holds throughout, and
`BlockInv` too when no caller sets the block size. -/
theorem Sim.runRead {E : Env} : ∀ {ops : List ReadOp} {r r' : ReadSide} {outs : List Out}
    {a : AbsDir} {armed : Bool}, Sim E.catalog r.dir a → a.pending.isSome = armed →
    runRead E r ops = .ok (r', outs) → disciplined ReadOp.config armed (ops.zip outs) = true →
    Sim E.catalog r'.dir (ops.foldl (AbsDir.stepRead E) a) ∧
      ((∀ n, ReadOp.setBlockSize n ∉ ops) → BlockInv r a.cur →
        BlockInv r' (ops.foldl (AbsDir.stepRead E) a).cur)
  | [], r, r', outs, a, armed, hs, _, hrun, _ => by
    simp only [ProxySshMac.runRead, runSteps, res_pure, Except.ok.injEq, Prod.mk.injEq] at hrun
    obtain ⟨rfl, -⟩ := hrun
    exact ⟨hs, fun _ hb => hb⟩
  | op :: ops, r, r', outs, a, armed, hs, harmed, hrun, hd => by
    obtain ⟨r₁, out, outs', hst, hrest, rfl⟩ := runSteps_cons hrun
    have hno_tail : (∀ n, ReadOp.setBlockSize n ∉ op :: ops) → ∀ n, ReadOp.setBlockSize n ∉ ops :=
      fun h n hn => h n (List.mem_cons_of_mem _ hn)
    cases op
    case setAlgo algo =>
      simp only [List.zip_cons_cons, disciplined, ReadOp.config, Bool.and_eq_true, beq_iff_eq] at hd
      obtain ⟨rfl, hd⟩ := hd
      obtain ⟨hsa, hbs⟩ := stepRead_setAlgo hst
      obtain ⟨hidx, -⟩ := setAlgo_keys hsa
      have ih := Sim.runRead (hs.setAlgo hsa) rfl hrest hd
      refine ⟨ih.1, fun hno hb => ih.2 (hno_tail hno) ?_⟩
      simpa only [BlockInv, hbs, hidx] using hb
    case setKey md k h role o =>
      simp only [List.zip_cons_cons, disciplined, ReadOp.config, Bool.and_eq_true, beq_iff_eq] at hd
      obtain ⟨⟨⟨rfl, hfail⟩, rfl⟩, hd⟩ := hd
      obtain ⟨algo, hp⟩ := Option.isSome_iff_exists.mp harmed
      obtain ⟨r₂, hsw, hk, hr₁⟩ := setReadKey_zero (stepRead_setKey hst)
      obtain ⟨fail, ok⟩ := o
      cases hfail
      obtain ⟨hs', hblk⟩ := hs.setKey hp (switchReadMac_dir hsw) hk
      have ih := Sim.runRead hs' (by simp [AbsDir.setKey, hp]) hrest hd
      refine ⟨ih.1, fun hno hb => ih.2 (hno_tail hno) ?_⟩
      obtain ⟨h0, h1⟩ := hb.switchReadMac hs.serves hsw
      have hidx : r₁.dir.idx = r₂.dir.idx := by
        obtain ⟨heap, mac, ret, hctx, uctx, r0, -, -, -, hd'⟩ := keyActive_ok hk
        rw [hd']
      rw [← hidx] at h0 h1
      rw [setBlockSize_of_zero h0] at hr₁
      rw [hr₁]
      refine ⟨?_, ?_⟩ <;> dsimp only
      · rw [update_same, hblk]
      · rw [update_noteq (nextIndex_ne _), h1]
    all_goals
      simp only [List.zip_cons_cons, disciplined, ReadOp.config] at hd
      obtain ⟨hdir, hbs⟩ := stepRead_passive hst rfl
      have ih := Sim.runRead (hdir ▸ hs) harmed hrest hd
      refine ⟨ih.1, fun hno hb => ih.2 (hno_tail hno) ?_⟩
      rcases hbs with hbs | ⟨n, hn⟩
      · simpa only [BlockInv, hdir, hbs] using hb
      · exact absurd (hn ▸ List.mem_cons_self _ _) (hno n)

/-- **The write direction along a disciplined run.** -/
theorem Sim.runWrite {E : Env} : ∀ {ops : List WriteOp} {d d' : Dir} {outs : List Out}
    {a : AbsDir} {armed : Bool}, Sim E.catalog d a → a.pending.isSome = armed →
    runWrite E d ops = .ok (d', outs) → disciplined WriteOp.config armed (ops.zip outs) = true →
    Sim E.catalog d' (ops.foldl (AbsDir.stepWrite E) a)
  | [], d, d', outs, a, armed, hs, _, hrun, _ => by
    simp only [ProxySshMac.runWrite, runSteps, res_pure, Except.ok.injEq, Prod.mk.injEq] at hrun
    obtain ⟨rfl, -⟩ := hrun
    exact hs
  | op :: ops, d, d', outs, a, armed, hs, harmed, hrun, hd => by
    obtain ⟨d₁, out, outs', hst, hrest, rfl⟩ := runSteps_cons hrun
    cases op
    case setAlgo algo =>
      simp only [List.zip_cons_cons, disciplined, WriteOp.config, Bool.and_eq_true, beq_iff_eq] at hd
      obtain ⟨rfl, hd⟩ := hd
      obtain ⟨⟨d₂, ret⟩, hsa, hst⟩ := res_bind_eq_ok hst
      cases hst
      exact (Sim.runWrite (hs.setAlgo hsa) rfl hrest hd :)
    case setKey md k h role o =>
      simp only [List.zip_cons_cons, disciplined, WriteOp.config, Bool.and_eq_true, beq_iff_eq] at hd
      obtain ⟨⟨⟨rfl, hfail⟩, rfl⟩, hd⟩ := hd
      obtain ⟨algo, hp⟩ := Option.isSome_iff_exists.mp harmed
      obtain ⟨⟨d₂, ret⟩, hkey, hst⟩ := res_bind_eq_ok hst
      cases hst
      obtain ⟨d₃, hsw, hk⟩ := res_bind_eq_ok hkey
      obtain ⟨fail, ok⟩ := o
      cases hfail
      exact (Sim.runWrite (hs.setKey hp hsw hk).1 (by simp [AbsDir.setKey, hp]) hrest hd :)
    case data pkt ok =>
      simp only [List.zip_cons_cons, disciplined, WriteOp.config] at hd
      obtain ⟨_, -, hst⟩ := res_bind_eq_ok hst
      cases hst
      exact (Sim.runWrite hs harmed hrest hd :)
    case getAlgo =>
      simp only [List.zip_cons_cons, disciplined, WriteOp.config] at hd
      cases hst
      exact (Sim.runWrite hs harmed hrest hd :)

/-- **The two slots refine the one-generation model.**  Along every run of
the session from `proxy_ssh_mac_init`, with its calls of both directions in any
order, in which, per direction, every `set_*_key` comes after a `set_*_algo`
since the previous one, every `set_*_algo` and `set_*_key` returns `0`, and
every digest call of `set_mac_key` succeeds: every packet given to
`proxy_ssh_mac_read_data` or `proxy_ssh_mac_write_data` gets exactly the packet
and the result the model's current generation gives it. -/
theorem two_slots_refine_one_generation (E : Env) {ops : List Op} {s : State} {outs : List Out}
    (hrun : run E State.init ops = .ok (s, outs))
    (hrd : disciplined ReadOp.config false (readCalls (ops.zip outs)) = true)
    (hwd : disciplined WriteOp.config false (writeCalls (ops.zip outs)) = true) :
    (∀ pkt ok, readData E.prims s.rd.dir pkt ok =
      ((readOps ops).foldl (AbsDir.stepRead E) AbsDir.init).data E.prims .read pkt ok) ∧
    (∀ pkt ok, writeData E.prims s.wr pkt ok =
      ((writeOps ops).foldl (AbsDir.stepWrite E) AbsDir.init).data E.prims .write pkt ok) := by
  obtain ⟨rs, hr, hzr⟩ := run_readCalls hrun
  obtain ⟨ws, hw, hzw⟩ := run_writeCalls hrun
  rw [hzr] at hrd
  rw [hzw] at hwd
  have hinit : AbsDir.init.pending.isSome = false := rfl
  exact ⟨(Sim.runRead (Sim.init E.catalog) hinit hr hrd).1.serves.data .read,
    (Sim.runWrite (Sim.init E.catalog) hinit hw hwd).serves.data .write⟩

/-- After the rekey session, whose read direction has switched slots once and
prepared a third algorithm. -/
theorem two_slots_refine_one_generation_rekey :
    ∃ s, run Env.toy State.init rekeySession = .ok (s, List.replicate 5 (.ret 0)) ∧ s.rd.dir.idx = 1 ∧
      disciplined ReadOp.config false
        (readCalls (rekeySession.zip (List.replicate 5 (.ret 0)))) = true ∧
      disciplined WriteOp.config false
        (writeCalls (rekeySession.zip (List.replicate 5 (.ret 0)))) = true ∧
      (∀ pkt ok, readData Env.toy.prims s.rd.dir pkt ok =
        ((readOps rekeySession).foldl (AbsDir.stepRead Env.toy) AbsDir.init).data
          Env.toy.prims .read pkt ok) ∧
      (∀ pkt ok, writeData Env.toy.prims s.wr pkt ok =
        ((writeOps rekeySession).foldl (AbsDir.stepWrite Env.toy) AbsDir.init).data
          Env.toy.prims .write pkt ok) :=
  let ⟨s, h, hidx, _⟩ := rekeySession_run
  ⟨s, h, hidx, by decide, by decide, two_slots_refine_one_generation Env.toy h (by decide) (by decide)⟩

/-- **The block size follows the active generation.**  Along every run of the
session from `proxy_ssh_mac_init` in which the read direction is configured in
order, with every digest call of `set_mac_key` succeeding, and with no call of
`proxy_ssh_mac_set_block_size` from outside: `proxy_ssh_mac_get_block_size` is
the active slot's `mac_len`, else its digest's output size, and `0` without a
key; the other slot's entry is `0`. -/
theorem blockSize_tracks_active (E : Env) {ops : List Op} {s : State} {outs : List Out}
    (hrun : run E State.init ops = .ok (s, outs))
    (hd : disciplined ReadOp.config false (readCalls (ops.zip outs)) = true)
    (hno : ∀ n, Sum.inl (ReadOp.setBlockSize n) ∉ ops) :
    getBlockSize s.rd = (if (s.rd.dir.macs s.rd.dir.idx).key.isSome then s.rd.dir.blockSize else 0) ∧
      s.rd.blockszs (nextIndex s.rd.dir.idx) = 0 := by
  obtain ⟨rs, hr, hz⟩ := run_readCalls hrun
  rw [hz] at hd
  obtain ⟨hs, hb⟩ := Sim.runRead (Sim.init E.catalog) (rfl : AbsDir.init.pending.isSome = false) hr hd
  obtain ⟨h0, h1⟩ := hb (fun n => by simpa only [mem_readOps] using hno n) BlockInv.init
  exact ⟨h0.trans (hs.serves.blockSize).symm, h1⟩

/-- After the rekey session: the block size is the one of the `hmac-sha1` key
in slot `1`, and the entry of the retired slot `0` is back to `0`. -/
theorem blockSize_tracks_active_rekey :
    ∃ s, run Env.toy State.init rekeySession = .ok (s, List.replicate 5 (.ret 0)) ∧
      s.rd.dir.idx = 1 ∧ (s.rd.dir.macs 1).key.isSome ∧
      disciplined ReadOp.config false
        (readCalls (rekeySession.zip (List.replicate 5 (.ret 0)))) = true ∧
      (∀ n, Sum.inl (ReadOp.setBlockSize n) ∉ rekeySession) ∧
      getBlockSize s.rd = (if (s.rd.dir.macs s.rd.dir.idx).key.isSome then s.rd.dir.blockSize else 0) ∧
      s.rd.blockszs (nextIndex s.rd.dir.idx) = 0 :=
  let ⟨s, h, hidx, hk, _⟩ := rekeySession_run
  have hno : ∀ n, Sum.inl (ReadOp.setBlockSize n) ∉ rekeySession := by simp [rekeySession]
  ⟨s, h, hidx, hk, by decide, hno, blockSize_tracks_active Env.toy h (by decide) hno⟩

/-- **The block size can leave the tag.**  After `hmac-sha1` is keyed for
reading with every call returning `0`, `proxy_ssh_mac_set_block_size(64)`
leaves the block size at `64` while the active slot compares `20` bytes.  And
when the first digest call of `set_mac_key` fails for `umac-64@openssh.com`,
`set_read_algo` and `set_read_key` both return `0`, the active slot holds no
key, and the block size is not `0`. -/
theorem blockSize_outruns_tag :
    (match run Env.toy State.init
        [.inl (.setAlgo "hmac-sha1"), .inl (.setKey .sha1 [1, 2] [3] .client KeyOutcome.success),
         .inl (.setBlockSize 64)] with
      | .ok (s, outs) =>
        disciplined ReadOp.config false (readCalls
            ([.inl (.setAlgo "hmac-sha1"), .inl (.setKey .sha1 [1, 2] [3] .client KeyOutcome.success),
              .inl (.setBlockSize 64)].zip outs)) &&
          (s.rd.dir.macs s.rd.dir.idx).key.isSome && s.rd.dir.blockSize == 20 && getBlockSize s.rd == 64
      | .error _ => false) &&
    (match run Env.toy State.init
        [.inl (.setAlgo "umac-64@openssh.com"), .inl (.setKey .sha1 [1, 2] [3] .client ⟨some 0, true⟩)] with
      | .ok (s, outs) =>
        outs == [.ret 0, .ret 0] && (s.rd.dir.macs s.rd.dir.idx).key.isNone && getBlockSize s.rd != 0
      | .error _ => false) = true := by
  decide

end ProxySshMac
