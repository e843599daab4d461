import ProxySshMac.Engine

/-!
# The session: both directions, the operations, and runs

The read direction owns `mac_blockszs` besides its slots: only `read_mac_idx`
indexes it, and only the read functions touch it.  What each direction does
differently is here, each function under its own name: `switch_read_mac` also
zeroes the retired slot's block size, `proxy_ssh_mac_set_read_key` derives
with `'F'` for a client and records a block size, `proxy_ssh_mac_set_write_key`
derives with `'E'`, and `proxy_ssh_mac_get_read_algo` asks `strcmp` about
`"none"` where `proxy_ssh_mac_get_write_algo` does not.

A session starts at `proxy_ssh_mac_init` and runs any list of operations of
either direction; an operation carries what the primitives do during it.  A
call that ends the process ends the run.

Three calls whose results the rest of the server trusts misbehave on a short
run, each shown beside the definition that exhibits it: the set-key functions
drop the result of `set_mac_key`, so a derivation that failed is reported as
success and, for a UMAC, the direction then passes packets without a tag;
`proxy_ssh_mac_get_read_algo` hands the `NULL` name of a fresh session to
`strcmp`; and `proxy_ssh_mac_free` (lines 977-985) frees the four HMAC
contexts and nothing else, so the active keys are never scrubbed.
-/

namespace ProxySshMac

/-- The read direction: its slots, and `mac_blockszs`. -/
structure ReadSide where
  dir : Dir
  blockszs : Fin 2 → Nat

/-- `proxy_ssh_mac_get_block_size`. -/
def getBlockSize (r : ReadSide) : Nat := r.blockszs r.dir.idx

/-- `proxy_ssh_mac_set_block_size`: the active slot's entry only ever grows. -/
def setBlockSize (r : ReadSide) (blocksz : Nat) : ReadSide :=
  if blocksz > r.blockszs r.dir.idx then
    { r with blockszs := Function.update r.blockszs r.dir.idx blocksz }
  else r

/-- `proxy_ssh_mac_get_read_algo`: the name when the active slot holds a key,
or when `strcmp` finds it is `"none"`. -/
def getReadAlgo (d : Dir) : Res (Option String) :=
  if (d.macs d.idx).key.isSome then .ok (d.macs d.idx).algo
  else do
    if ← strcmpEq (d.macs d.idx).algo "none" then pure (d.macs d.idx).algo else pure none

/-- `proxy_ssh_mac_get_write_algo`: the name when the active slot holds a key. -/
def getWriteAlgo (d : Dir) : Option String :=
  if (d.macs d.idx).key.isSome then (d.macs d.idx).algo else none

/-- `proxy_ssh_mac_set_read_algo`. -/
def setReadAlgo (C : Catalog) (r : ReadSide) (algo : String) : Res (ReadSide × Int) := do
  let (dir, ret) ← setAlgo C r.dir algo
  pure ({ r with dir }, ret)

/-- `proxy_ssh_mac_set_write_algo`. -/
def setWriteAlgo (C : Catalog) (d : Dir) (algo : String) : Res (Dir × Int) := setAlgo C d algo

/-- `switch_read_mac`: `switch_write_mac`, and the retired slot's block size
goes back to `0`. -/
def switchReadMac (r : ReadSide) : Res ReadSide :=
  match (r.dir.macs r.dir.idx).key with
  | none => .ok r
  | some _ => do
    let dir ← switchMac r.dir
    pure ⟨dir, Function.update r.blockszs r.dir.idx 0⟩

/-- `switch_write_mac`. -/
def switchWriteMac (d : Dir) : Res Dir := switchMac d

/-- `'E'`, the letter of the client-to-server keys (RFC 4253 §7.2). -/
def letterE : UInt8 := 'E'.toNat.toUInt8

/-- `'F'`, the letter of the server-to-client keys. -/
def letterF : UInt8 := 'F'.toNat.toUInt8

/-- `proxy_ssh_mac_set_read_key`: switch, derive with `'F'` for a client and
`'E'` for a server, and raise the block size to the new tag length. -/
def setReadKey (E : Env) (r : ReadSide) (md : EvpMd) (k h : Bytes) (role : Role) (o : KeyOutcome) :
    Res (ReadSide × Int) := do
  let r ← switchReadMac r
  let (dir, ret) ← keyActive E r.dir md k h (if role = .client then letterF else letterE) o
  let r := { r with dir }
  if ret < 0 then return (r, -1)
  let mac := dir.macs dir.idx
  let blocksz ← if mac.macLen = 0 then do pure (← deref mac.digest).size else pure mac.macLen
  return (setBlockSize r blocksz, 0)

/-- `proxy_ssh_mac_set_write_key`: switch, and derive with `'E'` for a client
and `'F'` for a server. -/
def setWriteKey (E : Env) (d : Dir) (md : EvpMd) (k h : Bytes) (role : Role) (o : KeyOutcome) :
    Res (Dir × Int) := do
  let d ← switchWriteMac d
  keyActive E d md k h (if role = .client then letterE else letterF) o

/-- The exported read-direction calls, with what the primitives do during them. -/
inductive ReadOp
  | setAlgo (algo : String)
  | setKey (md : EvpMd) (k h : Bytes) (role : Role) (o : KeyOutcome)
  | data (pkt : Packet) (ok : Bool)
  | getBlockSize
  | setBlockSize (blocksz : Nat)
  | getAlgo

/-- The exported write-direction calls. -/
inductive WriteOp
  | setAlgo (algo : String)
  | setKey (md : EvpMd) (k h : Bytes) (role : Role) (o : KeyOutcome)
  | data (pkt : Packet) (ok : Bool)
  | getAlgo

/-- A call of either direction. -/
abbrev Op := ReadOp ⊕ WriteOp

/-- What a call returns: an `int`, a packet with an `int`, a size, a name, or
nothing. -/
inductive Out
  | ret (r : Int)
  | packet (pkt : Packet) (r : Int)
  | size (n : Nat)
  | name (s : Option String)
  | unit
  deriving DecidableEq, Repr

/-- The state of `mac.c`: the read side and the write direction. -/
structure State where
  rd : ReadSide
  wr : Dir

/-- `proxy_ssh_mac_init`, on the static initialisers. -/
def State.init : State := ⟨⟨Dir.init, fun _ => 0⟩, Dir.init⟩

/-- One read-direction call. -/
def stepRead (E : Env) (r : ReadSide) : ReadOp → Res (ReadSide × Out)
  | .setAlgo algo => do let (r, ret) ← setReadAlgo E.catalog r algo; pure (r, .ret ret)
  | .setKey md k h role o => do let (r, ret) ← setReadKey E r md k h role o; pure (r, .ret ret)
  | .data pkt ok => do let (pkt, ret) ← readData E.prims r.dir pkt ok; pure (r, .packet pkt ret)
  | .getBlockSize => pure (r, .size (getBlockSize r))
  | .setBlockSize n => pure (setBlockSize r n, .unit)
  | .getAlgo => do pure (r, .name (← getReadAlgo r.dir))

/-- One write-direction call. -/
def stepWrite (E : Env) (d : Dir) : WriteOp → Res (Dir × Out)
  | .setAlgo algo => do let (d, ret) ← setWriteAlgo E.catalog d algo; pure (d, .ret ret)
  | .setKey md k h role o => do let (d, ret) ← setWriteKey E d md k h role o; pure (d, .ret ret)
  | .data pkt ok => do let (pkt, ret) ← writeData E.prims d pkt ok; pure (d, .packet pkt ret)
  | .getAlgo => pure (d, .name (getWriteAlgo d))

/-- One call of the session. -/
def step (E : Env) (s : State) : Op → Res (State × Out)
  | .inl o => do let (rd, out) ← stepRead E s.rd o; pure ({ s with rd }, out)
  | .inr o => do let (wr, out) ← stepWrite E s.wr o; pure ({ s with wr }, out)

/-- Calls in order, each on the state the previous one left; the first call
that ends the process ends the run. -/
def runSteps {σ α : Type} (f : σ → α → Res (σ × Out)) : σ → List α → Res (σ × List Out)
  | s, [] => pure (s, [])
  | s, a :: as => do
    let (s, out) ← f s a
    let (s, outs) ← runSteps f s as
    pure (s, out :: outs)

/-- A run of read-direction calls alone. -/
def runRead (E : Env) : ReadSide → List ReadOp → Res (ReadSide × List Out) := runSteps (stepRead E)

/-- A run of write-direction calls alone. -/
def runWrite (E : Env) : Dir → List WriteOp → Res (Dir × List Out) := runSteps (stepWrite E)

/-- A run of the session. -/
def run (E : Env) : State → List Op → Res (State × List Out) := runSteps (step E)

/-- Both directions set up for `umac-64@openssh.com` with a first digest call
that fails, then one packet through each. -/
def failOpenRun (pkt : Packet) : List Op :=
  [.inl (.setAlgo "umac-64@openssh.com"), .inl (.setKey .sha1 [1, 2] [3] .client ⟨some 0, true⟩),
   .inl (.data pkt true),
   .inr (.setAlgo "umac-64@openssh.com"), .inr (.setKey .sha1 [1, 2] [3] .server ⟨some 0, true⟩),
   .inr (.data pkt true)]

/-- **A failed derivation is reported as success.**  `set_read_key` and
`set_write_key` drop the result of `set_mac_key`.  With its first digest call
failing, they return `0` for `umac-64@openssh.com`; the active slots hold no
key, so every packet is accepted, and sent, without a tag. -/
theorem setKey_fail_open (pkt : Packet) :
    match run Env.toy State.init (failOpenRun pkt) with
    | .ok (s, outs) =>
      outs = [.ret 0, .ret 0, .packet { pkt with mac := [], macLen := 0 } 0,
              .ret 0, .ret 0, .packet { pkt with mac := [], macLen := 0 } 0] ∧
      (s.rd.dir.macs s.rd.dir.idx).algo = some "umac-64@openssh.com" ∧
      (s.rd.dir.macs s.rd.dir.idx).key = none ∧
      (s.wr.macs s.wr.idx).algo = some "umac-64@openssh.com" ∧ (s.wr.macs s.wr.idx).key = none
    | .error _ => False :=
  ⟨rfl, rfl, rfl, rfl, rfl⟩

/-- The states some run from `proxy_ssh_mac_init` reaches. -/
def Reachable (E : Env) (s : State) : Prop := ∃ ops outs, run E State.init ops = .ok (s, outs)

/-- **`get_read_algo` passes `NULL` to `strcmp`.**  Right after
`proxy_ssh_mac_init`, under any primitives and catalog, the read query
dereferences the `NULL` name, where the write query returns `NULL`. -/
theorem getReadAlgo_init_strcmp_null (E : Env) :
    Reachable E State.init ∧ getReadAlgo State.init.rd.dir = .error .undefined ∧
      getWriteAlgo State.init.wr = none :=
  ⟨⟨[], [], rfl⟩, rfl, rfl⟩

/-- Reading set up for `umac-64@openssh.com`, rekeyed to `hmac-sha1`, and
`umac-128@openssh.com` prepared for the next rekey, with a SHA-512 key
exchange. -/
def rekeySession : List Op :=
  [.inl (.setAlgo "umac-64@openssh.com"), .inl (.setKey .sha512 [1, 2] [3] .client KeyOutcome.success),
   .inl (.setAlgo "hmac-sha1"), .inl (.setKey .sha512 [4, 5] [6] .client KeyOutcome.success),
   .inl (.setAlgo "umac-128@openssh.com")]

/-- The session runs to the end, every call returning `0`.  The second key
switched to slot `1` and freed the first key; the last `set_read_algo` deleted
the `umac-64` context of slot `0` and allocated a `umac-128` one, so one
context is live. -/
theorem rekeySession_run :
    ∃ s, run Env.toy State.init rekeySession = .ok (s, List.replicate 5 (.ret 0)) ∧
      s.rd.dir.idx = 1 ∧ (s.rd.dir.macs 1).key.isSome ∧ s.rd.dir.heap.released.length = 1 ∧
      s.rd.dir.umacLive = 1 ∧ getReadAlgo s.rd.dir = .ok (some "hmac-sha1") := by
  have h : (match run Env.toy State.init rekeySession with
      | .ok (s, outs) => outs == List.replicate 5 (.ret 0) && s.rd.dir.idx == 1 &&
          (s.rd.dir.macs 1).key.isSome && s.rd.dir.heap.released.length == 1 &&
          s.rd.dir.umacLive == 1 && getReadAlgo s.rd.dir == .ok (some "hmac-sha1")
      | .error _ => false) = true := by
    decide
  split at h
  next s outs hr =>
    simp only [Bool.and_eq_true, beq_iff_eq] at h
    obtain ⟨⟨⟨⟨⟨h1, h2⟩, h3⟩, h4⟩, h5⟩, h6⟩ := h
    exact ⟨s, by rw [hr, h1], h2, h3, h4, h5, h6⟩
  next => cases h

/-- `proxy_ssh_mac_free`: the four HMAC contexts are freed, nothing else. -/
def macFree (s : State) : State :=
  { rd := { s.rd with dir := { s.rd.dir with hmacCtxs := fun _ => .freed } }
    wr := { s.wr with hmacCtxs := fun _ => .freed } }

/-- **`proxy_ssh_mac_free` leaves the active key in memory.**  After
`hmac-sha1` is set up for reading and the session is freed, the active read key
is held and not zero. -/
theorem macFree_active_key_unscrubbed :
    (match run Env.toy State.init
        [.inl (.setAlgo "hmac-sha1"), .inl (.setKey .sha1 [1, 2] [3] .client KeyOutcome.success)] with
      | .ok (s, _) =>
        ((macFree s).rd.dir.macs (macFree s).rd.dir.idx).key.any fun b => b.bytes != zeros b.bytes.length
      | .error _ => false) = true := by
  decide

section Runs

variable {σ α : Type} {f : σ → α → Res (σ × Out)}

theorem runSteps_cons {s : σ} {a : α} {as : List α} {t : σ} {outs : List Out}
    (h : runSteps f s (a :: as) = .ok (t, outs)) :
    ∃ s' out outs', f s a = .ok (s', out) ∧ runSteps f s' as = .ok (t, outs') ∧
      outs = out :: outs' := by
  simp only [runSteps] at h
  cases hs : f s a with
  | error e => rw [hs] at h; cases h
  | ok p =>
    rw [hs] at h
    cases hr : runSteps f p.1 as with
    | error e => simp [hr] at h
    | ok q =>
      simp only [hr, res_ok_bind, res_pure, Except.ok.injEq, Prod.mk.injEq] at h
      exact ⟨p.1, p.2, q.2, rfl, by rw [hr, ← h.1], h.2.symm⟩

/-- **Invariants of runs.**  A property that every successful call keeps holds
after every successful run. -/
theorem runSteps_invariant (I : σ → Prop) (hstep : ∀ s a s' out, I s → f s a = .ok (s', out) → I s')
    {as : List α} : ∀ {s t : σ} {outs : List Out}, I s → runSteps f s as = .ok (t, outs) → I t := by
  induction as with
  | nil =>
    intro s t outs hs h
    simp only [runSteps, res_pure, Except.ok.injEq, Prod.mk.injEq] at h
    exact h.1 ▸ hs
  | cons a as ih =>
    intro s t outs hs h
    obtain ⟨s', out, outs', hst, hrun, -⟩ := runSteps_cons h
    exact ih (hstep _ _ _ _ hs hst) hrun

end Runs

/-- Every reachable state has a property that holds at `proxy_ssh_mac_init`
and that every successful call keeps. -/
theorem Reachable.induction {E : Env} (I : State → Prop) (h0 : I State.init)
    (hstep : ∀ s o s' out, I s → step E s o = .ok (s', out) → I s') {s : State}
    (hs : Reachable E s) : I s :=
  let ⟨_, _, h⟩ := hs
  runSteps_invariant I hstep h0 h

end ProxySshMac
