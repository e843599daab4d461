import ProxySshMac.Kdf

/-!
# One direction: two slots and an index

Each direction keeps two slots, so that packets framed under the old keys can
still be handled while a rekey is under way (the comment at lines 65-69), and an
index `read_mac_idx` / `write_mac_idx` naming the active one.  The read and the
write functions of `mac.c` are the same code on different arrays, apart from
`mac_blockszs` and the letters of the key derivation; this file holds the part
they share, `ProxySshMac.Session` the part each keeps to itself.

* `setAlgo` is `proxy_ssh_mac_set_read_algo` and `proxy_ssh_mac_set_write_algo`
  (lines 688-743, 825-880): it prepares the active slot, or the other one while
  the active one holds a key.  A direction counts, as ghost state, the UMAC
  contexts allocated and not yet deleted, so that what `set_*_algo` deletes
  and what it writes over can be told apart.
* `switchMac` is `switch_write_mac` (lines 140-168), the part of
  `switch_read_mac` (lines 108-138) that is not about `mac_blockszs`.
* `keyActive` is what `proxy_ssh_mac_set_read_key` and
  `proxy_ssh_mac_set_write_key` do after switching: `set_mac_key`, whose result
  they ignore, then `init_mac` (lines 183-231).
-/

namespace ProxySshMac

/-- One direction: the slots, their `HMAC_CTX *` and `struct umac_ctx *`, the
active index, the allocator's record of key buffers (ghost), and the number of
UMAC contexts allocated and not yet deleted (ghost). -/
structure Dir where
  macs : Fin 2 → Mac
  hmacCtxs : Fin 2 → HmacCtx
  umacCtxs : Fin 2 → Option UmacCtx
  idx : Fin 2
  heap : Heap
  umacLive : Nat

/-- The static initialisers and `proxy_ssh_mac_init`: empty slots, fresh HMAC
contexts from `HMAC_CTX_new`, `NULL` UMAC contexts, index `0`. -/
def Dir.init : Dir := ⟨fun _ => Mac.empty, fun _ => .fresh, fun _ => none, 0, ⟨0, []⟩, 0⟩

/-- `get_next_read_index` / `get_next_write_index`. -/
def nextIndex (i : Fin 2) : Fin 2 := if i = 1 then 0 else 1

/-- The slot `set_*_algo` prepares: the active one, or the other one while the
active one holds a key ("we are currently rekeying"). -/
def Dir.target (d : Dir) : Fin 2 := if (d.macs d.idx).key.isSome then nextIndex d.idx else d.idx

/-- "Clear any potential UMAC contexts at this index" (lines 697-710): a context
is deleted by the routine of the slot's algorithm type, and the slot set to
`NULL`, or kept; with the number of live contexts. -/
def clearUmac (live : Nat) (c : Option UmacCtx) (t : AlgoType) : Res (Nat × Option UmacCtx) :=
  match c, t.umacWidth with
  | some c, some w => (umacDelete w live (some c)).map fun live => (live, none)
  | c, _ => .ok (live, c)

/-- The algorithm type `set_*_algo` gives a name (lines 729-739). -/
def algoTypeOf (algo : String) : AlgoType :=
  if algo = "umac-64@openssh.com" then .umac64
  else if algo = "umac-128@openssh.com" then .umac128
  else .hmac

/-- The UMAC context after `set_*_algo`, with the number of live contexts: a
new one for a UMAC name (`proxy_ssh_umac_alloc`, `proxy_ssh_umac128_alloc`),
written over whatever the slot held, the old one otherwise. -/
def allocUmac (algo : String) (live : Nat) (c : Option UmacCtx) : Nat × Option UmacCtx :=
  match (algoTypeOf algo).umacWidth with
  | some w => let (live, c) := umacAlloc w live; (live, some c)
  | none => (live, c)

/-- A slot `set_*_algo` prepared for `algo`, resolved to `md` and `macLen`. -/
def prepareMac (mac : Mac) (algo : String) (md : EvpMd) (macLen : Nat) : Mac :=
  { mac with digest := some md, algo := some algo, algoType := algoTypeOf algo, macLen }

/-- `proxy_ssh_mac_set_read_algo` / `proxy_ssh_mac_set_write_algo`.  The digest
is stored before it is checked, so an unknown name leaves `NULL` there. -/
def setAlgo (C : Catalog) (d : Dir) (algo : String) : Res (Dir × Int) := do
  let t := d.target
  let (live, u) ← clearUmac d.umacLive (d.umacCtxs t) (d.macs t).algoType
  match C.getDigest algo with
  | none =>
    pure ({ d with
      macs := Function.update d.macs t { d.macs t with digest := none }
      umacCtxs := Function.update d.umacCtxs t u
      umacLive := live }, -1)
  | some (md, macLen) =>
    let (live, u) := allocUmac algo live u
    pure ({ d with
      macs := Function.update d.macs t (prepareMac (d.macs t) algo md macLen)
      umacCtxs := Function.update d.umacCtxs t u
      umacLive := live }, 0)

/-- The UMAC reset of `switch_*_mac`, by the routine of the slot's type. -/
def resetUmac (c : Option UmacCtx) (t : AlgoType) : Res Unit :=
  match t.umacWidth with
  | some w => (umacReset w c).map fun _ => ()
  | none => .ok ()

/-- `switch_write_mac`: while the active slot holds a key, `clear_mac` retires
it, its contexts are reset, and the index moves to the other slot. -/
def switchMac (d : Dir) : Res Dir :=
  match (d.macs d.idx).key with
  | none => .ok d
  | some _ => do
    let (heap, mac) := clearMac d.heap (d.macs d.idx)
    let hctx ← hmacReset (d.hmacCtxs d.idx)
    resetUmac (d.umacCtxs d.idx) mac.algoType
    pure { d with
      heap
      macs := Function.update d.macs d.idx mac
      hmacCtxs := Function.update d.hmacCtxs d.idx hctx
      idx := nextIndex d.idx }

/-- `init_mac`: nothing for `"none"`; otherwise the HMAC context is reset and,
for HMAC, keyed with `key_len` bytes of the key (`ok`: the library does not
fail), or the UMAC context of the slot's width is reset and keyed.  The
contexts and the return value. -/
def initMac (mac : Mac) (hctx : HmacCtx) (uctx : Option UmacCtx) (ok : Bool) :
    Res (HmacCtx × Option UmacCtx × Int) := do
  if ← strcmpEq mac.algo "none" then return (hctx, uctx, 0)
  let hctx ← hmacReset hctx
  match mac.algoType, mac.algoType.umacWidth with
  | .hmac, _ =>
    match ← hmacInitEx mac.key mac.keyLen mac.digest ok with
    | some c => return (c, uctx, 0)
    | none => return (hctx, uctx, -1)
  | _, some w => do
    let c ← umacReset w uctx
    let c ← umacInit w (some c) (mac.key.map KeyBuf.bytes)
    return (hctx, some c, 0)
  | _, none => return (hctx, uctx, 0)

/-- How the primitives behave during one `set_*_key`: the first `EVP_Digest*`
call of `set_mac_key` to fail, if any, and whether `HMAC_Init_ex` in `init_mac`
succeeds. -/
structure KeyOutcome where
  fail : Option Nat
  hmacOk : Bool
  deriving DecidableEq, Repr

/-- Every primitive call succeeds. -/
def KeyOutcome.success : KeyOutcome := ⟨none, true⟩

/-- What `set_*_key` does after switching: `set_mac_key` into the active slot,
its return value dropped, then `init_mac` on the slot's contexts. -/
def keyActive (E : Env) (d : Dir) (md : EvpMd) (k h : Bytes) (letter : UInt8) (o : KeyOutcome) :
    Res (Dir × Int) := do
  let (heap, mac, _) ←
    setMacKey E.prims d.heap (d.macs d.idx) md k h letter E.sessionId E.macLenFeature o.fail
  let (hctx, uctx, r) ← initMac mac (d.hmacCtxs d.idx) (d.umacCtxs d.idx) o.hmacOk
  pure ({ d with
    heap
    macs := Function.update d.macs d.idx mac
    hmacCtxs := Function.update d.hmacCtxs d.idx hctx
    umacCtxs := Function.update d.umacCtxs d.idx uctx }, if r < 0 then -1 else 0)

theorem nextIndex_ne (i : Fin 2) : nextIndex i ≠ i := by
  unfold nextIndex; split <;> omega

@[simp] theorem nextIndex_nextIndex (i : Fin 2) : nextIndex (nextIndex i) = i := by
  unfold nextIndex; split <;> split <;> omega

/-- The two slots are the active one and the other one. -/
theorem eq_or_eq_nextIndex (i j : Fin 2) : j = i ∨ j = nextIndex i := by
  unfold nextIndex; split <;> omega

end ProxySshMac
