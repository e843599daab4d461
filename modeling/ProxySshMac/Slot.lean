import ProxySshMac.Primitives

/-!
# One generation slot: `struct proxy_ssh_mac` and its contexts

`read_macs[2]` and `write_macs[2]` hold `struct proxy_ssh_mac` (lines 41-56);
beside each sit an `HMAC_CTX *` and a `struct umac_ctx *`.  A key buffer comes
from `malloc` in `set_mac_key` and goes back through `free`, after
`pr_memscrub` in `clear_mac` (lines 170-181).  The allocator is kept as ghost
state: how many key buffers were allocated, and each buffer handed to `free`
with the bytes it held then.  The memory pool of a slot is left out: nothing the
file computes reads it.
-/

namespace ProxySshMac

/-- A key buffer from `malloc`: a ghost number telling allocations apart, and
its bytes. -/
structure KeyBuf where
  id : Nat
  bytes : Bytes
  deriving DecidableEq, Repr

/-- The allocator, for key buffers (ghost): buffers allocated so far, and the
buffers passed to `free`, last first, as they were when freed. -/
structure Heap where
  next : Nat
  released : List KeyBuf
  deriving DecidableEq, Repr

/-- `malloc(n)`: a fresh buffer of `n` bytes. -/
def Heap.malloc (hp : Heap) (n : Nat) : Heap × KeyBuf :=
  (⟨hp.next + 1, hp.released⟩, ⟨hp.next, zeros n⟩)

/-- `free(b)`. -/
def Heap.free (hp : Heap) (b : KeyBuf) : Heap := ⟨hp.next, b :: hp.released⟩

/-- `struct proxy_ssh_mac` without its pool: `algo` and `digest` may be `NULL`,
`key` is `NULL` or a `malloc`ed buffer of `keysz` bytes. -/
structure Mac where
  algo : Option String
  algoType : AlgoType
  digest : Option EvpMd
  key : Option KeyBuf
  keysz : Nat
  keyLen : Nat
  macLen : Nat
  deriving DecidableEq, Repr

/-- `{ NULL, NULL, 0, NULL, NULL, 0, 0, 0 }`, the static initialiser. -/
def Mac.empty : Mac := ⟨none, .unset, none, none, 0, 0, 0⟩

/-- `clear_mac`: a key is scrubbed over `keysz` bytes, freed and forgotten; the
digest and the name are dropped in any case. -/
def clearMac (hp : Heap) (mac : Mac) : Heap × Mac :=
  match mac.key with
  | some b => (hp.free ⟨b.id, scrub mac.keysz b.bytes⟩,
      { mac with key := none, keysz := 0, keyLen := 0, digest := none, algo := none })
  | none => (hp, { mac with digest := none, algo := none })

/-- An `HMAC_CTX *`: fresh from `HMAC_CTX_new` or `HMAC_CTX_reset`, keyed by
`HMAC_Init_ex` with a digest and key bytes, or freed by `HMAC_CTX_free`. -/
inductive HmacCtx
  | fresh
  | keyed (md : EvpMd) (key : Bytes)
  | freed
  deriving DecidableEq, Repr

/-- `HMAC_CTX_reset`; on a freed context it is a use after free. -/
def hmacReset : HmacCtx → Res HmacCtx
  | .freed => .error .undefined
  | _ => .ok .fresh

/-- `HMAC_Init_ex(ctx, key, len, md, NULL)` right after `HMAC_CTX_reset`: it
reads `len` bytes of the key and succeeds, unless the library reports a failure
(`ok = false`); OpenSSL refuses a `NULL` key or digest on a reset context. -/
def hmacInitEx (key : Option KeyBuf) (len : Nat) (md : Option EvpMd) (ok : Bool) :
    Res (Option HmacCtx) :=
  match key, md with
  | some k, some md => do
    let bytes ← readBytes k.bytes len
    pure (if ok then some (.keyed md bytes) else none)
  | _, _ => .ok none

/-- A `struct umac_ctx *` that is not `NULL`: the width it was allocated with,
and the key of the last `proxy_ssh_umac_init`. -/
structure UmacCtx where
  width : UmacWidth
  key : Option Bytes
  deriving DecidableEq, Repr

/-- The context a routine of width `w` (`proxy_ssh_umac_*` or
`proxy_ssh_umac128_*`) works on: a `NULL` context, or one allocated for the other
width, is undefined. -/
def umacCtxOf (w : UmacWidth) : Option UmacCtx → Res UmacCtx
  | some c => if c.width = w then .ok c else .error .undefined
  | none => .error .undefined

/-- `proxy_ssh_umac_delete` / `proxy_ssh_umac128_delete`, with the number of
live contexts (ghost): one fewer. -/
def umacDelete (w : UmacWidth) (live : Nat) (c : Option UmacCtx) : Res Nat :=
  (umacCtxOf w c).map fun _ => live - 1

/-- `proxy_ssh_umac_alloc` / `proxy_ssh_umac128_alloc`: a context of the
routine's width with no key yet, and one more live context (ghost). -/
def umacAlloc (w : UmacWidth) (live : Nat) : Nat × UmacCtx := (live + 1, ⟨w, none⟩)

/-- `proxy_ssh_umac_reset` / `proxy_ssh_umac128_reset`: the key stays. -/
def umacReset (w : UmacWidth) (c : Option UmacCtx) : Res UmacCtx := umacCtxOf w c

/-- `proxy_ssh_umac_init` / `proxy_ssh_umac128_init`: the context takes the
key, `NULL` included. -/
def umacInit (w : UmacWidth) (c : Option UmacCtx) (key : Option Bytes) : Res UmacCtx := do
  pure { (← umacCtxOf w c) with key }

/-- The width of the UMAC routines `mac.c` calls for an algorithm type. -/
def AlgoType.umacWidth : AlgoType → Option UmacWidth
  | .umac64 => some .w64
  | .umac128 => some .w128
  | _ => none

@[simp] theorem umacCtxOf_some_self (w : UmacWidth) (key : Option Bytes) :
    umacCtxOf w (some ⟨w, key⟩) = .ok ⟨w, key⟩ := if_pos rfl

theorem umacCtxOf_ok {w : UmacWidth} {c : Option UmacCtx} {c' : UmacCtx}
    (h : umacCtxOf w c = .ok c') : c = some c' ∧ c'.width = w := by
  unfold umacCtxOf at h
  split at h
  · split at h
    · cases h; exact ⟨rfl, ‹_›⟩
    · cases h
  · cases h

@[simp] theorem UmacWidth.umacWidth_algoType (w : UmacWidth) : w.algoType.umacWidth = some w := by
  cases w <;> rfl

theorem AlgoType.umacWidth_eq_some {t : AlgoType} {w : UmacWidth} :
    t.umacWidth = some w ↔ t = w.algoType := by
  cases t <;> cases w <;> simp [umacWidth, UmacWidth.algoType]

@[simp] theorem clearMac_key (hp : Heap) (mac : Mac) : (clearMac hp mac).2.key = none := by
  cases h : mac.key <;> simp [clearMac, h]

@[simp] theorem clearMac_algoType (hp : Heap) (mac : Mac) :
    (clearMac hp mac).2.algoType = mac.algoType := by
  cases h : mac.key <;> simp [clearMac, h]

@[simp] theorem clearMac_digest (hp : Heap) (mac : Mac) : (clearMac hp mac).2.digest = none := by
  cases h : mac.key <;> simp [clearMac, h]

end ProxySshMac
