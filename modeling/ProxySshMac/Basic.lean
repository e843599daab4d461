import Mathlib

/-!
# Buffers, encodings and the end of a process

`lib/proxy/ssh/mac.c` works on `unsigned char` buffers it gets from `malloc`,
`palloc` and `pcalloc`, writes big-endian integers into them through the
`proxy_ssh_msg_write_*` routines of `msg.c`, and zeroes keys with
`pr_memscrub`.  A buffer is a `List UInt8`; reading or writing outside it, a
`NULL` dereference, a division by zero and a connection dropped by the message
layer all end the process, and are one outcome, `Fault.undefined`: the model
does not tell them apart, so two runs that both stop agree.
-/

namespace ProxySshMac

/-- What ends the process in the middle of a call. -/
inductive Fault
  | undefined
  deriving DecidableEq, Repr

/-- Results are compared constructor by constructor, so that runs can be
evaluated. -/
instance instDecidableEqExcept {ε α : Type} [DecidableEq ε] [DecidableEq α] :
    DecidableEq (Except ε α)
  | .ok a, .ok b => decidable_of_iff (a = b) ⟨congrArg _, fun h => by cases h; rfl⟩
  | .error a, .error b => decidable_of_iff (a = b) ⟨congrArg _, fun h => by cases h; rfl⟩
  | .ok _, .error _ => isFalse nofun
  | .error _, .ok _ => isFalse nofun

/-- Every C call of the model returns in `Except Fault`. -/
abbrev Res := Except Fault

@[simp] theorem res_pure {α : Type} (a : α) : (pure a : Res α) = .ok a := rfl

@[simp] theorem res_ok_bind {α β : Type} (a : α) (f : α → Res β) :
    (Except.ok a >>= f : Res β) = f a := rfl

@[simp] theorem res_error_bind {α β : Type} (e : Fault) (f : α → Res β) :
    (Except.error e >>= f : Res β) = .error e := rfl

@[simp] theorem res_throw {α : Type} (e : Fault) : (throw e : Res α) = .error e := rfl

/-- A successful bind is a successful first computation, then a successful
second one. -/
theorem res_bind_eq_ok {α β : Type} {x : Res α} {f : α → Res β} {b : β} (h : (x >>= f) = .ok b) :
    ∃ a, x = .ok a ∧ f a = .ok b := by
  cases x with
  | error e => cases h
  | ok a => exact ⟨a, rfl, h⟩

@[simp] theorem res_ok_map {α β : Type} (f : α → β) (a : α) :
    (Except.ok a : Res α).map f = .ok (f a) := rfl

/-- Dereferencing a pointer that may be `NULL`. -/
def deref {α : Type} : Option α → Res α
  | some a => .ok a
  | none => .error .undefined

/-- `strcmp(s, t) == 0` for a `s` that may be `NULL`. -/
def strcmpEq (s : Option String) (t : String) : Res Bool := do
  pure ((← deref s) == t)

@[simp] theorem deref_some {α : Type} (a : α) : deref (some a) = .ok a := rfl

@[simp] theorem deref_none {α : Type} : deref (none : Option α) = .error .undefined := rfl

/-- A byte buffer. -/
abbrev Bytes := List UInt8

/-- `n` zero bytes: what `pcalloc` returns, and what `malloc` is modelled to
return (a fresh buffer holds no key material). -/
def zeros (n : Nat) : Bytes := List.replicate n 0

/-- `pr_memscrub(buf, n)`: the first `n` bytes are zeroed. -/
def scrub (n : Nat) (b : Bytes) : Bytes := zeros (min n b.length) ++ b.drop n

/-- `memcpy(buf + off, data, len)`: in bounds it overwrites `len` bytes,
otherwise the write is undefined. -/
def writeAt (buf : Bytes) (off : Nat) (data : Bytes) : Res Bytes :=
  if off + data.length ≤ buf.length then .ok (buf.take off ++ data ++ buf.drop (off + data.length))
  else .error .undefined

/-- Reading `n` bytes from the start of a buffer (`memcmp`, `memcpy`,
`HMAC_Init_ex` reading its key). -/
def readBytes (buf : Bytes) (n : Nat) : Res Bytes :=
  if n ≤ buf.length then .ok (buf.take n) else .error .undefined

/-- `x` in `n` bytes, most significant first: `htonl`, and the two halves of
`proxy_ssh_msg_write_long`. -/
def beBytes (n x : Nat) : Bytes :=
  (List.range n).reverse.map fun i => (x / 256 ^ i % 256).toUInt8

/-- `proxy_ssh_msg_write_int`'s encoding of a `uint32_t`. -/
def be32 (x : UInt32) : Bytes := beBytes 4 x.toNat

/-- `proxy_ssh_msg_write_long`'s encoding of a `uint64_t`. -/
def be64 (x : Nat) : Bytes := beBytes 8 x

@[simp] theorem zeros_length (n : Nat) : (zeros n).length = n := List.length_replicate n 0

@[simp] theorem beBytes_length (n x : Nat) : (beBytes n x).length = n := by simp [beBytes]

@[simp] theorem be32_length (x : UInt32) : (be32 x).length = 4 := beBytes_length 4 _

@[simp] theorem be64_length (x : Nat) : (be64 x).length = 8 := beBytes_length 8 x

theorem scrub_length (n : Nat) (b : Bytes) : (scrub n b).length = b.length := by
  simp only [scrub, List.length_append, zeros_length, List.length_drop]; omega

/-- Scrubbing a whole buffer leaves only zeros. -/
theorem scrub_self {n : Nat} {b : Bytes} (h : b.length ≤ n) : scrub n b = zeros b.length := by
  simp [scrub, Nat.min_eq_right h, List.drop_eq_nil_of_le h]

theorem writeAt_ok {buf data : Bytes} {off : Nat} (h : off + data.length ≤ buf.length) :
    writeAt buf off data = .ok (buf.take off ++ data ++ buf.drop (off + data.length)) :=
  if_pos h

theorem writeAt_length {buf data out : Bytes} {off : Nat} (h : writeAt buf off data = .ok out) :
    out.length = buf.length := by
  unfold writeAt at h
  split at h
  · cases h; simp only [List.length_append, List.length_take, List.length_drop]; omega
  · cases h

theorem readBytes_ok {buf : Bytes} {n : Nat} (h : n ≤ buf.length) :
    readBytes buf n = .ok (buf.take n) := if_pos h

theorem readBytes_eq_ok {buf out : Bytes} {n : Nat} (h : readBytes buf n = .ok out) :
    n ≤ buf.length ∧ out = buf.take n := by
  unfold readBytes at h
  split at h
  · cases h; exact ⟨‹_›, rfl⟩
  · cases h

theorem readBytes_length {buf out : Bytes} {n : Nat} (h : readBytes buf n = .ok out) :
    out.length = n := by
  unfold readBytes at h
  split at h
  · cases h; rw [List.length_take]; exact Nat.min_eq_left ‹_›
  · cases h

@[simp] theorem readBytes_self (b : Bytes) : readBytes b b.length = .ok b := by
  simp [readBytes]

/-- The message buffer of `get_mac`: what has been written, and `buflen`, the
room left of the `bufsz` bytes `palloc` gave. -/
structure MsgBuf where
  data : Bytes
  buflen : Nat
  deriving DecidableEq, Repr

/-- Modelled from the spec: the `proxy_ssh_msg_write_*` routines of `msg.c`
(not under `src/`) append their bytes when `buflen` leaves room, and otherwise
drop the connection (`PROXY_SSH_DISCONNECT_CONN`). -/
def MsgBuf.write (b : MsgBuf) (bytes : Bytes) : Res MsgBuf :=
  if bytes.length ≤ b.buflen then .ok ⟨b.data ++ bytes, b.buflen - bytes.length⟩
  else .error .undefined

/-- A sequence of writes into one buffer, in order. -/
def MsgBuf.writeAll : MsgBuf → List Bytes → Res MsgBuf
  | b, [] => .ok b
  | b, x :: xs => do writeAll (← b.write x) xs

/-- The room left plus what was written stays `bufsz`. -/
theorem MsgBuf.writeAll_ok {b : MsgBuf} {xs : List Bytes}
    (h : (xs.map List.length).sum ≤ b.buflen) :
    b.writeAll xs = .ok ⟨b.data ++ xs.flatten, b.buflen - (xs.map List.length).sum⟩ := by
  induction xs generalizing b with
  | nil => simp [writeAll]
  | cons x xs ih =>
    simp only [List.map_cons, List.sum_cons] at h
    simp only [writeAll, write, show x.length ≤ b.buflen by omega, if_true, res_ok_bind]
    rw [ih (by simp only; omega)]
    simp [Nat.sub_sub]

end ProxySshMac
