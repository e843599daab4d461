import ProxySshMac.Steps

/-!
# Key buffers and UMAC contexts along every run

Two invariants of a direction, each kept by `DirStep`, hence true of both
directions of every reachable state, whatever the primitives do.

`KeyInv` is about key buffers.  The slot that is not active holds no key, so
the slot `set_mac_key` writes after `switch_*_mac` always has a `NULL` key; a
held key is `keysz` bytes long; every buffer handed to `free` holds only zeros
(`clear_mac` scrubs `keysz` bytes, and `set_mac_key` scrubs what the digest
wrote before it gives up a buffer); and every buffer `malloc` returned is the
active slot's key or has been freed, and not both, and only once.

`UmacInv` is about UMAC contexts, slot by slot (`UmacSlot`): a context has the
width of its slot's algorithm type, so an HMAC slot never has one; a slot
prepared for a UMAC has its context; a keyed slot was prepared.  So
`set_*_algo` deletes with the routine of the context's width and leaves `NULL`
behind before it allocates, and `switch_*_mac` resets with the right routine.

`UmacCount` is about the contexts as allocations: the ghost count of contexts
the allocation routines returned and no delete routine took back is the number
the slots hold.  `set_*_algo` writes over a slot's context only after deleting
it, so none is lost, and deletes only what a slot holds.
-/

namespace ProxySshMac

open Function

/-- **Key buffers of a direction.**  The inactive slot holds no key; the active
one holds `keysz` bytes; freed buffers are zero; and the buffers `malloc`
returned are the active key and the freed ones, each once. -/
structure KeyInv (d : Dir) : Prop where
  inactive : (d.macs (nextIndex d.idx)).key = none
  sized : ∀ b, (d.macs d.idx).key = some b → b.bytes.length = (d.macs d.idx).keysz
  zeroed : ∀ b ∈ d.heap.released, b.bytes = zeros b.bytes.length
  partition :
    (((d.macs d.idx).key.toList ++ d.heap.released).map KeyBuf.id).Perm (List.range d.heap.next)

theorem KeyInv.init : KeyInv Dir.init :=
  ⟨rfl, fun _ h => (nomatch h), fun _ h => (nomatch h), .nil⟩

/-- The slot `set_*_algo` prepares holds no key. -/
theorem KeyInv.target_key {d : Dir} (hi : KeyInv d) : (d.macs d.target).key = none := by
  unfold Dir.target
  split
  · exact hi.inactive
  · rename_i hn; simpa using hn

/-- A new buffer joins the ones counted so far. -/
theorem perm_cons_range {l : List Nat} {n : Nat} (h : l.Perm (List.range n)) :
    (n :: l).Perm (List.range (n + 1)) := by
  rw [List.range_succ]
  exact (List.perm_append_singleton n l).symm.trans (h.append_right [n])

/-- `KeyInv` reads only the index, the allocator, and the keys and their sizes. -/
theorem KeyInv.of_keys {d d' : Dir} (hi : KeyInv d) (hidx : d'.idx = d.idx) (hheap : d'.heap = d.heap)
    (hmacs : ∀ i, (d'.macs i).key = (d.macs i).key ∧ (d'.macs i).keysz = (d.macs i).keysz) :
    KeyInv d' where
  inactive := by rw [hidx, (hmacs _).1, hi.inactive]
  sized b hb := by
    rw [hidx, (hmacs _).1] at hb
    rw [hidx, (hmacs _).2]
    exact hi.sized b hb
  zeroed := hheap ▸ hi.zeroed
  partition := by rw [hidx, hheap, (hmacs _).1]; exact hi.partition

/-- `set_*_algo` touches neither a key nor the allocator. -/
theorem setAlgo_keys {C : Catalog} {d d' : Dir} {a : String} {r : Int}
    (h : setAlgo C d a = .ok (d', r)) : d'.idx = d.idx ∧ d'.heap = d.heap ∧
      ∀ i, (d'.macs i).key = (d.macs i).key ∧ (d'.macs i).keysz = (d.macs i).keysz := by
  obtain ⟨live, u, -, ⟨-, -, rfl⟩ | ⟨md, n, -, -, rfl⟩⟩ := setAlgo_ok h <;>
    refine ⟨rfl, rfl, fun i => ?_⟩ <;>
    by_cases hi : i = d.target <;> simp [update_apply, hi, prepareMac]

theorem KeyInv.setAlgo {C : Catalog} {d d' : Dir} {a : String} {r : Int} (hi : KeyInv d)
    (h : setAlgo C d a = .ok (d', r)) : KeyInv d' :=
  let ⟨hidx, hheap, hmacs⟩ := setAlgo_keys h
  hi.of_keys hidx hheap hmacs

/-- `switch_*_mac` scrubs and frees the retired key, and the slot it makes
active holds no key. -/
theorem KeyInv.switchMac {d d₁ : Dir} (hi : KeyInv d) (h : switchMac d = .ok d₁) :
    KeyInv d₁ ∧ (d₁.macs d₁.idx).key = none := by
  rcases switchMac_ok h with ⟨hk, rfl⟩ | ⟨b, hctx, hk, -, -, rfl⟩
  · exact ⟨hi, hk⟩
  have hact : (update d.macs d.idx (clearMac d.heap (d.macs d.idx)).2 (nextIndex d.idx)).key = none := by
    rw [update_noteq (nextIndex_ne _)]; exact hi.inactive
  have hheap : (clearMac d.heap (d.macs d.idx)).1 =
      ⟨d.heap.next, ⟨b.id, scrub (d.macs d.idx).keysz b.bytes⟩ :: d.heap.released⟩ := by
    simp [clearMac, hk, Heap.free]
  have hscrub : scrub (d.macs d.idx).keysz b.bytes = zeros b.bytes.length :=
    scrub_self (hi.sized b hk).le
  have hpart := hi.partition
  rw [hk] at hpart
  refine ⟨⟨by dsimp only; rw [nextIndex_nextIndex, update_same, clearMac_key],
    fun _ h => by simp [hact] at h, ?_, ?_⟩, hact⟩
  · simp only [hheap, List.mem_cons, forall_eq_or_imp, hscrub, zeros_length]
    exact ⟨trivial, hi.zeroed⟩
  · simpa [hact, hheap] using hpart

/-- `set_mac_key` and `init_mac` into a slot with no key: the buffer is stored,
or freed with zeros in it. -/
theorem KeyInv.keyActive {E : Env} {d d' : Dir} {md : EvpMd} {k h : Bytes} {letter : UInt8}
    {o : KeyOutcome} {r : Int} (hi : KeyInv d) (hnone : (d.macs d.idx).key = none)
    (hk : keyActive E d md k h letter o = .ok (d', r)) : KeyInv d' := by
  obtain ⟨heap, mac, ret, hctx, uctx, r0, hs, -, -, rfl⟩ := keyActive_ok hk
  have hpart : (d.heap.released.map KeyBuf.id).Perm (List.range d.heap.next) := by
    simpa [hnone] using hi.partition
  have hin : (update d.macs d.idx mac (nextIndex d.idx)).key = none := by
    rw [update_noteq (nextIndex_ne _)]; exact hi.inactive
  obtain ⟨mdMac, -, ⟨rfl, rfl⟩ | ⟨b, rfl, hb, hz, rfl⟩ | ⟨bytes, rfl, rfl⟩⟩ :=
    setMacKey_cases hs
  · exact hi.of_keys rfl rfl fun i => by rw [update_eq_self]; exact ⟨rfl, rfl⟩
  · refine ⟨hin, fun _ h => by simp [hnone] at h, ?_, ?_⟩
    · simpa using ⟨hz, hi.zeroed⟩
    · simpa [hnone, hb] using perm_cons_range hpart
  · refine ⟨hin, fun _ h => by simp at h; simp [← h], hi.zeroed, ?_⟩
    simpa using perm_cons_range hpart

/-- What a slot's UMAC context says about the slot: it has the width of the
slot's type; a prepared UMAC slot has one; a keyed slot was prepared. -/
structure UmacSlot (mac : Mac) (c : Option UmacCtx) : Prop where
  width : ∀ c', c = some c' → mac.algoType = c'.width.algoType
  live : ∀ w, mac.digest.isSome → mac.algoType = w.algoType → ∃ key, c = some ⟨w, key⟩
  keyed : mac.key.isSome → mac.digest.isSome

/-- **UMAC contexts of a direction**, slot by slot. -/
def UmacInv (d : Dir) : Prop := ∀ i, UmacSlot (d.macs i) (d.umacCtxs i)

theorem UmacInv.init : UmacInv Dir.init :=
  fun _ => ⟨fun _ h => (nomatch h), fun _ h => (nomatch h), fun h => (nomatch h)⟩

theorem UmacWidth.algoType_inj {w w' : UmacWidth} (h : w.algoType = w'.algoType) : w = w' := by
  cases w <;> cases w' <;> first | rfl | cases h

/-- A call that changes one slot keeps `UmacInv` if the new slot is sound. -/
theorem UmacInv.frame {d d' : Dir} (t : Fin 2) (hi : UmacInv d)
    (ht : UmacSlot (d'.macs t) (d'.umacCtxs t)) (hmacs : ∀ i, i ≠ t → d'.macs i = d.macs i)
    (hctxs : ∀ i, i ≠ t → d'.umacCtxs i = d.umacCtxs i) : UmacInv d' := by
  intro i
  by_cases hit : i = t
  · exact hit ▸ ht
  · rw [hmacs i hit, hctxs i hit]; exact hi i

/-- "Clear any potential UMAC contexts at this index": the routine of the
context's own width deletes it, one live context fewer, and `NULL` is left. -/
theorem UmacSlot.clearUmac {mac : Mac} {c : Option UmacCtx} (h : UmacSlot mac c) (live : Nat) :
    clearUmac live c mac.algoType = .ok (live - c.isSome.toNat, none) := by
  cases c with
  | none => simp [ProxySshMac.clearUmac]
  | some c =>
    rw [h.width c rfl]
    simp only [ProxySshMac.clearUmac, UmacWidth.umacWidth_algoType, umacDelete, umacCtxOf, if_true,
      res_ok_map, Option.isSome_some, Bool.toNat_true]

/-- The UMAC reset of `switch_*_mac`, on a keyed slot, is of the right width. -/
theorem UmacSlot.resetUmac {mac : Mac} {c : Option UmacCtx} (h : UmacSlot mac c)
    (hk : mac.key.isSome) : resetUmac c mac.algoType = .ok () := by
  unfold ProxySshMac.resetUmac
  split
  · rename_i w hw
    obtain ⟨key, rfl⟩ := h.live w (h.keyed hk) (AlgoType.umacWidth_eq_some.mp hw)
    simp only [umacReset, umacCtxOf_some_self, res_ok_map]
  · rfl

/-- `proxy_ssh_umac_reset` / `proxy_ssh_umac128_reset` of `init_mac` and
`get_mac`, on a prepared slot: the context is there and of the slot's width. -/
theorem UmacSlot.umacReset_ok {mac : Mac} {c : Option UmacCtx} (h : UmacSlot mac c)
    (hd : mac.digest.isSome) {w : UmacWidth} (hw : mac.algoType.umacWidth = some w) :
    ∃ c', umacReset w c = .ok c' := by
  obtain ⟨key, rfl⟩ := h.live w hd (AlgoType.umacWidth_eq_some.mp hw)
  exact ⟨_, umacCtxOf_some_self w key⟩

/-- A slot `set_*_algo` prepared, with the context it allocated. -/
theorem umacSlot_prepareMac (mac : Mac) (a : String) (md : EvpMd) (n live : Nat) :
    UmacSlot (prepareMac mac a md n) (allocUmac a live none).2 := by
  unfold allocUmac
  cases hw : (algoTypeOf a).umacWidth with
  | none =>
    refine ⟨fun _ h => (nomatch h), fun w _ hw' => ?_, fun _ => rfl⟩
    rw [show algoTypeOf a = w.algoType from hw', UmacWidth.umacWidth_algoType] at hw
    cases hw
  | some w =>
    refine ⟨fun c h => ?_, fun w' _ hw' => ⟨none, ?_⟩, fun _ => rfl⟩
    · cases h; exact AlgoType.umacWidth_eq_some.mp hw
    · rw [show algoTypeOf a = w'.algoType from hw', UmacWidth.umacWidth_algoType] at hw
      cases hw; rfl

theorem UmacInv.setAlgo {C : Catalog} {d d' : Dir} {a : String} {r : Int} (hk : KeyInv d)
    (hi : UmacInv d) (h : setAlgo C d a = .ok (d', r)) : UmacInv d' := by
  obtain ⟨live, u, hu, hcase⟩ := setAlgo_ok h
  rw [(hi _).clearUmac] at hu
  cases hu
  rcases hcase with ⟨-, -, rfl⟩ | ⟨md, n, -, -, rfl⟩ <;>
    refine hi.frame d.target ?_ (fun i hi => update_noteq hi _ _) (fun i hi => update_noteq hi _ _) <;>
    simp only [update_same]
  · exact ⟨fun _ h => (nomatch h), fun _ h => (nomatch h), fun h => by simp [hk.target_key] at h⟩
  · exact umacSlot_prepareMac _ a md n _

theorem UmacInv.switchMac {d d₁ : Dir} (hi : UmacInv d) (h : switchMac d = .ok d₁) : UmacInv d₁ := by
  rcases switchMac_ok h with ⟨-, rfl⟩ | ⟨b, hctx, -, -, -, rfl⟩
  · exact hi
  refine hi.frame d.idx ?_ (fun i hi => update_noteq hi _ _) (fun _ _ => rfl)
  simp only [update_same]
  exact ⟨fun c hc => by simpa using (hi d.idx).width c hc, fun _ h => by simp at h,
    fun h => by simp at h⟩

theorem UmacInv.keyActive {E : Env} {d d' : Dir} {md : EvpMd} {k h : Bytes} {letter : UInt8}
    {o : KeyOutcome} {r : Int} (hi : UmacInv d) (hk : keyActive E d md k h letter o = .ok (d', r)) :
    UmacInv d' := by
  obtain ⟨heap, mac, ret, hctx, uctx, r0, hs, hinit, -, rfl⟩ := keyActive_ok hk
  refine hi.frame d.idx ?_ (fun i hi => update_noteq hi _ _) (fun i hi => update_noteq hi _ _)
  simp only [update_same]
  obtain ⟨mdMac, hd, hmac⟩ := setMacKey_cases hs
  have htype : mac.algoType = (d.macs d.idx).algoType ∧ mac.digest = some mdMac := by
    rcases hmac with ⟨-, rfl⟩ | ⟨-, -, -, -, rfl⟩ | ⟨-, -, rfl⟩ <;> exact ⟨rfl, hd⟩
  have hprep : mac.digest.isSome := by simp [htype.2]
  rcases initMac_umac hinit with rfl | ⟨w, key, hw, -, rfl⟩
  · exact ⟨fun c hc => htype.1 ▸ (hi d.idx).width c hc,
      fun w _ hw => (hi d.idx).live w (by simp [hd]) (htype.1 ▸ hw), fun _ => hprep⟩
  · exact ⟨fun c hc => by cases hc; exact hw,
      fun w' _ hw' => ⟨_, by rw [UmacWidth.algoType_inj (hw.symm.trans hw')]⟩, fun _ => hprep⟩

/-- The UMAC contexts a direction's two slots hold. -/
def umacHeld (u : Fin 2 → Option UmacCtx) : Nat := (u 0).isSome.toNat + (u 1).isSome.toNat

/-- Writing one slot changes the count by what it held and what it gets. -/
theorem umacHeld_update (u : Fin 2 → Option UmacCtx) (t : Fin 2) (c : Option UmacCtx) :
    umacHeld (update u t c) + (u t).isSome.toNat = umacHeld u + c.isSome.toNat := by
  fin_cases t <;> simp [umacHeld, update_apply] <;> omega

/-- **No UMAC context is lost or deleted twice.**  The contexts the allocation
routines returned and no delete routine took back are the ones the slots
hold. -/
def UmacCount (d : Dir) : Prop := d.umacLive = umacHeld d.umacCtxs

theorem UmacCount.init : UmacCount Dir.init := rfl

/-- `set_*_algo` allocates at most one context, into the slot it cleared. -/
theorem allocUmac_live (a : String) (live : Nat) :
    (allocUmac a live none).1 = live + (allocUmac a live none).2.isSome.toNat := by
  unfold allocUmac; split <;> simp [umacAlloc]

/-- `set_*_algo` deletes the context it replaces: it writes one slot, and the
live count loses what the slot held and gains what it allocated. -/
theorem setAlgo_umacLive {C : Catalog} {d d' : Dir} {a : String} {r : Int} (hi : UmacInv d)
    (hc : UmacCount d) (h : setAlgo C d a = .ok (d', r)) :
    d'.umacCtxs = update d.umacCtxs d.target (d'.umacCtxs d.target) ∧
      d'.umacLive + (d.umacCtxs d.target).isSome.toNat =
        d.umacLive + (d'.umacCtxs d.target).isSome.toNat := by
  have hle := umacHeld_update d.umacCtxs d.target none
  simp only [Option.isSome_none, Bool.toNat_false] at hle
  unfold UmacCount at hc
  obtain ⟨live, u, hu, hcase⟩ := setAlgo_ok h
  rw [(hi _).clearUmac] at hu
  cases hu
  rcases hcase with ⟨-, -, rfl⟩ | ⟨md, n, -, -, rfl⟩ <;> simp only [update_same, update_idem, true_and]
  · simp only [Option.isSome_none, Bool.toNat_false]; omega
  · rw [allocUmac_live]; omega

theorem UmacCount.setAlgo {C : Catalog} {d d' : Dir} {a : String} {r : Int} (hi : UmacInv d)
    (hc : UmacCount d) (h : setAlgo C d a = .ok (d', r)) : UmacCount d' := by
  obtain ⟨hctx, hlive⟩ := setAlgo_umacLive hi hc h
  have hu := umacHeld_update d.umacCtxs d.target (d'.umacCtxs d.target)
  unfold UmacCount at hc ⊢
  rw [hctx]; omega

theorem UmacCount.switchMac {d d₁ : Dir} (hc : UmacCount d) (h : switchMac d = .ok d₁) :
    UmacCount d₁ := by
  rcases switchMac_ok h with ⟨-, rfl⟩ | ⟨b, hctx, -, -, -, rfl⟩ <;> exact hc

/-- `init_mac` re-keys the context it finds and allocates none. -/
theorem UmacCount.keyActive {E : Env} {d d' : Dir} {md : EvpMd} {k h : Bytes} {letter : UInt8}
    {o : KeyOutcome} {r : Int} (hc : UmacCount d) (hk : keyActive E d md k h letter o = .ok (d', r)) :
    UmacCount d' := by
  obtain ⟨heap, mac, ret, hctx, uctx, r0, -, hinit, -, rfl⟩ := keyActive_ok hk
  have hu := umacHeld_update d.umacCtxs d.idx uctx
  unfold UmacCount at hc ⊢
  rcases initMac_umac hinit with rfl | ⟨w, key, -, hw, rfl⟩
  · simpa using hc
  · simp only [hw, Option.isSome_some] at hu; dsimp only; omega

/-- Both invariants, across any call. -/
theorem DirStep.keyInv_umacInv {E : Env} {d d' : Dir} (h : DirStep E d d') (hk : KeyInv d)
    (hu : UmacInv d) : KeyInv d' ∧ UmacInv d' := by
  rcases h with rfl | ⟨a, r, h⟩ | ⟨d₁, md, k, h, letter, o, r, hsw, hka⟩
  · exact ⟨hk, hu⟩
  · exact ⟨hk.setAlgo h, hu.setAlgo hk h⟩
  · obtain ⟨hk₁, hnone⟩ := hk.switchMac hsw
    exact ⟨hk₁.keyActive hnone hka, (hu.switchMac hsw).keyActive hka⟩

theorem DirStep.umacCount {E : Env} {d d' : Dir} (h : DirStep E d d') (hu : UmacInv d)
    (hc : UmacCount d) : UmacCount d' := by
  rcases h with rfl | ⟨a, r, h⟩ | ⟨d₁, md, k, h, letter, o, r, hsw, hka⟩
  · exact hc
  · exact hc.setAlgo hu h
  · exact (hc.switchMac hsw).keyActive hka

/-- The three invariants of a direction. -/
def DirInv (d : Dir) : Prop := KeyInv d ∧ UmacInv d ∧ UmacCount d

theorem Reachable.dirInv {E : Env} {s : State} (hs : Reachable E s) : DirInv s.rd.dir ∧ DirInv s.wr :=
  Reachable.dirs DirInv ⟨KeyInv.init, UmacInv.init, UmacCount.init⟩
    (fun _ _ ⟨hk, hu, hc⟩ h => let ⟨hk', hu'⟩ := h.keyInv_umacInv hk hu; ⟨hk', hu', h.umacCount hu hc⟩) hs

/-- A property every direction with the invariants has holds of both
directions of every reachable state. -/
theorem Reachable.forall_dirs {E : Env} {s : State} (hs : Reachable E s) {P : Dir → Prop}
    (hP : ∀ d, KeyInv d → UmacInv d → UmacCount d → P d) : ∀ d ∈ [s.rd.dir, s.wr], P d := by
  obtain ⟨⟨hkr, hur, hcr⟩, hkw, huw, hcw⟩ := hs.dirInv
  simpa using ⟨hP _ hkr hur hcr, hP _ hkw huw hcw⟩

/-- **Key buffers are retired safely.**  In both directions of every reachable
state, whatever the primitives returned: `KeyInv` holds (the inactive slot holds
no key, a held key is `keysz` bytes, freed buffers hold only zeros, and every
buffer `malloc` returned is the active key or freed, exactly once), and the slot
`set_mac_key` writes after `switch_*_mac` holds no key. -/
theorem keys_retired_safely (E : Env) {s : State} (hs : Reachable E s) :
    ∀ d ∈ [s.rd.dir, s.wr], KeyInv d ∧ ∀ d₁, switchMac d = .ok d₁ → (d₁.macs d₁.idx).key = none :=
  hs.forall_dirs fun _ hk _ _ => ⟨hk, fun _ h => (hk.switchMac h).2⟩

/-- After the rekey session: the first read key has been freed, the second is
held in slot `1`. -/
theorem keys_retired_safely_rekey :
    ∃ s, run Env.toy State.init rekeySession = .ok (s, List.replicate 5 (.ret 0)) ∧
      s.rd.dir.idx = 1 ∧ (s.rd.dir.macs 1).key.isSome ∧ s.rd.dir.heap.released.length = 1 ∧
      ∀ d ∈ [s.rd.dir, s.wr], KeyInv d ∧ ∀ d₁, switchMac d = .ok d₁ → (d₁.macs d₁.idx).key = none :=
  let ⟨s, hrun, hidx, hk, hrel, _⟩ := rekeySession_run
  ⟨s, hrun, hidx, hk, hrel, keys_retired_safely Env.toy ⟨_, _, hrun⟩⟩

/-- **Every UMAC routine gets a context of its own width, and none is lost.**
In both directions of every reachable state, after any calls, failing ones
included: `UmacInv` holds; the contexts allocated and not yet deleted are the
ones the slots hold; `set_*_algo` deletes the context it replaces (the live
count loses what the slot held and gains what it allocated); its deletion
succeeds at every slot, takes back the slot's context, and leaves `NULL`; the
reset of `switch_*_mac` succeeds; the reset of `get_mac` on the keyed active
slot finds a context of the slot's width, and so does the one of `init_mac` on
the slot `switch_*_mac` made active, once `set_mac_key` has found its digest. -/
theorem umac_contexts_match (E : Env) {s : State} (hs : Reachable E s) :
    ∀ d ∈ [s.rd.dir, s.wr], UmacInv d ∧ d.umacLive = umacHeld d.umacCtxs ∧
      (∀ a d' r, setAlgo E.catalog d a = .ok (d', r) →
        d'.umacLive + (d.umacCtxs d.target).isSome.toNat =
          d.umacLive + (d'.umacCtxs d.target).isSome.toNat) ∧
      (∀ i, clearUmac d.umacLive (d.umacCtxs i) (d.macs i).algoType =
        .ok (d.umacLive - (d.umacCtxs i).isSome.toNat, none)) ∧
      ((d.macs d.idx).key.isSome → resetUmac (d.umacCtxs d.idx) (d.macs d.idx).algoType = .ok ()) ∧
      ((d.macs d.idx).key.isSome → ∀ w, (d.macs d.idx).algoType.umacWidth = some w →
        ∃ c, umacReset w (d.umacCtxs d.idx) = .ok c) ∧
      ∀ d₁, switchMac d = .ok d₁ → (d₁.macs d₁.idx).digest.isSome →
        ∀ w, (d₁.macs d₁.idx).algoType.umacWidth = some w → ∃ c, umacReset w (d₁.umacCtxs d₁.idx) = .ok c :=
  hs.forall_dirs fun d _ hu hc =>
    ⟨hu, hc, fun _ _ _ h => (setAlgo_umacLive hu hc h).2, fun i => (hu i).clearUmac _,
      (hu d.idx).resetUmac, fun hk _ hw => (hu d.idx).umacReset_ok ((hu d.idx).keyed hk) hw,
      fun _ h hd _ hw => (hu.switchMac h _).umacReset_ok hd hw⟩

/-- After the rekey session: of the two contexts allocated for reading, the
last `set_read_algo` deleted the `umac-64` one and allocated a `umac-128` one,
so one is live. -/
theorem umac_contexts_match_rekey :
    ∃ s, run Env.toy State.init rekeySession = .ok (s, List.replicate 5 (.ret 0)) ∧
      s.rd.dir.umacLive = 1 ∧
      ∀ d ∈ [s.rd.dir, s.wr], UmacInv d ∧ d.umacLive = umacHeld d.umacCtxs ∧
        (∀ a d' r, setAlgo Catalog.toy d a = .ok (d', r) →
          d'.umacLive + (d.umacCtxs d.target).isSome.toNat =
            d.umacLive + (d'.umacCtxs d.target).isSome.toNat) ∧
        (∀ i, clearUmac d.umacLive (d.umacCtxs i) (d.macs i).algoType =
          .ok (d.umacLive - (d.umacCtxs i).isSome.toNat, none)) ∧
        ((d.macs d.idx).key.isSome → resetUmac (d.umacCtxs d.idx) (d.macs d.idx).algoType = .ok ()) ∧
        ((d.macs d.idx).key.isSome → ∀ w, (d.macs d.idx).algoType.umacWidth = some w →
          ∃ c, umacReset w (d.umacCtxs d.idx) = .ok c) ∧
        ∀ d₁, switchMac d = .ok d₁ → (d₁.macs d₁.idx).digest.isSome →
          ∀ w, (d₁.macs d₁.idx).algoType.umacWidth = some w →
            ∃ c, umacReset w (d₁.umacCtxs d₁.idx) = .ok c :=
  let ⟨s, hrun, _, _, _, hlive, _⟩ := rekeySession_run
  ⟨s, hrun, hlive, umac_contexts_match Env.toy ⟨_, _, hrun⟩⟩

end ProxySshMac
