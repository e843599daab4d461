import ProxySshMac.Steps

/-!
# The two ends of a connection agree

One party writes what the other reads.  Given the same algorithm, digest, `K`,
`H` and session id, the writer's `set_write_key` and the reader's
`set_read_key`, in opposite roles, pick the same letter of RFC 4253 §7.2 (`'E'`
for what the client sends, `'F'` for what the server sends), so the read side
of one party goes through exactly the states the write direction of the other
goes through, rekey after rekey (`runRead_readRekeys`).  On one direction
`proxy_ssh_mac_read_data` accepts every packet `proxy_ssh_mac_write_data`
tagged (`readData_writeData`): `get_mac` does not read the tag it compares.
-/

namespace ProxySshMac

/-- What the key exchange gives both parties for one rekey, and how the
primitives behave during it. -/
structure Rekey where
  algo : String
  md : EvpMd
  k : Bytes
  h : Bytes
  o : KeyOutcome

/-- The writer's calls for a list of rekeys: `set_write_algo`, then
`set_write_key`. -/
def writeRekeys (role : Role) : List Rekey → List WriteOp
  | [] => []
  | rk :: rks => .setAlgo rk.algo :: .setKey rk.md rk.k rk.h role rk.o :: writeRekeys role rks

/-- The reader's calls for a list of rekeys: `set_read_algo`, then
`set_read_key`. -/
def readRekeys (role : Role) : List Rekey → List ReadOp
  | [] => []
  | rk :: rks => .setAlgo rk.algo :: .setKey rk.md rk.k rk.h role rk.o :: readRekeys role rks

/-- **Runs under a projection.**  When each call of one list, seen through `π`,
is the matching call of another list on another machine, so is the whole run. -/
theorem runSteps_map {σ τ α β : Type} {f : σ → α → Res (σ × Out)}
    {g : τ → β → Res (τ × Out)} (π : σ → τ) {ops : List α} {ops' : List β}
    (hstep : List.Forall₂ (fun a b => ∀ s, (f s a).map (Prod.map π id) = g (π s) b) ops ops') :
    ∀ s, (runSteps f s ops).map (Prod.map π id) = runSteps g (π s) ops' := by
  induction hstep with
  | nil => intro s; rfl
  | @cons a b ops ops' ha _ ih =>
    intro s
    simp only [runSteps]
    rw [← ha s]
    cases f s a with
    | error e => rfl
    | ok p =>
      simp only [res_ok_map, res_ok_bind, Prod.map_fst, Prod.map_snd, id]
      rw [← ih p.1]
      cases runSteps f p.1 ops <;> rfl

theorem switchReadMac_map (r : ReadSide) : (switchReadMac r).map ReadSide.dir = switchMac r.dir := by
  unfold switchReadMac
  split
  · rename_i hk; simp [switchMac, hk]
  · cases switchMac r.dir <;> rfl

/-- A reader in the opposite role derives with the writer's letter. -/
theorem readLetter_opp (role : Role) :
    (if role.opp = .client then letterF else letterE) = (if role = .client then letterE else letterF) := by
  cases role <;> rfl

/-- **`set_read_key` in the opposite role is `set_write_key`**, on the slots. -/
theorem setReadKey_dir_eq (E : Env) (r : ReadSide) (md : EvpMd) (k h : Bytes) (role : Role)
    (o : KeyOutcome) :
    (setReadKey E r md k h role.opp o).map (Prod.map ReadSide.dir id) =
      setWriteKey E r.dir md k h role o := by
  unfold setReadKey setWriteKey switchWriteMac
  rw [← switchReadMac_map, readLetter_opp]
  cases switchReadMac r with
  | error e => rfl
  | ok r₁ =>
    simp only [res_ok_bind, res_ok_map]
    cases hk : keyActive E r₁.dir md k h (if role = .client then letterE else letterF) o with
    | error e => rfl
    | ok p =>
      obtain ⟨d', ret⟩ := p
      obtain ⟨hd, rfl | rfl⟩ := keyActive_ret hk
      · obtain ⟨md', hmd⟩ := Option.isSome_iff_exists.mp hd
        simp only [res_pure, res_ok_bind, lt_self_iff_false, ↓reduceIte, hmd, deref_some]
        split <;> simp only [res_ok_map, Prod.map_apply, setBlockSize_dir, id_eq]
      · rfl

/-- Rekey after rekey, each call of the reader in the opposite role is, on the
slots, the writer's call. -/
theorem rekeys_forall₂ (E : Env) (role : Role) (rks : List Rekey) :
    List.Forall₂ (fun a b => ∀ r, (stepRead E r a).map (Prod.map ReadSide.dir id) = stepWrite E r.dir b)
      (readRekeys role.opp rks) (writeRekeys role rks) := by
  induction rks with
  | nil => exact .nil
  | cons rk rks ih =>
    refine .cons (fun r => ?_) (.cons (fun r => ?_) ih)
    · simp only [stepRead, setReadAlgo, stepWrite, setWriteAlgo]
      cases setAlgo E.catalog r.dir rk.algo <;> rfl
    · have hkey := setReadKey_dir_eq E r rk.md rk.k rk.h role rk.o
      simp only [stepRead, stepWrite]
      rw [← hkey]
      cases setReadKey E r rk.md rk.k rk.h role.opp rk.o <;> rfl

/-- **The reader accepts what the writer tagged.**  On one direction,
`proxy_ssh_mac_read_data` accepts every packet as `proxy_ssh_mac_write_data`
left it, when the primitives behave as they did for the writer. -/
theorem readData_writeData {P : Prims} {d : Dir} {pkt tagged : Packet} {ok : Bool}
    (h : writeData P d pkt ok = .ok (tagged, 0)) : readData P d tagged ok = .ok (tagged, 0) := by
  unfold writeData readData macData at *
  split
  · rename_i hk; rw [if_pos hk] at h; cases h; rfl
  · rename_i hk
    rw [if_neg hk] at h
    obtain ⟨macData, macLen, computed, hr, h0, hc, -, rfl⟩ := getMac_ok h
    have hread := readBytes_self computed
    rw [readBytes_length hc] at hread
    simp only [getMac, rawMac_tagged, hr, res_pure, ne_eq, ite_not, ↓reduceIte, res_ok_bind, h0, hc,
      hread]

/-- **Two parties agree.**  After any number of rekeys, each with the same
algorithm, digest, `K`, `H` and primitive behaviour for both parties, in
opposite roles: the reader's read side goes through the writer's states (so the
keys are byte for byte the same) and every call returns what the writer's does;
and on such a direction the reader accepts every packet as the writer tagged it. -/
theorem peers_agree (E : Env) (role : Role) (rks : List Rekey) :
    (runRead E ⟨Dir.init, fun _ => 0⟩ (readRekeys role.opp rks)).map (Prod.map ReadSide.dir id) =
      runWrite E Dir.init (writeRekeys role rks) ∧
    ∀ d pkt tagged ok, writeData E.prims d pkt ok = .ok (tagged, 0) →
      readData E.prims d tagged ok = .ok (tagged, 0) :=
  ⟨runSteps_map ReadSide.dir (rekeys_forall₂ E role rks) _, fun _ _ _ _ h => readData_writeData h⟩

end ProxySshMac
