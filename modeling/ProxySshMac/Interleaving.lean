import ProxySshMac.Session

/-!
# The two directions do not interfere

The read functions of `mac.c` touch `read_macs`, `hmac_read_ctxs`,
`umac_read_ctxs`, `read_mac_idx` and `mac_blockszs`; the write functions touch
the `write_*` variables; no function reads the other direction's.  In the model
a read call is a function of the read side alone (`stepRead`) and a write call
of the write direction alone (`stepWrite`).  So a session that interleaves the
two in any order computes what the read calls compute on their own, followed by
what the write calls compute on their own, with every call's result in its
place (`run_eq_sequential`).  A call that ends the process ends both.  Every
run of the session is thus a run of each direction, with the same results
(`run_readCalls`, `run_writeCalls`).
-/

namespace ProxySshMac

/-- The read-direction calls of a session, in order. -/
def readOps : List Op → List ReadOp
  | [] => []
  | .inl o :: ops => o :: readOps ops
  | .inr _ :: ops => readOps ops

/-- The write-direction calls of a session, in order. -/
def writeOps : List Op → List WriteOp
  | [] => []
  | .inl _ :: ops => writeOps ops
  | .inr o :: ops => o :: writeOps ops

/-- The read calls of a session with their results, in order. -/
def readCalls : List (Op × Out) → List (ReadOp × Out)
  | [] => []
  | (.inl o, out) :: cs => (o, out) :: readCalls cs
  | (.inr _, _) :: cs => readCalls cs

/-- The write calls of a session with their results, in order. -/
def writeCalls : List (Op × Out) → List (WriteOp × Out)
  | [] => []
  | (.inl _, _) :: cs => writeCalls cs
  | (.inr o, out) :: cs => (o, out) :: writeCalls cs

@[simp] theorem mem_readOps {o : ReadOp} {ops : List Op} : o ∈ readOps ops ↔ Sum.inl o ∈ ops := by
  induction ops with
  | nil => simp [readOps]
  | cons op ops ih => cases op <;> simp [readOps, ih]

/-- The results of the read calls and of the write calls, put back in the
session's order. -/
def mergeOuts : List Op → List Out → List Out → List Out
  | .inl _ :: ops, o :: rs, ws => o :: mergeOuts ops rs ws
  | .inr _ :: ops, rs, o :: ws => o :: mergeOuts ops rs ws
  | _, _, _ => []

/-- The read calls on the read side, then the write calls on the write
direction. -/
def runSequential (E : Env) (s : State) (ops : List Op) : Res (State × List Out) := do
  let (rd, rs) ← runRead E s.rd (readOps ops)
  let (wr, ws) ← runWrite E s.wr (writeOps ops)
  pure (⟨rd, wr⟩, mergeOuts ops rs ws)

/-- **Interleavings run as the two directions in sequence.**  For any calls of
both directions, in any order, from any state: the session ends in the state,
and gives every call the result, that the read calls alone give on the read
side followed by the write calls alone on the write direction; if a call ends
the process, both do.  So no read call reads or writes write-direction state,
and no write call reads or writes read-direction state. -/
theorem run_eq_sequential (E : Env) (ops : List Op) : ∀ s, run E s ops = runSequential E s ops := by
  induction ops with
  | nil => intro s; rfl
  | cons op ops ih =>
    intro s
    cases op with
    | inl o =>
      cases hr : stepRead E s.rd o with
      | error e => simp only [run, runSequential, runSteps, step, runRead, readOps, hr, res_error_bind]
      | ok p =>
        have hrest := ih ⟨p.1, s.wr⟩
        simp only [run, runSequential] at hrest
        simp only [run, runSteps, step, hr, res_pure, res_ok_bind, hrest, runRead, bind_assoc,
          runSequential, writeOps, mergeOuts]
    | inr o =>
      cases hw : stepWrite E s.wr o with
      | error e =>
        -- the write call ends the process, whatever the read calls before it do
        cases e
        cases hrd : runRead E s.rd (readOps ops) with
        | error e =>
          cases e
          simp only [run, runSequential, runSteps, step, runWrite, hw, hrd, readOps, writeOps,
            res_error_bind]
        | ok q =>
          simp only [run, runSequential, runSteps, step, runWrite, hw, hrd, readOps, writeOps,
            res_error_bind, res_ok_bind]
      | ok p =>
        have hrest := ih ⟨s.rd, p.1⟩
        simp only [run, runSequential] at hrest
        simp only [run, runSteps, step, hw, res_pure, res_ok_bind, hrest, runWrite, bind_assoc,
          runSequential, readOps, mergeOuts]

/-- **A session's read calls are a run of the read side**, with the same
results. -/
theorem run_readCalls {E : Env} : ∀ {ops : List Op} {s s' : State} {outs : List Out},
    run E s ops = .ok (s', outs) →
      ∃ rs, runRead E s.rd (readOps ops) = .ok (s'.rd, rs) ∧
        readCalls (ops.zip outs) = (readOps ops).zip rs
  | [], s, s', outs, h => by
    simp only [run, runSteps, res_pure, Except.ok.injEq, Prod.mk.injEq] at h
    obtain ⟨rfl, rfl⟩ := h
    exact ⟨[], rfl, rfl⟩
  | .inl o :: ops, s, s', outs, h => by
    obtain ⟨s₁, out, outs', hst, hrest, rfl⟩ := runSteps_cons h
    obtain ⟨⟨rd, out'⟩, hr, hst⟩ := res_bind_eq_ok hst
    cases hst
    obtain ⟨rs, hrs, hz⟩ := run_readCalls hrest
    refine ⟨out :: rs, ?_, congrArg _ hz⟩
    simp only [runRead] at hrs
    simp only [runRead, runSteps, readOps, hr, res_ok_bind, hrs, res_pure]
  | .inr o :: ops, s, s', outs, h => by
    obtain ⟨s₁, out, outs', hst, hrest, rfl⟩ := runSteps_cons h
    obtain ⟨⟨wr, out'⟩, -, hst⟩ := res_bind_eq_ok hst
    cases hst
    obtain ⟨rs, hrs, hz⟩ := run_readCalls hrest
    exact ⟨rs, hrs, hz⟩

/-- **A session's write calls are a run of the write direction**, with the
same results. -/
theorem run_writeCalls {E : Env} : ∀ {ops : List Op} {s s' : State} {outs : List Out},
    run E s ops = .ok (s', outs) →
      ∃ ws, runWrite E s.wr (writeOps ops) = .ok (s'.wr, ws) ∧
        writeCalls (ops.zip outs) = (writeOps ops).zip ws
  | [], s, s', outs, h => by
    simp only [run, runSteps, res_pure, Except.ok.injEq, Prod.mk.injEq] at h
    obtain ⟨rfl, rfl⟩ := h
    exact ⟨[], rfl, rfl⟩
  | .inl o :: ops, s, s', outs, h => by
    obtain ⟨s₁, out, outs', hst, hrest, rfl⟩ := runSteps_cons h
    obtain ⟨⟨rd, out'⟩, -, hst⟩ := res_bind_eq_ok hst
    cases hst
    obtain ⟨ws, hws, hz⟩ := run_writeCalls hrest
    exact ⟨ws, hws, hz⟩
  | .inr o :: ops, s, s', outs, h => by
    obtain ⟨s₁, out, outs', hst, hrest, rfl⟩ := runSteps_cons h
    obtain ⟨⟨wr, out'⟩, hw, hst⟩ := res_bind_eq_ok hst
    cases hst
    obtain ⟨ws, hws, hz⟩ := run_writeCalls hrest
    refine ⟨out :: ws, ?_, congrArg _ hz⟩
    simp only [runWrite] at hws
    simp only [runWrite, runSteps, writeOps, hw, res_ok_bind, hws, res_pure]

end ProxySshMac
