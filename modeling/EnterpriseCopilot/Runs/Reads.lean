import EnterpriseCopilot.Runs.Agreement

/-! `RunService.get` against the run table. -/

namespace EnterpriseCopilot.Runs

open EnterpriseCopilot.Lib EnterpriseCopilot.Python EnterpriseCopilot.Runtime

/-- A `get` that finds a cached run of the caller's workspace, tenant and user finds one
of the caller's role. -/
def sameRole (s : State) : Action → Bool
  | .step i _ =>
    match s.threads i with
    | .live ⟨.get p _ identity, _, .cmd (.runs_get run_id) _⟩ =>
      match (s.shared.caches p).runs run_id with
      | some stored => decide (RunService.SameScope stored.identity identity →
          stored.identity.role = identity.role)
      | none => true
    | _ => true
  | _ => true

def SameRole (s : State) (a : Action) : Prop := sameRole s a = true

instance (s : State) (a : Action) : Decidable (SameRole s a) :=
  inferInstanceAs (Decidable (sameRole s a = true))

/-- The answer to a `get` is the run that the table holds for this very identity. -/
def Exact (t : AgentRuns) (run_id : String) (identity : IdentityContext) (stored : Option StoredRun) :
    Prop :=
  (stored.isSome ↔ ∃ row ∈ t.rows, row.run.result.run_id = run_id ∧ row.run.identity = identity) ∧
    stored.map StoredRun.normal = AgentRuns.get t run_id identity

section Run

variable {a : Adapter} {t : AgentRuns} {s : State} {es : List Event} {run_id : String}
  {identity : IdentityContext} {stored : StoredRun}

theorem exact_of_get {o : Option StoredRun}
    (h : o.map StoredRun.normal = AgentRuns.get t run_id identity) : Exact t run_id identity o := by
  refine ⟨?_, h⟩
  rw [← Option.isSome_map (f := StoredRun.normal), h]
  constructor
  · intro hs
    obtain ⟨run, hrun⟩ := Option.isSome_iff_exists.mp hs
    obtain ⟨row, hrow, hid, hident, _⟩ := mem_of_get hrun
    exact ⟨row, hrow, hid, hident⟩
  · rintro ⟨row, hrow, rfl, rfl⟩
    rw [get_of_mem hrow]
    rfl

/-- A run that is in the table under this identity is visible and is what the table returns. -/
theorem exact_of_backed (h : Backed t run_id stored)
    (hrole : RunService.SameScope stored.identity identity → stored.identity.role = identity.role) :
    Exact t run_id identity (RunService.visible stored identity) := by
  obtain ⟨row, hrow, rfl, hnormal⟩ := h
  have hident : stored.normal.identity = row.run.identity := by rw [hnormal]; rfl
  change stored.identity = row.run.identity at hident
  apply exact_of_get
  unfold RunService.visible
  split
  · rename_i hscope
    have hsame : row.run.identity = identity := by
      have hr := hrole hscope
      obtain ⟨hworkspace, htenant, huser⟩ := hscope
      rw [← hident]
      exact IdentityContext.ext huser hworkspace htenant hr
    rw [← hsame, get_of_mem hrow, Option.map_some, hnormal]
  · rename_i hscope
    symm
    rw [Option.map_none, Option.eq_none_iff_forall_ne_some]
    intro run hrun
    obtain ⟨row', hrow', hid', rfl, _⟩ := mem_of_get hrun
    obtain rfl := Table.eq_of_clash (fun _ _ => Clash.symm) hrow' hrow (.inl hid')
    exact hscope (hident ▸ ⟨rfl, rfl, rfl⟩)

/-- Reads are exact as long as no `get` finds a cached run of another role. -/
theorem get_exact {i p : Nat} {c : Cmd} {r : Reply c} {o : Option StoredRun}
    (h : (pool a).machine.Run SameRole (.init { table := t })
      (es ++ [.did i (.get p run_id identity) c r (some (.ok (.stored o)))]) s) :
    Exact s.shared.table run_id identity o := by
  obtain ⟨log, hlooked, hk⟩ := (holds_of_run h).ended (List.mem_append_right _ (.head _))
  obtain ⟨u, ch, log', k, hu, hg, hi, happly, hout⟩ := Pool.did_last h
  have hrows := rows_grow happly
  generalize hlog : log ++ [⟨c, r⟩] = full at hlooked hk
  cases hlooked with
  | @cached stored =>
    obtain ⟨rfl, hlast⟩ := List.append_inj' (hlog.trans (List.nil_append _).symm) rfl
    cases hlast
    have hcached : (u.shared.caches p).runs run_id = some stored := (Prod.mk.inj happly).1
    refine exact_of_backed (hk _ (.head _) _ rfl) ?_
    intro hscope
    simpa [SameRole, sameRole, hi, hcached, hscope] using hg
  | missing =>
    obtain ⟨rfl, hlast⟩ := List.append_inj' (hlog.trans List.singleton_append.symm) rfl
    cases hlast
    obtain ⟨hget, hs⟩ := Prod.mk.inj happly
    apply exact_of_get
    rw [← hs]
    exact hget.symm
  | @stored stored =>
    obtain ⟨row, hrow, hid, rfl, rfl⟩ := hk _ (.tail _ (.head _)) _ rfl
    exact exact_of_backed ⟨row, hrow, hid, normal_from_row row⟩ fun _ => rfl

end Run

section Sample

def otherRole : IdentityContext := { sampleIdentity with role := "manager" }

/-- A run is executed and then asked for at the process that executed it. -/
def reads (identity : IdentityContext) : List Action :=
  [.start 0 (.execute 0 { query := "Where is my order?" } sampleIdentity none none none),
    ran 0 "run-1"] ++ steps 0 2 ++ [.start 1 (.get 0 "run-1" identity)] ++ steps 1 1

theorem get_exact_owner : ∃ s es, (pool .sqlite).machine.exec SameRole (.init { table := Table.empty })
      (reads sampleIdentity) = some (s, es ++ [.did 1 (.get 0 "run-1" sampleIdentity) (.runs_get "run-1")
        (some (sampleRun "run-1" none)) (some (.ok (.stored (some (sampleRun "run-1" none)))))]) ∧
    Exact s.shared.table "run-1" sampleIdentity (some (sampleRun "run-1" none)) := by
  obtain ⟨s, fs, hexec, hlast⟩ : ∃ s fs, (pool .sqlite).machine.exec SameRole
      (.init { table := Table.empty }) (reads sampleIdentity) = some (s, fs) ∧
      fs.getLast? = some (.did 1 (.get 0 "run-1" sampleIdentity) (.runs_get "run-1")
        (some (sampleRun "run-1" none)) (some (.ok (.stored (some (sampleRun "run-1" none)))))) :=
    ⟨_, _, rfl, rfl⟩
  obtain ⟨es, rfl⟩ := List.getLast?_eq_some_iff.mp hlast
  exact ⟨s, es, hexec, get_exact (Machine.run_of_exec _ hexec)⟩

/-- Another role of the user reads the run from the cache. -/
theorem get_ignores_role : ¬ ∀ es s o, (pool .sqlite).machine.Run Machine.Free
      (.init { table := Table.empty })
      (es ++ [.did 1 (.get 0 "run-1" otherRole) (.runs_get "run-1") o (some (.ok (.stored o)))]) s →
    Exact s.shared.table "run-1" otherRole o := by
  intro h
  obtain ⟨s, fs, hexec, hlast, htable⟩ : ∃ s fs, (pool .sqlite).machine.exec Machine.Free
      (.init { table := Table.empty }) (reads otherRole) = some (s, fs) ∧
      fs.getLast? = some (.did 1 (.get 0 "run-1" otherRole) (.runs_get "run-1")
        (some (sampleRun "run-1" none)) (some (.ok (.stored (some (sampleRun "run-1" none)))))) ∧
      AgentRuns.get s.shared.table "run-1" otherRole = none :=
    ⟨_, _, rfl, rfl, rfl⟩
  obtain ⟨es, rfl⟩ := List.getLast?_eq_some_iff.mp hlast
  have hexact := (h es s _ (Machine.run_of_exec _ hexec)).2
  rw [htable] at hexact
  cases hexact

end Sample

end EnterpriseCopilot.Runs
