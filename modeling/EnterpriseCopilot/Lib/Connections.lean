import Mathlib.Logic.Basic

universe u v

/-! A database file with several connections, one of which may write. -/

namespace EnterpriseCopilot.Lib

/-- The contents of a file, and the connection with the open write transaction with its draft of them. -/
structure File (σ : Type u) (ι : Type v) where
  committed : σ
  writer : Option (ι × σ) := none

namespace File

variable {σ : Type u} {ι : Type v} [DecidableEq ι] {ε ρ : Type} {f : File σ ι} {c : ι} {draft : σ}

/-- A connection sees its own draft. -/
def view (f : File σ ι) (c : ι) : σ :=
  match f.writer with
  | some (d, draft) => if d = c then draft else f.committed
  | none => f.committed

/-- A statement that writes.  It opens a transaction if none is open and fails if another connection has
the lock; a violated constraint undoes the statement, and the transaction stays open. -/
def execute (f : File σ ι) (locked : ε) (c : ι) (statement : σ → Except ε (ρ × σ)) : Except ε ρ × File σ ι :=
  if f.writer.all fun w => w.1 = c then
    match statement (f.view c) with
    | .ok (r, draft) => (.ok r, { f with writer := some (c, draft) })
    | .error e => (.error e, { f with writer := some (c, f.view c) })
  else (.error locked, f)

def commit (f : File σ ι) (c : ι) : File σ ι :=
  match f.writer with
  | some (d, draft) => if d = c then ⟨draft, none⟩ else f
  | none => f

theorem view_of_free (h : f.writer = none) : f.view c = f.committed := by
  rw [view, h]

/-- Nobody waits for a lock that is free. -/
theorem execute_of_free {locked : ε} {statement : σ → Except ε (ρ × σ)} (h : f.writer = none) :
    f.execute locked c statement = match statement f.committed with
      | .ok (r, draft) => (.ok r, ⟨f.committed, some (c, draft)⟩)
      | .error e => (.error e, ⟨f.committed, some (c, f.committed)⟩) := by
  rw [execute, view_of_free h, if_pos (by rw [h]; rfl)]

theorem commit_draft {s : σ} : (⟨s, some (c, draft)⟩ : File σ ι).commit c = ⟨draft, none⟩ := by
  simp [commit]

end File

end EnterpriseCopilot.Lib
