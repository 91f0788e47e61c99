import Marginalia.Registry.Basic

/-! # Registries in place

The operations of a registry one change after the other, on a registry that keeps what was done
before a failure. All claims are settled before the first change, so each operation either does the
whole of `add` or `aliasExtension` or leaves the registry as it was (`run_perform`).
-/

namespace Marginalia.Registry

/-- Work on a registry. What was done before a failure stays done. -/
abbrev Work := EStateM Error Registry

def claim (ext name : Text) : Work Unit := do
  liftExcept ((← get).ensureFree ext name)

def addInPlace (l : Language) : Work Unit := do
  l.extensions.forM fun ext => claim ext l.name
  l.extensions.forM fun ext =>
    modify fun r => { r with owners := r.owners.insert ext l.name }
  modify fun r => { r with languages := r.languages.insert l.name l }

/-- Gives the language that a look-up finds by name one more extension. -/
def aliasInPlaceBy (find? : Registry → Text → Option Language) (ext name : Text) : Work Unit := do
  match find? (← get) name with
  | none => throw (.unknownLanguage name)
  | some found =>
    let ext := Language.normalizeExtension ext
    claim ext found.name
    match (← get).languages.find? found.name with
    | none => pure ()
    | some l =>
      if l.extensions.contains ext then pure ()
      else
        modify fun r => { r with languages := r.languages.insert found.name (l.addExtension ext) }
    modify fun r => { r with owners := r.owners.insert ext found.name }

def aliasInPlace (ext name : Text) : Work Unit := aliasInPlaceBy byName? ext name

inductive Call where
  | add (l : Language)
  | give (ext name : Text)

namespace Call

def perform : Call → Work Unit
  | add l => addInPlace l
  | give ext name => aliasInPlace ext name

/-- The registry that the call makes of another one. -/
def apply (r : Registry) : Call → Except Error Registry
  | add l => r.add l
  | give ext name => r.aliasExtension ext name

end Call

/-- The registry after a call, whether it has failed or not. -/
def step (r : Registry) (call : Call) : Registry :=
  match call.perform.run r with
  | .ok _ r' => r'
  | .error _ r' => r'

/-- The registry after calls to an empty one. -/
def after (calls : List Call) : Registry := calls.foldl step {}

/-- The outcome of an operation that changes the registry only if it succeeds. -/
def settle (r : Registry) : Except Error Registry → EStateM.Result Error Registry Unit
  | .ok r' => .ok () r'
  | .error e => .error e r

theorem run_claim (r : Registry) (ext name : Text) :
    (claim ext name).run r = r.settle ((r.ensureFree ext name).map fun _ => r) := by
  change EStateM.run (liftExcept (r.ensureFree ext name)) r = _
  cases r.ensureFree ext name <;> rfl

theorem run_forM_claim (r : Registry) (exts : List Text) (name : Text) :
    EStateM.run (exts.forM fun ext => claim ext name) r =
      r.settle ((exts.forM fun ext => r.ensureFree ext name).map fun _ => r) := by
  induction exts with
  | nil => rfl
  | cons ext exts ih =>
    rw [List.forM, List.forM, EStateM.run_bind, run_claim]
    cases r.ensureFree ext name with
    | error e => rfl
    | ok _ => exact ih

theorem run_forM_insert (r : Registry) (exts : List Text) (name : Text) :
    EStateM.run (exts.forM fun ext =>
        (modify fun r => { r with owners := r.owners.insert ext name } : Work PUnit)) r =
      .ok () { r with
        owners := exts.foldl (fun owners ext => owners.insert ext name) r.owners } := by
  induction exts generalizing r with
  | nil => rfl
  | cons ext exts ih => exact ih { r with owners := r.owners.insert ext name }

theorem run_addInPlace (r : Registry) (l : Language) :
    (addInPlace l).run r = r.settle (r.add l) := by
  rw [addInPlace, add, EStateM.run_bind, run_forM_claim]
  cases l.extensions.forM fun ext => r.ensureFree ext l.name with
  | error e => rfl
  | ok _ =>
    change EStateM.run (_ >>= _) r = _
    rw [EStateM.run_bind, run_forM_insert]
    rfl

theorem run_aliasInPlace (r : Registry) (ext name : Text) :
    (aliasInPlace ext name).run r = r.settle (r.aliasExtension ext name) := by
  rw [aliasInPlace, aliasInPlaceBy, aliasExtension, EStateM.run_bind, EStateM.run_get]
  generalize Language.normalizeExtension ext = ext
  dsimp only
  cases r.byName? name with
  | none => rfl
  | some found =>
    dsimp only
    rw [EStateM.run_bind, run_claim]
    cases r.ensureFree ext found.name with
    | error e => rfl
    | ok _ =>
      dsimp only [Except.map, settle]
      rw [EStateM.run_bind, EStateM.run_get]
      dsimp only
      cases r.languages.find? found.name with
      | none => rfl
      | some l =>
        dsimp only
        by_cases hext : ext ∈ l.extensions
        · rw [if_pos (List.contains_iff_mem.2 hext), if_pos hext]
          rfl
        · rw [if_neg (mt List.contains_iff_mem.1 hext), if_neg hext]
          rfl

/-- In place, a call succeeds with the same registry and fails without a change. -/
theorem run_perform (r : Registry) (call : Call) :
    call.perform.run r = r.settle (call.apply r) := by
  cases call with
  | add l => exact run_addInPlace r l
  | give ext name => exact run_aliasInPlace r ext name

theorem step_eq (r : Registry) (call : Call) :
    r.step call = match call.apply r with
      | .ok r' => r'
      | .error _ => r := by
  rw [step, run_perform]
  cases call.apply r <;> rfl

end Marginalia.Registry
