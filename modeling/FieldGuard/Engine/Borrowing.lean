import FieldGuard.Engine.Plugins

/-!
# `FieldGuard.Engine.Borrowing`: checks and metadata, also of joined properties

A join hands its value to the strategies of the entries it borrows, and takes its
metadata from their transformers. These may be joins again by name, through an
override, but the entries a join borrows are never entries of a join. So a second
join fails before it looks at any target, and borrowing ends after one step:
`checkWith` and `transformWith` are one step with the treatment of borrowed
entries as a parameter, and `check` and `transform` tie the knot at once.
-/

set_option autoImplicit false

namespace FieldGuard

namespace Plugins

/-- A look-up among plug-ins that may fail. -/
abbrev Attempt (α : Type) := ExceptT Fault (StateM Plugins) α

/-! ### Checks -/

/-- Checks a value against borrowed entries; a failing check ends it. -/
def checkBorrowed (checkOne : Strategy → Entry → Value → Attempt (List Complaint)) (value : Value) :
    List Entry → Attempt (List Complaint)
  | [] => pure []
  | e :: rest => do
    let found ←
      match ← liftM (strategyFor e.key) with
      | none => pure []
      | some s => checkOne s e value
    let others ← checkBorrowed checkOne value rest
    pure (found ++ others)

/-- Checks a value by a strategy, given how borrowed entries are checked. -/
def checkWith (checkOne : Strategy → Entry → Value → Attempt (List Complaint))
    (env : Environment) (r : Request) (s : Strategy) (e : Entry) (value : Value) :
    Attempt (List Complaint) :=
  match s.check with
  | .own check => liftExcept (check env r e value)
  | .join => do
    let targets ← liftExcept e.joinTargets
    checkBorrowed checkOne value (targets.flatMap (Extraction.borrowed env r.page))
where
  /-- The result of a computation that looks nothing up. -/
  liftExcept {α : Type} (result : Except Fault α) : Attempt α :=
    ExceptT.mk (pure result)

/-- Checks a value by a strategy for an entry that a join has borrowed. -/
def checkLent (env : Environment) (r : Request) : Strategy → Entry → Value → Attempt (List Complaint) :=
  checkWith (fun _ _ _ => pure []) env r

/-- Checks a value by a strategy. -/
def check (env : Environment) (r : Request) : Strategy → Entry → Value → Attempt (List Complaint) :=
  checkWith (checkLent env r) env r

/-! ### Metadata -/

/-- Merges in the metadata of entries, as far as they have any. -/
def mergeEntries (transformOne : Strategy → Entry → StateM Plugins (Option Metadata)) :
    Metadata → List Entry → StateM Plugins Metadata
  | metadata, [] => pure metadata
  | metadata, e :: rest => do
    let found ←
      match ← strategyFor e.key with
      | none => pure none
      | some s => transformOne s e
    mergeEntries transformOne ((found.map metadata.merge).getD metadata) rest

/-- The metadata of an entry by a transformer, given how borrowed entries are transformed. -/
def convertWith (transformOne : Strategy → Entry → StateM Plugins (Option Metadata))
    (env : Environment) (r : Request) (t : Transformer) (e : Entry) : Attempt Metadata :=
  match t.conversion with
  | .own convert => ExceptT.mk (pure (convert env r e))
  | .join => do
    let targets ← ExceptT.mk (pure e.joinTargets)
    liftM (mergeEntries transformOne ∅ (targets.flatMap (Extraction.borrowed env r.page)))

/-- The metadata of an entry with its strategy; nothing if there is no transformer or it
fails. Borrowed entries are transformed as given. -/
def transformWith (transformOne : Strategy → Entry → StateM Plugins (Option Metadata))
    (env : Environment) (r : Request) (s : Strategy) (e : Entry) :
    StateM Plugins (Option Metadata) := do
  match ← transformerFor s with
  | none => pure none
  | some t =>
    match ← (convertWith transformOne env r t e).run with
    | .ok metadata => pure (some metadata)
    | .error _ => pure none

/-- The metadata of an entry that a join has borrowed. -/
def transformLent (env : Environment) (r : Request) : Strategy → Entry → StateM Plugins (Option Metadata) :=
  transformWith (fun _ _ => pure none) env r

/-- The metadata of an entry with its strategy; nothing if there is no transformer or it fails. -/
def transform (env : Environment) (r : Request) : Strategy → Entry → StateM Plugins (Option Metadata) :=
  transformWith (transformLent env r) env r

/-- The metadata of an entry by a transformer. -/
def convert (env : Environment) (r : Request) : Transformer → Entry → Attempt Metadata :=
  convertWith (transformLent env r) env r

/-- The metadata of all entries of a property, merged. -/
def metadataOf (env : Environment) (r : Request) (info : PropertyInfo) : StateM Plugins Metadata :=
  mergeEntries (transform env r) ∅ info.entries

end Plugins

end FieldGuard
